import Iceslab.Agent.XrayLive
import Iceslab.Agent.XrayRendered

/-!
# A restart of xray left out

What a change of the routing that is handed to the running core leaves as a restart would have it.

* `Event.Sound` — the steps under which it does.
* `LiveInv` — the config on disk, the core and the fallback agree; `inv_step`.
* `live_right` — **in every run of sound steps, a restart is left out only for a change of the
  routing, and the fallback serves the sites of the inbounds served**.
-/

set_option autoImplicit false

namespace Iceslab.Agent.Xray

open Checked (bind_eq_ok pure_eq_ok)

/-! ## Statements -/

/-- Two documents that differ in their routing alone, under one domain strategy. -/
structure SameOutside (d d' : Document) : Prop where
  inbounds : d.inbounds = d'.inbounds
  outbounds : d.outbounds = d'.outbounds
  dns : d.dns = d'.dns
  observatory : d.observatory = d'.observatory
  domainStrategy : d.routing.domainStrategy = d'.routing.domainStrategy

/-- The fallback serves the sites of these inbounds. -/
def State.Serves (s : State) (inbounds : List InboundConfig) : Prop :=
  (s.selfSteal.map SelfStealServer.sites).getD [] = selfStealSites inbounds

/-- What a change that is handed to the running core is: of the routing alone, against the state
the config on disk was rendered from and against what runs, and the core then runs the new document
under the geo files and the fallback of the new state. -/
structure RoutingChange (s s' : State) (doc : Document) : Prop where
  written : ∃ host m d report, s.written = some (host, m) ∧ m.render host = .ok (d, report) ∧
    SameOutside d doc
  core : ∃ p, s.proc = some p ∧ p.up = true ∧ SameOutside p.runs doc ∧ p.geo = s.memory.geo ∧
    s'.proc = some { p with runs := doc }
  api : keepsAPIRule doc.routing = true
  fallback : s'.Serves s.memory.pushed

section Sound

variable (paths : Paths) (ans : Answers) (host : Host) (s : State)

/-- The restart is left out. -/
def TakesLive (doc : Document) : Prop :=
  (∃ report, s.memory.render host = .ok (doc, report)) ∧
    ¬(paths.binary = true ∧ ans.tested = false) ∧
    (applyRoutingLive paths ans host doc s).1 = .applied

/-- What the claim is about: one `regenerateAndRestart`. -/
structure LiveRight : Prop where
  live : ∀ doc, TakesLive paths ans host s doc →
    RoutingChange s (regenerateAndRestart paths ans host s).2 doc
  served : (regenerateAndRestart paths ans host s).1 = .ok () → ans.fallback = true →
    (regenerateAndRestart paths ans host s).2.Serves s.memory.pushed

/-- Other sites than those of the last restart have another key. -/
def KeyTells : Prop :=
  selfStealKey (selfStealSites s.memory.pushed) = selfStealKey (selfStealSites s.restarted) →
    selfStealSites s.memory.pushed = selfStealSites s.restarted

/-- A change of the routing alone leaves the sites of the last restart, and its fallback came up;
other sites have another key; a write that fails leaves the old config; the geo files are those the
last push named. -/
structure SoundRegenerate : Prop where
  sites : ∀ doc report was, s.memory.render host = .ok (doc, report) → s.file = some was →
    routingOnlyChange was doc ≠ none →
    selfStealSites s.memory.pushed = selfStealSites s.restarted ∧ s.bare = false
  keys : KeyTells s
  configOnly : paths.binary = false → selfStealSites s.memory.pushed = []
  write : ans.write ≠ .landed
  geo : s.disk = s.memory.geo

/-- Users change live in whole, and only where the rest of the memory is what the config was
rendered from; the supervisor starts the core only on the geo files it had. -/
def Event.Sound : Event → Prop
  | .regenerate host ans => SoundRegenerate paths ans host s
  | .usersLive host left => left = none ∧ ∃ m, s.written = some (host, m) ∧
      s.memory.inbound = m.inbound ∧ s.memory.inbounds = m.inbounds ∧
      s.memory.cascade = m.cascade ∧ s.memory.policy = m.policy ∧ s.memory.dns = m.dns
  | .supervised => s.disk = s.geoRunning
  | _ => True

end Sound

/-- One adapter, under sound steps. -/
def soundNode (paths : Paths) : Machine State Event where
  start := (xrayNode paths).start
  step s e s' := (xrayNode paths).step s e s' ∧ e.Sound paths s

/-- The config on disk is what some state rendered, the core runs it but for the routing and read
the geo files it is said to, and the fallback serves the sites of the last restart. -/
structure LiveInv (paths : Paths) (s : State) : Prop where
  fallback : s.bare = false → s.Serves s.restarted
  bare : s.bare = true → s.selfSteal = none
  configOnly : paths.binary = false → s.proc = none ∧ s.selfSteal = none
  proc : paths.config = true → ∀ p, s.proc = some p → ∃ host m d report,
    s.written = some (host, m) ∧ m.render host = .ok (d, report) ∧ s.file = some d ∧
      SameOutside d p.runs
  geo : ∀ p, s.proc = some p → p.geo = s.geoRunning

variable {paths : Paths} {ans : Answers} {host : Host} {doc : Document} {s : State}
  {report : PolicyDrawn} {r : Live × State}

/-! ## Documents -/

theorem SameOutside.refl (d : Document) : SameOutside d d := ⟨rfl, rfl, rfl, rfl, rfl⟩

theorem SameOutside.symm {d d' : Document} (h : SameOutside d d') : SameOutside d' d :=
  ⟨h.inbounds.symm, h.outbounds.symm, h.dns.symm, h.observatory.symm, h.domainStrategy.symm⟩

theorem SameOutside.trans {d d' d'' : Document} (h : SameOutside d d') (h' : SameOutside d' d'') :
    SameOutside d d'' :=
  ⟨h.inbounds.trans h'.inbounds, h.outbounds.trans h'.outbounds, h.dns.trans h'.dns,
    h.observatory.trans h'.observatory, h.domainStrategy.trans h'.domainStrategy⟩

theorem of_routingOnlyChange {was next : Document} {routing : Routing}
    (h : routingOnlyChange was next = some routing) :
    routing = next.routing ∧ SameOutside was next := by
  unfold routingOnlyChange at h
  split at h
  · rename_i hsame
    obtain ⟨hin, hout, hdns, hobs, -, hstrategy⟩ := hsame
    exact ⟨(Option.some.inj h).symm, hin, hout, hdns, hobs, hstrategy⟩
  · cases h

/-- A core whose routing is replaced differs from what it ran in nothing else. -/
theorem sameOutside_routed (p : Process) (routing : Routing) :
    SameOutside p.runs (p.routed routing).runs := ⟨rfl, rfl, rfl, rfl, rfl⟩

/-- **The core with the new routing runs the new document.** -/
theorem routed_eq {p : Process} (h : SameOutside p.runs doc) :
    p.routed doc.routing = { p with runs := doc } := by
  obtain ⟨hin, hout, hdns, hobs, hstrategy⟩ := h
  unfold Process.routed
  rw [hstrategy]
  obtain ⟨up, ⟨inbounds, outbounds, routing, dns, observatory⟩, geo⟩ := p
  obtain ⟨inbounds', outbounds', routing', dns', observatory'⟩ := doc
  cases hin
  cases hout
  cases hdns
  cases hobs
  rfl

/-! ## The routing live -/

/-- What `applyRoutingLive` does. -/
inductive LiveCase (paths : Paths) (host : Host) (doc : Document) (s : State) :
    Live × State → Prop
  | untouched {o : Live} (ho : o ≠ .applied) : LiveCase paths host doc s (o, s)
  /-- the routing in the core is another, the config on disk is not -/
  | broken {p : Process} (hp : s.proc = some p) (left : Routing) :
      LiveCase paths host doc s (.restart, { s with proc := some (p.routed left) })
  | written {o : Live} {p : Process} {was : Document} (ho : o ≠ .refused) (hp : s.proc = some p)
      (hup : p.up = true) (hgeo : s.memory.geo = s.geoRunning) (hconfig : paths.config = true)
      (hfile : s.file = some was) (hroute : routingOnlyChange was doc = some doc.routing)
      (hapi : keepsAPIRule doc.routing = true) :
      LiveCase paths host doc s (o, { s with
        proc := some (p.routed doc.routing), file := some doc, written := some (host, s.memory) })

theorem liveCase (paths : Paths) (ans : Answers) (host : Host) (doc : Document) (s : State) :
    LiveCase paths host doc s (applyRoutingLive paths ans host doc s) := by
  unfold applyRoutingLive
  split
  · exact .untouched (by decide)
  rename_i p hp
  split
  · exact .untouched (by decide)
  rename_i hready
  split
  · exact .untouched (by decide)
  rename_i routing hrouting
  obtain ⟨was, hwas, hroute⟩ := Option.bind_eq_some_iff.mp hrouting
  have hfile : s.file = some was := by
    split at hwas
    · exact hwas
    · cases hwas
  obtain ⟨rfl, -⟩ := of_routingOnlyChange hroute
  split
  · exact .untouched (by decide)
  rename_i hapi
  split
  · exact .untouched (by decide)
  split
  · exact .broken hp _
  dsimp only
  split
  · simp only [Bool.or_eq_true, Bool.not_eq_true', decide_eq_true_eq, not_or, Bool.not_eq_false,
      ne_eq, not_not] at hready
    obtain ⟨⟨⟨hconfig, -⟩, hup⟩, hgeo⟩ := hready
    refine .written ?_ hp hup hgeo hconfig hfile hroute (by simpa using hapi)
    split <;> decide
  · exact .broken hp _

theorem inv_live (h : LiveInv paths s) (hc : LiveCase paths host doc s r)
    (hdoc : s.memory.render host = .ok (doc, report)) : LiveInv paths r.2 := by
  cases hc with
  | untouched => exact h
  | broken hp left =>
    refine ⟨h.fallback, h.bare, fun hb => absurd ((h.configOnly hb).1.symm.trans hp) nofun,
      fun hconfig p' hp' => ?_, fun p' hp' => ?_⟩
    · obtain rfl := Option.some.inj hp'
      obtain ⟨host₀, m, d, report₀, hwritten, hrender, hfile, hsame⟩ := h.proc hconfig _ hp
      exact ⟨host₀, m, d, report₀, hwritten, hrender, hfile, hsame.trans (sameOutside_routed _ _)⟩
    · obtain rfl := Option.some.inj hp'
      have hread := h.geo _ hp
      exact hread
  | written ho hp hup hgeo hconfig hfile hroute hapi =>
    refine ⟨h.fallback, h.bare, fun hb => absurd ((h.configOnly hb).1.symm.trans hp) nofun,
      fun _ p' hp' => ?_, fun p' hp' => ?_⟩
    · obtain rfl := Option.some.inj hp'
      obtain ⟨-, -, d, -, -, -, hfile', hsame⟩ := h.proc hconfig _ hp
      obtain rfl := Option.some.inj (hfile.symm.trans hfile')
      have hnew := hsame.symm.trans (of_routingOnlyChange hroute).2
      refine ⟨host, s.memory, doc, report, rfl, hdoc, rfl, ?_⟩
      rw [routed_eq hnew]
      exact .refl doc
    · obtain rfl := Option.some.inj hp'
      have hread := h.geo _ hp
      exact hread

/-- Neither the memory nor the fallback is touched. -/
structure Kept (s s' : State) : Prop where
  memory : s'.memory = s.memory
  selfSteal : s'.selfSteal = s.selfSteal
  restarted : s'.restarted = s.restarted
  bare : s'.bare = s.bare
  disk : s'.disk = s.disk

theorem kept_live (hc : LiveCase paths host doc s r) : Kept s r.2 := by
  cases hc <;> exact ⟨rfl, rfl, rfl, rfl, rfl⟩

/-! ## The fallback -/

section Fallback

variable {starts : Bool} {inbounds : List InboundConfig} {cur : Option SelfStealServer}

/-- What runs of the fallback serves the sites of the inbounds, unless a key is that of others. -/
theorem sites_reconcile
    (hkeys : ∀ server, cur = some server → server.key = selfStealKey (selfStealSites inbounds) →
      server.sites = selfStealSites inbounds) {server : SelfStealServer}
    (h : reconcileSelfSteal starts inbounds cur = some server) :
    server.sites = selfStealSites inbounds := by
  unfold reconcileSelfSteal at h
  dsimp only at h
  have hfresh : (if selfStealSites inbounds ≠ [] ∧ starts = true
      then some (⟨selfStealSites inbounds⟩ : SelfStealServer) else none) = some server →
      server.sites = selfStealSites inbounds := by
    intro hstart
    split at hstart
    · rw [← Option.some.inj hstart]
    · cases hstart
  split at h
  · split at h
    · cases h
    · exact hfresh h
  · split at h
    · rename_i hsame
      obtain rfl := Option.some.inj h
      exact hkeys _ rfl hsame.2
    · exact hfresh h

/-- A fallback that is wanted and starts runs. -/
theorem reconcile_ne_none (hwant : selfStealSites inbounds ≠ []) (hstarts : starts = true) :
    reconcileSelfSteal starts inbounds cur ≠ none := by
  unfold reconcileSelfSteal
  dsimp only
  have hfresh : (if selfStealSites inbounds ≠ [] ∧ starts = true
      then some (⟨selfStealSites inbounds⟩ : SelfStealServer) else none) ≠ none := by
    rw [if_pos ⟨hwant, hstarts⟩]
    exact Option.some_ne_none _
  split
  · rw [if_neg hwant]
    exact hfresh
  · split
    · exact Option.some_ne_none _
    · exact hfresh

end Fallback

/-! ## A restart -/

/-- The config on disk once it is written. -/
def State.wrote (paths : Paths) (host : Host) (doc : Document) (s : State) : State :=
  { s with
    file := if paths.config then some doc else s.file
    written := if paths.config then some (host, s.memory) else s.written }

theorem wrote_of_config (h : paths.config = true) :
    s.wrote paths host doc = { s with file := some doc, written := some (host, s.memory) } := by
  simp only [State.wrote, h, if_true]

/-- What `restart` does where a write that fails leaves the old config. -/
inductive RestartCase (paths : Paths) (ans : Answers) (host : Host) (doc : Document) (s : State) :
    Except Failure Unit × State → Prop
  /-- the config could not be written -/
  | stale : RestartCase paths ans host doc s (.error .failed, s)
  /-- there is no core to start -/
  | configOnly (hbinary : paths.binary = false) : RestartCase paths ans host doc s
      (.ok (), { s.wrote paths host doc with geoRunning := s.memory.geo })
  /-- there is nothing to serve -/
  | idle (hpushed : s.memory.pushed = []) : RestartCase paths ans host doc s
      (.ok (), { s.wrote paths host doc with
        proc := none, selfSteal := none, restarted := s.memory.pushed, bare := false })
  | started (hbinary : paths.binary = true) : RestartCase paths ans host doc s
      (.ok (), { s.wrote paths host doc with
        selfSteal := reconcileSelfSteal ans.fallback s.memory.pushed s.selfSteal
        restarted := s.memory.pushed
        bare := decide (selfStealSites s.memory.pushed ≠ [] ∧
          reconcileSelfSteal ans.fallback s.memory.pushed s.selfSteal = none)
        proc := some ⟨true, doc, s.disk⟩
        geoRunning := s.memory.geo })
  | dead (hbinary : paths.binary = true) : RestartCase paths ans host doc s
      (.error .failed, { s.wrote paths host doc with
        selfSteal := reconcileSelfSteal ans.fallback s.memory.pushed s.selfSteal
        restarted := s.memory.pushed
        bare := decide (selfStealSites s.memory.pushed ≠ [] ∧
          reconcileSelfSteal ans.fallback s.memory.pushed s.selfSteal = none)
        proc := none })

theorem restartCase (hwrite : ans.write ≠ .landed) :
    RestartCase paths ans host doc s (restart paths ans host doc s) := by
  by_cases hstale : paths.config = true ∧ ans.write ≠ .done
  · have hfailed : ans.write = .failed := by
      cases hw : ans.write
      · exact absurd hw hstale.2
      · rfl
      · exact absurd hw hwrite
    have hrestart : restart paths ans host doc s = (.error .failed, s) := by
      simp [restart, hstale.1, hfailed, Outcome.lands]
    rw [hrestart]
    exact .stale
  have hwrote : (if paths.config && ans.write.lands
      then { s with file := some doc, written := some (host, s.memory) } else s) =
      s.wrote paths host doc := by
    unfold State.wrote
    by_cases hconfig : paths.config = true
    · have hdone : ans.write = .done := not_not.mp fun h => hstale ⟨hconfig, h⟩
      rw [hconfig, hdone]
      rfl
    · rw [if_neg (by simp [hconfig]), if_neg hconfig, if_neg hconfig]
  unfold restart
  dsimp only
  rw [if_neg hstale, hwrote]
  split
  · exact .configOnly (by assumption)
  rename_i hbinary
  split
  · rename_i hidle
    exact .idle hidle.1
  split
  · exact .started (by simpa using hbinary)
  · exact .dead (by simpa using hbinary)

/-- What a fallback brought in line serves. -/
theorem serves_reconcile (h : LiveInv paths s) (hkeys : KeyTells s)
    {starts : Bool} (hruns : selfStealSites s.memory.pushed = [] ∨
      reconcileSelfSteal starts s.memory.pushed s.selfSteal ≠ none) :
    ((reconcileSelfSteal starts s.memory.pushed s.selfSteal).map SelfStealServer.sites).getD [] =
      selfStealSites s.memory.pushed := by
  cases hserver : reconcileSelfSteal starts s.memory.pushed s.selfSteal with
  | none =>
    rcases hruns with hnil | hruns
    · exact hnil.symm
    · exact absurd hserver hruns
  | some server =>
    refine sites_reconcile (fun cur hcur hkey => ?_) hserver
    have hup : s.bare = false := by
      cases hbare : s.bare
      · rfl
      · cases hcur.symm.trans (h.bare hbare)
    have hserves := h.fallback hup
    unfold State.Serves at hserves
    rw [hcur] at hserves
    -- the key is that of the sites of the last restart
    have hold : cur.sites = selfStealSites s.restarted := hserves
    rw [SelfStealServer.key, hold] at hkey
    rw [hold, hkeys hkey.symm]

theorem inv_restart {r : Except Failure Unit × State} (h : LiveInv paths s)
    (hc : RestartCase paths ans host doc s r) (hkeys : KeyTells s) (hgeo : s.disk = s.memory.geo)
    (hdoc : s.memory.render host = .ok (doc, report)) : LiveInv paths r.2 := by
  have hcame : ∀ {starts : Bool}, decide (selfStealSites s.memory.pushed ≠ [] ∧
      reconcileSelfSteal starts s.memory.pushed s.selfSteal = none) = false →
      ((reconcileSelfSteal starts s.memory.pushed s.selfSteal).map SelfStealServer.sites).getD [] =
        selfStealSites s.memory.pushed := by
    intro starts hcame
    refine serves_reconcile h hkeys ?_
    have := of_decide_eq_false hcame
    tauto
  cases hc with
  | stale => exact h
  | configOnly hbinary =>
    have hnone := h.configOnly hbinary
    exact ⟨h.fallback, h.bare, h.configOnly, fun _ p hp => absurd (hp.symm.trans hnone.1) nofun,
      fun p hp => absurd (hp.symm.trans hnone.1) nofun⟩
  | idle hpushed =>
    refine ⟨fun _ => ?_, nofun, fun _ => ⟨rfl, rfl⟩, nofun, nofun⟩
    show [] = selfStealSites s.memory.pushed
    rw [hpushed]
    rfl
  | started hbinary =>
    refine ⟨hcame, fun hb => (of_decide_eq_true hb).2, fun hb => absurd hbinary (by simp [hb]),
      fun hconfig p hp => ?_, fun p hp => ?_⟩
    · obtain rfl := Option.some.inj hp
      refine ⟨host, s.memory, doc, report, ?_, hdoc, ?_, .refl doc⟩
      · simp only [wrote_of_config hconfig]
      · simp only [wrote_of_config hconfig]
    · obtain rfl := Option.some.inj hp
      exact hgeo
  | dead hbinary =>
    exact ⟨hcame, fun hb => (of_decide_eq_true hb).2, fun hb => absurd hbinary (by simp [hb]),
      nofun, nofun⟩

/-- **A restart that is done serves the fallback of its inbounds, where one comes up.** -/
theorem serves_restart {r : Except Failure Unit × State} (h : LiveInv paths s)
    (hc : RestartCase paths ans host doc s r) (hkeys : KeyTells s)
    (hnone : paths.binary = false → selfStealSites s.memory.pushed = [])
    (hok : r.1 = .ok ()) (hstarts : ans.fallback = true) : r.2.Serves s.memory.pushed := by
  cases hc with
  | stale => cases hok
  | configOnly hbinary =>
    show (s.selfSteal.map SelfStealServer.sites).getD [] = _
    rw [(h.configOnly hbinary).2, hnone hbinary]
    rfl
  | idle hpushed =>
    show [] = selfStealSites s.memory.pushed
    rw [hpushed]
    rfl
  | started hbinary =>
    refine serves_reconcile h hkeys ?_
    by_cases hnil : selfStealSites s.memory.pushed = []
    · exact .inl hnil
    · exact .inr (reconcile_ne_none hnil hstarts)
  | dead => cases hok

/-! ## The users alone -/

/-- The users are written in the inbounds of a document and nowhere else. -/
theorem sameOutside_users {inbounds : List InboundConfig} {users users' : List Client}
    {cascade : Option CascadeFragments} {apiPort : Int} {policy : List NodePolicyRule}
    {dns : Option DnsCfg} {d d' : Document} {report report' : PolicyDrawn}
    (h : renderMultiConfigInto host inbounds users cascade apiPort policy dns = .ok (d, report))
    (h' : renderMultiConfigInto host inbounds users' cascade apiPort policy dns =
      .ok (d', report')) : SameOutside { d with inbounds := d'.inbounds } d' := by
  unfold renderMultiConfigInto at h h'
  dsimp only at h h'
  obtain ⟨seen, -, h⟩ := bind_eq_ok.mp h
  obtain ⟨rules, hrules, h⟩ := bind_eq_ok.mp h
  obtain ⟨seen', -, h'⟩ := bind_eq_ok.mp h'
  obtain ⟨rules', hrules', h'⟩ := bind_eq_ok.mp h'
  cases pure_eq_ok.mp h
  cases pure_eq_ok.mp h'
  exact ⟨rfl, rfl, rfl, rfl, rfl⟩

/-- A node that is not dormant is rendered with the inbounds users are added to, and the port of
the first of them. -/
theorem render_served {m : Memory} (hlive : m.dormant = false) {first : InboundConfig}
    {rest : List InboundConfig} (hserved : m.served = first :: rest) :
    m.render host = renderMultiConfigInto host m.served m.users m.cascade
      first.withDefaults.apiPort m.policy m.dns := by
  have hpushed : m.pushed = m.served := by
    unfold Memory.pushed Memory.served
    by_cases hnil : m.inbounds = []
    · have hkey : m.inbound.realityPrivateKey ≠ "" := fun hkey =>
        absurd (of_decide_eq_false hlive) (not_not.mpr ⟨hnil, hkey⟩)
      rw [if_pos ⟨hnil, hkey⟩, if_pos hnil]
    · rw [if_neg fun h => hnil h.1, if_neg hnil]
  have hport : first.apiPort = m.inbound.apiPort := by
    unfold Memory.served at hserved
    split at hserved
    · rw [(List.cons.inj hserved).1]
    · exact m.apiPort_eq _ (hserved ▸ List.mem_cons_self)
  unfold Memory.render
  rw [hpushed]
  unfold InboundConfig.withDefaults
  rw [hport]

theorem inv_usersLive {left : Option (List Inbound)} (h : LiveInv paths s)
    (hs : (Event.usersLive host left).Sound paths s) :
    LiveInv paths (liveUpdateUser paths host left s) := by
  obtain ⟨rfl, m, hwritten, hinbound, hinbounds, hcascade, hpolicy, hdns⟩ := hs
  unfold liveUpdateUser
  split
  · exact h
  rename_i hlive
  split
  swap
  · exact h
  rename_i p first rest hp hserved
  split
  · exact h
  rename_i doc report hdoc
  split
  swap
  · exact h
  rw [← render_served (by simpa using hlive) hserved] at hdoc
  refine ⟨h.fallback, h.bare, fun hb => absurd ((h.configOnly hb).1.symm.trans hp) nofun,
    fun hconfig p' hp' => ?_, fun p' hp' => ?_⟩
  · obtain rfl := Option.some.inj hp'
    obtain ⟨host₀, m₀, d, report₀, hwritten₀, hrender, -, hsame⟩ := h.proc hconfig _ hp
    cases Option.some.inj (hwritten.symm.trans hwritten₀)
    refine ⟨host, s.memory, doc, report, if_pos hconfig, hdoc, if_pos hconfig, ?_⟩
    have hdoc' := hdoc
    unfold Memory.render Memory.pushed at hdoc' hrender
    rw [hinbound, hinbounds, hcascade, hpolicy, hdns] at hdoc'
    have husers := sameOutside_users hrender hdoc'
    exact ⟨rfl, husers.outbounds.symm.trans hsame.outbounds, husers.dns.symm.trans hsame.dns,
      husers.observatory.symm.trans hsame.observatory,
      husers.domainStrategy.symm.trans hsame.domainStrategy⟩
  · obtain rfl := Option.some.inj hp'
    have hread := h.geo _ hp
    exact hread

/-! ## Runs -/

section Regenerate

variable (h : LiveInv paths s) (hs : SoundRegenerate paths ans host s)

include hs in
/-- The restart that follows a routing that could not be handed over. -/
theorem restarts_after (hc : LiveCase paths host doc s r) :
    RestartCase paths ans host doc r.2 (restart paths ans host doc r.2) ∧
    KeyTells r.2 ∧ r.2.disk = r.2.memory.geo := by
  obtain ⟨hmemory, -, hrestarted, -, hdisk⟩ := kept_live hc
  unfold KeyTells
  rw [hmemory, hrestarted, hdisk]
  exact ⟨restartCase hs.write, hs.keys, hs.geo⟩

include h hs in
theorem inv_regenerate : LiveInv paths (regenerateAndRestart paths ans host s).2 := by
  unfold regenerateAndRestart
  split
  · exact h
  rename_i doc report hdoc
  split
  · exact h
  have happly : LiveInv paths (apply paths ans host doc s).2 := by
    have hc := liveCase paths ans host doc s
    have hlive := inv_live h hc hdoc
    obtain ⟨hrestart, hkeys, hgeo⟩ := restarts_after hs hc
    have hkept := (kept_live hc).memory
    unfold apply
    generalize applyRoutingLive paths ans host doc s = r at *
    obtain ⟨o, s'⟩ := r
    cases o with
    | applied => exact hlive
    | refused => exact hlive
    | restart => exact inv_restart hlive hrestart hkeys hgeo (hkept ▸ hdoc)
  split <;> rename_i heq <;> rw [heq] at happly
  · exact ⟨happly.fallback, happly.bare, happly.configOnly, happly.proc, happly.geo⟩
  · exact happly

end Regenerate

theorem inv_step (h : LiveInv paths s) {e : Event} (hs : e.Sound paths s) :
    LiveInv paths (after paths s e) := by
  cases e with
  | change memory => exact ⟨h.fallback, h.bare, h.configOnly, h.proc, h.geo⟩
  | regenerate host ans => exact inv_regenerate h hs
  | usersLive host left => exact inv_usersLive h hs
  | supervised =>
    refine ⟨h.fallback, h.bare, fun hb => ?_, fun hconfig p hp => ?_, fun p hp => ?_⟩
    · exact ⟨by simp [after, (h.configOnly hb).1], (h.configOnly hb).2⟩
    · obtain ⟨p₀, hp₀, rfl⟩ := Option.map_eq_some_iff.mp hp
      obtain ⟨host, m, d, report, hwritten, hrender, hfile, -⟩ := h.proc hconfig _ hp₀
      refine ⟨host, m, d, report, hwritten, hrender, hfile, ?_⟩
      rw [hfile]
      exact .refl d
    · obtain ⟨p₀, hp₀, rfl⟩ := Option.map_eq_some_iff.mp hp
      exact hs
  | down =>
    refine ⟨h.fallback, h.bare, fun hb => ?_, fun hconfig p hp => ?_, fun p hp => ?_⟩
    · exact ⟨by simp [after, (h.configOnly hb).1], (h.configOnly hb).2⟩
    · obtain ⟨p₀, hp₀, rfl⟩ := Option.map_eq_some_iff.mp hp
      have hproc := h.proc hconfig _ hp₀
      exact hproc
    · obtain ⟨p₀, hp₀, rfl⟩ := Option.map_eq_some_iff.mp hp
      have hread := h.geo _ hp₀
      exact hread
  | laid disk => exact ⟨h.fallback, h.bare, h.configOnly, h.proc, h.geo⟩
  | stop => exact ⟨fun _ => rfl, nofun, fun _ => ⟨rfl, rfl⟩, nofun, nofun⟩

theorem inv_reachable (h : (soundNode paths).Reachable s) : LiveInv paths s := by
  refine h.invariant ?_ ?_
  · rintro s ⟨memory, file, disk, rfl⟩
    exact ⟨fun _ => rfl, nofun, fun _ => ⟨rfl, rfl⟩, nofun, nofun⟩
  · rintro s e s' - h ⟨rfl, hs⟩
    exact inv_step h hs

theorem routingChange (h : LiveInv paths s) (hs : SoundRegenerate paths ans host s)
    (hdoc : s.memory.render host = .ok (doc, report))
    {s' : State} (hlive : applyRoutingLive paths ans host doc s = (.applied, s')) :
    RoutingChange s { s' with policyDrawn := some report } doc := by
  have hc := liveCase paths ans host doc s
  rw [hlive] at hc
  cases hc with
  | untouched ho => exact absurd rfl ho
  | @written _ p was ho hp hup hgeo hconfig hfile hroute hapi =>
    obtain ⟨host₀, m, d, report₀, hwritten, hrender, hfile', hsame⟩ := h.proc hconfig _ hp
    obtain rfl := Option.some.inj (hfile.symm.trans hfile')
    have hnew := (of_routingOnlyChange hroute).2
    have hruns := hsame.symm.trans hnew
    obtain ⟨hsites, hbare⟩ := hs.sites doc report was hdoc hfile (by rw [hroute]; nofun)
    refine ⟨⟨host₀, m, was, report₀, hwritten, hrender, hnew⟩, ⟨p, hp, hup, hruns, ?_, ?_⟩, hapi,
      ?_⟩
    · exact (h.geo _ hp).trans hgeo.symm
    · show some (p.routed doc.routing) = _
      rw [routed_eq hruns]
    · exact (h.fallback hbare).trans hsites.symm

/-- **In every run of sound steps, `regenerateAndRestart` leaves a restart out only for a change of
the routing, and what it is done with is served by the fallback of its inbounds.** -/
theorem live_right (h : (soundNode paths).Reachable s) (hs : SoundRegenerate paths ans host s) :
    LiveRight paths ans host s := by
  have hinv := inv_reachable h
  refine ⟨fun doc ⟨⟨report, hdoc⟩, htested, hlive⟩ => ?_, fun hok hstarts => ?_⟩
  · obtain ⟨s', hs'⟩ : ∃ s', applyRoutingLive paths ans host doc s = (.applied, s') :=
      ⟨_, Prod.ext hlive rfl⟩
    have hdone : regenerateAndRestart paths ans host s =
        (.ok (), { s' with policyDrawn := some report }) := by
      unfold regenerateAndRestart apply
      rw [hdoc]
      dsimp only
      rw [if_neg htested, hs']
    rw [hdone]
    exact routingChange hinv hs hdoc hs'
  · unfold regenerateAndRestart at hok ⊢
    split
    · rename_i hrender
      rw [hrender] at hok
      cases hok
    rename_i doc report hdoc
    rw [hdoc] at hok
    dsimp only at hok ⊢
    split
    · rename_i htested
      rw [if_pos htested] at hok
      cases hok
    rename_i htested
    rw [if_neg htested] at hok
    have hc := liveCase paths ans host doc s
    have hlive := inv_live hinv hc hdoc
    obtain ⟨hrestart, hkeys, -⟩ := restarts_after hs hc
    have hkept := (kept_live hc).memory
    cases hr : applyRoutingLive paths ans host doc s with
    | mk o s' =>
      rw [hr] at hlive hrestart hkeys hkept
      unfold apply at hok ⊢
      rw [hr] at hok ⊢
      cases o with
      | applied => exact (routingChange hinv hs hdoc hr).fallback
      | refused => cases hok
      | restart =>
        dsimp only at hok hkept hlive hrestart hkeys ⊢
        have hserves := serves_restart hlive hrestart hkeys (by rw [hkept]; exact hs.configOnly)
        rw [hkept] at hserves
        generalize restart paths ans host doc s' = r at *
        obtain ⟨e, s''⟩ := r
        cases e with
        | error e => cases hok
        | ok u => exact hserves rfl hstarts

/-! ### A policy rule, alone and with another upstream -/

/-- A node with one inbound that serves its own page. -/
def selfStealing (upstream : String) (policy : List NodePolicyRule) : Memory where
  users := [alice]
  inbound := plainInbound "" "vless" 0
  inbounds := [{ plainInbound "a" "vless" 443 with
    security := "reality"
    realityPrivateKey := "key"
    realityServerNames := ["shop.example"]
    realityShortIDs := ["ab"]
    realityMode := selfStealModeValue
    realityFallbackUpstream := upstream }]
  cascade := none
  policy := policy
  dns := none
  geo := ""
  apiPort_eq := by
    intro ib hib
    rw [List.mem_singleton.mp hib]
    rfl

/-- Everything works. -/
def allDone : Answers := ⟨true, true, true, none, .done, .done, true, true⟩

/-- The node started, and then told of another memory. -/
def told (memory : Memory) : State :=
  after ⟨true, true⟩ (after ⟨true, true⟩ (fresh (selfStealing "http://127.0.0.1:8080" []) none "")
    (.regenerate exampleHost allDone)) (.change memory)

def blockOne : List NodePolicyRule := [ruleTo "block" "" none]

theorem live_right_policyRule :
    (∃ doc, TakesLive ⟨true, true⟩ allDone exampleHost
      (told (selfStealing "http://127.0.0.1:8080" blockOne)) doc) ∧
    LiveRight ⟨true, true⟩ allDone exampleHost
      (told (selfStealing "http://127.0.0.1:8080" blockOne)) := by
  constructor
  · obtain ⟨doc, report, hok, happlied⟩ : ∃ doc report,
        (selfStealing "http://127.0.0.1:8080" blockOne).render exampleHost = .ok (doc, report) ∧
          (applyRoutingLive ⟨true, true⟩ allDone exampleHost doc
            (told (selfStealing "http://127.0.0.1:8080" blockOne))).1 = .applied :=
      Checked.exists_ok_of_decide (by decide)
    exact ⟨doc, ⟨report, hok⟩, by decide, happlied⟩
  · have hfresh : (soundNode ⟨true, true⟩).Reachable
        (fresh (selfStealing "http://127.0.0.1:8080" []) none "") := .start ⟨_, _, _, rfl⟩
    have hfirst : SoundRegenerate ⟨true, true⟩ allDone exampleHost
        (fresh (selfStealing "http://127.0.0.1:8080" []) none "") :=
      ⟨nofun, fun hkey => absurd hkey (by decide), nofun, nofun, rfl⟩
    refine live_right (.step (.step hfresh (e := .regenerate exampleHost allDone) ⟨rfl, hfirst⟩)
      (e := .change _) ⟨rfl, trivial⟩) ⟨fun _ _ _ _ _ _ => ?_, fun _ => ?_, nofun, nofun, ?_⟩
    · exact ⟨by decide, by decide⟩
    · decide
    · decide

/-- A policy rule and another upstream at once: the node reports success, and the old page stays. -/
theorem old_upstream_stays :
    ∃ s, (xrayNode ⟨true, true⟩).Reachable s ∧
      (regenerateAndRestart ⟨true, true⟩ allDone exampleHost s).1 = .ok () ∧
      allDone.fallback = true ∧
      selfStealSites s.memory.pushed = [⟨["shop.example"], "http://127.0.0.1:9090"⟩] ∧
      (regenerateAndRestart ⟨true, true⟩ allDone exampleHost s).2.selfSteal =
        some ⟨[⟨["shop.example"], "http://127.0.0.1:8080"⟩]⟩ ∧
      ¬ LiveRight ⟨true, true⟩ allDone exampleHost s := by
  have hreach : (xrayNode ⟨true, true⟩).Reachable
      (told (selfStealing "http://127.0.0.1:9090" blockOne)) :=
    .step (.step (.start ⟨_, _, _, rfl⟩) (e := .regenerate exampleHost allDone) rfl)
      (e := .change _) rfl
  obtain ⟨⟨⟩, hok⟩ : ∃ u, (regenerateAndRestart ⟨true, true⟩ allDone exampleHost
      (told (selfStealing "http://127.0.0.1:9090" blockOne))).1 = .ok u :=
    Checked.exists_ok_of_isSome (by decide)
  refine ⟨_, hreach, hok, rfl, by decide, by decide, fun h => ?_⟩
  have hserves := h.served hok rfl
  unfold State.Serves at hserves
  revert hserves
  decide

end Iceslab.Agent.Xray
