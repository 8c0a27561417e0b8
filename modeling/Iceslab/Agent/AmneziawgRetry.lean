import Iceslab.Agent.AmneziawgReplay
import Iceslab.Lib.Pushed

/-!
# A push to the AmneziaWG adapter, pushed again

Calls of `ApplyInbound` and `ApplyCascade` on a system that may behave differently in every call,
with every command and its answer written down.

* `logged` — the log, and `lastUp` what it says of an interface.
* `Serves`, `InboundFits` — what a system and an inbound have to do.
* `honest` — a push is in force once accepted, where both do.
-/

set_option autoImplicit false

namespace Iceslab.Agent.Amneziawg.Retry

/-! ## The log -/

abbrev Log := List (Cmd × Bool)

/-- An interface a logged command brought up: the file it was brought up from, and the answer. -/
def upOf (name : String) (x : Cmd × Bool) : Option (Option Conf × Bool) :=
  x.1.bringsUp.bind fun b => if b.1 = name then some (b.2, x.2) else none

/-- The last command that was to bring an interface up. -/
def lastUp (log : Log) (name : String) : Option (Option Conf × Bool) :=
  (log.filterMap (upOf name)).getLast?

/-- Nothing in the log is about an interface. -/
def Silent (name : String) (log : Log) : Prop :=
  ∀ x ∈ log, ∀ b, x.1.bringsUp = some b → b.1 ≠ name

section Logging

variable {κ : Type}

/-- The system, with every command and its answer written down. -/
def logged (env : Env κ) : Env (κ × Log) where
  run k c := (((env.run k.1 c).1, k.2 ++ [(c, (env.run k.1 c).2.ok)]), (env.run k.1 c).2)
  interfaceExists k := env.interfaceExists k.1
  writeConf k g := (((env.writeConf k.1 g).1, k.2), (env.writeConf k.1 g).2)
  writeState k g := (((env.writeState k.1 g).1, k.2), (env.writeState k.1 g).2)

theorem upOf_eq_none {name : String} {x : Cmd × Bool}
    (h : ∀ b, x.1.bringsUp = some b → b.1 ≠ name) : upOf name x = none := by
  unfold upOf
  cases hb : x.1.bringsUp with
  | none => rfl
  | some b => simp [h b hb]

theorem lastUp_append {log new : Log} {name : String} (h : Silent name new) :
    lastUp (log ++ new) name = lastUp log name := by
  have hnone : new.filterMap (upOf name) = [] := by
    rw [List.filterMap_eq_nil_iff]
    intro x hx
    exact upOf_eq_none (h x hx)
  simp [lastUp, List.filterMap_append, hnone]

theorem lastUp_up (log : Log) (name : String) (file : Option Conf) (ok : Bool) :
    lastUp (log ++ [(.up name file, ok)]) name = some (file, ok) := by
  simp [lastUp, List.filterMap_append, upOf, Cmd.bringsUp]

/-- Commands about one interface only are added to the log. -/
def LogsOnly (name : String) (s r : Session (κ × Log)) : Prop :=
  ∃ new, r.kernel.2 = s.kernel.2 ++ new ∧ ∀ n, n ≠ name → Silent n new

/-- Nothing about the interface changes, and nothing is brought up. -/
structure Quiet (s r : Session (κ × Log)) : Prop where
  iface : r.iface = s.iface
  log : ∃ new, r.kernel.2 = s.kernel.2 ++ new ∧ ∀ n, Silent n new

variable {s r t : Session (κ × Log)} {name : String}

theorem LogsOnly.of_eq (h : r.kernel.2 = s.kernel.2) : LogsOnly name s r :=
  ⟨[], by simp [h], by simp [Silent]⟩

theorem LogsOnly.trans (h : LogsOnly name s r) (h' : LogsOnly name r t) : LogsOnly name s t := by
  obtain ⟨new, hnew, hs⟩ := h
  obtain ⟨new', hnew', hs'⟩ := h'
  refine ⟨new ++ new', by simp [hnew, hnew'], fun n hn x hx => ?_⟩
  rcases List.mem_append.mp hx with hx | hx
  · exact hs n hn x hx
  · exact hs' n hn x hx

theorem LogsOnly.lastUp (h : LogsOnly name s r) {n : String} (hn : n ≠ name) :
    lastUp r.kernel.2 n = lastUp s.kernel.2 n := by
  obtain ⟨new, hnew, hs⟩ := h
  rw [hnew]
  exact lastUp_append (hs n hn)

theorem Quiet.logsOnly (h : Quiet s r) (name : String) : LogsOnly name s r := by
  obtain ⟨new, hnew, hs⟩ := h.log
  exact ⟨new, hnew, fun n _ => hs n⟩

theorem Quiet.lastUp (h : Quiet s r) (n : String) : lastUp r.kernel.2 n = lastUp s.kernel.2 n := by
  obtain ⟨new, hnew, hs⟩ := h.log
  rw [hnew]
  exact lastUp_append (hs n)

theorem quiet_command (env : Env κ) (s : Session (κ × Log)) (c : Cmd) (hc : c.bringsUp = none) :
    Quiet s (s.command (logged env) c) := by
  refine ⟨rfl, [(c, (env.run s.kernel.1 c).2.ok)], rfl, fun n x hx b hb => ?_⟩
  rw [List.mem_singleton.mp hx, hc] at hb
  cases hb

theorem Quiet.refl (s : Session (κ × Log)) : Quiet s s := ⟨rfl, [], by simp, by simp [Silent]⟩

theorem Quiet.trans (h : Quiet s r) (h' : Quiet r t) : Quiet s t := by
  obtain ⟨new, hnew, hs⟩ := h.log
  obtain ⟨new', hnew', hs'⟩ := h'.log
  refine ⟨h'.iface.trans h.iface, new ++ new', by simp [hnew, hnew'], fun n x hx => ?_⟩
  rcases List.mem_append.mp hx with hx | hx
  · exact hs n x hx
  · exact hs' n x hx

theorem quiet_harmless (env : Env κ) : Harmless (logged env) Quiet :=
  ⟨Quiet.refl, Quiet.trans, quiet_command env⟩

end Logging

/-! ## A config into force -/

/-- The kernel after some deletes of a hook line. -/
def deletes {κ : Type} (env : Env κ) (name : String) (rule : ChainRule) : Nat → κ → κ
  | 0, k => k
  | m + 1, k => deletes env name rule m (env.run k (.del name rule)).1

/-- A config file is written, an interface comes up, and no hook line can be deleted for ever. -/
structure Serves {κ : Type} (env : Env κ) : Prop where
  conf : ∀ k g, (env.writeConf k g).2 = .done
  up : ∀ k name file, (env.run k (.up name file)).2.ok = true
  sweep : ∀ k name rule, ∃ m < sweepMaxRepeats,
    (env.run (deletes env name rule m k) (.del name rule)).2.ok = false

/-- The file is the render of what is held, and the interface last came up from that file, other
hooks of a hand-off apart. -/
def InForce (inst : Install) (i : Iface) (log : Log) : Prop :=
  ∃ conf, renderConfig i.inbound (sortedPeers i.peers) = .ok conf ∧ i.conf = some conf ∧
    (inst.managed = true → ∃ hooks,
      lastUp log i.inbound.interface = some (some { conf with chain := hooks }, true))

variable {inbound : InboundConfig} {peers : List Peer} {conf : Conf}

theorem renderConfig_hooks
    (h : renderConfig inbound peers = .ok conf) : hookLines inbound.chain = .ok conf.chain := by
  obtain ⟨hi, -, -⟩ := renderConfig_ok h
  simp only [renderInterface, Checked.bind_eq_ok, Checked.pure_eq_ok] at hi
  obtain ⟨_, -, _, -, hooks, hhooks, _, -, _, -, heq⟩ := hi
  have hchain : hooks = conf.chain := congrArg Conf.chain heq
  rw [← hchain]
  cases hl : hookLines inbound.chain with
  | error e =>
    rw [show inbound.withDefaults.chain = inbound.chain from rfl, hl] at hhooks
    cases hhooks
  | ok hooks' =>
    rw [show inbound.withDefaults.chain = inbound.chain from rfl, hl] at hhooks
    cases hhooks
    rfl

/-- Two hand-offs of one inbound differ in their hooks only. -/
theorem renderConfig_chain {next : Option ChainTProxy}
    {conf conf' : Conf} (h : renderConfig inbound peers = .ok conf)
    (h' : renderConfig { inbound with chain := next } peers = .ok conf') :
    { conf' with chain := conf.chain } = conf := by
  obtain ⟨hi, hp, -⟩ := renderConfig_ok h
  obtain ⟨hi', hp', -⟩ := renderConfig_ok h'
  simp only [renderInterface, Checked.bind_eq_ok, Checked.pure_eq_ok] at hi hi'
  obtain ⟨_, -, block, hblock, _, -, _, -, _, -, heq⟩ := hi
  obtain ⟨_, -, block', hblock', _, -, _, -, _, -, heq'⟩ := hi'
  have hsame : block' = block := Except.ok.inj (hblock'.symm.trans hblock)
  obtain ⟨settings, postUp, chain, postDown, ps⟩ := conf
  obtain ⟨settings', postUp', chain', postDown', ps'⟩ := conf'
  simp only [Conf.mk.injEq, and_true, true_and] at heq heq' hp hp' ⊢
  obtain ⟨hset, hup, -, hdown⟩ := heq
  obtain ⟨hset', hup', -, hdown'⟩ := heq'
  refine ⟨?_, ?_, ?_, ?_⟩
  · rw [← hset, ← hset', hsame]
    rfl
  · rw [← hup, ← hup']
    rfl
  · rw [← hdown, ← hdown']
    rfl
  · rw [hp, hp']

section Restart

variable {κ : Type} {env : Env κ} {inst : Install} {g : Gen} {name : String}
  {s r t : Session (κ × Log)}

theorem sweepLine_ends {rule : ChainRule} {j : Nat}
    (h : ∃ m < j, (env.run (deletes env name rule m s.kernel.1) (.del name rule)).2.ok = false) :
    (sweepLine (logged env) name rule j s).2 = none := by
  induction j generalizing s with
  | zero =>
    obtain ⟨m, hm, -⟩ := h
    omega
  | succ j ih =>
    obtain ⟨m, hm, hfail⟩ := h
    simp only [sweepLine]
    split
    · rename_i hok
      cases m with
      | zero =>
        have : ((logged env).run s.kernel (.del name rule)).2.ok = false := hfail
        rw [Session.answer, this] at hok
        cases hok
      | succ m => exact ih ⟨m, by omega, hfail⟩
    · rfl

theorem sweepLines_ends (hs : Serves env) (rules : List ChainRule) (s : Session (κ × Log)) :
    (sweepLines (logged env) name rules s).2 = none := by
  induction rules generalizing s with
  | nil => rfl
  | cons rule rules ih =>
    simp only [sweepLines]
    rw [andThen_of_none (sweepLine_ends (hs.sweep s.kernel.1 name rule))]
    exact ih _

theorem sweepChain_ends (hs : Serves env) {chain : Option ChainTProxy} {hooks : ChainHooks}
    (hchain : hookLines chain = .ok hooks) (s : Session (κ × Log)) :
    (sweepChain (logged env) inst name chain s).2 = none := by
  unfold sweepChain
  split
  · rfl
  · rw [hchain]
    exact sweepLines_ends hs _ s

/-- A config written, with memory and the log as they were. -/
structure Written (conf : Conf) (s r : Session (κ × Log)) : Prop where
  state : r.iface.state = s.iface.state
  file : r.iface.conf = some conf
  log : r.kernel.2 = s.kernel.2

theorem writeAndSave_written (hs : Serves env) (conf : Conf) (s : Session (κ × Log)) :
    (writeAndSave (logged env) g conf s).2 = none ∧
      Written conf s (writeAndSave (logged env) g conf s).1 := by
  have hdone : ((logged env).writeConf s.kernel g).2 = .done := hs.conf s.kernel.1 g
  have hnone : (writeConfig (logged env) g conf s).2 = none := by simp [writeConfig, hdone]
  unfold writeAndSave
  rw [andThen_of_none hnone]
  refine ⟨rfl, rfl, ?_, rfl⟩
  simp [saveState, writeConfig, hdone, Outcome.lands]

/-- A restart puts the config it renders into force. -/
structure Restarted (inst : Install) (name : String) (conf : Conf) (s r : Session (κ × Log)) :
    Prop where
  state : r.iface.state = s.iface.state
  file : r.iface.conf = some conf
  log : LogsOnly name s r
  up : inst.managed = true → lastUp r.kernel.2 name = some (some conf, true)

variable (inst) in
theorem restartInterfaceFrom_restarted (hs : Serves env)
    {also : Option ChainTProxy} {hooks : ChainHooks}
    (hconf : renderConfig inbound peers = .ok conf) (halso : hookLines also = .ok hooks)
    (s : Session (κ × Log)) :
    (restartInterfaceFrom (logged env) inst g inbound peers also s).2 = none ∧
      Restarted inst inbound.interface conf s
        (restartInterfaceFrom (logged env) inst g inbound peers also s).1 := by
  unfold restartInterfaceFrom
  rw [hconf]
  dsimp only
  cases hm : inst.managed with
  | false =>
    obtain ⟨hnone, hw⟩ := writeAndSave_written (g := g) hs conf s
    simp only [Bool.not_false, if_true]
    rw [andThen_of_none hnone]
    exact ⟨rfl, hw.state, hw.file, .of_eq hw.log, fun h => by rw [hm] at h; cases h⟩
  | true =>
    have hdown := quiet_command env s (.down inbound.interface s.iface.conf) rfl
    simp only [Bool.not_true, Bool.false_eq_true, if_false]
    generalize s.command (logged env) (.down inbound.interface s.iface.conf) = s₁ at hdown
    obtain ⟨hnone, hw⟩ := writeAndSave_written (g := g) hs conf s₁
    rw [andThen_of_none hnone]
    generalize (writeAndSave (logged env) g conf s₁).1 = s₂ at hw
    rw [andThen_of_none (sweepChain_ends hs halso _),
      andThen_of_none (sweepChain_ends hs (renderConfig_hooks hconf) _)]
    have hsweep := (quiet_harmless env).trans
      ((quiet_harmless env).sweepChain inst inbound.interface also s₂)
      ((quiet_harmless env).sweepChain inst inbound.interface inbound.chain _)
    generalize (sweepChain (logged env) inst inbound.interface inbound.chain
      (sweepChain (logged env) inst inbound.interface also s₂).1).1 = s₃ at hsweep
    have hup : ((logged env).run s₃.kernel (.up inbound.interface s₃.iface.conf)).2.ok = true :=
      hs.up s₃.kernel.1 _ _
    have hconf₃ : s₃.iface.conf = some conf := by rw [hsweep.iface, hw.file]
    unfold bringUp
    dsimp only
    rw [Session.answer, if_pos hup]
    refine ⟨rfl, ?_, hconf₃, ?_, fun _ => ?_⟩
    · show s₃.iface.state = s.iface.state
      rw [hsweep.iface, hw.state, hdown.iface]
    · refine ((hdown.logsOnly _).trans (.of_eq hw.log)).trans ((hsweep.logsOnly _).trans ?_)
      refine ⟨[(.up inbound.interface s₃.iface.conf,
        (env.run s₃.kernel.1 (.up inbound.interface s₃.iface.conf)).2.ok)], rfl, ?_⟩
      intro n hn x hx b hb
      rw [List.mem_singleton.mp hx] at hb
      cases hb
      exact fun h => hn h.symm
    · show lastUp (s₃.kernel.2 ++ [(.up inbound.interface s₃.iface.conf,
        (env.run s₃.kernel.1 (.up inbound.interface s₃.iface.conf)).2.ok)]) _ = _
      rw [lastUp_up, hconf₃, hs.up]

end Restart

/-! ## A push on one interface -/

/-- The peers are valid, and what is held is in force wherever there is a key. -/
structure Settled (inst : Install) (i : Iface) (log : Log) : Prop where
  peers : ∀ e ∈ i.peers.entries, validatePeer e.2 = .ok ()
  inForce : i.inbound.privateKey = "" ∨ InForce inst i log

/-- A push the interface can take: it carries a key, it renders where it is stored, and where it is
refused for the peers of another subnet it does not come with another id. -/
structure InboundFits (i : Iface) (port : Int) (wire : InboundCfgWire) : Prop where
  key : wire.serverPrivateKey ≠ ""
  renders : ∀ new, pushedInbound i.inbound port wire = .ok new → storesInbound i new = true →
    Renders new
  id : ∀ new, pushedInbound i.inbound port wire = .ok new → storesInbound i new = false →
    classifyDiff i.inbound new ≠ .none → pushedID i wire = i.inboundID

/-- What a call on an interface leaves. -/
structure Kept {κ : Type} (inst : Install) (s r : Session (κ × Log)) : Prop where
  settled : Settled inst r.iface r.kernel.2
  name : r.iface.inbound.interface = s.iface.inbound.interface
  log : LogsOnly s.iface.inbound.interface s r

section OneInterface

variable {κ : Type} {env : Env κ} {inst : Install} {g : Gen} {s r : Session (κ × Log)}

theorem Kept.refl (h : Settled inst s.iface s.kernel.2) : Kept inst s s := ⟨h, rfl, .of_eq rfl⟩

theorem Kept.of_quiet (h : Settled inst s.iface s.kernel.2) (hq : Quiet s r) : Kept inst s r := by
  refine ⟨⟨?_, ?_⟩, by rw [hq.iface], hq.logsOnly _⟩
  · rw [hq.iface]
    exact h.peers
  · rw [hq.iface]
    refine h.inForce.imp_right ?_
    rintro ⟨conf, hconf, hfile, hup⟩
    exact ⟨conf, hconf, hfile, fun hm => by rw [hq.lastUp]; exact hup hm⟩

theorem render_of_renders {peers : Peers} (h : Renders inbound)
    (hpeers : ∀ e ∈ peers.entries, validatePeer e.2 = .ok ()) :
    ∃ conf, renderConfig inbound (sortedPeers peers) = .ok conf := by
  unfold Renders at h
  cases hi : renderInterface inbound with
  | error e =>
    rw [hi] at h
    cases h
  | ok conf =>
    refine ⟨_, renderConfig_of_renderInterface hi ?_⟩
    intro p hp
    obtain ⟨e, he, rfl⟩ := mem_sortedPeers.mp hp
    exact checkPeer_of_validatePeer (hpeers e he)

/-- An interface that came up with what is held. -/
theorem Restarted.kept {t : Session (κ × Log)}
    (hpeers : ∀ e ∈ t.iface.peers.entries, validatePeer e.2 = .ok ())
    (hconf : renderConfig t.iface.inbound (sortedPeers t.iface.peers) = .ok conf)
    (h : Restarted inst t.iface.inbound.interface conf t r) :
    Kept inst t r ∧ InForce inst r.iface r.kernel.2 := by
  have hin : r.iface.inbound = t.iface.inbound := congrArg SavedState.inbound h.state
  have hp : r.iface.peers = t.iface.peers := congrArg SavedState.peers h.state
  have hforce : InForce inst r.iface r.kernel.2 := by
    refine ⟨conf, by rw [hin, hp]; exact hconf, h.file, fun hm => ⟨conf.chain, ?_⟩⟩
    rw [hin]
    exact h.up hm
  refine ⟨⟨⟨by rw [hp]; exact hpeers, Or.inr hforce⟩, by rw [hin], h.log⟩, hforce⟩

/-- A push accepted is in force, and one that is refused changes nothing. -/
structure Taken (inst : Install) (port : Int) (wire : InboundCfgWire) (s : Session (κ × Log))
    (r : Result (κ × Log)) : Prop where
  kept : Kept inst s r.1
  accepted : r.2 = none → pushedInbound r.1.iface.inbound port wire = .ok r.1.iface.inbound ∧
    InForce inst r.1.iface r.1.kernel.2
  refused : r.2 ≠ none → r.1.iface = s.iface

theorem applyInboundOne_taken (hs : Serves env) {port : Int} {wire : InboundCfgWire}
    (hset : Settled inst s.iface s.kernel.2) (hfits : InboundFits s.iface port wire) :
    Taken inst port wire s (applyInboundOne (logged env) inst g port wire s) := by
  cases hnew : pushedInbound s.iface.inbound port wire with
  | error e =>
    have heq : applyInboundOne (logged env) inst g port wire s = (s, some (.inbound e)) := by
      unfold applyInboundOne
      rw [hnew]
    rw [heq]
    exact ⟨.refl hset, nofun, fun _ => rfl⟩
  | ok new =>
    rcases applyInboundOne_cases inst g hnew with
      ⟨hstored, heq, hdiff⟩ | ⟨hstored, heq⟩
    · -- no more than the id changes
      have hkept : Kept inst s (applyInboundOne (logged env) inst g port wire s).1 := by
        rw [heq]
        exact ⟨⟨hset.peers, hset.inForce⟩, rfl, .of_eq rfl⟩
      refine ⟨hkept, fun hnone => ?_, fun hsome => ?_⟩
      · have hsame : new = s.iface.inbound := eq_of_classifyDiff hnew (hdiff hnone)
        subst hsame
        have hkey : s.iface.inbound.privateKey ≠ "" := by
          have hwire : s.iface.inbound.privateKey = wire.serverPrivateKey := by
            unfold pushedInbound at hnew
            split at hnew
            · cases hnew
            · rename_i c hc
              simp only [InboundCfgWire.toInboundConfig, Checked.bind_eq_ok,
                Checked.pure_eq_ok] at hc
              obtain ⟨_, -, _, -, rfl⟩ := hc
              exact (congrArg InboundConfig.privateKey (Except.ok.inj hnew)).symm
          rw [hwire]
          exact hfits.key
        rw [heq]
        exact ⟨hnew, hset.inForce.resolve_left hkey⟩
      · rw [heq]
        have hid := hfits.id new hnew hstored fun hsame => hsome ?_
        · rw [hid]
          rfl
        · unfold applyInboundOne
          rw [hnew]
          dsimp only
          have hinbound : (if wire.inboundId ≠ "" then s.setInboundID wire.inboundId
              else s).iface.inbound = s.iface.inbound := by
            split <;> rfl
          rw [hinbound, hsame]
    · obtain ⟨conf, hconf⟩ := render_of_renders (hfits.renders new hnew hstored) hset.peers
      obtain ⟨hnone, hrestarted⟩ := restartInterfaceFrom_restarted inst (g := g) hs hconf
        (rfl : hookLines none = _) ((s.setInboundID (pushedID s.iface wire)).setInbound new)
      rw [heq]
      have hname : new.interface = s.iface.inbound.interface := (pushedInbound_ok hnew).1
      obtain ⟨hkept, hforce⟩ := Restarted.kept
        (t := (s.setInboundID (pushedID s.iface wire)).setInbound new) hset.peers hconf hrestarted
      refine ⟨⟨hkept.settled, hkept.name.trans hname, hname ▸ hkept.log⟩, fun _ => ⟨?_, hforce⟩,
        fun h => absurd hnone h⟩
      have hin := congrArg SavedState.inbound hrestarted.state
      have hin : (restartInterfaceFrom (logged env) inst g new (sortedPeers s.iface.peers) none
          ((s.setInboundID (pushedID s.iface wire)).setInbound new)).1.iface.inbound = new := hin
      rw [hin]
      exact pushedInbound_again hnew

theorem applyCascadeOne_kept (hs : Serves env) (next : Option ChainTProxy)
    (hset : Settled inst s.iface s.kernel.2) :
    Kept inst s (applyCascadeOne (logged env) inst g next s).1 ∧
      ((applyCascadeOne (logged env) inst g next s).2 = none →
        (applyCascadeOne (logged env) inst g next s).1.iface.inbound.chain = next) := by
  by_cases hsame : s.iface.inbound.chain = next
  · have heq : applyCascadeOne (logged env) inst g next s = (s, none) := by
      simp [applyCascadeOne, hsame]
    rw [heq]
    exact ⟨.refl hset, fun _ => hsame⟩
  by_cases hkey : s.iface.inbound.privateKey = ""
  · have heq : applyCascadeOne (logged env) inst g next s =
        (s.setInbound { s.iface.inbound with chain := next }, none) := by
      simp [applyCascadeOne, hsame, hkey]
    rw [heq]
    exact ⟨⟨⟨hset.peers, Or.inl hkey⟩, rfl, .of_eq rfl⟩, fun _ => rfl⟩
  obtain ⟨conf, hconf, hfile, hup⟩ := hset.inForce.resolve_left hkey
  cases hr : renderConfig { s.iface.inbound with chain := next } (sortedPeers s.iface.peers) with
  | error e =>
    have heq : applyCascadeOne (logged env) inst g next s = (s, some (.render e)) := by
      simp [applyCascadeOne, hsame, hkey, hr]
    rw [heq]
    exact ⟨.refl hset, fun h => by cases h⟩
  | ok conf' =>
    by_cases hlive : inst.managed ∧ (logged env).interfaceExists s.kernel s.iface.inbound.interface
    · have heq : applyCascadeOne (logged env) inst g next s =
          applyCascadeLive (logged env) g { s.iface.inbound with chain := next } conf'
            s.iface.inbound.chain (s.setInbound { s.iface.inbound with chain := next }) := by
        unfold applyCascadeOne
        rw [if_neg hsame, if_neg hkey, hr]
        dsimp only
        exact if_pos hlive
      rw [heq]
      unfold applyCascadeLive
      have hswap := (quiet_harmless env).swapChainLive s.iface.inbound.interface
        s.iface.inbound.chain next (s.setInbound { s.iface.inbound with chain := next })
      split
      · rename_i t e ht
        rw [ht] at hswap
        have hundo := hswap.trans
          ((quiet_harmless env).undoSwap s.iface.inbound.interface s.iface.inbound.chain next t)
        refine ⟨.of_quiet hset ⟨?_, hundo.log⟩, fun h => by cases h⟩
        simp only [Session.setInbound, hundo.iface]
      · rename_i t ht
        rw [ht] at hswap
        obtain ⟨hnone, hw⟩ := writeAndSave_written (g := g) hs conf' t
        have hin : (writeAndSave (logged env) g conf' t).1.iface.inbound =
            { s.iface.inbound with chain := next } := by
          refine (congrArg SavedState.inbound hw.state).trans ?_
          rw [hswap.iface]
          rfl
        have hp : (writeAndSave (logged env) g conf' t).1.iface.peers = s.iface.peers := by
          refine (congrArg SavedState.peers hw.state).trans ?_
          rw [hswap.iface]
          rfl
        have hlog : LogsOnly s.iface.inbound.interface s (writeAndSave (logged env) g conf' t).1 :=
          (hswap.logsOnly _).trans (.of_eq hw.log)
        refine ⟨⟨⟨by rw [hp]; exact hset.peers, Or.inr ⟨conf', ?_, hw.file, fun hm => ?_⟩⟩, ?_,
          hlog⟩, fun _ => ?_⟩
        · rw [hin, hp]
          exact hr
        · obtain ⟨hooks, hlast⟩ := hup hm
          refine ⟨hooks, ?_⟩
          rw [hin, hw.log, hswap.lastUp]
          show lastUp s.kernel.2 s.iface.inbound.interface = _
          rw [hlast, ← renderConfig_chain hconf hr]
        · rw [hin]
        · rw [hin]
    · have heq : applyCascadeOne (logged env) inst g next s =
          restartInterfaceFrom (logged env) inst g { s.iface.inbound with chain := next }
            (sortedPeers s.iface.peers) s.iface.inbound.chain
            (s.setInbound { s.iface.inbound with chain := next }) := by
        unfold applyCascadeOne
        rw [if_neg hsame, if_neg hkey, hr]
        dsimp only
        exact if_neg hlive
      obtain ⟨hnone, hrestarted⟩ := restartInterfaceFrom_restarted inst (g := g) hs hr
        (renderConfig_hooks hconf) (s.setInbound { s.iface.inbound with chain := next })
      rw [heq]
      obtain ⟨hkept, -⟩ := Restarted.kept
        (t := s.setInbound { s.iface.inbound with chain := next }) hset.peers hr hrestarted
      refine ⟨⟨hkept.settled, hkept.name, hkept.log⟩, fun _ => ?_⟩
      exact congrArg (fun st => st.inbound.chain) hrestarted.state

end OneInterface

/-! ## Pushes one after another -/

inductive Push
  | applyInbound (port : Int) (cfg : Option InboundCfgWire)
  | applyCascade (raw : Option (Option CascadeWire))

def Push.event : Push → Event
  | .applyInbound port cfg => .applyInbound port cfg
  | .applyCascade raw => .applyCascade raw

/-- A push, and the system as it behaves during the call. -/
structure Turn (κ : Type) where
  push : Push
  env : Env κ

section Pushes

variable {κ : Type} (inst : Install)

def turn (s : State (κ × Log)) (t : Turn κ) : Called (κ × Log) :=
  s.call (logged t.env) inst t.push.event

/-- No interface has a key yet; users may be waiting for one. -/
def IsFresh (s : State (κ × Log)) : Prop :=
  ∀ g, (s.iface g).inbound.interface = (inst.inbound g).interface ∧
    (s.iface g).inbound.privateKey = "" ∧
    ∀ e ∈ (s.iface g).peers.entries, validatePeer e.2 = .ok ()

/-- What the push asks for is held, and in force wherever there is a key. -/
def Asked (p : Push) (s : State (κ × Log)) : Prop :=
  match p with
  | .applyInbound port cfg => ∃ wire, cfg = some wire ∧
    pushedInbound (s.iface (genOf wire)).inbound port wire = .ok (s.iface (genOf wire)).inbound ∧
      InForce inst (s.iface (genOf wire)) s.kernel.2
  | .applyCascade raw => ∃ next, readCascade raw = .ok next ∧ ∀ g,
    (s.iface g).inbound.chain = next.on g ∧
      ((s.iface g).inbound.privateKey = "" ∨ InForce inst (s.iface g) s.kernel.2)

/-- The inbound does not parse, does not fit beside the peers or does not render. -/
def invalid : AwgError → Bool
  | .parseCfg | .inbound _ | .subnetChange _ | .render _ => true
  | _ => false

/-- Refused for what the push says. -/
def Refused (s : State (κ × Log)) (t : Turn κ) : Prop :=
  match t.push with
  | .applyInbound _ _ => ∃ e, (turn inst s t).2 = some e ∧ invalid e = true
  | .applyCascade raw => ∃ e, readCascade raw = .error e

def pushed : Pushed (State (κ × Log)) (Turn κ) where
  start := IsFresh inst
  step s t := (turn inst s t).1
  accepted s t := (turn inst s t).2 = none
  refused := Refused inst
  inForce t := Asked inst t.push
  same s s' := s'.one = s.one ∧ s'.three = s.three

/-- The system serves, and the inbound is one its interface can take. -/
structure Fits (s : State (κ × Log)) (t : Turn κ) : Prop where
  serves : Serves t.env
  inbound : ∀ port wire, t.push = .applyInbound port (some wire) →
    InboundFits (s.iface (genOf wire)) port wire

/-- Each interface keeps its name, and what it holds is in force wherever it has a key. -/
def Inv (s : State (κ × Log)) : Prop :=
  ∀ g, (s.iface g).inbound.interface = (inst.inbound g).interface ∧
    Settled inst (s.iface g) s.kernel.2

variable {inst} {s : State (κ × Log)} {t : Turn κ}

theorem inbound_ne (inst : Install) {g g' : Gen} (h : g' ≠ g) :
    (inst.inbound g').interface ≠ (inst.inbound g).interface := by
  cases g <;> cases g'
  · exact absurd rfl h
  · exact fun hn => inst.interface hn.symm
  · exact inst.interface
  · exact absurd rfl h

/-- A call that keeps its interface keeps the other one as well. -/
theorem inv_on {g : Gen} {f : Session (κ × Log) → Result (κ × Log)} (h : Inv inst s)
    (hf : Kept inst (s.session g) (f (s.session g)).1) : Inv inst (s.on g f).1 := by
  intro g'
  by_cases hg : g' = g
  · subst hg
    rw [on_iface_self]
    exact ⟨hf.name.trans (h g').1, hf.settled⟩
  · rw [on_iface_ne hg]
    obtain ⟨hname, hset⟩ := h g'
    refine ⟨hname, hset.peers, hset.inForce.imp_right ?_⟩
    rintro ⟨conf, hconf, hfile, hup⟩
    refine ⟨conf, hconf, hfile, fun hm => ?_⟩
    have hother : (s.iface g').inbound.interface ≠ (s.session g).iface.inbound.interface := by
      rw [hname, session_iface, (h g).1]
      exact inbound_ne inst hg
    show ∃ hooks, lastUp (f (s.session g)).1.kernel.2 _ = _
    rw [hf.log.lastUp hother]
    exact hup hm

theorem inv_reset (h : Inv inst s) : Inv inst { s with issued := [] } := by
  intro g
  cases g
  · exact h .one
  · exact h .three

/-- What a call leaves. -/
structure TurnKept (inst : Install) (s : State (κ × Log)) (t : Turn κ) : Prop where
  inv : Inv inst (turn inst s t).1
  accepted : (turn inst s t).2 = none → Asked inst t.push (turn inst s t).1
  refused : Refused inst s t → (turn inst s t).1.one = s.one ∧ (turn inst s t).1.three = s.three

theorem applyInbound_kept {port : Int} {cfg : Option InboundCfgWire} {env : Env κ}
    (hinv : Inv inst s) (hfits : Fits s ⟨.applyInbound port cfg, env⟩) :
    TurnKept inst s ⟨.applyInbound port cfg, env⟩ := by
  cases cfg with
  | none => exact ⟨inv_reset hinv, nofun, fun _ => ⟨rfl, rfl⟩⟩
  | some wire =>
    have hinv' := inv_reset hinv
    let s' : State (κ × Log) := { s with issued := [] }
    have hsame : ∀ g, s'.iface g = s.iface g := fun g => by cases g <;> rfl
    have hin : InboundFits (s'.iface (genOf wire)) port wire := by
      rw [hsame]
      exact hfits.inbound port wire rfl
    have htaken := applyInboundOne_taken (g := genOf wire) (s := s'.session (genOf wire))
      hfits.serves (hinv' (genOf wire)).2 hin
    have hturn : turn inst s ⟨.applyInbound port (some wire), env⟩ =
        s'.on (genOf wire) (applyInboundOne (logged env) inst (genOf wire) port wire) := rfl
    refine ⟨?_, fun hnone => ?_, fun hrefused => ?_⟩
    · rw [hturn]
      exact inv_on hinv' htaken.kept
    · rw [hturn] at hnone ⊢
      obtain ⟨hheld, hforce⟩ := htaken.accepted hnone
      refine ⟨wire, rfl, ?_, ?_⟩
      · rw [on_iface_self]
        exact hheld
      · rw [on_iface_self]
        exact hforce
    · have hne : (turn inst s ⟨.applyInbound port (some wire), env⟩).2 ≠ none := by
        obtain ⟨e, he, -⟩ := hrefused
        rw [he]
        nofun
      rw [hturn] at hne ⊢
      have hiface := htaken.refused hne
      have hback : ∀ g, (s'.on (genOf wire)
          (applyInboundOne (logged env) inst (genOf wire) port wire)).1.iface g = s.iface g := by
        intro g
        by_cases hg : g = genOf wire
        · subst hg
          rw [on_iface_self, hiface, session_iface, hsame]
        · rw [on_iface_ne hg, hsame]
      exact ⟨hback .one, hback .three⟩

theorem applyCascade_kept {raw : Option (Option CascadeWire)} {env : Env κ}
    (hinv : Inv inst s) (hserves : Serves env) : TurnKept inst s ⟨.applyCascade raw, env⟩ := by
  have hinv' := inv_reset hinv
  let s' : State (κ × Log) := { s with issued := [] }
  cases hread : readCascade raw with
  | error e =>
    have hturn : turn inst s ⟨.applyCascade raw, env⟩ = (s', some e) := by
      show applyCascade (logged env) inst raw s' = _
      unfold applyCascade
      rw [hread]
    refine ⟨by rw [hturn]; exact hinv', fun h => ?_, fun _ => by rw [hturn]; exact ⟨rfl, rfl⟩⟩
    rw [hturn] at h
    cases h
  | ok next =>
    have hturn : turn inst s ⟨.applyCascade raw, env⟩ =
        andThen (s'.on .one (applyCascadeOne (logged env) inst .one next.one)) fun s =>
          s.on .three (applyCascadeOne (logged env) inst .three next.three) := by
      show applyCascade (logged env) inst raw s' = _
      unfold applyCascade
      rw [hread]
    have hone := applyCascadeOne_kept (g := .one) (s := s'.session .one) hserves next.one
      (hinv' .one).2
    have hinv₁ := inv_on hinv' hone.1
    have hthree := applyCascadeOne_kept (g := .three) (s := State.session
      (s'.on .one (applyCascadeOne (logged env) inst .one next.one)).1 .three) hserves next.three
      (hinv₁ .three).2
    have hinv₂ := inv_on hinv₁ hthree.1
    refine ⟨?_, fun hnone => ?_, ?_⟩
    · rw [hturn]
      exact andThen_fst (P := Inv inst) hinv₁ fun _ => hinv₂
    · rw [hturn] at hnone ⊢
      obtain ⟨hnone₁, hnone₂⟩ := andThen_eq_none.mp hnone
      rw [andThen_of_none hnone₁]
      refine ⟨next, hread, fun g => ⟨?_, (hinv₂ g).2.inForce⟩⟩
      cases g with
      | one =>
        rw [on_iface_ne (by decide), on_iface_self]
        exact hone.2 hnone₁
      | three =>
        rw [on_iface_self]
        exact hthree.2 hnone₂
    · rintro ⟨e, he⟩
      have he : readCascade raw = .error e := he
      rw [hread] at he
      cases he

theorem turn_kept (hinv : Inv inst s) (hfits : Fits s t) : TurnKept inst s t := by
  obtain ⟨push, env⟩ := t
  cases push with
  | applyInbound port cfg => exact applyInbound_kept hinv hfits
  | applyCascade raw => exact applyCascade_kept hinv hfits.serves

/-- Every push of a run is in force once accepted, and changes nothing when refused for what it
says, where the system serves and the inbounds are ones their interfaces can take. -/
theorem honest : (pushed inst : Pushed (State (κ × Log)) (Turn κ)).HonestWhen Fits := by
  refine Pushed.honestWhen_of_inv (I := Inv inst) ?_ ?_ ?_
  · intro s hs g
    obtain ⟨hname, hkey, hpeers⟩ := hs g
    exact ⟨hname, hpeers, Or.inl hkey⟩
  · intro s t hinv hfits
    exact (turn_kept hinv hfits).inv
  · intro s t hinv hfits
    have hkept := turn_kept hinv hfits
    exact ⟨hkept.accepted, hkept.refused⟩

end Pushes

end Iceslab.Agent.Amneziawg.Retry
