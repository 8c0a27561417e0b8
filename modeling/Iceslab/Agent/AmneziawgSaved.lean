import Iceslab.Agent.AmneziawgAdapter

/-!
# What a call does to the saved state

What each step of a call on an AmneziaWG interface changes in memory, in the state file and among
the commands issued, where file writes succeed.

* `Sane`, `loadState_sane`, `loadState_some` — what a load restores, and what it restores whole.
* `Swept` — commands that bring nothing up.
* `Applied` — a config put into force: saved, and brought up from it or not at all.
* `Moved` — a call after which a load still restores what memory holds.
-/

set_option autoImplicit false

namespace Iceslab.Agent.Amneziawg

/-! ## Loading -/

/-- What a load leaves as it is. -/
structure Sane (install : InboundConfig) (st : SavedState) : Prop where
  interface : st.inbound.interface = install.interface
  postUp : st.inbound.postUp = install.postUp
  postDown : st.inbound.postDown = install.postDown
  listenPort : st.inbound.listenPort = 0 → install.listenPort = 0
  peers : ∀ e ∈ st.peers.entries, validatePeer e.2 = .ok ()

/-- **A restart restores what memory holds.** -/
def Loaded (install : InboundConfig) (i : Iface) : Prop := loadState install i.saved = i.state

section Loading

variable {install : InboundConfig} {st : SavedState} {i : Iface}

theorem validPeers_eq {peers : Peers} (h : ∀ e ∈ peers.entries, validatePeer e.2 = .ok ()) :
    validPeers peers = peers := by
  obtain ⟨entries, hnd⟩ := peers
  have hfilter : entries.filter (fun e => decide (validatePeer e.2 = .ok ())) = entries :=
    List.filter_eq_self.mpr fun e he => by simpa using h e he
  simp only [validPeers, hfilter]

theorem loadState_sane (install : InboundConfig) (saved : Option SavedState) :
    Sane install (loadState install saved) := by
  have hfresh : Sane install ⟨install, "", .empty⟩ :=
    ⟨rfl, rfl, rfl, id, by simp [OrderedMap.empty]⟩
  cases saved with
  | none => exact hfresh
  | some st =>
    simp only [loadState]
    split
    · exact hfresh
    · rename_i hname
      refine ⟨by simpa using hname, rfl, rfl, ?_, ?_⟩
      · intro hport
        by_cases h0 : st.inbound.listenPort = 0
        · simpa [h0] using hport
        · simp [h0] at hport
      · intro e he
        have he : e ∈ st.peers.entries.filter fun e => decide (validatePeer e.2 = .ok ()) := he
        simpa using (List.mem_filter.mp he).2

theorem loadState_some (h : Sane install st) : loadState install (some st) = st := by
  obtain ⟨inbound, id, peers⟩ := st
  obtain ⟨interface, listenPort, _, _, _, postUp, postDown, _, _⟩ := inbound
  obtain ⟨hname, hup, hdown, hport, hpeers⟩ := h
  simp only at hname hup hdown hport hpeers
  subst hname hup hdown
  have hlisten : (if listenPort = 0 then install.listenPort else listenPort) = listenPort := by
    split
    · rename_i h0
      rw [hport h0, h0]
    · rfl
  simp only [loadState, ne_eq, not_true_eq_false, if_false, hlisten, validPeers_eq hpeers]

theorem Loaded.sane (h : Loaded install i) : Sane install i.state := by
  have := loadState_sane install i.saved
  rwa [h] at this

theorem Sane.loaded (h : Sane install i.state) (hsaved : i.saved = some i.state) :
    Loaded install i := by
  unfold Loaded
  rw [hsaved]
  exact loadState_some h

end Loading

/-! ## Commands -/

/-- The interface a command brings up, and the file it is brought up from. -/
def Cmd.bringsUp : Cmd → Option (String × Option Conf)
  | .up interface file => some (interface, file)
  | .systemctlRestart interface file => some (interface, file)
  | _ => none

/-- The commands issued between two moments. -/
def Issued {κ : Type} (p : Cmd → Prop) (s r : Session κ) : Prop :=
  ∃ cs, r.issued = s.issued ++ cs ∧ ∀ c ∈ cs, p c

section AndThen

variable {σ : Type} {r : σ × Option AwgError} {f : σ → σ × Option AwgError}

theorem andThen_fst {P : σ → Prop} (hr : P r.1) (hf : r.2 = none → P (f r.1).1) :
    P (andThen r f).1 := by
  unfold andThen
  split
  · exact hr
  · rename_i h
    exact hf h

theorem andThen_eq_none : (andThen r f).2 = none ↔ r.2 = none ∧ (f r.1).2 = none := by
  unfold andThen
  split <;> simp_all

theorem andThen_of_none (h : r.2 = none) : andThen r f = f r.1 := by
  unfold andThen
  rw [h]

end AndThen

section Commands

variable {κ : Type} {p q : Cmd → Prop} {s r t : Session κ}

theorem Issued.none (h : r.issued = s.issued) : Issued p s r := ⟨[], by simp [h], by simp⟩

theorem Issued.trans (h : Issued p s r) (h' : Issued p r t) : Issued p s t := by
  obtain ⟨cs, hcs, hp⟩ := h
  obtain ⟨cs', hcs', hp'⟩ := h'
  refine ⟨cs ++ cs', by simp [hcs, hcs'], ?_⟩
  intro c hc
  rcases List.mem_append.mp hc with hc | hc
  · exact hp c hc
  · exact hp' c hc

theorem Issued.mono (h : Issued p s r) (hpq : ∀ c, p c → q c) : Issued q s r := by
  obtain ⟨cs, hcs, hp⟩ := h
  exact ⟨cs, hcs, fun c hc => hpq c (hp c hc)⟩

/-- What holds between two moments when commands that bring nothing up are all there is between
them. -/
structure Harmless (env : Env κ) (R : Session κ → Session κ → Prop) : Prop where
  refl : ∀ s, R s s
  trans : ∀ {s r t}, R s r → R r t → R s t
  command : ∀ s (c : Cmd), c.bringsUp = .none → R s (s.command env c)

namespace Harmless

variable {env : Env κ} {R : Session κ → Session κ → Prop} (h : Harmless env R)
include h

theorem sweepLine (n : String) (rule : ChainRule) (k : Nat) (s : Session κ) :
    R s (sweepLine env n rule k s).1 := by
  induction k generalizing s with
  | zero => exact h.refl s
  | succ k ih =>
    have hdel : R s (s.command env (.del n rule)) := h.command s _ rfl
    simp only [Amneziawg.sweepLine]
    split
    · exact h.trans hdel (ih _)
    · exact hdel

theorem sweepLines (n : String) (rules : List ChainRule) (s : Session κ) :
    R s (sweepLines env n rules s).1 := by
  induction rules generalizing s with
  | nil => exact h.refl s
  | cons rule rules ih =>
    have hline := h.sweepLine n rule sweepMaxRepeats s
    simp only [Amneziawg.sweepLines]
    exact andThen_fst (P := R s) hline fun _ => h.trans hline (ih _)

theorem sweepChain (inst : Install) (n : String) (t : Option ChainTProxy) (s : Session κ) :
    R s (sweepChain env inst n t s).1 := by
  unfold Amneziawg.sweepChain
  split
  · exact h.refl s
  · split
    · exact h.refl s
    · exact h.sweepLines n _ s

theorem addLines (n : String) (rules : List ChainRule) (s : Session κ) :
    R s (addLines env n rules s).1 := by
  induction rules generalizing s with
  | nil => exact h.refl s
  | cons rule rules ih =>
    have hadd : R s (s.command env (.add n rule)) := h.command s _ rfl
    simp only [Amneziawg.addLines]
    split
    · exact h.trans hadd (ih _)
    · exact hadd

theorem swapChainLive (n : String) (prev next : Option ChainTProxy) (s : Session κ) :
    R s (swapChainLive env n prev next s).1 := by
  unfold Amneziawg.swapChainLive
  split
  · exact h.refl s
  · split
    · exact h.refl s
    · rename_i p _ _ q _
      have hsweep := h.sweepLines n (without q.down p.down) s
      refine andThen_fst (P := R s) hsweep fun _ => ?_
      have hadd := h.trans hsweep (h.addLines n (without q.up p.up) _)
      refine andThen_fst (P := R s) hadd fun _ => ?_
      exact h.trans hadd (h.sweepLines n (without p.down q.down) _)

theorem undoSwap (n : String) (prev next : Option ChainTProxy) (s : Session κ) :
    R s (undoSwap env n prev next s) := by
  unfold Amneziawg.undoSwap
  split
  · exact h.sweepLines n _ s
  · exact h.refl s

end Harmless

/-- Nothing about the interface changes, and nothing is brought up. -/
structure Swept (s r : Session κ) : Prop where
  iface : r.iface = s.iface
  issued : Issued (fun c => c.bringsUp = .none) s r

theorem Swept.refl (s : Session κ) : Swept s s := ⟨rfl, .none rfl⟩

theorem Swept.trans (h : Swept s r) (h' : Swept r t) : Swept s t :=
  ⟨h'.iface.trans h.iface, h.issued.trans h'.issued⟩

variable (env : Env κ) (inst : Install)

theorem swept_command {c : Cmd} (hc : c.bringsUp = .none) : Swept s (s.command env c) :=
  ⟨rfl, [c], rfl, by simpa using hc⟩

theorem swept_harmless : Harmless env (Swept ) :=
  ⟨Swept.refl, Swept.trans, fun _ _ hc => swept_command env hc⟩

theorem swept_sweepChain (n : String) (t : Option ChainTProxy) (s : Session κ) :
    Swept s (sweepChain env inst n t s).1 := (swept_harmless env).sweepChain inst n t s

theorem swept_sweepBeforeStart (n : String) (t : Option ChainTProxy) (s : Session κ) :
    Swept s (sweepBeforeStart env inst n t s).1 := by
  unfold sweepBeforeStart
  split
  · exact .refl s
  · exact swept_sweepChain env inst n t s

end Commands

/-! ## A config in force -/

/-- Every file write succeeds. -/
structure Env.Writes {κ : Type} (env : Env κ) : Prop where
  conf : ∀ k g, (env.writeConf k g).2 = .done
  state : ∀ k g, (env.writeState k g).2 = .done

/-- The config is on disk with the state beside it, and what was brought up came up from it. -/
structure Applied {κ : Type} (n : String) (conf : Conf) (s r : Session κ) : Prop where
  state : r.iface.state = s.iface.state
  saved : r.iface.saved = some s.iface.state
  written : r.iface.conf = some conf
  issued : Issued (fun c => ∀ b, c.bringsUp = some b → b = (n, some conf)) s r

variable {inbound : InboundConfig} {also : Option ChainTProxy} {peers : List Peer}

section Applying

variable {κ : Type} {env : Env κ} {n : String} {conf : Conf} {s r t : Session κ}

theorem Swept.issuedFrom (h : Swept s r) (n : String) (conf : Conf) :
    Issued (fun c => ∀ b, c.bringsUp = some b → b = (n, some conf)) s r :=
  h.issued.mono fun c hc b hb => by simp [hc] at hb

theorem Applied.sweep (h : Applied n conf s r) (hsweep : Swept r t) : Applied n conf s t := by
  obtain ⟨hstate, hsaved, hconf, hissued⟩ := h
  refine ⟨?_, ?_, ?_, hissued.trans (hsweep.issuedFrom n conf)⟩
  all_goals rw [hsweep.iface]
  · exact hstate
  · exact hsaved
  · exact hconf

theorem Applied.setStarted (h : Applied n conf s r) (v : Bool) :
    Applied n conf s (r.setStarted v) :=
  ⟨h.state, h.saved, h.written, h.issued⟩

theorem Applied.after (hsweep : Swept s r) (h : Applied n conf r t) : Applied n conf s t := by
  obtain ⟨hstate, hsaved, hconf, hissued⟩ := h
  rw [hsweep.iface] at hstate hsaved
  exact ⟨hstate, hsaved, hconf, (hsweep.issuedFrom n conf).trans hissued⟩

theorem Applied.bringUp (h : Applied n conf s r) {c : Cmd} (hc : c.bringsUp = some (n, r.iface.conf)) :
    Applied n conf s (r.command env c) := by
  obtain ⟨hstate, hsaved, hconf, hissued⟩ := h
  refine ⟨hstate, hsaved, hconf, hissued.trans ⟨[c], rfl, ?_⟩⟩
  intro c' hc' b hb
  rw [List.mem_singleton.mp hc', hc, hconf] at hb
  exact (Option.some.inj hb).symm

variable (hw : env.Writes) (inst : Install) (g : Gen)
include hw

theorem writeAndSave_snd : (writeAndSave env g conf s).2 = none := by
  simp [writeAndSave, andThen, writeConfig, hw.conf]

theorem writeAndSave_applied : Applied n conf s (writeAndSave env g conf s).1 := by
  have hlands : Outcome.done.lands = true := rfl
  refine ⟨?_, ?_, ?_, .none ?_⟩ <;>
    simp [writeAndSave, andThen, writeConfig, saveState, hw.conf, hw.state, hlands,
      Iface.state]

/-- What `restartInterfaceFrom` leaves, whichever of its commands fail. -/
theorem restartInterfaceFrom_applied (h : renderConfig inbound peers = .ok conf) :
    Applied inbound.interface conf s (restartInterfaceFrom env inst g inbound peers also s).1 := by
  unfold restartInterfaceFrom
  rw [h]
  dsimp only
  split
  · rw [andThen_of_none (writeAndSave_snd hw g)]
    exact (writeAndSave_applied hw g).setStarted true
  · rw [andThen_of_none (writeAndSave_snd hw g)]
    have hdown : Swept s (s.command env (.down inbound.interface s.iface.conf)) :=
      swept_command env rfl
    have hwritten : Applied inbound.interface conf s (writeAndSave env g conf
        (s.command env (.down inbound.interface s.iface.conf))).1 :=
      .after hdown (writeAndSave_applied hw g)
    have halso := hwritten.sweep (swept_sweepChain env inst inbound.interface also _)
    refine andThen_fst (P := Applied inbound.interface conf s) halso fun _ => ?_
    have hchain := halso.sweep (swept_sweepChain env inst inbound.interface inbound.chain _)
    refine andThen_fst (P := Applied inbound.interface conf s) hchain fun _ => ?_
    unfold bringUp
    dsimp only
    split
    · exact (hchain.bringUp rfl).setStarted true
    · exact hchain.bringUp rfl

omit hw in
theorem applied_restartViaSystemctl (h : Applied n conf s r) :
    Applied n conf s (restartViaSystemctl env inst n r).1 := by
  unfold restartViaSystemctl
  split
  · exact h
  · dsimp only
    split
    · exact (h.bringUp rfl).setStarted true
    · exact h.bringUp rfl

omit hw in
theorem applied_syncInterface (h : Applied n conf s r) :
    Applied n conf s (syncInterface env inst n r).1 := by
  have hstrip := h.sweep (swept_command env (c := .strip r.iface.conf) rfl)
  unfold syncInterface
  dsimp only
  split
  · have hsync := hstrip.sweep (swept_command env
      (c := .syncconf n (r.command env (.strip r.iface.conf)).iface.conf) rfl)
    split
    · exact hsync.setStarted true
    · exact applied_restartViaSystemctl inst hsync
  · exact applied_restartViaSystemctl inst hstrip

theorem syncFromSnapshot_applied (h : renderConfig inbound peers = .ok conf) :
    Applied inbound.interface conf s (syncFromSnapshot env inst g inbound peers s).1 := by
  have hwritten : Applied inbound.interface conf s (writeAndSave env g conf s).1 :=
    writeAndSave_applied hw g
  unfold syncFromSnapshot writeConfigSnapshot
  rw [h]
  dsimp only
  rw [andThen_of_none (writeAndSave_snd hw g)]
  split
  · exact hwritten
  · exact applied_syncInterface inst hwritten

end Applying

/-! ## A call on one interface -/

/-- The config file can be rendered. -/
def Renders (inbound : InboundConfig) : Prop := (renderInterface inbound).isOk = true

instance (inbound : InboundConfig) : Decidable (Renders inbound) :=
  inferInstanceAs (Decidable (_ = _))

theorem Renders.key (h : Renders inbound) : inbound.privateKey ≠ "" := by
  intro hkey
  rw [Renders, renderInterface_noKey hkey] at h
  cases h

theorem checkPeer_of_validatePeer {p : Peer} (h : validatePeer p = .ok ()) :
    checkPeer p = .ok () := by
  unfold validatePeer at h
  split at h
  · cases h
  · split at h
    · cases h
    · rename_i hkey hip
      have hkey' : p.publicKey ≠ "" := fun h0 => hkey (by rw [h0]; decide)
      have hip' : p.allowedIP ≠ "" := fun h0 => hip (by rw [h0]; decide)
      simp [checkPeer, hkey, hip, hkey', hip']

theorem mem_sortedPeers {peers : Peers} {p : Peer} :
    p ∈ sortedPeers peers ↔ ∃ e ∈ peers.entries, e.2 = p := by
  simp [sortedPeers, List.mem_insertionSort, OrderedMap.values]

/-- The commands that bring this interface up do so from a file with these peers. -/
def Fits (install : InboundConfig) (peers : Peers) (c : Cmd) : Prop :=
  ∀ b, c.bringsUp = some b →
    b.1 = install.interface ∧ b.2.map Conf.peers = some (sortedPeers peers)

/-- A restart restores memory still, and what was brought up has the peers held. -/
structure Moved {κ : Type} (install : InboundConfig) (s r : Session κ) : Prop where
  loaded : Loaded install r.iface
  issued : Issued (Fits install r.iface.peers) s r

section OneInterface

variable {κ : Type} {env : Env κ} {install : InboundConfig} {s r t : Session κ}
  {wire : InboundCfgWire} {port : Int} {userID : String} {next : Option ChainTProxy}
  {st : SavedState} {held new : InboundConfig}

theorem Sane.renderConfig (h : Sane install st) (hr : Renders st.inbound) :
    ∃ conf, renderConfig st.inbound (sortedPeers st.peers) = .ok conf ∧
      conf.peers = sortedPeers st.peers := by
  unfold Renders at hr
  cases hi : renderInterface st.inbound with
  | error e =>
    rw [hi] at hr
    cases hr
  | ok conf =>
    refine ⟨_, renderConfig_of_renderInterface hi ?_, rfl⟩
    intro p hp
    obtain ⟨e, he, rfl⟩ := mem_sortedPeers.mp hp
    exact checkPeer_of_validatePeer (h.peers e he)

theorem Moved.of_swept (h : Loaded install s.iface) (hs : Swept s r) : Moved install s r := by
  refine ⟨by rw [hs.iface]; exact h, hs.issued.mono ?_⟩
  intro c hc b hb
  rw [hc] at hb
  cases hb

theorem Moved.refl (h : Loaded install s.iface) : Moved install s s := .of_swept h (.refl s)

theorem Moved.of_applied {conf : Conf} (hsane : Sane install t.iface.state)
    (hissued : t.issued = s.issued) (hpeers : conf.peers = sortedPeers t.iface.peers)
    (h : Applied t.iface.inbound.interface conf t r) : Moved install s r := by
  have hstate := h.state
  have hrpeers : r.iface.peers = t.iface.peers := congrArg SavedState.peers hstate
  refine ⟨Sane.loaded (by rw [hstate]; exact hsane) (by rw [h.saved, hstate]), ?_⟩
  obtain ⟨cs, hcs, hfits⟩ := h.issued
  refine ⟨cs, by rw [hcs, hissued], ?_⟩
  intro c hc b hb
  rw [hfits c hc b hb, hrpeers, ← hpeers]
  exact ⟨hsane.interface, rfl⟩

variable (hw : env.Writes) (inst : Install) (g : Gen) {user : User}
include hw

theorem restartInterfaceFrom_moved (hsane : Sane install t.iface.state)
    (hissued : t.issued = s.issued) (hr : Renders t.iface.inbound) :
    Moved install s (restartInterfaceFrom env inst g t.iface.inbound (sortedPeers t.iface.peers)
      also t).1 := by
  obtain ⟨conf, hconf, hpeers⟩ := hsane.renderConfig hr
  exact .of_applied hsane hissued hpeers (restartInterfaceFrom_applied hw inst g hconf)

theorem syncConfigState_moved (hsane : Sane install t.iface.state)
    (hissued : t.issued = s.issued) (hr : Renders t.iface.inbound) :
    Moved install s (syncConfigState env inst g t).1 := by
  obtain ⟨conf, hconf, hpeers⟩ := hsane.renderConfig hr
  exact .of_applied hsane hissued hpeers (syncFromSnapshot_applied hw inst g hconf)

/-! ### Users -/

/-- Adding the user changes nothing, or the interface has a config to write the peer into. -/
def AddKept (i : Iface) (user : User) : Prop :=
  user.amneziaWGPublicKey = "" ∨ user.amneziaWGAllowedIP = "" ∨ validatePeer user.peer ≠ .ok () ∨
    i.peers.get? user.userID = some user.peer ∨ Renders i.inbound

/-- Removing the user changes nothing, or the interface has a config to write it into. -/
def RemovalKept (i : Iface) (userID : String) : Prop :=
  i.peers.get? userID = none ∨ Renders i.inbound

omit hw in
theorem not_remembered (hr : Renders t.iface.inbound) : remembered g t = false := by
  simp [remembered, hr.key]

omit hw in
theorem Sane.set_peer (h : Sane install st) (userID : String) {p : Peer}
    (hp : validatePeer p = .ok ()) : Sane install { st with peers := st.peers.set userID p } := by
  refine ⟨h.interface, h.postUp, h.postDown, h.listenPort, ?_⟩
  rintro ⟨k, v⟩ he
  have hget := (OrderedMap.get?_eq_some_iff _ k v).mpr he
  rw [OrderedMap.get?_set] at hget
  split at hget
  · obtain rfl := Option.some.inj hget
    exact hp
  · exact h.peers (k, v) ((OrderedMap.get?_eq_some_iff _ k v).mp hget)

omit hw in
theorem Sane.drop_peer (h : Sane install st) (userID : String) :
    Sane install { st with peers := st.peers.filter (· ≠ userID) } :=
  ⟨h.interface, h.postUp, h.postDown, h.listenPort,
    fun e he => h.peers e (List.mem_filter.mp he).1⟩

/-- Whatever becomes of a sync, memory is what it was. -/
theorem syncConfigState_state : (syncConfigState env inst g t).1.iface.state = t.iface.state := by
  cases hr : renderConfig t.iface.inbound (sortedPeers t.iface.peers) with
  | error e => simp [syncConfigState, syncFromSnapshot, writeConfigSnapshot, hr, andThen]
  | ok conf => exact (syncFromSnapshot_applied hw inst g hr).state

theorem addPeer_moved (h : Loaded install s.iface) (hk : AddKept s.iface user) :
    Moved install s (addPeer env inst g user s).1 := by
  unfold addPeer
  split
  · exact .refl h
  · rename_i hnone
    dsimp only
    split
    · exact .refl h
    · rename_i hvalid
      split
      · exact .refl h
      · rename_i hnew
        have hr : Renders s.iface.inbound := by
          rcases hk with hk | hk | hk | hk | hk
          · exact absurd (.inl hk) hnone
          · exact absurd (.inr hk) hnone
          · exact absurd hvalid hk
          · exact absurd hk hnew
          · exact hk
        have hsane := h.sane.set_peer user.userID hvalid
        have hfile : remembered g (s.setPeers (s.iface.peers.set user.userID user.peer)) = false :=
          not_remembered g hr
        rw [hfile]
        exact syncConfigState_moved hw inst g hsane rfl hr

theorem removeOne_moved (h : Loaded install s.iface)
    (hk : RemovalKept s.iface userID) : Moved install s (removeOne env inst g userID s).1 := by
  unfold removeOne
  split
  · exact .refl h
  · rename_i hheld
    have hr : Renders s.iface.inbound := hk.resolve_left hheld
    have hfile : remembered g (s.setPeers (s.iface.peers.filter (· ≠ userID))) = false :=
      not_remembered g hr
    dsimp only
    rw [hfile]
    exact syncConfigState_moved hw inst g (h.sane.drop_peer userID) rfl hr

/-- Nothing but the peer of one user changes. -/
structure OnlyUser (userID : String) (i r : Iface) : Prop where
  inbound : r.inbound = i.inbound
  inboundID : r.inboundID = i.inboundID
  peers : ∀ id, id ≠ userID → r.peers.get? id = i.peers.get? id

omit hw in
theorem OnlyUser.of_state {i r : Iface} (h : r.state = i.state) : OnlyUser userID i r :=
  ⟨congrArg SavedState.inbound h, congrArg SavedState.inboundID h,
    fun id _ => congrArg (fun st => st.peers.get? id) h⟩

omit hw in
theorem OnlyUser.trans {i r t : Iface} (h : OnlyUser userID i r)
    (h' : OnlyUser userID r t) : OnlyUser userID i t :=
  ⟨h'.inbound.trans h.inbound, h'.inboundID.trans h.inboundID,
    fun id hid => (h'.peers id hid).trans (h.peers id hid)⟩

omit hw in
theorem onlyUser_set (i : Iface) (p : Peer) :
    OnlyUser userID i { i with peers := i.peers.set userID p } := by
  refine ⟨rfl, rfl, fun id hid => ?_⟩
  rw [OrderedMap.get?_set, if_neg hid]

omit hw in
theorem onlyUser_filter (i : Iface) :
    OnlyUser userID i { i with peers := i.peers.filter (· ≠ userID) } := by
  refine ⟨rfl, rfl, fun id hid => ?_⟩
  rw [OrderedMap.get?_filter, if_pos (by simpa using hid)]

theorem addPeer_only (user : User) (s : Session κ) :
    OnlyUser user.userID s.iface (addPeer env inst g user s).1.iface := by
  have hrefl : OnlyUser user.userID s.iface s.iface := .of_state rfl
  unfold addPeer
  split
  · exact hrefl
  · split
    · exact hrefl
    · split
      · exact hrefl
      · dsimp only
        split
        · exact onlyUser_set s.iface user.peer
        · exact (onlyUser_set s.iface user.peer).trans (.of_state (syncConfigState_state hw inst g))

theorem removeOne_only (userID : String) (s : Session κ) :
    OnlyUser userID s.iface (removeOne env inst g userID s).1.iface := by
  unfold removeOne
  split
  · exact .of_state rfl
  · dsimp only
    split
    · exact onlyUser_filter s.iface
    · exact (onlyUser_filter s.iface).trans (.of_state (syncConfigState_state hw inst g))

/-- A removed user is no peer of the interface, whatever becomes of the sync. -/
theorem removeOne_gone (userID : String) (s : Session κ) :
    (removeOne env inst g userID s).1.iface.peers.get? userID = none := by
  have hgone : (s.iface.peers.filter (· ≠ userID)).get? userID = none := by
    rw [OrderedMap.get?_filter, if_neg (by simp)]
  unfold removeOne
  split
  · assumption
  · dsimp only
    split
    · exact hgone
    · have hstate := syncConfigState_state hw inst g
        (t := s.setPeers (s.iface.peers.filter (· ≠ userID)))
      rw [show (syncConfigState env inst g _).1.iface.peers = _ from
        congrArg SavedState.peers hstate]
      exact hgone

/-- The user is a peer of the interface where there is a peer to be. -/
def AddSettled (i : Iface) (user : User) : Prop :=
  user.amneziaWGPublicKey = "" ∨ user.amneziaWGAllowedIP = "" ∨
    i.peers.get? user.userID = some user.peer

theorem addPeer_settled (h : (addPeer env inst g user s).2 = none) :
    AddSettled (addPeer env inst g user s).1.iface user := by
  have hset : (s.iface.peers.set user.userID user.peer).get? user.userID = some user.peer := by
    rw [OrderedMap.get?_set, if_pos rfl]
  unfold addPeer at h ⊢
  split
  · rename_i hnone
    rcases hnone with hnone | hnone
    · exact .inl hnone
    · exact .inr (.inl hnone)
  · rename_i hsome
    rw [if_neg hsome] at h
    refine .inr (.inr ?_)
    split
    · rename_i e hrefused
      simp [hrefused] at h
    · split
      · assumption
      · dsimp only
        split
        · exact hset
        · have hstate := syncConfigState_state hw inst g
            (t := s.setPeers (s.iface.peers.set user.userID user.peer))
          rw [show (syncConfigState env inst g _).1.iface.peers = _ from
            congrArg SavedState.peers hstate]
          exact hset

omit hw in
theorem addPeer_quiet (hpeers : ∀ e ∈ s.iface.peers.entries, validatePeer e.2 = .ok ())
    (h : AddSettled s.iface user) : addPeer env inst g user s = (s, none) := by
  unfold addPeer
  split
  · rfl
  · rename_i hsome
    have hget : s.iface.peers.get? user.userID = some user.peer := by
      rcases h with h | h | h
      · exact absurd (.inl h) hsome
      · exact absurd (.inr h) hsome
      · exact h
    have hvalid := hpeers _ ((OrderedMap.get?_eq_some_iff _ _ _).mp hget)
    simp only at hvalid
    rw [hvalid]
    dsimp only
    rw [if_pos hget]

omit hw in
theorem removeOne_quiet (h : s.iface.peers.get? userID = none) :
    removeOne env inst g userID s = (s, none) := by
  unfold removeOne
  rw [if_pos h]

/-! ### Inbounds -/

omit hw in
theorem pushedInbound_ok (h : pushedInbound held port wire = .ok new) :
    new.interface = held.interface ∧ new.postUp = held.postUp ∧ new.postDown = held.postDown ∧
      new.chain = held.chain ∧
      new.listenPort = (if 0 < wire.listenPort then wire.listenPort
        else if port = 0 then held.listenPort else port) := by
  unfold pushedInbound at h
  split at h
  · cases h
  · rename_i c hc
    obtain rfl := Except.ok.inj h
    simp only [InboundCfgWire.toInboundConfig, Checked.bind_eq_ok, Checked.pure_eq_ok] at hc
    obtain ⟨_, -, _, -, rfl⟩ := hc
    exact ⟨rfl, rfl, rfl, rfl, rfl⟩

omit hw in
theorem eq_of_classifyDiff
    (h : pushedInbound held port wire = .ok new) (hdiff : classifyDiff held new = .none) :
    new = held := by
  obtain ⟨-, hup, hdown, hchain, -⟩ := pushedInbound_ok h
  unfold classifyDiff at hdiff
  split at hdiff
  · cases hdiff
  · rename_i haddr
    split at hdiff
    · cases hdiff
    · rename_i hrest
      simp only [ne_eq, not_or, Decidable.not_not] at haddr hrest
      obtain ⟨hkey, hport, hname, hobf, hgeo⟩ := hrest
      obtain ⟨_, _, _, _, _, _, _, _, _⟩ := held
      obtain ⟨_, _, _, _, _, _, _, _, _⟩ := new
      simp only at *
      simp [*]

/-- The push becomes the held inbound, before it is rendered. -/
def storesInbound (i : Iface) (new : InboundConfig) : Bool :=
  match classifyDiff i.inbound new with
  | .none => false
  | .subnet => decide ¬(0 < i.peers.size ∧ i.inbound.address ≠ "")
  | .restart => true

/-- The pushed id, where there is one. -/
def pushedID (i : Iface) (wire : InboundCfgWire) : String :=
  if wire.inboundId ≠ "" then wire.inboundId else i.inboundID

omit hw in
/-- A push either changes no more than the id the interface is bound to, or is stored and goes into
force. -/
theorem applyInboundOne_cases {new : InboundConfig}
    (h : pushedInbound s.iface.inbound port wire = .ok new) :
    (storesInbound s.iface new = false ∧
      (applyInboundOne env inst g port wire s).1 = s.setInboundID (pushedID s.iface wire) ∧
      ((applyInboundOne env inst g port wire s).2 = none →
        classifyDiff s.iface.inbound new = .none)) ∨
    (storesInbound s.iface new = true ∧
      applyInboundOne env inst g port wire s =
        restartInterfaceFrom env inst g new (sortedPeers s.iface.peers) none
          ((s.setInboundID (pushedID s.iface wire)).setInbound new)) := by
  have hid : (if wire.inboundId ≠ "" then s.setInboundID wire.inboundId else s) =
      s.setInboundID (pushedID s.iface wire) := by
    unfold pushedID
    split <;> rfl
  have hinbound : (s.setInboundID (pushedID s.iface wire)).iface.inbound = s.iface.inbound := rfl
  have hpeers : (s.setInboundID (pushedID s.iface wire)).iface.peers = s.iface.peers := rfl
  unfold applyInboundOne storesInbound
  rw [h]
  dsimp only
  rw [hid, hinbound, hpeers]
  cases hdiff : classifyDiff s.iface.inbound new with
  | none => exact .inl ⟨rfl, rfl, fun _ => rfl⟩
  | restart => exact .inr ⟨rfl, rfl⟩
  | subnet =>
    dsimp only
    split
    · rename_i hheld
      exact .inl ⟨by simp [hheld.1, hheld.2], rfl, by simp⟩
    · rename_i hfree
      exact .inr ⟨decide_eq_true hfree, rfl⟩

/-- The push is stored only where it renders, and the id taken only where it is stored or already
held. -/
def InboundKept (i : Iface) (port : Int) (wire : InboundCfgWire) : Prop :=
  match pushedInbound i.inbound port wire with
  | .error _ => True
  | .ok new => if storesInbound i new then Renders new else pushedID i wire = i.inboundID

instance (i : Iface) (port : Int) (wire : InboundCfgWire) :
    Decidable (InboundKept i port wire) := by
  unfold InboundKept
  split <;> infer_instance

omit hw in
theorem Sane.pushed (h : Sane install st)
    {new : InboundConfig} (hnew : pushedInbound st.inbound port wire = .ok new) (id : String) :
    Sane install { st with inbound := new, inboundID := id } := by
  obtain ⟨hname, hup, hdown, -, hport⟩ := pushedInbound_ok hnew
  refine ⟨hname.trans h.interface, hup.trans h.postUp, hdown.trans h.postDown, ?_, h.peers⟩
  intro h0
  simp only [hport] at h0
  split at h0
  · omega
  · split at h0
    · exact h.listenPort h0
    · contradiction

theorem applyInboundOne_moved (h : Loaded install s.iface) (hk : InboundKept s.iface port wire) :
    Moved install s (applyInboundOne env inst g port wire s).1 := by
  unfold InboundKept at hk
  cases hnew : pushedInbound s.iface.inbound port wire with
  | error e =>
    unfold applyInboundOne
    rw [hnew]
    exact .refl h
  | ok new =>
    rw [hnew] at hk
    rcases applyInboundOne_cases inst g hnew with ⟨hst, heq, -⟩ | ⟨hst, heq⟩
    · rw [heq]
      simp only [hst, Bool.false_eq_true, if_false] at hk
      rw [hk]
      exact .refl h
    · rw [heq]
      simp only [hst, if_true] at hk
      exact restartInterfaceFrom_moved hw inst g (t :=
        (s.setInboundID (pushedID s.iface wire)).setInbound new) (h.sane.pushed hnew _) rfl hk

/-- Whatever becomes of a restart, memory is what it was. -/
theorem restartInterfaceFrom_state :
    (restartInterfaceFrom env inst g inbound peers also t).1.iface.state = t.iface.state := by
  cases hr : renderConfig inbound peers with
  | error e => simp [restartInterfaceFrom, hr]
  | ok conf => exact (restartInterfaceFrom_applied hw inst g hr).state

theorem applyInboundOne_peers (port : Int) (wire : InboundCfgWire) (s : Session κ) :
    (applyInboundOne env inst g port wire s).1.iface.peers = s.iface.peers := by
  cases hnew : pushedInbound s.iface.inbound port wire with
  | error e => simp [applyInboundOne, hnew]
  | ok new =>
    rcases applyInboundOne_cases inst g hnew with ⟨-, heq, -⟩ | ⟨-, heq⟩
    · rw [heq]
      rfl
    · rw [heq]
      exact congrArg SavedState.peers (restartInterfaceFrom_state hw inst g)

omit hw in
@[simp] theorem classifyDiff_self (c : InboundConfig) : classifyDiff c c = .none := by
  simp [classifyDiff]

omit hw in
theorem pushedInbound_again
    (h : pushedInbound held port wire = .ok new) : pushedInbound new port wire = .ok new := by
  obtain ⟨hname, hup, hdown, hchain, hport⟩ := pushedInbound_ok h
  unfold pushedInbound InboundCfgWire.toInboundConfig at h ⊢
  cases haddr : serverAddressFromSubnet wire.subnet with
  | error e => simp [haddr, bind, Except.bind] at h
  | ok address =>
    cases hgeo : wire.geometry with
    | error e => simp [haddr, hgeo, bind, Except.bind] at h
    | ok geometry =>
      simp only [haddr, hgeo, bind, Except.bind, pure, Except.pure, Except.ok.injEq] at h ⊢
      subst h
      simp only [InboundConfig.mk.injEq, and_true, true_and]
      split
      · rfl
      · split <;> rfl

omit hw in
theorem applyInboundOne_quiet (h : pushedInbound s.iface.inbound port wire = .ok s.iface.inbound)
    (hid : pushedID s.iface wire = s.iface.inboundID) :
    applyInboundOne env inst g port wire s = (s, none) := by
  have hs : (if wire.inboundId ≠ "" then s.setInboundID wire.inboundId else s) = s := by
    unfold pushedID at hid
    split
    · rename_i hne
      rw [if_pos hne] at hid
      rw [hid]
      rfl
    · rfl
  unfold applyInboundOne
  rw [h]
  dsimp only
  rw [hs, classifyDiff_self]

omit hw in
theorem render_of_restart (h : (restartInterfaceFrom env inst g inbound peers also s).2 = none) :
    ∃ conf, renderConfig inbound peers = .ok conf := by
  cases hr : renderConfig inbound peers with
  | error e => simp [restartInterfaceFrom, hr] at h
  | ok conf => exact ⟨conf, rfl⟩

/-- What an interface holds after a push it took. -/
theorem applyInboundOne_state (h : (applyInboundOne env inst g port wire s).2 = none) :
    ∃ new, pushedInbound s.iface.inbound port wire = .ok new ∧
      (applyInboundOne env inst g port wire s).1.iface.state =
        ⟨new, pushedID s.iface wire, s.iface.peers⟩ := by
  cases hnew : pushedInbound s.iface.inbound port wire with
  | error e => simp [applyInboundOne, hnew] at h
  | ok new =>
    refine ⟨new, rfl, ?_⟩
    rcases applyInboundOne_cases inst g hnew with ⟨-, heq, hnone⟩ | ⟨-, heq⟩
    · rw [heq, eq_of_classifyDiff hnew (hnone h)]
      rfl
    · rw [heq] at h ⊢
      obtain ⟨conf, hconf⟩ := render_of_restart inst g h
      exact (restartInterfaceFrom_applied hw inst g hconf).state

/-! ### Hand-offs -/

/-- The hand-off does not change, or the interface has a config to write it into. -/
def HandOffKept (i : Iface) (next : Option ChainTProxy) : Prop :=
  i.inbound.chain = next ∨ i.inbound.privateKey ≠ ""

/-- A hand-off is left as it is, remembered, refused, taken in place or brought up with. -/
theorem applyCascadeOne_cases (next : Option ChainTProxy) :
    let inbound := { s.iface.inbound with chain := next }
    let r := applyCascadeOne env inst g next s
    (s.iface.inbound.chain = next ∧ r = (s, none)) ∨
    (s.iface.inbound.privateKey = "" ∧ r = (s.setInbound inbound, none)) ∨
    (Swept s r.1 ∧ r.2 ≠ none) ∨
    (∃ conf, renderConfig inbound (sortedPeers s.iface.peers) = .ok conf ∧
      Applied inbound.interface conf (s.setInbound inbound) r.1) := by
  dsimp only
  by_cases hsame : s.iface.inbound.chain = next
  · exact .inl ⟨hsame, by simp [applyCascadeOne, hsame]⟩
  refine .inr ?_
  by_cases hkey : s.iface.inbound.privateKey = ""
  · exact .inl ⟨hkey, by simp [applyCascadeOne, hsame, hkey]⟩
  refine .inr ?_
  unfold applyCascadeOne
  rw [if_neg hsame, if_neg hkey]
  cases hr : renderConfig { s.iface.inbound with chain := next } (sortedPeers s.iface.peers) with
  | error e => exact .inl ⟨.refl s, by simp⟩
  | ok conf =>
    dsimp only
    split
    · -- in place: the new hooks are on disk, or the old ones are still held
      unfold applyCascadeLive
      have hswap := (swept_harmless env).swapChainLive s.iface.inbound.interface s.iface.inbound.chain next
        (s.setInbound { s.iface.inbound with chain := next })
      split
      · rename_i t e ht
        rw [ht] at hswap
        refine .inl ⟨?_, by simp⟩
        have hundo := hswap.trans
          ((swept_harmless env).undoSwap s.iface.inbound.interface s.iface.inbound.chain next t)
        obtain ⟨hiface, hissued⟩ := hundo
        refine ⟨?_, hissued⟩
        simp only [Session.setInbound, hiface]
      · rename_i t ht
        rw [ht] at hswap
        exact .inr ⟨conf, rfl, .after hswap (writeAndSave_applied hw g)⟩
    · exact .inr ⟨conf, rfl, restartInterfaceFrom_applied hw inst g hr⟩

theorem applyCascadeOne_moved (h : Loaded install s.iface)
    (hk : HandOffKept s.iface next) : Moved install s (applyCascadeOne env inst g next s).1 := by
  have hsame : s.iface.inbound.chain = next →
      s.setInbound { s.iface.inbound with chain := next } = s := by
    rintro rfl
    rfl
  rcases applyCascadeOne_cases hw inst g (s := s) next with
    ⟨-, heq⟩ | ⟨hkey, heq⟩ | ⟨hswept, -⟩ | ⟨conf, hconf, happ⟩
  · rw [heq]
    exact .refl h
  · rw [heq, hsame (hk.resolve_right (· hkey))]
    exact .refl h
  · exact .of_swept h hswept
  · have hsane : Sane install (s.setInbound { s.iface.inbound with chain := next }).iface.state :=
      ⟨h.sane.interface, h.sane.postUp, h.sane.postDown, h.sane.listenPort, h.sane.peers⟩
    exact .of_applied hsane rfl (renderConfig_ok hconf).2.1 happ

theorem applyCascadeOne_peers (next : Option ChainTProxy) (s : Session κ) :
    (applyCascadeOne env inst g next s).1.iface.peers = s.iface.peers := by
  rcases applyCascadeOne_cases hw inst g (s := s) next with
    ⟨-, heq⟩ | ⟨-, heq⟩ | ⟨hswept, -⟩ | ⟨conf, -, happ⟩
  · rw [heq]
  · rw [heq]
    rfl
  · rw [hswept.iface]
  · exact congrArg SavedState.peers happ.state

omit hw in
theorem applyCascadeOne_quiet (h : s.iface.inbound.chain = next) :
    applyCascadeOne env inst g next s = (s, none) := by
  simp [applyCascadeOne, h]

theorem applyCascadeOne_state (h : (applyCascadeOne env inst g next s).2 = none) :
    (applyCascadeOne env inst g next s).1.iface.state =
      { s.iface.state with inbound := { s.iface.inbound with chain := next } } := by
  rcases applyCascadeOne_cases hw inst g (s := s) next with
    ⟨hsame, heq⟩ | ⟨-, heq⟩ | ⟨-, hne⟩ | ⟨conf, -, happ⟩
  · rw [heq, ← hsame]
    rfl
  · rw [heq]
    rfl
  · exact absurd h hne
  · exact happ.state

/-! ### Interfaces that go down, and the start -/

theorem idleOne_saved (hsane : Sane install t.iface.state) (hissued : t.issued = s.issued)
    (hup : t.iface.inbound.privateKey ≠ "" ∨ t.iface.started = true) :
    Moved install s (idleOne env inst g t) := by
  have hno : ¬ (t.iface.inbound.privateKey = "" ∧ t.iface.started = false) := by
    rintro ⟨hkey, hst⟩
    rcases hup with h | h
    · exact h hkey
    · simp [hst] at h
  have hlands : (env.writeState t.kernel g).2.lands = true := by rw [hw.state]; rfl
  have hsane' : Sane install { t.iface.state with
      inbound := { t.iface.inbound with privateKey := "" } } :=
    ⟨hsane.interface, hsane.postUp, hsane.postDown, hsane.listenPort, hsane.peers⟩
  unfold idleOne
  rw [if_neg hno]
  dsimp only
  split
  · refine ⟨Sane.loaded hsane' ?_, .none hissued⟩
    simp [saveState, Session.setInbound, Session.setStarted, hlands, Iface.state]
  · refine ⟨Sane.loaded hsane' ?_, ?_⟩
    · simp [saveState, Session.setInbound, Session.setStarted, Session.command, hlands,
        Iface.state]
    · refine ⟨[.down t.iface.inbound.interface t.iface.conf], ?_, ?_⟩
      · simp [Session.command, saveState, Session.setInbound, Session.setStarted, hissued]
      · intro c hc b hb
        rw [List.mem_singleton.mp hc] at hb
        cases hb

theorem idleOne_moved (h : Loaded install s.iface) : Moved install s (idleOne env inst g s) := by
  by_cases hup : s.iface.inbound.privateKey ≠ "" ∨ s.iface.started = true
  · exact idleOne_saved hw inst g h.sane rfl hup
  · have hdown : s.iface.inbound.privateKey = "" ∧ s.iface.started = false := by
      simpa [not_or] using hup
    unfold idleOne
    rw [if_pos hdown]
    exact .refl h

omit hw in
theorem idleOne_state :
    (idleOne env inst g s).iface.state =
      { s.iface.state with inbound := { s.iface.inbound with privateKey := "" } } := by
  unfold idleOne
  split
  · rename_i hdown
    rw [← hdown.1]
    rfl
  · dsimp only
    split <;> rfl

/-- The id is kept, or the interface it is taken from goes down and is saved so. -/
def RetainKept (i : Iface) (keep : List String) : Prop :=
  i.inboundID = "" ∨ i.inboundID ∈ keep ∨ i.inbound.privateKey ≠ "" ∨ i.started = true

variable (env) in
omit hw in
theorem retainOne_state (keep : List String) (s : Session κ) :
    (retainOne env inst g keep s).iface.state =
      if s.iface.inboundID = "" ∨ s.iface.inboundID ∈ keep then s.iface.state
      else { s.iface.state with
        inboundID := "", inbound := { s.iface.inbound with privateKey := "" } } := by
  unfold retainOne
  split
  · rfl
  · rw [idleOne_state]
    rfl

theorem retainOne_moved {keep : List String} (h : Loaded install s.iface)
    (hk : RetainKept s.iface keep) : Moved install s (retainOne env inst g keep s) := by
  unfold retainOne
  split
  · exact .refl h
  · rename_i hgone
    have hup : s.iface.inbound.privateKey ≠ "" ∨ s.iface.started = true := by
      rcases hk with hk | hk | hk
      · exact absurd (.inl hk) hgone
      · exact absurd (.inr hk) hgone
      · exact hk
    have hsane := h.sane
    exact idleOne_saved hw inst g (t := s.setInboundID "")
      ⟨hsane.interface, hsane.postUp, hsane.postDown, hsane.listenPort, hsane.peers⟩ rfl hup

/-- A start leaves the interface alone, or puts its config into force. -/
theorem startOne_cases :
    startOne env inst g s = (s, none) ∨ (∃ e, startOne env inst g s = (s, some e)) ∨
    ∃ conf, renderConfig s.iface.inbound (sortedPeers s.iface.peers) = .ok conf ∧
      Applied s.iface.inbound.interface conf s (startOne env inst g s).1 := by
  unfold startOne writeConfigSnapshot
  dsimp only
  split
  · exact .inl rfl
  · cases hr : renderConfig s.iface.inbound (sortedPeers s.iface.peers) with
    | error e => exact .inr (.inl ⟨_, rfl⟩)
    | ok conf =>
      refine .inr (.inr ⟨conf, rfl, ?_⟩)
      have hwritten : Applied s.iface.inbound.interface conf s (writeAndSave env g conf s).1 :=
        writeAndSave_applied hw g
      dsimp only
      rw [andThen_of_none (writeAndSave_snd hw g)]
      split
      · exact hwritten.setStarted true
      · have hswept := hwritten.sweep (swept_sweepBeforeStart env inst s.iface.inbound.interface
          s.iface.inbound.chain (writeAndSave env g conf s).1)
        refine andThen_fst (P := Applied s.iface.inbound.interface conf s) hswept fun _ => ?_
        unfold startUp
        dsimp only
        split
        · exact (hswept.bringUp rfl).setStarted true
        · exact hswept.bringUp rfl

theorem startOne_state : (startOne env inst g s).1.iface.state = s.iface.state := by
  rcases startOne_cases hw inst g (s := s) with heq | ⟨_, heq⟩ | ⟨conf, -, happ⟩
  · rw [heq]
  · rw [heq]
  · exact happ.state

theorem startOne_moved (h : Loaded install s.iface) :
    Moved install s (startOne env inst g s).1 := by
  rcases startOne_cases hw inst g (s := s) with heq | ⟨_, heq⟩ | ⟨conf, hconf, happ⟩
  · rw [heq]
    exact .refl h
  · rw [heq]
    exact .refl h
  · exact .of_applied h.sane rfl (renderConfig_ok hconf).2.1 happ

end OneInterface

end Iceslab.Agent.Amneziawg
