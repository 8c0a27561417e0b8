import Iceslab.Agent.ChainManager

/-!
# What the chain manager keeps

The state machine of `ChainManager` over whole runs: any blocks, any answers of the engine, of the
file system and of the tunnel commands, and chain processes that exit and are respawned at any
point.

* `ManagerInv` — what every allowed step keeps: one process at most may be alive and the phase says
  which, and the file, the listeners and the accepted block belong together.
* `ManagerKept` — what the agent relies on, in a state and over the calls made from it.
* `manager_keeps_chain` — **it holds in every run in which no config write fails after its rename**.
* `failed_write_replaces_config` — one such write leaves the refused block in the file.
-/

set_option autoImplicit false

namespace Iceslab.Agent

open Machine

/-! ## Blocks -/

/-- What `applyBlock` asks of a block before it touches anything. -/
structure NodeChain.Valid (b : NodeChain) : Prop where
  engine : b.engine = chainEngine
  config : b.config.isEmpty = false
  tunnels : firstRefusal b.tunnels.toList = none

/-- Equal up to JSON white space in the config. -/
def SameBlock (a b : NodeChain) : Prop :=
  { b with config := a.config } = a ∧ a.config.compacted = b.config.compacted

/-- The ports a block names. -/
def NodeChain.ports (b : NodeChain) : List ReservedPort :=
  reservedPortsOf b.socks.toList (tproxyPortOf b)

theorem RawMessage.marshal_isSome (b : RawMessage) : b.marshal.isSome = true := by
  unfold RawMessage.marshal
  split
  · rfl
  · rename_i h
    rw [Option.isSome_map]
    exact RawMessage.compact_isSome (by simpa using h)

theorem marshalUserCore_isSome (u : Option ChainUserCore) : (marshalUserCore u).isSome = true := by
  cases u with
  | none => rfl
  | some u =>
    simp only [marshalUserCore, ChainUserCore.marshal]
    split
    · rfl
    · simp [RawMessage.marshal_isSome]

theorem NodeChain.marshal_isSome (b : NodeChain) : b.marshal.isSome = true := by
  obtain ⟨config, hc⟩ := Option.isSome_iff_exists.mp b.config.marshal_isSome
  obtain ⟨userCore, hu⟩ := Option.isSome_iff_exists.mp (marshalUserCore_isSome b.userCore)
  simp [NodeChain.marshal, hc, hu]

theorem RawMessage.isEmpty_eq_false_of_compact {b : RawMessage} {t : String}
    (h : JsonScan.compact b.text = some t) : b.isEmpty = false := by
  have hb : b.text ≠ "" := by
    intro he
    rw [he, JsonScan.compact_empty] at h
    cases h
  simpa [RawMessage.isEmpty] using hb

theorem RawMessage.isEmpty_compacted (b : RawMessage) : b.compacted.isEmpty = b.isEmpty := by
  unfold RawMessage.compacted
  split
  · rename_i t h
    rw [RawMessage.isEmpty_eq_false_of_compact h]
    exact RawMessage.isEmpty_eq_false_of_compact (JsonScan.compact_compact h)
  · rfl

variable {s' : ChainNode} {a b : NodeChain} {p : Subprocess}

theorem unchanged_of_same {m : Manager} {proc : Option Subprocess}
    (ha : m.accepted = some a) (hp : proc.any (·.running) = true) (hs : SameBlock a b) :
    unchanged m proc b = true := by
  have hab : compactBlock a = compactBlock b := by
    unfold compactBlock
    rw [← hs.2, ← hs.1]
  obtain ⟨x, hx⟩ := Option.isSome_iff_exists.mp (compactBlock a).marshal_isSome
  simp [unchanged, ha, hp, ← hab, hx]

theorem SameBlock.valid (hs : SameBlock a b) (ha : a.Valid) : b.Valid where
  engine := by rw [← ha.engine, ← hs.1]
  config := by rw [← b.config.isEmpty_compacted, ← hs.2, a.config.isEmpty_compacted, ha.config]
  tunnels := by rw [← ha.tunnels, ← hs.1]

/-! ## The processes -/

/-- Every process but the current one is gone, and a current one that `Stop` waits for is not
respawned. -/
def ProcsInv (current : Option Nat) (stopping : Bool) (procs : List Subprocess) : Prop :=
  ∀ i p, procs[i]? = some p →
    if current = some i then stopping = true → p.stopping = true else p.Gone

/-- The process that may be alive. -/
def ChainNode.current (s : ChainNode) : Option Nat :=
  match s.phase with
  | .stoppingOld _ i => some i
  | .started _ i => some i
  | .withdrawing p => p
  | .tunnels _ | .starting _ | .sweeping => none
  | _ => s.mgr.proc

/-- `Stop` waits for the current process. -/
def ChainNode.isStopping (s : ChainNode) : Bool :=
  match s.phase with
  | .stoppingOld .. | .withdrawing _ => true
  | _ => false

theorem getElem?_modify_some {procs : List Subprocess} {f : Subprocess → Subprocess} {i j : Nat}
    (h : (procs.modify i f)[j]? = some p) :
    ∃ q, procs[j]? = some q ∧ p = if i = j then f q else q := by
  rw [List.getElem?_modify] at h
  cases hq : procs[j]? with
  | none => simp [hq] at h
  | some q =>
    refine ⟨q, rfl, ?_⟩
    rw [hq] at h
    simp only [Option.map_eq_map, Option.map_some, Option.some.injEq] at h
    exact h.symm

section Procs

variable {current : Option Nat} {stopping : Bool} {procs : List Subprocess} {i : Nat}

theorem ProcsInv.modify (h : ProcsInv current stopping procs) {f : Subprocess → Subprocess}
    (hg : ∀ p : Subprocess, p.Gone → (f p).Gone) (hs : ∀ p, (f p).stopping = p.stopping)
    (i : Nat) : ProcsInv current stopping (procs.modify i f) := by
  intro j p hp
  obtain ⟨q, hq, rfl⟩ := getElem?_modify_some hp
  have := h j q hq
  split at this
  · rename_i hc
    rw [if_pos hc]
    intro hst
    split
    · rw [hs, this hst]
    · exact this hst
  · rename_i hc
    rw [if_neg hc]
    split
    · exact hg q this
    · exact this

theorem ProcsInv.stop (h : ProcsInv (some i) stopping procs) :
    ProcsInv (some i) true (procs.modify i Subprocess.stop) := by
  intro j p hp
  obtain ⟨q, hq, rfl⟩ := getElem?_modify_some hp
  by_cases hij : i = j
  · rw [if_pos (by rw [hij]), if_pos hij]
    intro
    rfl
  · have := h j q hq
    rw [if_neg (by simpa using hij)] at this
    rw [if_neg (by simpa using hij), if_neg hij]
    exact this

theorem ProcsInv.gone (h : ProcsInv none stopping procs) (hp : procs[i]? = some p) : p.Gone := by
  simpa using h i p hp

/-- The wait of `Stop` is over: nothing may be alive. -/
theorem ProcsInv.stopped (h : ProcsInv (some i) true procs)
    (hi : (procs[i]?).any (·.alive) = false) : ProcsInv none false procs := by
  intro j p hp
  rw [if_neg (by simp)]
  have := h j p hp
  split at this
  · rename_i hij
    cases hij
    exact Subprocess.gone_of_stopped (this rfl) (by simpa [hp] using hi)
  · exact this

theorem ProcsInv.ofGone (h : ProcsInv none stopping procs) (current : Option Nat) :
    ProcsInv current false procs := by
  intro j p hp
  split
  · intro hf
    cases hf
  · exact h.gone hp

theorem ProcsInv.start (h : ProcsInv none stopping procs) (q : Subprocess) :
    ProcsInv (some procs.length) false (procs ++ [q]) := by
  intro j p hp
  split
  · intro hf
    cases hf
  · rename_i hj
    have hne : j ≠ procs.length := fun he => hj (by rw [he])
    have hlt : j < procs.length := by
      have := (List.getElem?_eq_some_iff.mp hp).1
      simp at this
      omega
    rw [List.getElem?_append_left hlt] at hp
    exact h.gone hp

theorem ProcsInv.weaken (h : ProcsInv current stopping procs) : ProcsInv current false procs := by
  intro j p hp
  have := h j p hp
  split at this
  · rename_i hc
    rw [if_pos hc]
    intro hf
    cases hf
  · rename_i hc
    rw [if_neg hc]
    exact this

theorem ProcsInv.unique (h : ProcsInv current stopping procs)
    (hp : procs[i]? = some p) (ha : p.alive = true) : current = some i := by
  have := h i p hp
  split at this
  · assumption
  · simp [this.1] at ha

end Procs

theorem Manager.readVersion_eq (m : Manager) (out : Option String) :
    ∃ v, m.readVersion out = { m with version := v } := by
  unfold Manager.readVersion
  split
  · exact ⟨m.version, rfl⟩
  · split
    · exact ⟨_, rfl⟩
    · exact ⟨m.version, rfl⟩

theorem Manager.proc_readVersion (m : Manager) (out : Option String) :
    (m.readVersion out).proc = m.proc := by
  obtain ⟨v, hv⟩ := m.readVersion_eq out
  rw [hv]

variable {s : ChainNode}

theorem procsInv_apply {cfg : ManagerConfig} {block : Option NodeChain}
    (h : ProcsInv s.current s.isStopping s.procs) :
    ProcsInv (s.step cfg (.apply block)).current (s.step cfg (.apply block)).isStopping
      (s.step cfg (.apply block)).procs := by
  unfold ChainNode.step
  dsimp only
  split
  · rename_i hp
    have hc : s.current = s.mgr.proc := by simp [ChainNode.current, hp]
    rw [hc] at h
    unfold ChainNode.applyNil
    cases hm : s.mgr.proc with
    | none =>
      rw [hm] at h
      intro i p hi
      rw [if_neg (by simp [ChainNode.current])]
      exact h.gone hi
    | some i =>
      rw [hm] at h
      exact h.stop
  · rename_i b hp
    have hc : s.current = s.mgr.proc := by simp [ChainNode.current, hp]
    rw [hc] at h
    unfold ChainNode.applyBlock
    split
    · exact h.weaken
    · split
      · exact h.weaken
      · split
        · exact h.weaken
        · split
          · rw [hc]
            exact h
          · split
            · exact h.weaken
            · exact h.weaken
  · exact h

theorem procsInv_next {cfg : ManagerConfig} (a : PieceAnswers)
    (h : ProcsInv s.current s.isStopping s.procs) :
    ProcsInv (s.next cfg a).current (s.next cfg a).isStopping (s.next cfg a).procs := by
  unfold ChainNode.next
  split
  case h_1 => exact h
  case h_2 b hp =>
    simp only [ChainNode.current, ChainNode.isStopping, hp] at h
    split <;> exact h
  case h_3 b hp =>
    simp only [ChainNode.current, ChainNode.isStopping, hp] at h
    dsimp only
    split <;> split <;> exact h
  case h_4 b hp =>
    simp only [ChainNode.current, ChainNode.isStopping, hp] at h
    dsimp only
    split
    · rename_i old ho
      have ho : s.mgr.proc = some old := ho
      rw [ho] at h
      exact h.stop
    · rename_i ho
      have ho : s.mgr.proc = none := ho
      rw [ho] at h
      exact h
  case h_5 b old hp =>
    split
    · exact h
    · rename_i ha
      simp only [ChainNode.current, ChainNode.isStopping, hp] at h
      exact h.stopped (by simpa [ChainNode.isAlive] using ha)
  case h_6 b hp =>
    simp only [ChainNode.current, ChainNode.isStopping, hp] at h
    split
    · exact h.ofGone _
    · exact h
  case h_7 b hp =>
    simp only [ChainNode.current, ChainNode.isStopping, hp] at h
    split
    · exact h.ofGone _
    · exact h.start _
  case h_8 b i hp =>
    simp only [ChainNode.current, ChainNode.isStopping, hp] at h
    exact h
  case h_9 hp =>
    simp only [ChainNode.current, ChainNode.isStopping, hp] at h
    simp only [ChainNode.current, ChainNode.isStopping, Manager.proc_readVersion]
    exact h
  case h_10 hp =>
    simp only [ChainNode.current, ChainNode.isStopping, hp] at h
    exact h.ofGone _
  case h_11 p hp =>
    split
    · exact h
    · rename_i ha
      simp only [ChainNode.current, ChainNode.isStopping, hp] at h
      exact h.stopped (by simpa [ChainNode.isAlive] using ha)
  case h_12 hp =>
    simp only [ChainNode.current, ChainNode.isStopping, hp] at h
    exact h.ofGone _

/-- **A step keeps one process at most.** -/
theorem procsInv_step (cfg : ManagerConfig)
    (h : ProcsInv s.current s.isStopping s.procs) (e : ChainEvent) :
    ProcsInv (s.step cfg e).current (s.step cfg e).isStopping (s.step cfg e).procs := by
  cases e with
  | apply block => exact procsInv_apply h
  | next a => exact procsInv_next a h
  | exits i reason stable =>
    exact h.modify (fun p hp => hp.exits reason stable) (fun p => p.stopping_exits reason stable) i
  | backoffOver i cancelled spawnFails =>
    exact h.modify (fun p hp => hp.backoffOver cancelled spawnFails)
      (fun p => p.stopping_backoffOver cancelled spawnFails) i

/-! ## The books -/

/-- A config write that fails after its rename: the new file is in place. -/
def failsInPlace (cfg : ManagerConfig) (s : ChainNode) : ChainEvent → Bool
  | .next a =>
    match s.phase, writeConfig cfg a with
    | .writing _, .failedInPlace _ => true
    | _, _ => false
  | _ => false

/-- The block an `Apply` has not recorded yet. -/
def ApplyPhase.block : ApplyPhase → Option NodeChain
  | .checking b | .writing b | .written b => some b
  | _ => none

/-- The block whose config is written and not recorded yet. -/
def ApplyPhase.writtenBlock : ApplyPhase → Option NodeChain
  | .written b => some b
  | _ => none

theorem ApplyPhase.writtenBlock_eq_none {ph : ApplyPhase} (h : ph.block = none) :
    ph.writtenBlock = none := by
  cases ph <;> first | rfl | cases h

/-- The block whose config the file holds while `b` is the accepted one: `b`, but for the instant
between the next config's write and its record. -/
def ChainNode.landed (s : ChainNode) (b : NodeChain) : NodeChain := s.phase.writtenBlock.getD b

structure BookInv (s : ChainNode) : Prop where
  pending : ∀ b, s.phase.block = some b → b.Valid
  written : ∀ b, s.phase.writtenBlock = some b → s.file = some b.config.text
  valid : ∀ a, s.mgr.accepted = some a → a.Valid
  ports : ∀ a, s.mgr.accepted = some a → s.mgr.reservedPorts = a.ports
  file : ∀ a, s.mgr.accepted = some a → s.file = some (s.landed a).config.text

/-- A step that touches neither the books nor the file. -/
theorem BookInv.move (h : BookInv s) (hw : s.phase.writtenBlock = none)
    (ha : s'.mgr.accepted = s.mgr.accepted) (hp : s'.mgr.reservedPorts = s.mgr.reservedPorts)
    (hf : s'.file = s.file) (hv : ∀ b, s'.phase.block = some b → b.Valid)
    (hw' : s'.phase.writtenBlock = none) : BookInv s' where
  pending := hv
  written b hb := by
    rw [hw'] at hb
    cases hb
  valid a hs := h.valid a (by rw [← ha, hs])
  ports a hs := by rw [hp, h.ports a (by rw [← ha, hs])]
  file a hs := by
    rw [hf, h.file a (by rw [← ha, hs]), ChainNode.landed, ChainNode.landed, hw, hw']

theorem BookInv.leave (h : BookInv s) (hw : s.phase.writtenBlock = none)
    (ha : s'.mgr.accepted = s.mgr.accepted) (hp : s'.mgr.reservedPorts = s.mgr.reservedPorts)
    (hf : s'.file = s.file) (hb : s'.phase.block = none) : BookInv s' := by
  refine h.move hw ha hp hf ?_ (ApplyPhase.writtenBlock_eq_none hb)
  intro b hb'
  rw [hb] at hb'
  cases hb'

theorem BookInv.refuse (h : BookInv s) (hw : s.phase.writtenBlock = none)
    (e : ChainError) : BookInv (s.refuse e) :=
  h.leave hw rfl rfl rfl rfl

theorem bookInv_applyNil : BookInv s.applyNil where
  pending b hb := by cases hb
  written b hb := by cases hb
  valid a ha := by cases ha
  ports a ha := by cases ha
  file a ha := by cases ha

theorem bookInv_applyBlock {cfg : ManagerConfig} (h : BookInv s)
    (hi : s.phase = .idle) (b : NodeChain) : BookInv (s.applyBlock cfg b) := by
  have hw : s.phase.writtenBlock = none := by rw [hi]; rfl
  unfold ChainNode.applyBlock
  split
  · exact h.refuse hw _
  rename_i he
  split
  · exact h.refuse hw _
  rename_i hc
  split
  · exact h.refuse hw _
  rename_i ht
  split
  · exact h
  split
  · exact h.refuse hw _
  · refine h.move hw rfl rfl rfl ?_ rfl
    intro b' hb
    cases hb
    exact ⟨by simpa using he, by simpa using hc, ht⟩

theorem bookInv_accept (h : BookInv s)
    (hp : s.phase = .written b) (hm : s'.mgr = s.mgr.accept b) (hf : s'.file = s.file)
    (hb : s'.phase.block = none) : BookInv s' where
  pending b' hb' := by
    rw [hb] at hb'
    cases hb'
  written b' hb' := by
    rw [ApplyPhase.writtenBlock_eq_none hb] at hb'
    cases hb'
  valid a ha := by
    rw [hm] at ha
    cases ha
    exact h.pending b (by rw [hp]; rfl)
  ports a ha := by
    rw [hm] at ha
    cases ha
    rw [hm]
    rfl
  file a ha := by
    rw [hm] at ha
    cases ha
    rw [hf, h.written b (by rw [hp]; rfl), ChainNode.landed,
      ApplyPhase.writtenBlock_eq_none hb]
    rfl

theorem bookInv_next {cfg : ManagerConfig} (h : BookInv s) (a : PieceAnswers)
    (ha : failsInPlace cfg s (.next a) = false) : BookInv (s.next cfg a) := by
  unfold ChainNode.next
  split
  case h_1 => exact h
  case h_2 b hp =>
    have hw : s.phase.writtenBlock = none := by rw [hp]; rfl
    split
    · exact h.refuse hw _
    · refine h.move hw rfl rfl rfl ?_ rfl
      intro b' hb
      cases hb
      exact h.pending b (by rw [hp]; rfl)
  case h_3 b hp =>
    have hw : s.phase.writtenBlock = none := by rw [hp]; rfl
    simp only [failsInPlace, hp] at ha
    cases hwr : writeConfig cfg a with
    | done =>
      refine ⟨?_, ?_, h.valid, h.ports, fun a ha => rfl⟩
      · intro b' hb
        cases hb
        exact h.pending b (by rw [hp]; rfl)
      · intro b' hb
        cases hb
        rfl
    | failed e => exact h.refuse hw _
    | failedInPlace e => simp [hwr] at ha
  case h_4 b hp =>
    dsimp only
    split
    · exact bookInv_accept h hp rfl rfl rfl
    · exact bookInv_accept h hp rfl rfl rfl
  case h_5 b old hp =>
    have hw : s.phase.writtenBlock = none := by rw [hp]; rfl
    split
    · exact h
    · exact h.leave hw rfl rfl rfl rfl
  case h_6 b hp =>
    have hw : s.phase.writtenBlock = none := by rw [hp]; rfl
    split
    · exact h.leave hw rfl rfl rfl rfl
    · exact h.leave hw rfl rfl rfl rfl
  case h_7 b hp =>
    have hw : s.phase.writtenBlock = none := by rw [hp]; rfl
    split
    · exact h.refuse hw _
    · exact h.leave hw rfl rfl rfl rfl
  case h_8 b i hp => exact h.leave (by rw [hp]; rfl) rfl rfl rfl rfl
  case h_9 hp =>
    obtain ⟨v, hv⟩ := s.mgr.readVersion_eq a.version
    refine h.leave (by rw [hp]; rfl) ?_ ?_ rfl rfl
    · simp only [hv]
    · simp only [hv, Manager.reservedPorts]
  case h_10 hp => exact h.leave (by rw [hp]; rfl) rfl rfl rfl rfl
  case h_11 p hp =>
    split
    · exact h
    · exact h.leave (by rw [hp]; rfl) rfl rfl rfl rfl
  case h_12 hp => exact h.leave (by rw [hp]; rfl) rfl rfl rfl rfl

/-- **A step that does not fail its write in place keeps the books.** -/
theorem bookInv_step {cfg : ManagerConfig} (h : BookInv s) (e : ChainEvent)
    (he : failsInPlace cfg s e = false) : BookInv (s.step cfg e) := by
  cases e with
  | apply block =>
    unfold ChainNode.step
    dsimp only
    split
    · exact bookInv_applyNil
    · rename_i b hi
      exact bookInv_applyBlock h hi b
    · exact h
  | next a => exact bookInv_next h a he
  | exits i reason stable => exact ⟨h.pending, h.written, h.valid, h.ports, h.file⟩
  | backoffOver i cancelled spawnFails => exact ⟨h.pending, h.written, h.valid, h.ports, h.file⟩

/-! ## Calls -/

/-- What the exits and the backoffs of a run do to the processes. -/
def crashed (procs : List Subprocess) : ChainEvent → List Subprocess
  | .exits i reason stable => procs.modify i (·.exits reason stable)
  | .backoffOver i cancelled spawnFails => procs.modify i (·.backoffOver cancelled spawnFails)
  | _ => procs

/-- Nothing but the processes' own exits and respawns happened to what the chain runs on. -/
structure Untouched (es : List ChainEvent) (s s' : ChainNode) : Prop where
  proc : s'.mgr.proc = s.mgr.proc
  procs : s'.procs = es.foldl crashed s.procs
  file : s'.file = s.file
  accepted : s'.mgr.accepted = s.mgr.accepted
  ports : s'.mgr.reservedPorts = s.mgr.reservedPorts
  host : s'.host = s.host

theorem Untouched.trans {es es' : List ChainEvent} {s s' s'' : ChainNode}
    (h : Untouched es s s') (h' : Untouched es' s' s'') : Untouched (es ++ es') s s'' where
  proc := h'.proc.trans h.proc
  procs := by rw [h'.procs, h.procs, List.foldl_append]
  file := h'.file.trans h.file
  accepted := h'.accepted.trans h.accepted
  ports := h'.ports.trans h.ports
  host := h'.host.trans h.host

/-- One whole call of `Apply`. -/
structure IsCall (s : ChainNode) (block : Option NodeChain)
    (steps : List (ChainNode × ChainEvent × ChainNode)) (s' : ChainNode) : Prop where
  begins : s.phase = .idle
  pieces : ∃ s₁ rest, steps = (s, .apply block, s₁) :: rest ∧ ∀ st ∈ rest, st.1.phase ≠ .idle
  ends : s'.phase = .idle

/-- The block of the call is not accepted: its config is never written to the end. -/
def NotWritten (b : NodeChain) (steps : List (ChainNode × ChainEvent × ChainNode)) : Prop :=
  ∀ st ∈ steps, st.1.phase ≠ .written b

/-- Nothing is held, reserved or running, and nothing will be respawned. -/
structure Withdrawn (s : ChainNode) : Prop where
  held : s.mgr.held = false
  accepted : s.mgr.accepted = none
  ports : s.mgr.reservedPorts = []
  proc : s.mgr.proc = none
  procs : ∀ p ∈ s.procs, p.Gone
  status : s.status = none

/-- What the agent relies on, in a state of a machine and over the calls made from it. -/
structure ManagerKept (cfg : ManagerConfig) (m : Machine ChainNode ChainEvent) (s : ChainNode) :
    Prop where
  one : ∀ (i j : Nat) (p q : Subprocess), s.procs[i]? = some p → p.alive = true → s.procs[j]? = some q →
    q.alive = true → i = j
  file : ∀ b, s.mgr.accepted = some b → s.file = some (s.landed b).config.text
  ports : ∀ b, s.mgr.accepted = some b → s.mgr.reservedPorts = b.ports
  refused : ∀ b steps s', m.Run s steps s' → IsCall s (some b) steps s' → NotWritten b steps →
    Untouched (steps.map (·.2.1)) s s'
  repeated : ∀ a b, s.phase = .idle → s.mgr.accepted = some a → SameBlock a b →
    s.procOf.any (·.running) = true → s.step cfg (.apply (some b)) = s
  withdrawn : ∀ steps s', m.Run s steps s' → IsCall s none steps s' → Withdrawn s'

/-! ## A refused call -/

theorem Untouched.refl (s : ChainNode) : Untouched [] s s := ⟨rfl, rfl, rfl, rfl, rfl, rfl⟩

theorem untouched_refuse (s : ChainNode) (a : PieceAnswers) (e : ChainError) :
    Untouched [.next a] s (s.refuse e) := ⟨rfl, rfl, rfl, rfl, rfl, rfl⟩

/-- Where a call of `Apply b` stands until `b` is recorded. -/
def Early (b : NodeChain) (ph : ApplyPhase) : Prop :=
  ph = .idle ∨ ph = .checking b ∨ ph = .writing b ∨ ph = .written b

theorem untouched_applyBlock (cfg : ManagerConfig) (hi : s.phase = .idle) (b : NodeChain) :
    Untouched [.apply (some b)] s (s.applyBlock cfg b) ∧ Early b (s.applyBlock cfg b).phase := by
  unfold ChainNode.applyBlock
  split
  · exact ⟨⟨rfl, rfl, rfl, rfl, rfl, rfl⟩, .inl rfl⟩
  split
  · exact ⟨⟨rfl, rfl, rfl, rfl, rfl, rfl⟩, .inl rfl⟩
  split
  · exact ⟨⟨rfl, rfl, rfl, rfl, rfl, rfl⟩, .inl rfl⟩
  split
  · exact ⟨⟨rfl, rfl, rfl, rfl, rfl, rfl⟩, .inl hi⟩
  split
  · exact ⟨⟨rfl, rfl, rfl, rfl, rfl, rfl⟩, .inl rfl⟩
  · exact ⟨⟨rfl, rfl, rfl, rfl, rfl, rfl⟩, .inr (.inl rfl)⟩

/-- A piece of the call before the config is written; the write itself is the last. -/
theorem untouched_early {cfg : ManagerConfig} {e : ChainEvent}
    (hp : s.phase = .checking b ∨ s.phase = .writing b) (he : failsInPlace cfg s e = false)
    (hw : (s.step cfg e).phase ≠ .written b) :
    Untouched [e] s (s.step cfg e) ∧ Early b (s.step cfg e).phase := by
  cases e with
  | apply block =>
    have : s.step cfg (.apply block) = s := by
      unfold ChainNode.step
      rcases hp with hp | hp <;> rw [hp]
    rw [this]
    exact ⟨⟨rfl, rfl, rfl, rfl, rfl, rfl⟩, .inr (hp.elim .inl (fun h => .inr (.inl h)))⟩
  | next a =>
    rcases hp with hp | hp
    · simp only [ChainNode.step, ChainNode.next, hp]
      split
      · exact ⟨untouched_refuse s a _, .inl rfl⟩
      · exact ⟨⟨rfl, rfl, rfl, rfl, rfl, rfl⟩, .inr (.inr (.inl rfl))⟩
    · simp only [ChainNode.step, ChainNode.next, hp] at hw ⊢
      simp only [failsInPlace, hp] at he
      cases hwr : writeConfig cfg a with
      | done => simp [hwr, WriteOutcome.err] at hw
      | failed err => exact ⟨untouched_refuse s a _, .inl rfl⟩
      | failedInPlace err => simp [hwr] at he
  | exits i reason stable =>
    exact ⟨⟨rfl, rfl, rfl, rfl, rfl, rfl⟩, .inr (hp.elim .inl (fun h => .inr (.inl h)))⟩
  | backoffOver i cancelled spawnFails =>
    exact ⟨⟨rfl, rfl, rfl, rfl, rfl, rfl⟩, .inr (hp.elim .inl (fun h => .inr (.inl h)))⟩

section Runs

variable {cfg : ManagerConfig} {allowed : ChainNode → ChainEvent → Prop}
  {steps : List (ChainNode × ChainEvent × ChainNode)}

theorem untouched_run (hok : ∀ s e, allowed s e → failsInPlace cfg s e = false)
    (h : (chainMachine cfg allowed).Run s steps s') (hs : Early b s.phase)
    (hne : ∀ st ∈ steps, st.1.phase ≠ .idle) (hnw : NotWritten b steps) (he : s'.phase = .idle) :
    Untouched (steps.map (·.2.1)) s s' := by
  induction h with
  | nil s => exact .refl s
  | @cons s s₁ s' e steps hstep hrun ih =>
    obtain ⟨hal, rfl⟩ := hstep
    have hp : s.phase = .checking b ∨ s.phase = .writing b := by
      rcases hs with hs | hs | hs | hs
      · exact absurd hs (hne _ List.mem_cons_self)
      · exact .inl hs
      · exact .inr hs
      · exact absurd hs (hnw _ List.mem_cons_self)
    have hw : (s.step cfg e).phase ≠ .written b := by
      cases hrun with
      | nil => rw [he]; intro hf; cases hf
      | cons hs₁ hr₁ => exact hnw _ (List.mem_cons_of_mem _ List.mem_cons_self)
    obtain ⟨hu, hearly⟩ := untouched_early hp (hok s e hal) hw
    exact hu.trans (ih hearly (fun st hst => hne st (List.mem_cons_of_mem _ hst))
      (fun st hst => hnw st (List.mem_cons_of_mem _ hst)) he)

/-- **A call that is refused before its config is written leaves everything as it was.** -/
theorem untouched_of_refused (hok : ∀ s e, allowed s e → failsInPlace cfg s e = false)
    (h : (chainMachine cfg allowed).Run s steps s') (hc : IsCall s (some b) steps s')
    (hnw : NotWritten b steps) : Untouched (steps.map (·.2.1)) s s' := by
  obtain ⟨hi, ⟨s₁, rest, rfl, hne⟩, he⟩ := hc
  cases h with
  | cons hstep hrun =>
    obtain ⟨-, rfl⟩ := hstep
    have hstep : s.step cfg (.apply (some b)) = s.applyBlock cfg b := by
      unfold ChainNode.step
      rw [hi]
    rw [hstep] at hrun hnw ⊢
    obtain ⟨hu, hearly⟩ := untouched_applyBlock cfg hi b
    exact hu.trans (untouched_run hok hrun hearly hne
      (fun st hst => hnw st (List.mem_cons_of_mem _ hst)) he)

/-! ## A withdrawal -/

/-- A call of `Apply(nil)` under way or done. -/
structure Leaving (s : ChainNode) : Prop where
  mgr : ∃ v, s.mgr = { Manager.new with version := v }
  phase : s.phase = .idle ∨ s.phase = .sweeping ∨ ∃ p, s.phase = .withdrawing p
  procs : ProcsInv s.current s.isStopping s.procs

theorem leaving_step (cfg : ManagerConfig) (h : Leaving s) (hp : s.phase ≠ .idle)
    (e : ChainEvent) : Leaving (s.step cfg e) := by
  refine ⟨?_, ?_, procsInv_step cfg h.procs e⟩
  · cases e with
    | apply block =>
      unfold ChainNode.step
      dsimp only
      split
      · rename_i hi
        exact absurd hi hp
      · rename_i hi
        exact absurd hi hp
      · exact h.mgr
    | next a =>
      rcases h.phase with hph | hph | ⟨_ | p, hph⟩
      · exact absurd hph hp
      · simpa [ChainNode.step, ChainNode.next, hph] using h.mgr
      · simpa [ChainNode.step, ChainNode.next, hph] using h.mgr
      · simp only [ChainNode.step, ChainNode.next, hph]
        split <;> exact h.mgr
    | exits i reason stable => exact h.mgr
    | backoffOver i cancelled spawnFails => exact h.mgr
  · cases e with
    | apply block =>
      unfold ChainNode.step
      dsimp only
      split
      · rename_i hi
        exact absurd hi hp
      · rename_i hi
        exact absurd hi hp
      · exact h.phase
    | next a =>
      rcases h.phase with hph | hph | ⟨_ | p, hph⟩
      · exact absurd hph hp
      · simp [ChainNode.step, ChainNode.next, hph]
      · simp [ChainNode.step, ChainNode.next, hph]
      · simp only [ChainNode.step, ChainNode.next, hph]
        split
        · exact h.phase
        · exact .inr (.inl rfl)
    | exits i reason stable => exact h.phase
    | backoffOver i cancelled spawnFails => exact h.phase

theorem Leaving.withdrawn (h : Leaving s) (hi : s.phase = .idle) : Withdrawn s := by
  obtain ⟨v, hv⟩ := h.mgr
  have hprocs := h.procs
  simp only [ChainNode.current, ChainNode.isStopping, hi, hv] at hprocs
  refine ⟨by rw [hv]; rfl, by rw [hv]; rfl, by rw [hv]; rfl, by rw [hv]; rfl, ?_, ?_⟩
  · intro p hp
    obtain ⟨i, hi⟩ := List.mem_iff_getElem?.mp hp
    exact hprocs.gone hi
  · simp [ChainNode.status, Manager.status, hv, Manager.new]

/-- **After `Apply(nil)` nothing is left of the chain.** -/
theorem withdrawn_of_nil (hs : ProcsInv s.current s.isStopping s.procs)
    (h : (chainMachine cfg allowed).Run s steps s') (hc : IsCall s none steps s') :
    Withdrawn s' := by
  obtain ⟨hi, ⟨s₁, rest, rfl, hne⟩, he⟩ := hc
  cases h with
  | cons hstep hrun =>
    obtain ⟨-, rfl⟩ := hstep
    have hstep : s.step cfg (.apply none) = s.applyNil := by
      unfold ChainNode.step
      rw [hi]
    have hl : Leaving (s.step cfg (.apply none)) := by
      refine ⟨?_, ?_, procsInv_step cfg hs _⟩
      · rw [hstep]
        exact ⟨s.mgr.version, rfl⟩
      · rw [hstep]
        exact .inr (.inr ⟨_, rfl⟩)
    refine (hrun.keeps (P := Leaving) ?_ hl).withdrawn he
    intro st hst hlv
    obtain ⟨-, heq⟩ := hrun.step_of_mem st hst
    rw [heq]
    exact leaving_step cfg hlv (hne st hst) _

/-! ## Whole runs -/

structure ManagerInv (s : ChainNode) : Prop where
  procs : ProcsInv s.current s.isStopping s.procs
  books : BookInv s

theorem managerInv_fresh (h : s.Fresh) : ManagerInv s := by
  obtain ⟨hm, hp, hprocs⟩ := h
  have hacc : s.mgr.accepted = none := by rw [hm]; rfl
  refine ⟨?_, ⟨?_, ?_, ?_, ?_, ?_⟩⟩
  · intro i p hi
    simp [hprocs] at hi
  · intro b hb
    rw [hp] at hb
    cases hb
  · intro b hb
    rw [hp] at hb
    cases hb
  all_goals
    intro a ha
    rw [hacc] at ha
    cases ha

theorem managerInv_reachable (hok : ∀ s e, allowed s e → failsInPlace cfg s e = false)
    (h : (chainMachine cfg allowed).Reachable s) : ManagerInv s := by
  refine h.invariant (fun s hs => managerInv_fresh hs) ?_
  intro s e s' _ hinv hstep
  obtain ⟨hal, rfl⟩ := hstep
  exact ⟨procsInv_step cfg hinv.procs e, bookInv_step hinv.books e (hok s e hal)⟩

theorem repeated_of_valid (hb : BookInv s)
    (hi : s.phase = .idle) (ha : s.mgr.accepted = some a) (hs : SameBlock a b)
    (hr : s.procOf.any (·.running) = true) : s.step cfg (.apply (some b)) = s := by
  obtain ⟨he, hc, ht⟩ := hs.valid (hb.valid a ha)
  have hstep : s.step cfg (.apply (some b)) = s.applyBlock cfg b := by
    unfold ChainNode.step
    rw [hi]
  rw [hstep]
  simp [ChainNode.applyBlock, he, hc, ht, unchanged_of_same ha hr hs]

end Runs

/-- **The chain manager over whole runs.**  In every run whose config writes never fail after their
rename, whatever else fails and whenever processes exit. -/
theorem manager_keeps_chain (cfg : ManagerConfig) (s : ChainNode)
    (h : (chainMachine cfg fun s e => failsInPlace cfg s e = false).Reachable s) :
    ManagerKept cfg (chainMachine cfg fun s e => failsInPlace cfg s e = false) s := by
  have hinv := managerInv_reachable (fun s e he => he) h
  refine ⟨?_, hinv.books.file, hinv.books.ports, ?_, ?_, ?_⟩
  · intro i j p q hp hpa hq hqa
    have := (hinv.procs.unique hp hpa).symm.trans (hinv.procs.unique hq hqa)
    simpa using this
  · intro b steps s' hrun hcall hnw
    exact untouched_of_refused (fun s e he => he) hrun hcall hnw
  · intro a b hi ha hs hr
    exact repeated_of_valid hinv.books hi ha hs hr
  · intro steps s' hrun hcall
    exact withdrawn_of_nil hinv.procs hrun hcall

/-! ## The write that fails in place -/

section Example

def exampleManager : ManagerConfig := ⟨"/usr/local/bin/sing-box", "/etc/iceslab/chain/config.json"⟩

/-- A block with one way out. -/
def exampleChain (config : RawMessage) : NodeChain where
  engine := "singbox"
  config := config
  socks := some [⟨1, 26001⟩]
  socksPassword := "socks-password"
  userCore := none
  tunnels := none
  linkIngress := none

theorem firstConfig_valid : "[1]" = "" ∨ (JsonScan.compact "[1]").isSome := .inr (by decide)

def firstConfig : RawMessage := ⟨"[1]", firstConfig_valid⟩

theorem secondConfig_valid : "[2]" = "" ∨ (JsonScan.compact "[2]").isSome := .inr (by decide)

def secondConfig : RawMessage := ⟨"[2]", secondConfig_valid⟩

def freshNode : ChainNode := ⟨.new, .idle, [], none, ⟨[], .empty⟩⟩

/-- A machine on which everything works, but for how the config write ends. -/
def answers (write : WriteOutcome) : PieceAnswers where
  check := none
  mkdirErr := none
  write := write
  tunnels := ⟨none, fun _ => ⟨none, "", []⟩, fun _ => false, fun _ => none, fun _ => .done,
    fun _ => ⟨none, "", []⟩, fun _ => ⟨none, "", []⟩⟩
  startErr := none
  version := some "sing-box version 1.13.14"

/-- The first block is put into force. -/
def appliedRun : List ChainEvent :=
  .apply (some (exampleChain firstConfig)) :: List.replicate 7 (.next (answers .done))

/-- The second one is refused at its write, after the rename. -/
def refusedCall : List ChainEvent :=
  [.apply (some (exampleChain secondConfig)), .next (answers .done),
    .next (answers (.failedInPlace "atomicfile: fsync dir: input/output error"))]

def appliedNode : ChainNode := appliedRun.foldl (ChainNode.step exampleManager) freshNode

def refusedNode : ChainNode := refusedCall.foldl (ChainNode.step exampleManager) appliedNode

theorem run_trace_allowed (cfg : ManagerConfig) (allowed : ChainNode → ChainEvent → Prop)
    (s : ChainNode) (es : List ChainEvent) (h : ∀ e ∈ es, ∀ s, allowed s e) :
    (chainMachine cfg allowed).Run s (trace (ChainNode.step cfg) s es)
      (es.foldl (ChainNode.step cfg) s) := by
  induction es generalizing s with
  | nil => exact .nil s
  | cons e es ih =>
    exact .cons ⟨h e List.mem_cons_self s, rfl⟩
      (ih _ (fun e' he => h e' (List.mem_cons_of_mem _ he)))

theorem freshNode_reachable {cfg : ManagerConfig} {allowed : ChainNode → ChainEvent → Prop} :
    (chainMachine cfg allowed).Reachable freshNode :=
  .start ⟨rfl, rfl, rfl⟩

theorem appliedRun_done (e : ChainEvent) (he : e ∈ appliedRun) (s : ChainNode) :
    failsInPlace exampleManager s e = false := by
  rcases List.mem_cons.mp he with rfl | he
  · rfl
  · rw [(List.mem_replicate.mp he).2]
    have hw : writeConfig exampleManager (answers .done) = .done := by rfl
    simp only [failsInPlace, hw]
    cases s.phase <;> rfl

theorem appliedNode_reachable :
    (chainMachine exampleManager fun s e => failsInPlace exampleManager s e = false).Reachable
      appliedNode :=
  (run_trace_allowed exampleManager _ freshNode appliedRun appliedRun_done).reachable
    freshNode_reachable

/-- Everything works: the first block is in force and its process runs. -/
theorem manager_keeps_chain_applied :
    ManagerKept exampleManager
        (chainMachine exampleManager fun s e => failsInPlace exampleManager s e = false)
        appliedNode
      ∧ appliedNode.mgr.accepted = some (exampleChain firstConfig)
      ∧ appliedNode.procOf.any (·.running) = true :=
  ⟨manager_keeps_chain exampleManager appliedNode appliedNode_reachable, rfl, rfl⟩

/-- The second block is refused with its config already in the file: the accepted block is still
the first, and the next respawn of its process loads the second. -/
theorem failed_write_replaces_config :
    ∃ s, (chainMachine exampleManager fun _ _ => True).Reachable s
      ∧ s.phase = .idle ∧ s.mgr.accepted = some (exampleChain firstConfig) ∧ s.file = some "[2]"
      ∧ ¬ ManagerKept exampleManager (chainMachine exampleManager fun _ _ => True) s := by
  have happlied := (run_trace_allowed exampleManager (fun _ _ => True) freshNode appliedRun
    (fun _ _ _ => trivial)).reachable freshNode_reachable
  have hrefused := (run_trace_allowed exampleManager (fun _ _ => True) appliedNode refusedCall
    (fun _ _ _ => trivial)).reachable happlied
  refine ⟨refusedNode, hrefused, rfl, rfl, rfl, ?_⟩
  intro hk
  have hfile := hk.file (exampleChain firstConfig) rfl
  have : (some "[2]" : Option String) = some "[1]" := hfile
  simp at this

end Example

end Iceslab.Agent
