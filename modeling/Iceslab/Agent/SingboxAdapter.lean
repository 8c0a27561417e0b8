import Iceslab.Agent.AtomicFile
import Iceslab.Agent.Singbox
import Iceslab.Lib.Pushed

/-!
# The sing-box adapter

The inbounds of `adapter.go` of `internal/core/singbox`.  What becomes of the check, the write, the
start and the hand-over of users comes with the call.

* `beginRender`, `checkRender`, `writeDoc`, `swapProcess`, `handOver` — the stages of a render.
* `regenerateAndRestart`, `applyIdentifiedInbound`.
* `honest` — an inbound is in force once accepted, where every config that passes the check is
  written and started with.
-/

set_option autoImplicit false

namespace Iceslab.Agent.Singbox

/-! ## The adapter -/

structure Proc where
  doc : Doc
  running : Bool
deriving DecidableEq

/-- A pending batch of user changes. -/
structure Batch where
  first : Nat
  due : Nat
deriving DecidableEq

structure State where
  started : Bool
  users : Users
  inbounds : Inbounds
  proc : Option Proc
  batch : Option Batch
  ssmSynced : Bool
  ssmGen : Nat
  config : Option Doc
  /-- the last start: the config it found, and whether it succeeded -/
  last : Option (Option Doc × Bool)

/-- What becomes of the operations of a render.  A directory that cannot be made is a write that
failed. -/
structure Answers where
  check : Bool
  write : Outcome
  start : Bool
  sync : Bool
deriving DecidableEq

inductive SingboxError
  | parse (e : ParseRefusal)
  | portTaken (port : Int)
  | render (e : RenderRefusal)
  | check
  | write
  | start
  | sync
deriving DecidableEq

/-- `refusedError` -/
def SingboxError.refused : SingboxError → Bool
  | .render _ | .check => true
  | _ => false

/-- The inbound does not parse, does not fit beside the others or is not taken by the engine. -/
def SingboxError.invalid : SingboxError → Bool
  | .parse _ | .portTaken _ | .render _ | .check => true
  | _ => false

abbrev Called := State × Option SingboxError

/-- What a render draws. -/
structure Snapshot where
  held : List (String × InboundConfig)
  users : Users

def State.setInbounds (s : State) (inbounds : Inbounds) : State := { s with inbounds := inbounds }

/-- `dropBatchLocked` -/
def State.dropBatch (s : State) : State := { s with batch := none }

/-- `ssmOn` -/
def Install.ssmOn (inst : Install) : Bool := inst.protocol = .shadowsocks ∧ inst.ssmListen ≠ ""

section Adapter

variable (inst : Install) (a : Answers)

/-! ## A render, stage by stage -/

/-- The first lock of a render: the batch is dropped whatever comes of the rest. -/
def beginRender (s : State) : State × Option Snapshot :=
  let s := s.dropBatch
  if !s.started then (s, none)
  else if !inst.binary || (sortedHeld s.inbounds).isEmpty then (s, none)
  else (s, some ⟨sortedHeld s.inbounds, s.users⟩)

/-- The config, asked of the engine before anything is replaced. -/
def checkRender (snap : Snapshot) : Except SingboxError Doc :=
  match inst.renderAll snap.held snap.users with
  | .error e => .error (.render e)
  | .ok doc => if a.check then .ok doc else .error .check

def writeDoc (doc : Doc) (s : State) : Called :=
  ({ s with config := if a.write.lands then some doc else s.config },
    if a.write = .done then none else some .write)

/-- The old process down, the new one up. -/
def swapProcess (doc : Doc) (s : State) : Called :=
  let s := { s with
    proc := s.proc.map fun p => { p with running := false }
    last := some (s.config, a.start) }
  if a.start then ({ s with proc := some ⟨doc, true⟩ }, none) else (s, some .start)

/-- The users of a managed shadowsocks, handed to the process that just started. -/
def handOver (s : State) : Called :=
  if !inst.ssmOn then (s, none)
  else
    let s := { s with ssmGen := s.ssmGen + 1, ssmSynced := false }
    if a.sync then ({ s with ssmSynced := true }, none) else (s, some .sync)

def regenerateAndRestart (s : State) : Called :=
  match beginRender inst s with
  | (s, none) => (s, none)
  | (s, some snap) =>
    match checkRender inst a snap with
    | .error e => (s, some e)
    | .ok doc =>
      match writeDoc a doc s with
      | (s, some e) => (s, some e)
      | (s, none) =>
        match swapProcess a doc s with
        | (s, some e) => (s, some e)
        | (s, none) => handOver inst a s

/-! ## Calls -/

/-- Another inbound that listens on the port. -/
def portTaken (inbounds : Inbounds) (id : String) (port : Int) : Bool :=
  inbounds.entries.any fun other => decide (other.1 ≠ id ∧ other.2.listenPort = port)

/-- Undo a store that is still there. -/
def undoStore (id : String) (new : InboundConfig) (prev : Option InboundConfig) (s : State) :
    State :=
  if s.inbounds.get? id = some new then s.setInbounds (s.inbounds.restore id prev) else s

/-- `ApplyIdentifiedInbound` -/
def applyIdentifiedInbound (id : String) (port : Int) (raw : Option InboundWire) (s : State) :
    Called :=
  match parseInbound inst.protocol port raw with
  | .error e => (s, some (.parse e))
  | .ok new =>
    let prev := s.inbounds.get? id
    if prev = some new then (s, none)
    else if portTaken s.inbounds id new.listenPort then (s, some (.portTaken new.listenPort))
    else
      match regenerateAndRestart inst a (s.setInbounds (s.inbounds.set id new)) with
      | (s, none) => (s, none)
      | (s, some e) => (if e.refused then undoStore id new prev s else s, some e)

end Adapter

/-! ## Inbounds one after another -/

section Pushes

/-- An inbound of a push, and what becomes of its operations. -/
structure Turn where
  id : String
  port : Int
  cfg : Option InboundWire
  answers : Answers
deriving DecidableEq

def State.call (inst : Install) (s : State) (t : Turn) : Called :=
  applyIdentifiedInbound inst t.answers t.id t.port t.cfg s

/-- The config of what is held. -/
def State.render (inst : Install) (s : State) : Except RenderRefusal Doc :=
  inst.renderAll (sortedHeld s.inbounds) s.users

/-- The inbound is held, the file is the render of everything held, and the process was last started
with that file. -/
structure InForce (inst : Install) (t : Turn) (s : State) : Prop where
  held : ∃ new, parseInbound inst.protocol t.port t.cfg = .ok new ∧ s.inbounds.get? t.id = some new
  config : ∃ doc, s.render inst = .ok doc ∧ s.config = some doc ∧ s.last = some (some doc, true)

/-- What the claims of a push are about, the pending batch of user changes apart. -/
structure Same (s s' : State) : Prop where
  users : s'.users = s.users
  inbounds : s'.inbounds = s.inbounds
  proc : s'.proc = s.proc
  config : s'.config = s.config
  last : s'.last = s.last

/-- An adapter no push has reached, with any users and over any file. -/
def IsNew (s : State) : Prop := s.inbounds = .empty

def pushed (inst : Install) : Pushed State Turn where
  start := IsNew
  step s t := (s.call inst t).1
  accepted s t := (s.call inst t).2 = none
  refused s t := ∃ e, (s.call inst t).2 = some e ∧ e.invalid = true
  inForce := InForce inst
  same := Same

/-- The adapter runs its process, and a config that passes the check is written and started with. -/
structure Started (inst : Install) (s : State) (a : Answers) : Prop where
  binary : inst.binary = true
  started : s.started = true
  write : a.check = true → a.write = .done
  start : a.check = true → a.start = true

variable {inst : Install} {a : Answers} {t : Turn} {s s' : State} {err : Option SingboxError}

theorem undoStore_refused (s : State) (id : String) (new : InboundConfig) :
    undoStore id new (s.inbounds.get? id) (s.setInbounds (s.inbounds.set id new)).dropBatch =
      s.dropBatch := by
  have hget : (s.setInbounds (s.inbounds.set id new)).dropBatch.inbounds.get? id = some new := by
    show (s.inbounds.set id new).get? id = some new
    rw [OrderedMap.get?_set, if_pos rfl]
  unfold undoStore
  rw [if_pos hget]
  show s.dropBatch.setInbounds ((s.inbounds.set id new).restore id (s.inbounds.get? id)) =
    s.dropBatch
  rw [OrderedMap.restore_set]
  rfl

/-- A config in the file that the process was last started with. -/
structure Loaded (doc : Doc) (s : State) : Prop where
  config : s.config = some doc
  last : s.last = some (some doc, true)

theorem sortedHeld_isEmpty {inbounds : Inbounds} (h : inbounds.entries ≠ []) :
    (sortedHeld inbounds).isEmpty = false := by
  rw [List.isEmpty_eq_false_iff, sortedHeld]
  intro hnil
  have hlen := List.length_insertionSort (fun a b : String × InboundConfig => a.1 ≤ b.1)
    inbounds.entries
  rw [hnil] at hlen
  exact h (List.length_eq_zero_iff.mp hlen.symm)

theorem beginRender_started (hbin : inst.binary = true) (hstarted : s.started = true)
    (hheld : s.inbounds.entries ≠ []) :
    beginRender inst s = (s.dropBatch, some ⟨sortedHeld s.inbounds, s.users⟩) := by
  simp only [beginRender, State.dropBatch, hstarted, hbin, sortedHeld_isEmpty hheld, Bool.not_true,
    Bool.or_self, Bool.false_eq_true, if_false]

theorem checkRender_ok {snap : Snapshot} {doc : Doc} (h : checkRender inst a snap = .ok doc) :
    inst.renderAll snap.held snap.users = .ok doc ∧ a.check = true := by
  unfold checkRender at h
  split at h
  · cases h
  · rename_i doc' hdoc
    split at h
    · cases h
      exact ⟨hdoc, ‹_›⟩
    · cases h

theorem checkRender_refused {snap : Snapshot} {e : SingboxError}
    (h : checkRender inst a snap = .error e) : e.refused = true := by
  unfold checkRender at h
  split at h
  · cases h
    rfl
  · split at h
    · cases h
    · cases h
      rfl

theorem handOver_loaded {doc : Doc} (hl : Loaded doc s) (h : handOver inst a s = (s', err)) :
    s'.users = s.users ∧ s'.inbounds = s.inbounds ∧ Loaded doc s' ∧
      ∀ e, err = some e → e = .sync := by
  unfold handOver at h
  split at h
  · cases h
    exact ⟨rfl, rfl, hl, nofun⟩
  · dsimp only at h
    split at h
    · cases h
      exact ⟨rfl, rfl, ⟨hl.config, hl.last⟩, nofun⟩
    · cases h
      refine ⟨rfl, rfl, ⟨hl.config, hl.last⟩, ?_⟩
      rintro e ⟨⟩
      rfl

/-- A render of what is held is refused, and drops the batch only, or is loaded. -/
theorem regenerateAndRestart_cases (hheld : s.inbounds.entries ≠ []) (hs : Started inst s a)
    (h : regenerateAndRestart inst a s = (s', err)) :
    (s' = s.dropBatch ∧ ∃ e, err = some e ∧ e.refused = true) ∨
      (s'.users = s.users ∧ s'.inbounds = s.inbounds ∧
        (∃ doc, s.render inst = .ok doc ∧ Loaded doc s') ∧ ∀ e, err = some e → e = .sync) := by
  unfold regenerateAndRestart at h
  rw [beginRender_started hs.binary hs.started hheld] at h
  dsimp only at h
  split at h
  · rename_i e hcheck
    cases h
    exact Or.inl ⟨rfl, e, rfl, checkRender_refused hcheck⟩
  · rename_i doc hcheck
    obtain ⟨hdoc, hpass⟩ := checkRender_ok hcheck
    simp only [writeDoc, hs.write hpass, Outcome.lands, swapProcess, hs.start hpass, if_true,
      ne_eq, reduceCtorEq, not_false_eq_true, decide_true] at h
    obtain ⟨husers, hinbounds, hl, herr⟩ := handOver_loaded ⟨rfl, rfl⟩ h
    exact Or.inr ⟨husers, hinbounds, ⟨doc, hdoc, hl⟩, herr⟩

/-- What is held is in force. -/
def Settled (inst : Install) (s : State) : Prop :=
  s.inbounds.entries ≠ [] → ∃ doc, s.render inst = .ok doc ∧ Loaded doc s

theorem Settled.dropBatch (h : Settled inst s) : Settled inst s.dropBatch := by
  intro hheld
  obtain ⟨doc, hdoc, hl⟩ := h hheld
  exact ⟨doc, hdoc, hl.config, hl.last⟩

/-- What a call leaves, from a state where what is held is in force. -/
structure Kept (inst : Install) (t : Turn) (s : State) (r : Called) : Prop where
  settled : Settled inst r.1
  accepted : r.2 = none → InForce inst t r.1
  refused : ∀ e, r.2 = some e → e.invalid = true → Same s r.1

theorem Same.refl (s : State) : Same s s := ⟨rfl, rfl, rfl, rfl, rfl⟩

theorem call_kept (hs : Settled inst s) (hstarted : Started inst s t.answers) :
    Kept inst t s (s.call inst t) := by
  unfold State.call applyIdentifiedInbound
  split
  · exact ⟨hs, (fun h => by cases h), fun _ _ _ => .refl s⟩
  · rename_i new hparse
    dsimp only
    split
    · rename_i hsame
      refine ⟨hs, fun _ => ⟨⟨new, hparse, hsame⟩, ?_⟩, fun _ h => by cases h⟩
      obtain ⟨doc, hdoc, hl⟩ := hs (OrderedMap.entries_ne_nil_of_get? hsame)
      exact ⟨doc, hdoc, hl.config, hl.last⟩
    · split
      · exact ⟨hs, (fun h => by cases h), fun _ _ _ => .refl s⟩
      · have hget : (s.setInbounds (s.inbounds.set t.id new)).inbounds.get? t.id = some new := by
          show (s.inbounds.set t.id new).get? t.id = some new
          rw [OrderedMap.get?_set, if_pos rfl]
        have hstarted' : Started inst (s.setInbounds (s.inbounds.set t.id new)) t.answers :=
          ⟨hstarted.binary, hstarted.started, hstarted.write, hstarted.start⟩
        have hheld := OrderedMap.entries_ne_nil_of_get? hget
        split
        · rename_i s' hreg
          obtain ⟨-, e, he, -⟩ | ⟨husers, hinbounds, ⟨doc, hdoc, hl⟩, -⟩ :=
            regenerateAndRestart_cases hheld hstarted' hreg
          · cases he
          · have hrender : s'.render inst = .ok doc := by
              unfold State.render
              rw [husers, hinbounds]
              exact hdoc
            refine ⟨fun _ => ⟨doc, hrender, hl⟩, fun _ => ⟨⟨new, hparse, ?_⟩, ?_⟩,
              fun _ h => by cases h⟩
            · rw [hinbounds]
              exact hget
            · exact ⟨doc, hrender, hl.config, hl.last⟩
        · rename_i s' e hreg
          obtain ⟨rfl, e', he, hrefused⟩ | ⟨husers, hinbounds, ⟨doc, hdoc, hl⟩, hsync⟩ :=
            regenerateAndRestart_cases hheld hstarted' hreg
          · cases he
            rw [if_pos hrefused, undoStore_refused]
            exact ⟨hs.dropBatch, (fun h => by cases h), fun _ _ _ => ⟨rfl, rfl, rfl, rfl, rfl⟩⟩
          · have hrender : s'.render inst = .ok doc := by
              unfold State.render
              rw [husers, hinbounds]
              exact hdoc
            obtain rfl := hsync e rfl
            refine ⟨fun _ => ⟨doc, hrender, hl⟩, (fun h => by cases h), ?_⟩
            intro e he hinvalid
            cases he
            cases hinvalid

/-- Every inbound of a run is in force once accepted, and leaves what is held as it was when refused
for what it says, where every config that passes the check is written and started with. -/
theorem honest : (pushed inst).HonestWhen fun s t => Started inst s t.answers := by
  refine Pushed.honestWhen_of_inv (I := Settled inst) ?_ ?_ ?_
  · intro s hs hheld
    have hempty : s.inbounds = .empty := hs
    rw [hempty] at hheld
    exact absurd rfl hheld
  · intro s t hs ht
    exact (call_kept hs ht).settled
  · intro s t hs ht
    have hkept := call_kept hs ht
    refine ⟨hkept.accepted, ?_⟩
    rintro ⟨e, he, hinvalid⟩
    exact hkept.refused e he hinvalid

end Pushes

end Iceslab.Agent.Singbox
