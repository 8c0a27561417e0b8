import Iceslab.Lib.Machine
import Mathlib.Data.Fintype.Basic

/-!
# The push of a node's configuration

`inbounds.queue.ts`: an edit commits its content, raises the node's `desired_revision` and adds the
job `apply-<node>`, which the queue drops while a job of that id is held.  A job reads the revision,
builds the request from several tables, sends it and stores the acknowledgement.  The machine below
follows one node; each event is one statement, one queue command or one answer of the agent, and
attempts fail, answers and writes get lost, jobs stall and the panel restarts at any point.

* `PushKept` — what every step keeps: a run's request holds every edit raised up to the revision the
  run read, and so does some acknowledged request for the applied revision.
* `no_edit_lost` — in every reachable state no edit is recorded as applied that the node has not
  acknowledged, and a node left behind is one the sweep sees.
-/

set_option autoImplicit false

namespace Iceslab

/-! ## The state -/

/-- An edit, and the tables a request is built from that it writes. -/
structure PanelEdit (Part : Type*) where
  id : Nat
  parts : List Part

inductive NodeStatus where
  | unknown
  | online
  | degraded
  | unreachable
  | disabled
  deriving DecidableEq, Repr

/-- What holds the job id: a job waiting, active, delayed for its next attempt, or finished and not
removed yet. -/
inductive JobPhase where
  | waiting
  | active
  | delayed
  | ending
  deriving DecidableEq, Repr

structure PushJob where
  phase : JobPhase
  attemptsMade : Nat
  deriving DecidableEq, Repr

inductive RunPhase where
  | started
  | revisionRead
  | building
  | acknowledged
  | recorded
  deriving DecidableEq, Repr

/-- One attempt under way: the revision it read and the tables it has read so far. -/
structure PushRun (Part : Type*) where
  phase : RunPhase
  rev : Nat
  read : Part → Option (List Nat)

/-- What a request carries: the edits each table held when it was read. -/
abbrev PushRequest (Part : Type*) := Part → List Nat

def PushRequest.Contains {Part : Type*} (req : PushRequest Part) (e : PanelEdit Part) : Prop :=
  ∀ p ∈ e.parts, e.id ∈ req p

/-- A `requeueIfMoved` under way: what the job read, and whether the revision was found past it. -/
structure Requeue where
  readRevision : Nat
  moved : Bool
  deriving DecidableEq, Repr

structure PushState (Part : Type*) where
  /-- the edits committed to each table -/
  content : Part → List Nat
  /-- edits committed whose `enqueueNodePush` has not raised the revision yet -/
  unraised : List (PanelEdit Part)
  /-- the raises, with the revision each produced -/
  raised : List (PanelEdit Part × Nat)
  /-- adds asked for and not made yet -/
  adds : Nat
  desired : Nat
  applied : Nat
  status : NodeStatus
  deleted : Bool
  job : Option PushJob
  runs : List (PushRun Part)
  /-- the worker's `readByJob` entry -/
  readByJob : Option Nat
  requeues : List Requeue
  /-- the requests the node has acknowledged -/
  acked : List (PushRequest Part)
  /-- the revisions the sweep has tried within the hour -/
  reconciled : List Nat

namespace PushState

variable {Part : Type*}

/-! ## The queue -/

/-- `inboundSyncQueue.add` under the node's job id. -/
def addJob (s : PushState Part) : PushState Part :=
  match s.job with
  | none => { s with job := some ⟨.waiting, 0⟩ }
  | some _ => s

def setJob (s : PushState Part) (phase : JobPhase) : PushState Part :=
  { s with job := s.job.map (fun j => { j with phase }) }

def attempts : Nat := 3

/-- The `completed` event, and `failed` after the last attempt: the job is ending, and the handler
asks whether the revision moved past the one the job read. -/
def jobEnds (s : PushState Part) : PushState Part :=
  match s.readByJob with
  | none => s.setJob .ending
  | some rev =>
    { s.setJob .ending with readByJob := none, requeues := s.requeues ++ [⟨rev, false⟩] }

/-- An attempt failed: the job waits for the next one, or ends with the last. -/
def jobFails (s : PushState Part) : PushState Part :=
  match s.job with
  | none => s
  | some j =>
    let s := { s with job := some { j with attemptsMade := j.attemptsMade + 1 } }
    if attempts ≤ j.attemptsMade + 1 then s.jobEnds else s.setJob .delayed

def dropRun (s : PushState Part) (i : Nat) : PushState Part :=
  { s with runs := s.runs.eraseIdx i }

def setRun (s : PushState Part) (i : Nat) (r : PushRun Part) : PushState Part :=
  { s with runs := s.runs.set i r }

/-- Online or degraded, not deleted, and behind: the rows `reconcileNodeRevisions` selects. -/
def behind (s : PushState Part) : Bool :=
  !s.deleted && decide (s.status = .online ∨ s.status = .degraded) && decide (s.applied < s.desired)

end PushState

/-! ## The events -/

inductive PushEvent (Part : Type*) where
  /-- an edit commits its content, under an id of its own -/
  | commit (e : PanelEdit Part)
  /-- its `enqueueNodePush` raises the revision -/
  | raise (i : Nat)
  /-- an add reaches the queue -/
  | add
  /-- the status poll asks for a push of a node that came back -/
  | cameBack
  /-- `reconcileNodeRevisions` -/
  | reconcile
  /-- a mark of the sweep expires -/
  | markExpires (i : Nat)
  | statusWritten (status : NodeStatus)
  | nodeDeleted
  /-- the worker takes the job -/
  | take
  | readRevision (i : Nat)
  | fetchNode (i : Nat)
  | readPart (i : Nat) (p : Part)
  /-- the node answers ok; the answer may get lost on its way back -/
  | acknowledge (i : Nat) (answerLost : Bool)
  /-- the acknowledged revision is stored; the write may get lost -/
  | record (i : Nat) (writeLost : Bool)
  | complete (i : Nat)
  /-- building, sending or what follows throws -/
  | throws (i : Nat)
  /-- the delay before the next attempt is over -/
  | retry
  /-- the queue takes the job of a silent worker back -/
  | stall
  /-- the ended job leaves the queue -/
  | remove
  | requeueCheck (i : Nat)
  | requeueAdd (i : Nat)
  | restart

section Step

variable {Part : Type*} [Fintype Part] [DecidableEq Part]

/-- The request of a run that has read every table. -/
def PushRun.request (r : PushRun Part) : PushRequest Part := fun p => (r.read p).getD []

/-- What one event does; an event whose guard fails does nothing. -/
def PushState.step (s : PushState Part) : PushEvent Part → PushState Part
  | .commit e =>
    if ∀ p, e.id ∉ s.content p then
      { s with
        content := fun p => if p ∈ e.parts then s.content p ++ [e.id] else s.content p
        unraised := s.unraised ++ [e] }
    else s
  | .raise i =>
    match s.unraised[i]? with
    | none => s
    | some e =>
      { s with
        unraised := s.unraised.eraseIdx i
        raised := s.raised ++ [(e, s.desired + 1)]
        desired := s.desired + 1
        adds := s.adds + 1 }
  | .add => if s.adds = 0 then s else { s.addJob with adds := s.adds - 1 }
  | .cameBack => { s with adds := s.adds + 1 }
  | .reconcile =>
    if s.behind ∧ s.desired ∉ s.reconciled then
      { s with reconciled := s.reconciled ++ [s.desired], adds := s.adds + 1 }
    else s
  | .markExpires i => { s with reconciled := s.reconciled.eraseIdx i }
  | .statusWritten status => { s with status }
  | .nodeDeleted => { s with deleted := true }
  | .take =>
    if s.job.map (·.phase) = some .waiting then
      { s.setJob .active with runs := s.runs ++ [⟨.started, 0, fun _ => none⟩] }
    else s
  | .readRevision i =>
    match s.runs[i]? with
    | none => s
    | some r =>
      if r.phase = .started then
        { s.setRun i { r with phase := .revisionRead, rev := s.desired } with
          readByJob := some s.desired }
      else s
  | .fetchNode i =>
    match s.runs[i]? with
    | none => s
    | some r =>
      if r.phase = .revisionRead then
        if s.deleted ∨ s.status = .disabled then (s.dropRun i).jobEnds
        else s.setRun i { r with phase := .building }
      else s
  | .readPart i p =>
    match s.runs[i]? with
    | none => s
    | some r =>
      if r.phase = .building then
        s.setRun i { r with read := Function.update r.read p (some (s.content p)) }
      else s
  | .acknowledge i answerLost =>
    match s.runs[i]? with
    | none => s
    | some r =>
      if r.phase = .building ∧ ∀ p, (r.read p).isSome then
        let s := { s with acked := s.acked ++ [r.request] }
        if answerLost then (s.dropRun i).jobFails
        else s.setRun i { r with phase := .acknowledged }
      else s
  | .record i writeLost =>
    match s.runs[i]? with
    | none => s
    | some r =>
      if r.phase = .acknowledged then
        let s := s.setRun i { r with phase := .recorded }
        if writeLost then s else { s with applied := max s.applied r.rev }
      else s
  | .complete i =>
    match s.runs[i]? with
    | none => s
    | some r => if r.phase = .recorded then (s.dropRun i).jobEnds else s
  | .throws i => if i < s.runs.length then (s.dropRun i).jobFails else s
  | .retry => if s.job.map (·.phase) = some .delayed then s.setJob .waiting else s
  | .stall => if s.job.map (·.phase) = some .active then s.setJob .waiting else s
  | .remove => if s.job.map (·.phase) = some .ending then { s with job := none } else s
  | .requeueCheck i =>
    match s.requeues[i]? with
    | none => s
    | some q =>
      if q.readRevision < s.desired then { s with requeues := s.requeues.set i { q with moved := true } }
      else { s with requeues := s.requeues.eraseIdx i }
  | .requeueAdd i =>
    match s.requeues[i]? with
    | none => s
    | some q => if q.moved then { s.addJob with requeues := s.requeues.eraseIdx i } else s
  | .restart =>
    { s with unraised := [], adds := 0, runs := [], readByJob := none, requeues := [] }

/-- A node as its row is created, or migrated: nothing under way, nothing ahead of the desired
revision. -/
def nodePush (Part : Type*) [Fintype Part] [DecidableEq Part] :
    Machine (PushState Part) (PushEvent Part) :=
  Machine.ofFun (fun s => s.unraised = [] ∧ s.raised = [] ∧ s.adds = 0 ∧ s.applied ≤ s.desired ∧
    s.job = none ∧ s.runs = [] ∧ s.readByJob = none ∧ s.requeues = [] ∧ s.acked = []) PushState.step

end Step

/-! ## What every step keeps -/

section Kept

variable {Part : Type*} {s s' : PushState Part} {r : PushRun Part}

/-- What a run has read and what the node has acknowledged of it, against the revision it read. -/
structure RunKept (s : PushState Part) (r : PushRun Part) : Prop where
  rev_le : r.rev ≤ s.desired
  unread : r.phase = .started ∨ r.phase = .revisionRead → ∀ p, r.read p = none
  held : ∀ p l, r.read p = some l → ∀ x ∈ s.raised, x.2 ≤ r.rev → p ∈ x.1.parts → x.1.id ∈ l
  acked : r.phase = .acknowledged ∨ r.phase = .recorded →
    ∃ req ∈ s.acked, ∀ x ∈ s.raised, x.2 ≤ r.rev → req.Contains x.1

/-- **What every step keeps.** -/
structure PushKept (s : PushState Part) : Prop where
  applied_le : s.applied ≤ s.desired
  raised_le : ∀ x ∈ s.raised, x.2 ≤ s.desired
  unraised_held : ∀ e ∈ s.unraised, PushRequest.Contains s.content e
  raised_held : ∀ x ∈ s.raised, PushRequest.Contains s.content x.1
  runs : ∀ r ∈ s.runs, RunKept s r
  acked : (∀ x ∈ s.raised, s.applied < x.2) ∨
    ∃ req ∈ s.acked, ∀ x ∈ s.raised, x.2 ≤ s.applied → req.Contains x.1

/-- Nothing the invariant speaks of has moved, but that runs and pending edits may be gone. -/
structure Untouched (s s' : PushState Part) : Prop where
  content : s'.content = s.content
  unraised : ∀ e ∈ s'.unraised, e ∈ s.unraised
  raised : s'.raised = s.raised
  desired : s'.desired = s.desired
  applied : s'.applied = s.applied
  runs : ∀ r ∈ s'.runs, r ∈ s.runs
  acked : s'.acked = s.acked

theorem Untouched.refl (s : PushState Part) : Untouched s s :=
  ⟨rfl, fun _ h => h, rfl, rfl, rfl, fun _ h => h, rfl⟩

theorem Untouched.trans {s'' : PushState Part} (h : Untouched s s') (h' : Untouched s' s'') :
    Untouched s s'' where
  content := h'.content.trans h.content
  unraised e he := h.unraised e (h'.unraised e he)
  raised := h'.raised.trans h.raised
  desired := h'.desired.trans h.desired
  applied := h'.applied.trans h.applied
  runs r hr := h.runs r (h'.runs r hr)
  acked := h'.acked.trans h.acked

theorem RunKept.untouched (h : RunKept s r) (hu : Untouched s s') : RunKept s' r := by
  refine ⟨?_, h.unread, ?_, ?_⟩
  · rw [hu.desired]
    exact h.rev_le
  · rw [hu.raised]
    exact h.held
  · rw [hu.raised, hu.acked]
    exact h.acked

theorem PushKept.untouched (h : PushKept s) (hu : Untouched s s') : PushKept s' where
  applied_le := by rw [hu.applied, hu.desired]; exact h.applied_le
  raised_le := by rw [hu.raised, hu.desired]; exact h.raised_le
  unraised_held e he := by rw [hu.content]; exact h.unraised_held e (hu.unraised e he)
  raised_held := by rw [hu.raised, hu.content]; exact h.raised_held
  runs r hr := (h.runs r (hu.runs r hr)).untouched hu
  acked := by rw [hu.raised, hu.applied, hu.acked]; exact h.acked

theorem untouched_queue (s : PushState Part) (adds : Nat) (status : NodeStatus) (deleted : Bool)
    (job : Option PushJob) (readByJob : Option Nat) (requeues : List Requeue)
    (reconciled : List Nat) :
    Untouched s { s with adds, status, deleted, job, readByJob, requeues, reconciled } :=
  ⟨rfl, fun _ h => h, rfl, rfl, rfl, fun _ h => h, rfl⟩

theorem untouched_setJob (s : PushState Part) (phase : JobPhase) : Untouched s (s.setJob phase) :=
  untouched_queue s _ _ _ _ _ _ _

theorem untouched_addJob (s : PushState Part) : Untouched s s.addJob := by
  unfold PushState.addJob
  split
  · exact untouched_queue s _ _ _ _ _ _ _
  · exact .refl s

theorem untouched_jobEnds (s : PushState Part) : Untouched s s.jobEnds := by
  unfold PushState.jobEnds
  split
  · exact untouched_setJob s _
  · exact untouched_queue s _ _ _ _ _ _ _

theorem untouched_jobFails (s : PushState Part) : Untouched s s.jobFails := by
  unfold PushState.jobFails
  split
  · exact .refl s
  · rename_i j _
    have hmade : Untouched s { s with job := some { j with attemptsMade := j.attemptsMade + 1 } } :=
      untouched_queue s _ _ _ _ _ _ _
    simp only
    split
    · exact hmade.trans (untouched_jobEnds _)
    · exact hmade.trans (untouched_setJob _ _)

theorem untouched_dropRun (s : PushState Part) (i : Nat) : Untouched s (s.dropRun i) :=
  ⟨rfl, fun _ h => h, rfl, rfl, rfl, fun _ h => List.mem_of_mem_eraseIdx h, rfl⟩

theorem PushKept.setRun (h : PushKept s) (i : Nat) (hr : RunKept s r) :
    PushKept (s.setRun i r) := by
  have hsame : ∀ r', RunKept s r' → RunKept (s.setRun i r) r' :=
    fun r' h' => ⟨h'.rev_le, h'.unread, h'.held, h'.acked⟩
  refine ⟨h.applied_le, h.raised_le, h.unraised_held, h.raised_held, fun r' hr' => ?_, h.acked⟩
  rcases List.mem_or_eq_of_mem_set hr' with hmem | rfl
  · exact hsame r' (h.runs r' hmem)
  · exact hsame r' hr

theorem PushKept.acknowledge (h : PushKept s) (req : PushRequest Part) :
    PushKept { s with acked := s.acked ++ [req] } := by
  have hmono : ∀ {P : PushRequest Part → Prop}, (∃ q ∈ s.acked, P q) →
      ∃ q ∈ s.acked ++ [req], P q := by
    rintro P ⟨q, hq, hp⟩
    exact ⟨q, List.mem_append_left _ hq, hp⟩
  refine ⟨h.applied_le, h.raised_le, h.unraised_held, h.raised_held, fun r hr => ?_, ?_⟩
  · have hk := h.runs r hr
    exact ⟨hk.rev_le, hk.unread, hk.held, fun hp => hmono (hk.acked hp)⟩
  · exact h.acked.imp_right hmono

theorem PushKept.addRun (h : PushKept s) :
    PushKept { s with runs := s.runs ++ [⟨.started, 0, fun _ => none⟩] } := by
  refine ⟨h.applied_le, h.raised_le, h.unraised_held, h.raised_held, fun r hr => ?_, h.acked⟩
  rcases List.mem_append.mp hr with hr | hr
  · have hk := h.runs r hr
    exact ⟨hk.rev_le, hk.unread, hk.held, hk.acked⟩
  · rw [List.mem_singleton.mp hr]
    exact ⟨Nat.zero_le _, fun _ _ => rfl, fun p l hl => by simp at hl, by simp⟩

theorem PushKept.commit [Fintype Part] [DecidableEq Part] (h : PushKept s) (e : PanelEdit Part) :
    PushKept (s.step (.commit e)) := by
  simp only [PushState.step]
  split
  swap
  · exact h
  have hgrow : ∀ f : PanelEdit Part, PushRequest.Contains s.content f → PushRequest.Contains
      (fun p => if p ∈ e.parts then s.content p ++ [e.id] else s.content p) f := by
    intro f hf p hp
    have hmem := hf p hp
    simp only
    split
    · exact List.mem_append_left _ hmem
    · exact hmem
  refine ⟨h.applied_le, h.raised_le, fun f hf => ?_, fun x hx => hgrow _ (h.raised_held x hx),
    fun r hr => ?_, h.acked⟩
  · rcases List.mem_append.mp hf with hf | hf
    · exact hgrow f (h.unraised_held f hf)
    · rw [List.mem_singleton.mp hf]
      intro p hp
      simp only [hp, if_true]
      exact List.mem_append_right _ List.mem_cons_self
  · have hk := h.runs r hr
    exact ⟨hk.rev_le, hk.unread, hk.held, hk.acked⟩

theorem PushKept.raise [Fintype Part] [DecidableEq Part] (h : PushKept s) (i : Nat) :
    PushKept (s.step (.raise i)) := by
  simp only [PushState.step]
  split
  · exact h
  rename_i e he
  have hnew : ∀ {n : Nat} {P : PanelEdit Part × Nat → Prop}, n ≤ s.desired →
      (∀ x ∈ s.raised, x.2 ≤ n → P x) →
      ∀ x ∈ s.raised ++ [(e, s.desired + 1)], x.2 ≤ n → P x := by
    intro n P hn hall x hx hle
    rcases List.mem_append.mp hx with hx | hx
    · exact hall x hx hle
    · rw [List.mem_singleton.mp hx] at hle
      simp only at hle
      omega
  refine ⟨Nat.le_succ_of_le h.applied_le, ?_, ?_, ?_, fun r hr => ?_, ?_⟩
  · intro x hx
    rcases List.mem_append.mp hx with hx | hx
    · exact Nat.le_succ_of_le (h.raised_le x hx)
    · rw [List.mem_singleton.mp hx]
  · exact fun f hf => h.unraised_held f (List.mem_of_mem_eraseIdx hf)
  · intro x hx
    rcases List.mem_append.mp hx with hx | hx
    · exact h.raised_held x hx
    · rw [List.mem_singleton.mp hx]
      exact h.unraised_held e (List.mem_of_getElem? he)
  · have hk := h.runs r hr
    refine ⟨Nat.le_succ_of_le hk.rev_le, hk.unread, fun p l hl => ?_, fun hp => ?_⟩
    · exact hnew hk.rev_le (fun x hx hle hpart => hk.held p l hl x hx hle hpart)
    · obtain ⟨req, hreq, hall⟩ := hk.acked hp
      exact ⟨req, hreq, hnew hk.rev_le hall⟩
  · rcases h.acked with hnone | ⟨req, hreq, hall⟩
    · left
      intro x hx
      rcases List.mem_append.mp hx with hx | hx
      · exact hnone x hx
      · rw [List.mem_singleton.mp hx]
        exact Nat.lt_succ_of_le h.applied_le
    · exact .inr ⟨req, hreq, hnew h.applied_le hall⟩

/-- Reading the revision comes before any table is read. -/
theorem RunKept.readRevision (hr : RunKept s r) (hp : r.phase = .started) :
    RunKept s { r with phase := .revisionRead, rev := s.desired } := by
  have hnone := hr.unread (.inl hp)
  refine ⟨Nat.le_refl _, fun _ => hnone, fun p l hl => ?_, by simp⟩
  rw [hnone p] at hl
  cases hl

/-- A table read now holds every edit raised so far. -/
theorem RunKept.readPart [DecidableEq Part] (h : PushKept s)
    (hr : RunKept s r) (hp : r.phase = .building) (p : Part) :
    RunKept s { r with read := Function.update r.read p (some (s.content p)) } := by
  refine ⟨hr.rev_le, by simp [hp], fun q l hl x hx hle hpart => ?_, by simp [hp]⟩
  by_cases hq : q = p
  · subst hq
    simp only [Function.update_self, Option.some.injEq] at hl
    rw [← hl]
    exact h.raised_held x hx q hpart
  · have hl : Function.update r.read p (some (s.content p)) q = some l := hl
    rw [Function.update_of_ne hq] at hl
    exact hr.held q l hl x hx hle hpart

/-- A request of a run that has read every table holds every edit up to its revision. -/
theorem RunKept.request_contains (hr : RunKept s r) (hall : ∀ p, (r.read p).isSome) :
    ∀ x ∈ s.raised, x.2 ≤ r.rev → r.request.Contains x.1 := by
  intro x hx hle p hp
  obtain ⟨l, hl⟩ := Option.isSome_iff_exists.mp (hall p)
  rw [PushRun.request, hl, Option.getD_some]
  exact hr.held p l hl x hx hle hp

theorem PushKept.record (h : PushKept s) (hr : RunKept s r)
    (hp : r.phase = .acknowledged ∨ r.phase = .recorded) :
    PushKept { s with applied := max s.applied r.rev } := by
  refine ⟨Nat.max_le.mpr ⟨h.applied_le, hr.rev_le⟩, h.raised_le, h.unraised_held, h.raised_held,
    fun r' hr' => ?_, ?_⟩
  · have hk := h.runs r' hr'
    exact ⟨hk.rev_le, hk.unread, hk.held, hk.acked⟩
  · rcases Nat.le_total s.applied r.rev with hle | hle
    · right
      simp only [Nat.max_eq_right hle]
      exact hr.acked hp
    · simp only [Nat.max_eq_left hle]
      exact h.acked

theorem PushKept.acknowledged (h : PushKept s) {i : Nat}
    (hi : s.runs[i]? = some r) (hall : ∀ p, (r.read p).isSome) :
    PushKept (({ s with acked := s.acked ++ [r.request] } : PushState Part).setRun i
      { r with phase := .acknowledged }) := by
  have hr := h.runs r (List.mem_of_getElem? hi)
  refine (h.acknowledge r.request).setRun i ⟨hr.rev_le, by simp, hr.held, fun _ => ?_⟩
  exact ⟨r.request, List.mem_append_right _ List.mem_cons_self, hr.request_contains hall⟩

end Kept

/-! ## One step, and whole runs -/

section Runs

variable {Part : Type*} [Fintype Part] [DecidableEq Part] {s : PushState Part}

/-- **One step keeps the invariant.** -/
theorem PushKept.step (h : PushKept s) (e : PushEvent Part) : PushKept (s.step e) := by
  cases e with
  | commit e => exact h.commit e
  | raise i => exact h.raise i
  | add =>
    simp only [PushState.step]
    split
    · exact h
    · exact h.untouched ((untouched_addJob s).trans (untouched_queue _ _ _ _ _ _ _ _))
  | cameBack => exact h.untouched (untouched_queue s _ _ _ _ _ _ _)
  | reconcile =>
    simp only [PushState.step]
    split
    · exact h.untouched (untouched_queue s _ _ _ _ _ _ _)
    · exact h
  | markExpires i => exact h.untouched (untouched_queue s _ _ _ _ _ _ _)
  | statusWritten status => exact h.untouched (untouched_queue s _ _ _ _ _ _ _)
  | nodeDeleted => exact h.untouched (untouched_queue s _ _ _ _ _ _ _)
  | take =>
    simp only [PushState.step]
    split
    · exact h.addRun.untouched (untouched_setJob _ _)
    · exact h
  | readRevision i =>
    simp only [PushState.step]
    split
    · exact h
    · rename_i r hi
      split
      · rename_i hp
        have hr := (h.runs r (List.mem_of_getElem? hi)).readRevision hp
        exact (h.setRun i hr).untouched (untouched_queue _ _ _ _ _ _ _ _)
      · exact h
  | fetchNode i =>
    simp only [PushState.step]
    split
    · exact h
    · rename_i r hi
      split
      · rename_i hp
        split
        · exact h.untouched ((untouched_dropRun s i).trans (untouched_jobEnds _))
        · have hr := h.runs r (List.mem_of_getElem? hi)
          exact h.setRun i ⟨hr.rev_le, by simp, hr.held, by simp⟩
      · exact h
  | readPart i p =>
    simp only [PushState.step]
    split
    · exact h
    · rename_i r hi
      split
      · rename_i hp
        exact h.setRun i ((h.runs r (List.mem_of_getElem? hi)).readPart h hp p)
      · exact h
  | acknowledge i answerLost =>
    simp only [PushState.step]
    split
    · exact h
    · rename_i r hi
      split
      · rename_i hp
        split
        · exact (h.acknowledge r.request).untouched
            ((untouched_dropRun _ i).trans (untouched_jobFails _))
        · exact h.acknowledged hi hp.2
      · exact h
  | record i writeLost =>
    simp only [PushState.step]
    split
    · exact h
    · rename_i r hi
      split
      · rename_i hp
        have hr := h.runs r (List.mem_of_getElem? hi)
        have hrec : RunKept s { r with phase := .recorded } :=
          ⟨hr.rev_le, by simp, hr.held, fun _ => hr.acked (.inl hp)⟩
        have hset := h.setRun i hrec
        split
        · exact hset
        · exact hset.record (r := { r with phase := .recorded })
            (hset.runs _ (List.mem_set (List.getElem?_eq_some_iff.mp hi).1 _)) (.inr rfl)
      · exact h
  | complete i =>
    simp only [PushState.step]
    split
    · exact h
    · split
      · exact h.untouched ((untouched_dropRun s i).trans (untouched_jobEnds _))
      · exact h
  | throws i =>
    simp only [PushState.step]
    split
    · exact h.untouched ((untouched_dropRun s i).trans (untouched_jobFails _))
    · exact h
  | retry =>
    simp only [PushState.step]
    split
    · exact h.untouched (untouched_setJob s _)
    · exact h
  | stall =>
    simp only [PushState.step]
    split
    · exact h.untouched (untouched_setJob s _)
    · exact h
  | remove =>
    simp only [PushState.step]
    split
    · exact h.untouched (untouched_queue s _ _ _ _ _ _ _)
    · exact h
  | requeueCheck i =>
    simp only [PushState.step]
    split
    · exact h
    · split
      · exact h.untouched (untouched_queue s _ _ _ _ _ _ _)
      · exact h.untouched (untouched_queue s _ _ _ _ _ _ _)
  | requeueAdd i =>
    simp only [PushState.step]
    split
    · exact h
    · split
      · exact h.untouched ((untouched_addJob s).trans (untouched_queue _ _ _ _ _ _ _ _))
      · exact h
  | restart =>
    exact h.untouched ⟨rfl, fun _ he => absurd he List.not_mem_nil, rfl, rfl, rfl,
      fun _ hr => absurd hr List.not_mem_nil, rfl⟩

theorem pushKept_reachable (h : (nodePush Part).Reachable s) : PushKept s := by
  refine h.invariant (fun s hs => ?_) (fun s e s' _ hk hs => ?_)
  · obtain ⟨hun, hraised, -, happlied, -, hruns, -, -, -⟩ := hs
    refine ⟨happlied, ?_, ?_, ?_, ?_, .inl ?_⟩
    · rw [hraised]
      exact fun _ hx => absurd hx List.not_mem_nil
    · rw [hun]
      exact fun _ hx => absurd hx List.not_mem_nil
    · rw [hraised]
      exact fun _ hx => absurd hx List.not_mem_nil
    · rw [hruns]
      exact fun _ hx => absurd hx List.not_mem_nil
    · rw [hraised]
      exact fun _ hx => absurd hx List.not_mem_nil
  · rw [hs]
    exact hk.step e

/-- **No edit is lost.**  In every reachable state, whatever job is held or about to be queued again,
the applied revision is not ahead of the desired one, every edit raised up to it is in a request the
node acknowledged, and a live node that is behind is one the sweep sees and, where no job is held,
queues. -/
theorem no_edit_lost (h : (nodePush Part).Reachable s) :
    s.applied ≤ s.desired ∧
      (∀ x ∈ s.raised, x.2 ≤ s.applied → ∃ req ∈ s.acked, req.Contains x.1) ∧
      (s.applied = s.desired ∨
        (s.applied < s.desired ∧
          (s.deleted = false → s.status = .online ∨ s.status = .degraded →
            s.behind = true ∧
              (s.job = none → s.desired ∉ s.reconciled →
                ((s.step .reconcile).step .add).job = some ⟨.waiting, 0⟩)))) := by
  have hk := pushKept_reachable h
  refine ⟨hk.applied_le, fun x hx hle => ?_, ?_⟩
  · rcases hk.acked with hnone | ⟨req, hreq, hall⟩
    · have := hnone x hx
      omega
    · exact ⟨req, hreq, hall x hx hle⟩
  · rcases Nat.lt_or_ge s.applied s.desired with hlt | hge
    · refine .inr ⟨hlt, fun hdel hst => ?_⟩
      have hbehind : s.behind = true := by
        simp [PushState.behind, hdel, hst, hlt]
      refine ⟨hbehind, fun hjob hmark => ?_⟩
      have hsweep : s.step .reconcile =
          { s with reconciled := s.reconciled ++ [s.desired], adds := s.adds + 1 } :=
        if_pos ⟨hbehind, hmark⟩
      rw [hsweep]
      simp only [PushState.step, PushState.addJob, hjob, Nat.succ_ne_zero, if_false]
    · exact .inl (Nat.le_antisymm hk.applied_le hge)

end Runs

/-! ## An edit during a push -/

/-- A node with two tables. -/
def freshNode : PushState Bool where
  content _ := []
  unraised := []
  raised := []
  adds := 0
  desired := 0
  applied := 0
  status := .online
  deleted := false
  job := none
  runs := []
  readByJob := none
  requeues := []
  acked := []
  reconciled := []

/-- The second edit lands while the request of the first is built: its add is dropped, and the
handler of the job that ends queues the node again. -/
def editDuringPush : List (PushEvent Bool) :=
  [.commit ⟨1, [true, false]⟩, .raise 0, .add, .take, .readRevision 0, .fetchNode 0,
    .readPart 0 true, .commit ⟨2, [true]⟩, .raise 0, .add, .readPart 0 false, .acknowledge 0 false,
    .record 0 false, .complete 0, .requeueCheck 0, .remove, .requeueAdd 0]

theorem no_edit_lost_during_push :
    ∃ s, (nodePush Bool).Reachable s ∧ s.applied = 1 ∧ s.desired = 2 ∧
      s.job = some ⟨.waiting, 0⟩ ∧ s.applied ≤ s.desired ∧
      (∀ x ∈ s.raised, x.2 ≤ s.applied → ∃ req ∈ s.acked, req.Contains x.1) := by
  have hstart : (nodePush Bool).Reachable freshNode :=
    .start ⟨rfl, rfl, rfl, Nat.le_refl _, rfl, rfl, rfl, rfl, rfl⟩
  have hrun := Machine.reachable_foldl hstart editDuringPush
  have hkept := no_edit_lost hrun
  exact ⟨_, hrun, by decide, by decide, by decide, hkept.1, hkept.2.1⟩

end Iceslab
