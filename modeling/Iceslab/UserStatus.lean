import Iceslab.Lib.Machine

/-!
# A user's status and the writers that move it

Four writers move one status column: an operator's edit (`updateUser`, also under the bulk
actions), the expiry cron, the quota cron and the handler of a traffic reset.  Every statement of
theirs tests and writes a row by itself, so the machine below follows the row of one user, with the
edits, resets and handlers that have read it and not written yet.  One event is one statement.

* `FollowsFacts` — what a step owes the facts, and `InTime` — when a write meets it: the edit was
  not overtaken between its read and its write, and the handler's user is neither disabled, nor past
  the date, nor over the quota.
* `status_follows_facts` — every step of a run whose writes are in time follows the facts.
* `reset_revives_expired` — the handler of a monthly reset makes a user active whose date has
  passed, and a user active whom the operator has just disabled.
-/

set_option autoImplicit false

namespace Iceslab

/-! ## The row and the edit -/

inductive UserStatus where
  | active
  | disabled
  | expired
  | limited
  deriving DecidableEq, Repr

inductive TrafficLimitStrategy where
  | noReset
  | day
  | week
  | month
  | rolling
  deriving DecidableEq, Repr

structure UserTraffic where
  usedTrafficBytes : Nat
  lastTrafficResetAt : Option Int
  deriving DecidableEq, Repr

/-- A row of `users` with its `user_traffic` row; instants are milliseconds. -/
structure UserRow where
  status : UserStatus
  expireAt : Option Int
  trafficLimitBytes : Option Nat
  trafficLimitStrategy : TrafficLimitStrategy
  traffic : Option UserTraffic
  deletedAt : Option Int
  deriving DecidableEq, Repr

/-- What `UpdateUserSchema` lets through of the fields a status depends on: an absent field is
`none`, `null` is `some none`. -/
structure UpdateUserInput where
  status : Option UserStatus
  trafficLimitGb : Option (Option Nat)
  trafficLimitStrategy : Option TrafficLimitStrategy
  expireAt : Option (Option Int)
  status_asked : status = none ∨ status = some .active ∨ status = some .disabled
  trafficLimitGb_pos : ∀ gb, trafficLimitGb = some (some gb) → 0 < gb

def BYTES_PER_GB : Nat := 1073741824

def gbToBytes (gb : Option Nat) : Option Nat := gb.map (· * BYTES_PER_GB)

def UserRow.used (row : UserRow) : Nat := (row.traffic.map (·.usedTrafficBytes)).getD 0

/-- `expireAt && expireAt < now`. -/
def datePassed (expireAt : Option Int) (now : Int) : Bool :=
  match expireAt with
  | none => false
  | some t => decide (t < now)

/-- `limit !== null && used >= limit`. -/
def quotaSpent (limit : Option Nat) (used : Nat) : Bool :=
  match limit with
  | none => false
  | some l => decide (l ≤ used)

def byFacts (expireAt : Option Int) (limit : Option Nat) (used : Nat) (now : Int) : UserStatus :=
  if datePassed expireAt now then .expired
  else if quotaSpent limit used then .limited
  else .active

namespace UpdateUserInput

/-- The date the edit leaves the row with. -/
def dateOf (input : UpdateUserInput) (row : UserRow) : Option Int :=
  match input.expireAt with
  | some expireAt => expireAt
  | none => row.expireAt

/-- The quota the edit leaves the row with. -/
def limitOf (input : UpdateUserInput) (row : UserRow) : Option Nat :=
  match input.trafficLimitGb with
  | some gb => gbToBytes gb
  | none => row.trafficLimitBytes

end UpdateUserInput

def statusAfterEdit (existing : UserRow) (input : UpdateUserInput) (now : Int) :
    Option UserStatus :=
  let facts := byFacts (input.dateOf existing) (input.limitOf existing) existing.used now
  if input.status = some .disabled then some .disabled
  else if input.status = some .active then some facts
  else if input.status ≠ none then input.status
  else
    let touched := (existing.status = .expired ∧ input.expireAt ≠ none) ∨
      (existing.status = .limited ∧ input.trafficLimitGb ≠ none)
    if ¬ touched then none
    else if facts = existing.status then none
    else some facts

/-- `updateById` with the columns the edit names. -/
def updateById (row : UserRow) (input : UpdateUserInput) (nextStatus : Option UserStatus) :
    UserRow :=
  { row with
    status := nextStatus.getD row.status
    expireAt := input.dateOf row
    trafficLimitBytes := input.limitOf row
    trafficLimitStrategy := input.trafficLimitStrategy.getD row.trafficLimitStrategy }

/-! ## The machine -/

/-- An edit that has read the row and decided the status, and has not written yet. -/
structure PendingEdit where
  existing : UserRow
  readAt : Int
  input : UpdateUserInput

inductive ResetKind where
  | strategy (s : TrafficLimitStrategy)
  | rolling
  | manual
  deriving DecidableEq, Repr

inductive BulkAction where
  | extend (expireDays : Nat)
  | resetTraffic
  | delete
  | enable
  | disable
  deriving DecidableEq, Repr

structure UserState where
  row : UserRow
  now : Int
  /-- edits asked for, by an operator or a bulk action, whose row is not read yet -/
  requests : List UpdateUserInput
  edits : List PendingEdit
  /-- resets that have picked the user and not written yet -/
  resets : List ResetKind
  /-- `user.traffic-reset` events whose handler has not read the row yet -/
  emitted : Nat
  /-- handlers that have read `limited` and not written yet -/
  handlers : Nat

inductive UserEvent where
  | tick (ms : Nat)
  | count (bytes : Nat)
  | ask (input : UpdateUserInput)
  | bulk (action : BulkAction)
  | editRead (i : Nat)
  | editWrite (i : Nat)
  | expiryCron
  | quotaCron
  | resetPick (kind : ResetKind)
  | resetWrite (i : Nat)
  | handlerRead
  | handlerWrite

def ROLLING_WINDOW_MS : Int := 30 * 24 * 60 * 60 * 1000

/-- Whether a reset takes the row: by its strategy, by the rolling window, or as asked. -/
def ResetKind.picks (kind : ResetKind) (row : UserRow) (now : Int) : Bool :=
  row.deletedAt.isNone &&
    match kind with
    | .strategy s => decide (row.trafficLimitStrategy = s)
    | .rolling => decide (row.trafficLimitStrategy = .rolling) &&
        match row.traffic.bind (·.lastTrafficResetAt) with
        | none => true
        | some t => decide (t < now - ROLLING_WINDOW_MS)
    | .manual => true

/-- The write of a reset.  `updateMany` leaves a user without a traffic row as it is, the reset on
demand makes one. -/
def ResetKind.write (kind : ResetKind) (row : UserRow) (now : Int) : UserRow :=
  match row.traffic, kind with
  | none, .manual => { row with traffic := some ⟨0, some now⟩ }
  | none, _ => row
  | some _, _ => { row with traffic := some ⟨0, some now⟩ }

def countTraffic (row : UserRow) (bytes : Nat) : UserRow :=
  let traffic := ⟨row.used + bytes, row.traffic.bind (·.lastTrafficResetAt)⟩
  { row with traffic := some traffic }

def findExpiredUsers (row : UserRow) (now : Int) : UserRow :=
  if row.status = .active ∧ row.deletedAt = none ∧ datePassed row.expireAt now then
    { row with status := .expired }
  else row

/-- The join with `user_traffic` drops a user without a traffic row. -/
def findExceededTrafficUsers (row : UserRow) : UserRow :=
  match row.traffic with
  | none => row
  | some t =>
    if row.status = .active ∧ row.deletedAt = none ∧
        quotaSpent row.trafficLimitBytes t.usedTrafficBytes then
      { row with status := .limited }
    else row

def statusInput (status : UserStatus) (h : status = .active ∨ status = .disabled) :
    UpdateUserInput :=
  ⟨some status, none, none, none, by rcases h with rfl | rfl <;> simp, by intro gb h; cases h⟩

def dateInput (expireAt : Int) : UpdateUserInput :=
  ⟨none, none, none, some (some expireAt), .inl rfl, by intro gb h; cases h⟩

/-- `extend` counts from the current date while it is ahead, from now when it has lapsed. -/
def extendedDate (row : UserRow) (now : Int) (expireDays : Nat) : Int :=
  let base := match row.expireAt with
    | some t => if now < t then t else now
    | none => now
  base + expireDays * 24 * 60 * 60 * 1000

def bulkUsers (s : UserState) (action : BulkAction) : UserState :=
  match action with
  | .extend expireDays =>
    if s.row.deletedAt.isNone then
      { s with requests := s.requests ++ [dateInput (extendedDate s.row s.now expireDays)] }
    else s
  | .resetTraffic =>
    if s.row.deletedAt.isNone then { s with resets := s.resets ++ [.manual] } else s
  | .delete =>
    if s.row.deletedAt.isNone then { s with row := { s.row with deletedAt := some s.now } } else s
  | .enable => { s with requests := s.requests ++ [statusInput .active (.inl rfl)] }
  | .disable => { s with requests := s.requests ++ [statusInput .disabled (.inr rfl)] }

/-- What one event does; an event that names nothing pending does nothing. -/
def UserState.step (s : UserState) : UserEvent → UserState
  | .tick ms => { s with now := s.now + ms }
  | .count bytes => { s with row := countTraffic s.row bytes }
  | .ask input => { s with requests := s.requests ++ [input] }
  | .bulk action => bulkUsers s action
  | .editRead i =>
    match s.requests[i]? with
    | none => s
    | some input =>
      if s.row.deletedAt.isNone then
        { s with requests := s.requests.eraseIdx i, edits := s.edits ++ [⟨s.row, s.now, input⟩] }
      else { s with requests := s.requests.eraseIdx i }
  | .editWrite i =>
    match s.edits[i]? with
    | none => s
    | some p =>
      { s with
        row := updateById s.row p.input (statusAfterEdit p.existing p.input p.readAt)
        edits := s.edits.eraseIdx i }
  | .expiryCron => { s with row := findExpiredUsers s.row s.now }
  | .quotaCron => { s with row := findExceededTrafficUsers s.row }
  | .resetPick kind =>
    if kind.picks s.row s.now then { s with resets := s.resets ++ [kind] } else s
  | .resetWrite i =>
    match s.resets[i]? with
    | none => s
    | some kind =>
      { s with
        row := kind.write s.row s.now
        resets := s.resets.eraseIdx i
        emitted := s.emitted + 1 }
  | .handlerRead =>
    if s.emitted = 0 then s
    else if s.row.deletedAt = none ∧ s.row.status = .limited then
      { s with emitted := s.emitted - 1, handlers := s.handlers + 1 }
    else { s with emitted := s.emitted - 1 }
  | .handlerWrite =>
    if s.handlers = 0 then s
    else { s with row := { s.row with status := .active }, handlers := s.handlers - 1 }

/-- The runs of one user: they start with nothing under way. -/
def users : Machine UserState UserEvent :=
  Machine.ofFun (fun s => s.requests = [] ∧ s.edits = [] ∧ s.resets = [] ∧ s.emitted = 0 ∧
    s.handlers = 0) UserState.step

/-! ## What a step owes the facts -/

def UserRow.datePassed (row : UserRow) (now : Int) : Bool := Iceslab.datePassed row.expireAt now

def UserRow.quotaSpent (row : UserRow) : Bool := Iceslab.quotaSpent row.trafficLimitBytes row.used

namespace UpdateUserInput

/-- An edit that asks for a status or moves the date or the quota. -/
def Touches (input : UpdateUserInput) : Prop :=
  input.status ≠ none ∨ input.expireAt ≠ none ∨ input.trafficLimitGb ≠ none

end UpdateUserInput

/-- The edit an event writes. -/
def UserState.writes (s : UserState) : UserEvent → Option PendingEdit
  | .editWrite i => s.edits[i]?
  | _ => none

/-- An event that leaves a status by decision: an edit that touches it, or a reset handler. -/
def UserState.Decides (s : UserState) (e : UserEvent) : Prop :=
  (∃ p, s.writes e = some p ∧ p.input.Touches) ∨ (e = .handlerWrite ∧ s.handlers ≠ 0)

/-- What one step owes the facts. -/
structure FollowsFacts (s : UserState) (e : UserEvent) (s' : UserState) : Prop where
  /-- only an edit takes a user out of `disabled` -/
  disabled : s.row.status = .disabled → s'.row.status ≠ .disabled → ∃ p, s.writes e = some p
  /-- a user left `active` is inside the date and under the quota -/
  active : s.Decides e → s'.row.status = .active →
    s'.row.datePassed s'.now = false ∧ s'.row.quotaSpent = false
  /-- an edit of the date that removes `expired`'s reason does not leave the user held by it -/
  expired : ∀ p, s.writes e = some p → s.row.status = .expired → p.input.expireAt ≠ none →
    s'.row.datePassed s'.now = false → s'.row.status ≠ .expired
  /-- an edit of the quota that removes `limited`'s reason does not leave the user held by it -/
  limited : ∀ p, s.writes e = some p → s.row.status = .limited → p.input.trafficLimitGb ≠ none →
    s'.row.quotaSpent = false → s'.row.status ≠ .limited
  /-- an edit of anything else keeps the status -/
  untouched : ∀ p, s.writes e = some p → ¬ p.input.Touches → s'.row.status = s.row.status

/-- Nothing the edit's status hangs on has moved between its read and its write: the status the row
had, whether the date the edit leaves has passed, whether the quota it leaves is spent. -/
structure NotOvertaken (p : PendingEdit) (s : UserState) : Prop where
  status : p.input.status = none → p.existing.status = s.row.status
  date : datePassed (p.input.dateOf p.existing) p.readAt = datePassed (p.input.dateOf s.row) s.now
  quota : quotaSpent (p.input.limitOf p.existing) p.existing.used =
    quotaSpent (p.input.limitOf s.row) s.row.used

/-- **When a write follows the facts.**  An edit that is not a plain `disabled` has not been
overtaken, and one that names no status does not move an active user's date or quota behind what has
passed or is used; a handler finds the user not disabled, inside the date and under the quota. -/
structure InTime (s : UserState) (e : UserEvent) : Prop where
  edit : ∀ p, s.writes e = some p → p.input.Touches → p.input.status ≠ some .disabled →
    NotOvertaken p s ∧
      (p.input.status = none → s.row.status = .active →
        datePassed (p.input.dateOf s.row) s.now = false ∧
          quotaSpent (p.input.limitOf s.row) s.row.used = false)
  handler : e = .handlerWrite → s.handlers ≠ 0 →
    s.row.status ≠ .disabled ∧ s.row.datePassed s.now = false ∧ s.row.quotaSpent = false

/-! ## The edit rule -/

section EditRule

variable {expireAt : Option Int} {limit : Option Nat} {used : Nat} {now : Int}

theorem byFacts_active (h : byFacts expireAt limit used now = .active) :
    datePassed expireAt now = false ∧ quotaSpent limit used = false := by
  unfold byFacts at h
  split at h
  · cases h
  · split at h
    · cases h
    · rename_i hd hq
      exact ⟨by simpa using hd, by simpa using hq⟩

theorem byFacts_expired (h : byFacts expireAt limit used now = .expired) :
    datePassed expireAt now = true := by
  unfold byFacts at h
  split at h
  · assumption
  · split at h <;> cases h

theorem byFacts_limited (h : byFacts expireAt limit used now = .limited) :
    quotaSpent limit used = true := by
  unfold byFacts at h
  split at h
  · cases h
  · split at h
    · assumption
    · cases h

end EditRule

section StatusAfterEdit

variable {row existing : UserRow} {input : UpdateUserInput} {now readAt : Int}

theorem statusAfterEdit_congr
    (hs : input.status = none → existing.status = row.status)
    (hd : datePassed (input.dateOf existing) readAt = datePassed (input.dateOf row) now)
    (hq : quotaSpent (input.limitOf existing) existing.used =
      quotaSpent (input.limitOf row) row.used) :
    statusAfterEdit existing input readAt = statusAfterEdit row input now := by
  have hf : byFacts (input.dateOf existing) (input.limitOf existing) existing.used readAt =
      byFacts (input.dateOf row) (input.limitOf row) row.used now := by
    simp only [byFacts, hd, hq]
  unfold statusAfterEdit
  rw [hf]
  by_cases hn : input.status = none
  · simp only [hs hn]
  · simp [hn]

theorem statusAfterEdit_untouched (h : ¬ input.Touches) :
    statusAfterEdit existing input readAt = none := by
  simp only [UpdateUserInput.Touches, not_or, not_not] at h
  obtain ⟨hs, he, hg⟩ := h
  simp [statusAfterEdit, hs, he, hg]

theorem statusAfterEdit_disabled (h : input.status = some .disabled) :
    statusAfterEdit existing input readAt = some .disabled := by
  simp [statusAfterEdit, h]

/-- The ways an edit can decide: the operator's `disabled`, the facts, or nothing. -/
theorem statusAfterEdit_cases (hd : input.status ≠ some .disabled) :
    statusAfterEdit row input now =
        some (byFacts (input.dateOf row) (input.limitOf row) row.used now) ∨
      (statusAfterEdit row input now = none ∧ input.status = none ∧
        ((row.status = .expired ∧ input.expireAt ≠ none) ∨
            (row.status = .limited ∧ input.trafficLimitGb ≠ none) →
          byFacts (input.dateOf row) (input.limitOf row) row.used now = row.status)) := by
  rcases input.status_asked with hs | hs | hs
  · unfold statusAfterEdit
    simp only [hs, reduceCtorEq, if_false, ne_eq, not_true_eq_false]
    split
    · rename_i ht
      exact .inr ⟨rfl, trivial, fun h => absurd h ht⟩
    · split
      · rename_i hf
        exact .inr ⟨rfl, trivial, fun _ => hf⟩
      · exact .inl rfl
  · left
    simp [statusAfterEdit, hs]
  · exact absurd hs hd

end StatusAfterEdit

/-! ## One step -/

theorem findExpiredUsers_disabled {row : UserRow} (now : Int) (h : row.status = .disabled) :
    findExpiredUsers row now = row := by
  simp [findExpiredUsers, h]

theorem findExceededTrafficUsers_disabled {row : UserRow} (h : row.status = .disabled) :
    findExceededTrafficUsers row = row := by
  unfold findExceededTrafficUsers
  split
  · rfl
  · simp [h]

theorem ResetKind.write_status (kind : ResetKind) (row : UserRow) (now : Int) :
    (kind.write row now).status = row.status := by
  unfold ResetKind.write
  split <;> rfl

theorem bulkUsers_status (s : UserState) (action : BulkAction) :
    (bulkUsers s action).row.status = s.row.status := by
  cases action <;> simp only [bulkUsers] <;> first | rfl | (split <;> rfl)

variable {s : UserState} {e : UserEvent} {p : PendingEdit}

/-- An event that writes no edit and is no handler's write keeps a disabled user disabled. -/
theorem step_disabled (hw : s.writes e = none)
    (hh : e ≠ .handlerWrite) (hd : s.row.status = .disabled) :
    (s.step e).row.status = .disabled := by
  cases e with
  | tick ms => exact hd
  | count bytes => exact hd
  | ask input => exact hd
  | bulk action => rw [UserState.step, bulkUsers_status, hd]
  | editRead i =>
    simp only [UserState.step]
    split
    · exact hd
    · split <;> exact hd
  | editWrite i =>
    have hi : s.edits[i]? = none := hw
    simp only [UserState.step, hi]
    exact hd
  | expiryCron => simp only [UserState.step, findExpiredUsers_disabled _ hd]; exact hd
  | quotaCron => simp only [UserState.step, findExceededTrafficUsers_disabled hd]; exact hd
  | resetPick kind =>
    simp only [UserState.step]
    split <;> exact hd
  | resetWrite i =>
    simp only [UserState.step]
    split
    · exact hd
    · simp only [ResetKind.write_status, hd]
  | handlerRead =>
    simp only [UserState.step]
    split
    · exact hd
    · split <;> exact hd
  | handlerWrite => exact absurd rfl hh

theorem followsFacts_of_undecided {s s' : UserState} (hw : s.writes e = none)
    (hh : e = .handlerWrite → s.handlers = 0)
    (hd : s.row.status = .disabled → s'.row.status = .disabled) : FollowsFacts s e s' where
  disabled h h' := absurd (hd h) h'
  active h _ := by
    rcases h with ⟨p, hp, -⟩ | ⟨he, hn⟩
    · rw [hw] at hp
      cases hp
    · exact absurd (hh he) hn
  expired p hp := by rw [hw] at hp; cases hp
  limited p hp := by rw [hw] at hp; cases hp
  untouched p hp := by rw [hw] at hp; cases hp

/-- An event that writes neither an edit nor a handler's `active` is in time. -/
theorem inTime_of_undecided (hw : s.writes e = none) (hh : e ≠ .handlerWrite) : InTime s e where
  edit p hp := by rw [hw] at hp; cases hp
  handler he := absurd he hh

theorem followsFacts_handlerWrite (hn : s.handlers ≠ 0)
    (ht : InTime s .handlerWrite) : FollowsFacts s .handlerWrite (s.step .handlerWrite) := by
  obtain ⟨hd, hdate, hquota⟩ := ht.handler rfl hn
  have hstep : s.step .handlerWrite =
      { s with row := { s.row with status := .active }, handlers := s.handlers - 1 } := by
    simp only [UserState.step, hn, if_false]
  rw [hstep]
  refine ⟨fun h => absurd h hd, fun _ _ => ⟨hdate, hquota⟩, ?_, ?_, ?_⟩
  · intro p hp
    cases hp
  · intro p hp
    cases hp
  · intro p hp
    cases hp

/-- An edit that was not overtaken decides at its read what it would decide at its write. -/
theorem NotOvertaken.statusAfterEdit_eq (hn : NotOvertaken p s) :
    statusAfterEdit p.existing p.input p.readAt = statusAfterEdit s.row p.input s.now :=
  statusAfterEdit_congr hn.status hn.date hn.quota

theorem step_editWrite {i : Nat} (hp : s.edits[i]? = some p) :
    s.step (.editWrite i) =
      { s with
        row := updateById s.row p.input (statusAfterEdit p.existing p.input p.readAt)
        edits := s.edits.eraseIdx i } := by
  simp only [UserState.step, hp]

theorem followsFacts_editWrite {i : Nat}
    (hp : s.edits[i]? = some p) (ht : InTime s (.editWrite i)) :
    FollowsFacts s (.editWrite i) (s.step (.editWrite i)) := by
  have hw : s.writes (.editWrite i) = some p := hp
  have hstep := step_editWrite hp
  have hsame : ∀ q, s.writes (.editWrite i) = some q → q = p := by
    intro q hq
    rw [hw] at hq
    exact (Option.some.inj hq).symm
  by_cases hdis : p.input.status = some .disabled
  · -- the operator's word: nothing is left active or held
    have hst : (s.step (.editWrite i)).row.status = .disabled := by
      rw [hstep]
      simp only [updateById, statusAfterEdit_disabled hdis, Option.getD_some]
    refine ⟨fun _ h => absurd hst h, fun _ h => ?_, ?_, ?_, ?_⟩
    · rw [hst] at h
      cases h
    · intro q _ _ _ _
      rw [hst]
      simp
    · intro q _ _ _ _
      rw [hst]
      simp
    · intro q hq hnt
      rw [hsame q hq] at hnt
      exact absurd (.inl (by simp [hdis])) hnt
  by_cases htouch : p.input.Touches
  · obtain ⟨hn, hactive⟩ := ht.edit p hw htouch hdis
    rw [hn.statusAfterEdit_eq] at hstep
    rw [hstep]
    rcases @statusAfterEdit_cases s.row p.input s.now hdis with
      hdec | ⟨hdec, hnone, hheld⟩
    · -- the facts decide, on the row the write finds
      simp only [hdec]
      refine ⟨fun _ _ => ⟨p, hw⟩, fun _ h => byFacts_active h, ?_, ?_, ?_⟩
      · intro q _ _ _ hdate hst
        exact absurd (byFacts_expired hst) (by simpa [UserRow.datePassed, updateById] using hdate)
      · intro q _ _ _ hquota hst
        refine absurd (byFacts_limited hst) ?_
        simpa [UserRow.quotaSpent, updateById, UserRow.used] using hquota
      · intro q hq hnt
        rw [hsame q hq] at hnt
        exact absurd htouch hnt
    · -- nothing is decided: the status stays
      simp only [hdec]
      refine ⟨fun _ _ => ⟨p, hw⟩, fun _ h => hactive hnone h, ?_, ?_, ?_⟩
      · intro q hq hst hexp hdate _
        rw [hsame q hq] at hexp
        have hf := hheld (.inl ⟨hst, hexp⟩)
        rw [hst] at hf
        exact absurd (byFacts_expired hf) (by simpa [UserRow.datePassed, updateById] using hdate)
      · intro q hq hst hgb hquota _
        rw [hsame q hq] at hgb
        have hf := hheld (.inr ⟨hst, hgb⟩)
        rw [hst] at hf
        refine absurd (byFacts_limited hf) ?_
        simpa [UserRow.quotaSpent, updateById, UserRow.used] using hquota
      · intro q _ _
        rfl
  · have hst : (s.step (.editWrite i)).row.status = s.row.status := by
      rw [hstep]
      simp only [updateById, statusAfterEdit_untouched htouch, Option.getD_none]
    have hnot := htouch
    simp only [UpdateUserInput.Touches, not_or, not_not] at hnot
    refine ⟨fun _ _ => ⟨p, hw⟩, ?_, ?_, ?_, fun q _ _ => hst⟩
    · rintro (⟨q, hq, hqt⟩ | ⟨he, -⟩)
      · rw [hsame q hq] at hqt
        exact absurd hqt htouch
      · cases he
    · intro q hq _ hexp
      rw [hsame q hq] at hexp
      exact absurd hnot.2.1 hexp
    · intro q hq _ hgb
      rw [hsame q hq] at hgb
      exact absurd hnot.2.2 hgb

/-- **One step in time follows the facts.** -/
theorem step_followsFacts (ht : InTime s e) : FollowsFacts s e (s.step e) := by
  cases hw : s.writes e with
  | some p =>
    cases e with
    | editWrite i => exact followsFacts_editWrite hw ht
    | _ => cases hw
  | none =>
    by_cases hh : e = .handlerWrite ∧ s.handlers ≠ 0
    · obtain ⟨rfl, hn⟩ := hh
      exact followsFacts_handlerWrite hn ht
    · refine followsFacts_of_undecided hw (fun he => ?_) (fun hdis => ?_)
      · by_contra hn
        exact hh ⟨he, hn⟩
      · by_cases he : e = .handlerWrite
        · subst he
          have hn : s.handlers = 0 := by
            by_contra hn
            exact hh ⟨rfl, hn⟩
          simp only [UserState.step, hn, if_true]
          exact hdis
        · exact step_disabled hw he hdis

/-! ## Whole runs -/

/-- **A user's status follows the facts.**  In a run whose writes are all in time every step follows
the facts, and a user who is disabled when it starts and whom no edit has written is disabled when it
ends. -/
theorem status_follows_facts {s₀ s : UserState}
    {steps : List (UserState × UserEvent × UserState)} (hrun : users.Run s₀ steps s)
    (ht : ∀ st ∈ steps, InTime st.1 st.2.1) :
    (∀ st ∈ steps, FollowsFacts st.1 st.2.1 st.2.2) ∧
      (s₀.row.status = .disabled → (∀ st ∈ steps, st.1.writes st.2.1 = none) →
        s.row.status = .disabled) := by
  have hsteps : ∀ st ∈ steps, FollowsFacts st.1 st.2.1 st.2.2 := by
    intro st hst
    have hs : st.2.2 = st.1.step st.2.1 := hrun.step_of_mem st hst
    rw [hs]
    exact step_followsFacts (ht st hst)
  refine ⟨hsteps, fun hd hw => ?_⟩
  refine hrun.keeps (P := fun s => s.row.status = .disabled) (fun st hst h => ?_) hd
  by_contra hne
  obtain ⟨p, hp⟩ := (hsteps st hst).disabled h hne
  rw [hw st hst] at hp
  cases hp

/-! ## A reset against the facts -/

/-- A user of a monthly gigabyte, paid until the instant 1000. -/
def monthlyUser : UserState where
  row := ⟨.active, some 1000, some BYTES_PER_GB, .month, some ⟨0, none⟩, none⟩
  now := 0
  requests := []
  edits := []
  resets := []
  emitted := 0
  handlers := 0

/-- The month ends after the date has passed, for a user who had used the quota up before. -/
def resetAfterDate : List UserEvent :=
  [.count BYTES_PER_GB, .quotaCron, .tick 2000, .resetPick (.strategy .month), .resetWrite 0,
    .handlerRead, .handlerWrite]

/-- The operator disables the user between the handler's read and its write. -/
def resetUnderDisable : List UserEvent :=
  [.count BYTES_PER_GB, .quotaCron, .resetPick (.strategy .month), .resetWrite 0, .handlerRead,
    .bulk .disable, .editRead 0, .editWrite 0, .handlerWrite]

/-- The user of a monthly gigabyte extended by an operator while active, and inside the date: every
write of the run is in time. -/
def extendedInTime : List UserEvent :=
  [.count 5, .bulk (.extend 30), .editRead 0, .editWrite 0, .expiryCron]

theorem status_follows_facts_extended :
    ∃ s steps, users.Run monthlyUser steps s ∧ steps.length = 5 ∧
      (∀ st ∈ steps, FollowsFacts st.1 st.2.1 st.2.2) := by
  refine ⟨_, _, Machine.run_trace _ _ monthlyUser extendedInTime, rfl, ?_⟩
  refine (status_follows_facts (Machine.run_trace _ _ monthlyUser extendedInTime) ?_).1
  intro st hst
  simp only [extendedInTime, Machine.trace, List.mem_cons, List.not_mem_nil, or_false] at hst
  rcases hst with rfl | rfl | rfl | rfl | rfl
  · exact inTime_of_undecided rfl (by simp)
  · exact inTime_of_undecided rfl (by simp)
  · exact inTime_of_undecided rfl (by simp)
  · refine ⟨fun p hp _ _ => ?_, by simp⟩
    cases hp
    exact ⟨⟨by decide, by decide, by decide⟩, by decide⟩
  · exact inTime_of_undecided rfl (by simp)

/-- **A reset's handler decides `active` without the facts.**  A monthly reset revives a user whose
date has passed, and a user the operator has disabled while the handler ran. -/
theorem reset_revives_expired :
    (∃ steps s, users.start monthlyUser ∧ users.Run monthlyUser steps s ∧
        s.row.status = .active ∧ s.row.datePassed s.now = true ∧
        ∃ st ∈ steps, ¬ FollowsFacts st.1 st.2.1 st.2.2) ∧
      (∃ steps s, users.start monthlyUser ∧ users.Run monthlyUser steps s ∧
        ∃ st ∈ steps, st.1.row.status = .disabled ∧ st.2.1 = .handlerWrite ∧
          st.2.2.row.status = .active ∧ ¬ FollowsFacts st.1 st.2.1 st.2.2) := by
  refine ⟨⟨_, _, ⟨rfl, rfl, rfl, rfl, rfl⟩, Machine.run_trace _ _ monthlyUser resetAfterDate,
      by decide, by decide, ?_⟩,
    ⟨_, _, ⟨rfl, rfl, rfl, rfl, rfl⟩, Machine.run_trace _ _ monthlyUser resetUnderDisable, ?_⟩⟩
  · refine ⟨_, List.getLast_mem (by simp [resetAfterDate, Machine.trace]), fun h => ?_⟩
    have hp := (h.active (.inr ⟨rfl, by decide⟩) (by decide)).1
    exact absurd hp (by decide)
  · refine ⟨_, List.getLast_mem (by simp [resetUnderDisable, Machine.trace]), by decide, rfl,
      by decide, fun h => ?_⟩
    obtain ⟨p, hp⟩ := h.disabled (by decide) (by decide)
    cases hp

end Iceslab
