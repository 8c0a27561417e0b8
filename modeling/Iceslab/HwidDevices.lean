import Iceslab.Lib.Machine

/-!
# The devices of a user

`enforceHwid` of `hwid.service.ts`, one event being one SQL statement of one call.  A device that
is not on the table is put there in a transaction that holds an advisory lock of its user, so one
such transaction of a user is open at a time; what it inserts shows when it commits.

* `effectiveDeviceCeiling`, `decideUnderLock` — what the count under the lock leads to.
* `statement` — the next statement of a call.
* `devices` — the machine: calls, their statements in any order, devices removed meanwhile.
-/

set_option autoImplicit false

namespace Iceslab.Hwid

/-! ## The statements -/

/-- A row of `hwid_user_devices`, of the one user. -/
structure DeviceRow where
  id : Nat
  hwid : String
  lastSeenAt : Nat
  deriving DecidableEq, Repr

inductive HwidStatus where
  | disabled
  | allowed
  | denied
  deriving DecidableEq, Repr

structure HwidCheckResult where
  status : HwidStatus
  /-- the devices registered -/
  active : Nat
  /-- `none` is no limit -/
  limit : Option Nat
  deriving DecidableEq, Repr

inductive HwidError where
  /-- `P2025`: the row to update is not there -/
  | notFound
  /-- `P2002`: the user has the device already -/
  | uniqueViolation
  deriving DecidableEq, Repr

/-- The smaller of the user's limit and the system's. -/
def effectiveDeviceCeiling (limit : Option Nat) (systemMax : Nat) : Nat :=
  match limit with
  | none => systemMax
  | some limit => min limit systemMax

structure HwidCall where
  hwid : String
  limit : Option Nat
  deriving DecidableEq, Repr

inductive Progress where
  /-- before the look-up of the device -/
  | begun
  | found (id : Nat)
  /-- `lastSeenAt` is written, the devices are to be counted -/
  | touched
  /-- waits for the advisory lock -/
  | missed
  | locked
  | counted (current : Nat)
  | created (current : Nat)
  /-- the transaction commits with nothing inserted -/
  | decided (result : HwidCheckResult)
  /-- the transaction is rolled back -/
  | failed (error : HwidError)
  | ended (result : Except HwidError HwidCheckResult)
  deriving DecidableEq

/-- The call has the lock. -/
def Progress.inSection : Progress → Bool
  | .locked | .counted _ | .created _ | .decided _ | .failed _ => true
  | _ => false

/-- The committed rows of the user, and which call holds their advisory lock. -/
structure DeviceTable where
  rows : List DeviceRow
  lock : Option Nat
  nextId : Nat
  deriving DecidableEq, Repr

namespace DeviceTable

variable (t : DeviceTable)

def registered (hwid : String) : Bool := t.rows.any fun r => decide (r.hwid = hwid)

def has (id : Nat) : Bool := t.rows.any fun r => decide (r.id = id)

def touch (id now : Nat) : DeviceTable :=
  { t with rows := t.rows.map fun r => if r.id = id then { r with lastSeenAt := now } else r }

def insert (hwid : String) (now : Nat) : DeviceTable :=
  { t with rows := t.rows ++ [⟨t.nextId, hwid, now⟩], nextId := t.nextId + 1 }

def remove (id : Nat) : DeviceTable :=
  { t with rows := t.rows.filter fun r => decide (r.id ≠ id) }

def release : DeviceTable := { t with lock := none }

end DeviceTable

def HwidCall.allowed (c : HwidCall) (active : Nat) : HwidCheckResult :=
  ⟨.allowed, if c.limit = none then 0 else active, c.limit⟩

/-- At the ceiling a call without a limit is let through unrecorded, another one refused. -/
def decideUnderLock (systemMax : Nat) (c : HwidCall) (current : Nat) : Progress :=
  if effectiveDeviceCeiling c.limit systemMax ≤ current then
    match c.limit with
    | none => .decided ⟨.allowed, 0, none⟩
    | some limit => .decided ⟨.denied, current, some limit⟩
  else .counted current

/-- The next statement of call `i`; `none` where it has to wait, or has ended. -/
def statement (systemMax i now : Nat) (c : HwidCall) (t : DeviceTable) :
    Progress → Option (DeviceTable × Progress)
  | .begun =>
    match t.rows.find? fun r => decide (r.hwid = c.hwid) with
    | some existing => some (t, .found existing.id)
    | none => some (t, .missed)
  | .found id =>
    if t.has id then
      some (t.touch id now, if c.limit = none then .ended (.ok (c.allowed 0)) else .touched)
    else some (t, .ended (.error .notFound))
  | .touched => some (t, .ended (.ok (c.allowed t.rows.length)))
  | .missed => if t.lock = none then some ({ t with lock := some i }, .locked) else none
  | .locked => some (t, decideUnderLock systemMax c t.rows.length)
  | .counted current =>
    if t.registered c.hwid then some (t, .failed .uniqueViolation) else some (t, .created current)
  | .created current =>
    some ((t.insert c.hwid now).release, .ended (.ok (c.allowed (current + 1))))
  | .decided result => some (t.release, .ended (.ok result))
  | .failed error => some (t.release, .ended (.error error))
  | .ended _ => none

/-! ## The machine -/

structure Devices where
  table : DeviceTable
  calls : List (HwidCall × Progress)
  deriving DecidableEq

inductive DeviceEvent where
  | call (hwid : Option String) (limit : Option Nat)
  | turn (i now : Nat)
  | remove (id : Nat)
  deriving DecidableEq, Repr

/-- `enforceHwid` up to its first statement: without a header there is none. -/
def enforceHwid (hwid : Option String) (limit : Option Nat) : HwidCall × Progress :=
  match hwid with
  | none => (⟨"", limit⟩, .ended (.ok ⟨.disabled, 0, limit⟩))
  | some hwid =>
    (⟨hwid, limit⟩, if hwid = "" then .ended (.ok ⟨.disabled, 0, limit⟩) else .begun)

def Devices.turn (systemMax : Nat) (s : Devices) (i now : Nat) : Devices :=
  match s.calls[i]? with
  | none => s
  | some (c, p) =>
    match statement systemMax i now c s.table p with
    | none => s
    | some (table, p') => ⟨table, s.calls.set i (c, p')⟩

def Devices.step (systemMax : Nat) (s : Devices) : DeviceEvent → Devices
  | .call hwid limit => { s with calls := s.calls ++ [enforceHwid hwid limit] }
  | .turn i now => s.turn systemMax i now
  | .remove id => { s with table := s.table.remove id }

/-- The table starts with a row for each device, within the system's maximum. -/
structure Devices.Fresh (systemMax : Nat) (s : Devices) : Prop where
  calls : s.calls = []
  lock : s.table.lock = none
  oneRow : (s.table.rows.map (·.hwid)).Nodup
  total : s.table.rows.length ≤ systemMax

def devices (systemMax : Nat) : Machine Devices DeviceEvent :=
  .ofFun (Devices.Fresh systemMax) (Devices.step systemMax)

end Iceslab.Hwid
