import Iceslab.Lib.Machine
import Iceslab.Lib.OrderedMap

/-!
# The users of hysteria

`AddUser`, `RemoveUser` and the kicks of `adapter.go` of `internal/core/hysteria`, beside the
sessions that hysteria has open.

* `serving` — whether hysteria is taken to serve, by a verdict that may be old.
* `kick` — the open sessions of a user closed, or owed.
* `addUser`, `removeUser`, `lookupByPassword` — the passwords.
* `hysteria` — calls, clients and the unit going up and down, in any order.
-/

set_option autoImplicit false

namespace Iceslab.Agent.HysteriaUsers

/-! ## The adapter -/

structure Config where
  binaryPath : String
  serviceUnit : String
  trafficStatsListen : String
  trafficStatsSecret : String

structure UserEntry where
  userID : String
  username : String
deriving DecidableEq

structure User where
  userID : String
  username : String
  hysteriaPassword : String
deriving DecidableEq

/-- `users` is by password. -/
structure Adapter where
  users : OrderedMap String UserEntry
  kickPending : List String
  /-- an inbound is applied -/
  applied : Bool
  /-- the cached verdict on the unit, none before the first probe -/
  unitHealthy : Option Bool

/-- What systemd and the traffic API answer, where a call asks them: `landed` is a kick that reached
hysteria and was answered with an error all the same. -/
structure Answers where
  unitActive : Bool
  running : Bool
  kicked : Bool
  landed : Bool
deriving DecidableEq

inductive Kick
  /-- nothing was held of the user -/
  | unneeded
  /-- hysteria is taken not to serve, or has no traffic API -/
  | skipped
  | sent
  | failed
deriving DecidableEq, Repr

section Calls

variable (cfg : Config) (ans : Answers)

/-- `unitActive`: the verdict of the last probe, however old; the refresh it sets off lands
later. -/
def unitActive (a : Adapter) : Adapter × Bool :=
  match a.unitHealthy with
  | none => ({ a with unitHealthy := some ans.unitActive }, ans.unitActive)
  | some healthy => (a, healthy)

def serving (a : Adapter) : Adapter × Bool :=
  if cfg.binaryPath = "" then (a, true)
  else if !a.applied then (a, false)
  else if cfg.serviceUnit ≠ "" then unitActive ans a
  else (a, ans.running)

def kick (userID : String) (a : Adapter) : Adapter × Kick :=
  if cfg.trafficStatsListen = "" ∨ cfg.trafficStatsSecret = "" then (a, .skipped)
  else
    let (a, serves) := serving cfg ans a
    if !serves then (a, .skipped)
    else if ans.kicked then
      ({ a with kickPending := a.kickPending.filter fun id => decide (id ≠ userID) }, .sent)
    else ({ a with kickPending := userID :: a.kickPending }, .failed)

/-- The passwords of a user but one. -/
def Adapter.others (a : Adapter) (userID password : String) : List String :=
  (a.users.entries.filter fun e => decide (e.2.userID = userID ∧ e.1 ≠ password)).map Prod.fst

def Adapter.forget (a : Adapter) (passwords : List String) : Adapter :=
  { a with users := a.users.filter fun password => decide (password ∉ passwords) }

def addUser (user : User) (a : Adapter) : Adapter × Kick :=
  if user.hysteriaPassword = "" then (a, .unneeded)
  else
    let old := a.others user.userID user.hysteriaPassword
    let held := decide (user.userID ∈ a.kickPending) || !old.isEmpty
    let a := a.forget old
    let a := { a with
      users := a.users.set user.hysteriaPassword ⟨user.userID, user.username⟩ }
    if !held then (a, .unneeded) else kick cfg ans user.userID a

/-- No password is empty, so all of the user's are others than the empty one. -/
def removeUser (userID : String) (a : Adapter) : Adapter × Kick :=
  let old := (a.users.entries.filter fun e => decide (e.2.userID = userID)).map Prod.fst
  let held := decide (userID ∈ a.kickPending) || !old.isEmpty
  let a := a.forget old
  if !held then (a, .unneeded) else kick cfg ans userID a

def lookupByPassword (a : Adapter) (password : String) : Option String :=
  (a.users.get? password).map (·.userID)

end Calls

/-! ## The adapter and hysteria -/

/-- A connection, by what the auth callback answered for its password. -/
structure Session where
  userID : String
  password : String
  /-- a kick was sent for its user once the password was not theirs any more -/
  kicked : Bool
deriving DecidableEq

/-- `up`: hysteria really serves.  `last` is the password of a user's last `AddUser` with no
`RemoveUser` after it. -/
structure State where
  adapter : Adapter
  up : Bool
  sessions : List Session
  last : String → Option String

inductive Event where
  | addUser (user : User) (ans : Answers)
  | removeUser (userID : String) (ans : Answers)
  | connect (password : String)
  | hysteria (up : Bool)
  /-- a refresh of the verdict lands -/
  | probed (healthy : Bool)
  | applied
  | idled

/-- The password is its user's now. -/
def State.valid (s : State) (x : Session) : Bool :=
  lookupByPassword s.adapter x.password = some x.userID

/-- The kick reaches hysteria. -/
def reaches (k : Kick) (ans : Answers) : Bool := k = .sent ∨ (k = .failed ∧ ans.landed = true)

/-- The kick of a user's sessions, after the call has dealt with the passwords. -/
def State.afterKick (s : State) (userID : String) (ans : Answers) (k : Kick) : State :=
  { s with
    sessions := s.sessions.map fun x =>
      if reaches k ans = true ∧ x.userID = userID ∧ s.valid x = false then { x with kicked := true }
      else x }

/-- The password a user is given, where there is one. -/
def User.password (user : User) : Option String :=
  if user.hysteriaPassword = "" then none else some user.hysteriaPassword

def State.called (s : State) (userID : String) (password : Option String) (ans : Answers)
    (r : Adapter × Kick) : State :=
  { s with adapter := r.1, last := Function.update s.last userID password }.afterKick userID ans r.2

def apply (cfg : Config) (s : State) : Event → State
  | .addUser user ans =>
    s.called user.userID user.password ans (addUser cfg ans user s.adapter)
  | .removeUser userID ans => s.called userID none ans (removeUser cfg ans userID s.adapter)
  | .connect password =>
    match lookupByPassword s.adapter password with
    | some userID => { s with sessions := ⟨userID, password, false⟩ :: s.sessions }
    | none => s
  | .hysteria up => { s with up, sessions := if up then s.sessions else [] }
  | .probed healthy => { s with adapter := { s.adapter with unitHealthy := some healthy } }
  | .applied => { s with adapter := { s.adapter with applied := true } }
  | .idled => { s with adapter := { s.adapter with applied := false, unitHealthy := none } }

/-- Where hysteria does not serve nobody connects and no kick is taken; the current passwords of the
users are different ones. -/
def Event.Possible (s : State) : Event → Prop
  | .addUser user ans =>
    (ans.kicked = true ∨ ans.landed = true → s.up = true) ∧
      ∀ other, other ≠ user.userID → s.last other ≠ some user.hysteriaPassword
  | .removeUser _ ans => ans.kicked = true ∨ ans.landed = true → s.up = true
  | .connect _ => s.up = true
  | _ => True

def fresh : State := ⟨⟨OrderedMap.empty, [], false, none⟩, false, [], fun _ => none⟩

/-- The adapter from its start, and the hysteria it tells of its users. -/
def hysteria (cfg : Config) : Machine State Event where
  start s := s = fresh
  step s e s' := e.Possible s ∧ s' = apply cfg s e

end Iceslab.Agent.HysteriaUsers
