import Iceslab.Lib.GoText
import Iceslab.Lib.Machine
import Iceslab.Lib.OrderedMap

/-!
# The traffic counters of xray

`GetStats` of `adapter.go` and `stats.go` of `internal/core/xray`, beside the calls that put users
on the core and take them off.

* `parseStatName`, `statEntryInt64`, `queryUserStats` — what the core answers, read.
* `Client.reportedKeys`, `getStats` — a user's rows: the counter of the id and that of the login.
* `addUser`, `addUserOn`, `removeUser` — the users held.
* `oneProcess` — one run of the core: users come and go, traffic is counted, polls are taken.
-/

set_option autoImplicit false

namespace Iceslab.Agent.XrayCounters

/-! ## The core's answer -/

inductive Direction
  | uplink
  | downlink
deriving DecidableEq, Repr

def Direction.name : Direction → String
  | .uplink => "uplink"
  | .downlink => "downlink"

/-- `value` as it stands in the answer; empty where the answer leaves it out. -/
structure XrayStatEntry where
  name : String
  value : String
deriving DecidableEq, Repr

structure UserByteCounters where
  uplinkBytes : Int64
  downlinkBytes : Int64
deriving DecidableEq, Repr

def UserByteCounters.of (c : UserByteCounters) : Direction → Int64
  | .uplink => c.uplinkBytes
  | .downlink => c.downlinkBytes

def UserByteCounters.add (c : UserByteCounters) (d : Direction) (bytes : Int64) :
    UserByteCounters :=
  match d with
  | .uplink => { c with uplinkBytes := c.uplinkBytes + bytes }
  | .downlink => { c with downlinkBytes := c.downlinkBytes + bytes }

def parseDirection (s : String) : Option Direction :=
  if s = "uplink" then some .uplink else if s = "downlink" then some .downlink else none

/-- `parseStatName` and `parseInboundStatName`: the kind is all they differ in. -/
def parseName (kind name : String) : Option (String × Direction) :=
  match GoText.split name ">>>" with
  | [k, key, t, d] =>
    if k = kind ∧ t = "traffic" then (parseDirection d).map fun d => (key, d) else none
  | _ => none

def parseStatName (name : String) : Option (String × Direction) := parseName "user" name

def parseInboundStatName (name : String) : Option (String × Direction) := parseName "inbound" name

/-- A digit at a time, without a look at overflow; no digit at all is zero. -/
def parseInt64String (s : String) : Option Int64 :=
  if s.toList.all Char.isDigit then
    some (s.toList.foldl (fun n c => n * 10 + Int64.ofNat (c.toNat - '0'.toNat)) 0)
  else none

/-- A number, or a number in quotes. -/
def statEntryInt64 (raw : String) : Option Int64 :=
  let cs := (GoText.trimSpace raw).toList
  if cs = [] then none
  else if cs.head? = some '"' ∧ cs.getLast? = some '"' then
    parseInt64String (String.ofList cs.tail.dropLast)
  else parseInt64String (String.ofList cs)

/-- An entry that is counted. -/
def userEntry (e : XrayStatEntry) : Option (String × Direction × Int64) := do
  let (key, d) ← parseStatName e.name
  let bytes ← statEntryInt64 e.value
  return (key, d, bytes)

/-- `queryUserStats`, of an answer that parsed: the counters by key. -/
def queryUserStats (stat : List XrayStatEntry) : OrderedMap String UserByteCounters :=
  OrderedMap.collect (·.1) (fun entry r => (entry.getD ⟨0, 0⟩).add r.2.1 r.2.2)
    (stat.filterMap userEntry)

/-- The management inbound. -/
def apiInboundTag : String := "api-in"

/-- `queryInboundStats`, of an answer that parsed: the sum over every other inbound. -/
def queryInboundStats (stat : List XrayStatEntry) : UserByteCounters :=
  stat.foldl (fun total e =>
    match parseInboundStatName e.name, statEntryInt64 e.value with
    | some (tag, d), some bytes => if tag = apiInboundTag then total else total.add d bytes
    | _, _ => total) ⟨0, 0⟩

/-! ## Users -/

structure User where
  userID : String
  username : String
  xrayUUID : String
deriving DecidableEq

/-- `xrayClient` -/
structure Client where
  id : String
  email : String
  login : String
  /-- ids joined by commas; empty is every inbound -/
  inbounds : String
deriving DecidableEq

abbrev Users := OrderedMap String Client

/-- An inbound the core serves. -/
structure Inbound where
  id : String
  subprotocol : String
deriving DecidableEq

def Inbound.isPlain (i : Inbound) : Bool := i.subprotocol = "socks" ∨ i.subprotocol = "http"

def Client.servesOn (c : Client) (i : Inbound) : Bool :=
  c.inbounds = "" ∨ i.id ∈ GoText.split c.inbounds ","

/-- What the core counts a user of an inbound under: the login on socks and http, where one without
a login has no account, and the email elsewhere. -/
def Client.keyOn (c : Client) (i : Inbound) : Option String :=
  if !c.servesOn i then none
  else if i.isPlain then if c.login ≠ "" then some c.login else none
  else some c.email

/-- The counters a user's row is made of. -/
def Client.reportedKeys (id : String) (c : Client) : List String :=
  if c.login ≠ "" ∧ c.login ≠ id then [id, c.login] else [id]

/-! ## A poll -/

structure UserStats where
  userID : String
  bytesIn : Int64
  bytesOut : Int64
deriving DecidableEq, Repr

def UserStats.of (r : UserStats) : Direction → Int64
  | .uplink => r.bytesIn
  | .downlink => r.bytesOut

structure LingeringUser where
  email : String
  sessions : Int64
deriving DecidableEq, Repr

structure Stats where
  users : List UserStats
  totalBytesIn : Int64 := 0
  totalBytesOut : Int64 := 0
  cumulative : Bool := false
  noData : Bool := false
  lingering : Option (List LingeringUser) := none
deriving DecidableEq, Repr

/-- What the queries of a poll come back with, `none` for one that failed. -/
structure Queries where
  user : Option (List XrayStatEntry)
  inbound : Option (List XrayStatEntry)
  onlineEmails : Option (List String)
  onlineSessions : String → Option Int64

section Poll

variable (users : Users) (q : Queries)

/-- The emails with open connections that are nobody's any more; none where a count failed. -/
def lingering : Option (List LingeringUser) := do
  let emails ← q.onlineEmails
  let held := users.entries.flatMap fun u => u.2.reportedKeys u.1
  let counted ← (emails.filter fun e => decide (e ∉ held)).mapM fun e =>
    (q.onlineSessions e).map fun n => (⟨e, n⟩ : LingeringUser)
  return counted.filter fun l => decide (0 < l.sessions)

/-- The row of one user. -/
def userRow (counters : OrderedMap String UserByteCounters) (u : String × Client) : UserStats :=
  let counter := fun key => (counters.get? key).getD ⟨0, 0⟩
  let keys := u.2.reportedKeys u.1
  ⟨u.1, (keys.map fun k => (counter k).uplinkBytes).sum,
    (keys.map fun k => (counter k).downlinkBytes).sum⟩

/-- The rows, where the core was asked and answered; it is not asked where there is nobody. -/
def userRows : Option (List UserStats) :=
  if users.entries = [] then some []
  else q.user.map fun stat => users.entries.map (userRow (queryUserStats stat))

/-- `GetStats`.  `binary`: a binary path and a way to run it; `running`: a process that runs. -/
def getStats (binary running : Bool) : Stats :=
  if !binary || !running then { users := users.keys.map fun id => ⟨id, 0, 0⟩ }
  else
    match userRows users q with
    | none => { users := [], noData := true, cumulative := true }
    | some rows =>
      let total := (q.inbound.map queryInboundStats).getD
        ⟨(rows.map (·.bytesIn)).sum, (rows.map (·.bytesOut)).sum⟩
      { users := rows
        totalBytesIn := total.uplinkBytes
        totalBytesOut := total.downlinkBytes
        cumulative := true
        lingering := lingering users q }

end Poll

/-! ## One process of the core -/

/-- Bytes a user moved, and what they were counted under. -/
structure Movement where
  who : String
  key : String
  direction : Direction
  bytes : Nat
deriving DecidableEq

/-- What a poll reported, and what had been moved by then. -/
structure Poll where
  stats : Stats
  movements : List Movement

structure State where
  users : Users
  /-- who was on the core under which key: a connection outlives the account it came in by -/
  held : List (String × String)
  movements : List Movement
  polls : List Poll

inductive Event where
  | addUser (user : User)
  | addUserOn (user : User) (inboundIDs : List String)
  | removeUser (userID : String)
  | traffic (who key : String) (direction : Direction) (bytes : Nat)
  | poll (q : Queries)

/-- What the core has counted under a key. -/
def counted (movements : List Movement) (key : String) (d : Direction) : Nat :=
  ((movements.filter fun m => decide (m.key = key ∧ m.direction = d)).map (·.bytes)).sum

/-- What a user has moved. -/
def moved (movements : List Movement) (who : String) (d : Direction) : Nat :=
  ((movements.filter fun m => decide (m.who = who ∧ m.direction = d)).map (·.bytes)).sum

def statName (key : String) (d : Direction) : String :=
  "user>>>" ++ key ++ ">>>traffic>>>" ++ d.name

/-- A number as the core may write it: bare, in quotes, or left out for zero. -/
def Spelled (n : Nat) (raw : String) : Prop :=
  raw = Nat.repr n ∨ raw = "\"" ++ Nat.repr n ++ "\"" ∨ (n = 0 ∧ raw = "")

/-- The core answers with its counters: a counter has one entry, and one that counted is there.  They
are int64 of its own: of one that is past them nothing is said. -/
structure Answers (movements : List Movement) (stat : List XrayStatEntry) : Prop where
  oneEntry : (stat.map (·.name)).Nodup
  counts : ∀ e ∈ stat, ∀ key d, e.name = statName key d → counted movements key d < 2 ^ 63 →
    Spelled (counted movements key d) e.value
  listed : ∀ key d, counted movements key d ≠ 0 → ∃ e ∈ stat, e.name = statName key d

section Process

variable (inbounds : List Inbound)

/-- What `addUser` asks for. -/
def desired (user : User) (scope : String) : Client :=
  ⟨user.xrayUUID, user.userID, user.username, scope⟩

/-- `addUser`, where the core took the change live: the keys of the user are on it from here on. -/
def addUser (s : State) (user : User) (scope : String) : State :=
  if user.xrayUUID = "" then s
  else
    let c := desired user scope
    if s.users.get? user.userID = some c then s
    else
      { s with
        users := s.users.set user.userID c
        held := s.held ++ (inbounds.filterMap c.keyOn).map fun key => (user.userID, key) }

def removeUser (s : State) (userID : String) : State :=
  { s with users := s.users.filter fun id => decide (id ≠ userID) }

/-- `AddUserOn`: named on none of the inbounds is a removal. -/
def addUserOn (s : State) (user : User) (inboundIDs : List String) : State :=
  let scope := String.intercalate "," (inboundIDs.mergeSort fun a b => decide (a ≤ b))
  if scope = "" then removeUser s user.userID else addUser inbounds s user scope

def apply (s : State) : Event → State
  | .addUser user => addUser inbounds s user ""
  | .addUserOn user inboundIDs => addUserOn inbounds s user inboundIDs
  | .removeUser userID => removeUser s userID
  | .traffic who key direction bytes =>
    { s with movements := s.movements ++ [⟨who, key, direction, bytes⟩] }
  | .poll q => { s with polls := s.polls ++ [⟨getStats s.users q true true, s.movements⟩] }

/-- A user's traffic comes by an account the core had for them, and the core answers truthfully. -/
def Event.Possible (s : State) : Event → Prop
  | .traffic who key _ _ => (who, key) ∈ s.held
  | .poll q => ∀ stat, q.user = some stat → Answers s.movements stat
  | _ => True

def freshProcess : State := ⟨OrderedMap.empty, [], [], []⟩

/-- One process of the core: users held before it came up are added to it first. -/
def oneProcess : Machine State Event where
  start s := s = freshProcess
  step s e s' := e.Possible s ∧ s' = apply inbounds s e

end Process

end Iceslab.Agent.XrayCounters
