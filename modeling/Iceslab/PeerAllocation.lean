import Iceslab.Lib.FreeSlots
import Iceslab.Lib.Machine
import Iceslab.PeerSubnet

/-!
# Addresses for AmneziaWG peers

`amneziawg.service.ts` hands out one address per user and profile.  A call runs SQL statements: the
insert looks at a snapshot of `amneziawg_peers`, picks the lowest free addresses, and puts its rows
in one by one under the unique keys `(profile, ip)` and `(profile, user)`, while other statements
commit.  The machine below runs any number of calls at once, one event being one such piece of work.

* `chosenAllocate`, `chosenPreallocate` — the rows an insert chooses from its snapshot.
* `insertRow`, `commitInsert` — how they get into the table.
* `peers` — the machine.
-/

set_option autoImplicit false

namespace Iceslab

/-! ## The statements -/

/-- A row of `amneziawg_peers`. -/
structure AmneziawgPeer where
  profileId : String
  userId : String
  ip : String
  deriving DecidableEq, Repr

def AmneziawgPeer.sameIp (r r' : AmneziawgPeer) : Bool :=
  decide (r.profileId = r'.profileId ∧ r.ip = r'.ip)

def AmneziawgPeer.sameUser (r r' : AmneziawgPeer) : Bool :=
  decide (r.profileId = r'.profileId ∧ r.userId = r'.userId)

/-- The rows break one of the two unique keys. -/
def AmneziawgPeer.conflicts (r r' : AmneziawgPeer) : Bool := r.sameIp r' || r.sameUser r'

/-- `host(firstIp::inet + gs)` -/
def SubnetRange.hostAt (r : SubnetRange) (gs : Nat) : String := intToIp (r.firstUsable + gs)

/-- `range.lastUsable - range.firstUsable + 1` -/
def SubnetRange.capacity (r : SubnetRange) : Nat := r.lastUsable - r.firstUsable + 1

/-- The addresses of a profile, wherever they lie. -/
def takenIps (rows : List AmneziawgPeer) (profileId : String) : List String :=
  (rows.filter fun r => decide (r.profileId = profileId)).map (·.ip)

/-- The row of the user, if they have one. -/
def existing (rows : List AmneziawgPeer) (profileId userId : String) : Option AmneziawgPeer :=
  rows.find? fun r => decide (r.profileId = profileId ∧ r.userId = userId)

/-- `generate_series(0, LEAST(lastIp - firstIp, peers + extra))` without the taken ones. -/
def SubnetRange.scan (r : SubnetRange) (rows : List AmneziawgPeer) (profileId : String)
    (extra : Nat) : List String :=
  FreeSlots.free r.hostAt (takenIps rows profileId)
    (min (r.lastUsable - r.firstUsable) ((takenIps rows profileId).length + extra) + 1)

/-- The row `allocatePeer` inserts: none where `existing` finds one. -/
def chosenAllocate (r : SubnetRange) (profileId userId : String) (rows : List AmneziawgPeer) :
    List AmneziawgPeer :=
  match existing rows profileId userId with
  | some _ => []
  | none => ((r.scan rows profileId 0).take 1).map fun ip => ⟨profileId, userId, ip⟩

/-- The users without a row, in the order of their ids. -/
def neededUsers (rows : List AmneziawgPeer) (profileId : String) (userIds : List String) :
    List String :=
  (userIds.filter fun u => (existing rows profileId u).isNone).insertionSort (· ≤ ·)

/-- The rows `preallocatePeers` inserts. -/
def chosenPreallocate (r : SubnetRange) (profileId : String) (userIds : List String)
    (rows : List AmneziawgPeer) : List AmneziawgPeer :=
  let needed := neededUsers rows profileId userIds
  let free := (r.scan rows profileId needed.length).take needed.length
  (needed.zip free).map fun (userId, ip) => ⟨profileId, userId, ip⟩

/-! ## The calls -/

inductive AllocJob where
  | allocatePeer (userId : String)
  | preallocatePeers (userIds : List String)
  deriving DecidableEq, Repr

inductive AllocResult where
  | address (ip : String)
  | addresses (map : List (String × String))
  | ipExhausted
  /-- any other error: a unique violation, a lost connection, twelve lost races -/
  | failed
  deriving DecidableEq, Repr

/-- An insert in flight: the snapshot it looks at, the rows chosen from it, those not tried yet, and
those put in and not committed. -/
structure InsertStatement where
  seen : List AmneziawgPeer
  chosen : List AmneziawgPeer
  todo : List AmneziawgPeer
  accepted : List AmneziawgPeer
  deriving DecidableEq, Repr

inductive AllocPhase where
  | querying
  | inserting (st : InsertStatement)
  | counting
  | reading
  | done (result : AllocResult)
  deriving DecidableEq, Repr

structure AllocCall where
  profileId : String
  cidr : String
  range : SubnetRange
  parsed : parseSubnet cidr = .ok range
  job : AllocJob
  attempt : Nat
  phase : AllocPhase

def maxAttempts : Nat := 12

namespace AllocCall

def userIds (c : AllocCall) : List String :=
  match c.job with
  | .allocatePeer userId => [userId]
  | .preallocatePeers userIds => userIds

def chosen (c : AllocCall) (rows : List AmneziawgPeer) : List AmneziawgPeer :=
  match c.job with
  | .allocatePeer userId => chosenAllocate c.range c.profileId userId rows
  | .preallocatePeers userIds => chosenPreallocate c.range c.profileId userIds rows

/-- The rows the call has put in and not committed. -/
def accepted (c : AllocCall) : List AmneziawgPeer :=
  match c.phase with
  | .inserting st => st.accepted
  | _ => []

end AllocCall

structure AllocState where
  rows : List AmneziawgPeer
  calls : List AllocCall

inductive AllocEvent where
  | allocatePeer (profileId userId cidr : String)
  | preallocatePeers (profileId : String) (userIds : List String) (cidr : String)
  | releasePeer (profileId userId : String)
  /-- the insert of a call takes its snapshot -/
  | snapshot (i : Nat)
  /-- the insert of a call tries one of its rows; which one comes first is the database's choice -/
  | insertRow (i j : Nat)
  /-- the insert of a call commits -/
  | commit (i : Nat)
  /-- `allocatePeer` counts the rows of the profile -/
  | count (i : Nat)
  /-- `preallocatePeers` reads the rows of its users -/
  | read (i : Nat)
  /-- a statement of the call is rolled back -/
  | abort (i : Nat)
  deriving DecidableEq, Repr

namespace AllocState

/-- The rows other statements have put in and not committed. -/
def inFlight (s : AllocState) (i : Nat) : List AmneziawgPeer :=
  (s.calls.eraseIdx i).flatMap AllocCall.accepted

/-- A call starts: a subnet that does not parse throws before any statement. -/
def start (s : AllocState) (profileId cidr : String) (job : AllocJob) : AllocState :=
  match h : parseSubnet cidr with
  | .error _ => s
  | .ok range =>
    { s with calls := s.calls ++ [⟨profileId, cidr, range, h, job, 0, .querying⟩] }

/-- A turn of one call: what it leaves of the table and of itself. -/
def turn (s : AllocState) (i : Nat) (f : AllocCall → List AmneziawgPeer × AllocCall) : AllocState :=
  match s.calls[i]? with
  | none => s
  | some c => ⟨(f c).1, s.calls.set i (f c).2⟩

end AllocState

/-- One row of an insert.  A key of a row that is not committed yet makes the statement wait.
`ON CONFLICT (profile_id, ip)` covers the address only: a row of the same user is an error.  `ON
CONFLICT` without a target covers both. -/
def insertRow (s : AllocState) (i j : Nat) (c : AllocCall) : AllocCall :=
  match c.phase with
  | .inserting st =>
    match st.todo[j]? with
    | none => c
    | some row =>
      let there := s.rows ++ st.accepted
      let skip := { c with phase := .inserting { st with todo := st.todo.eraseIdx j } }
      if (s.inFlight i).any row.conflicts then c
      else if there.any row.sameIp then skip
      else if there.any row.sameUser then
        match c.job with
        | .allocatePeer _ => { c with phase := .done .failed }
        | .preallocatePeers _ => skip
      else { c with
        phase := .inserting
          { st with todo := st.todo.eraseIdx j, accepted := st.accepted ++ [row] } }
  | _ => c

/-- What the statement answers: `SELECT * FROM inserted UNION ALL SELECT * FROM existing LIMIT 1`,
and nothing at all for `preallocatePeers`. -/
def afterInsert (c : AllocCall) (st : InsertStatement) : AllocPhase :=
  match c.job with
  | .allocatePeer userId =>
    match st.accepted.head?.or (existing st.seen c.profileId userId) with
    | some row => .done (.address row.ip)
    | none => .counting
  | .preallocatePeers _ => .reading

def commitInsert (rows : List AmneziawgPeer) (c : AllocCall) : List AmneziawgPeer × AllocCall :=
  match c.phase with
  | .inserting st =>
    if st.todo ≠ [] then (rows, c)
    else (rows ++ st.accepted, { c with phase := afterInsert c st })
  | _ => (rows, c)

/-- `taken >= capacity`, else the next attempt. -/
def countTaken (rows : List AmneziawgPeer) (c : AllocCall) : AllocCall :=
  match c.phase with
  | .counting =>
    if c.range.capacity ≤ (takenIps rows c.profileId).length then
      { c with phase := .done .ipExhausted }
    else if c.attempt + 1 < maxAttempts then
      { c with attempt := c.attempt + 1, phase := .querying }
    else { c with phase := .done .failed }
  | _ => c

def readRows (rows : List AmneziawgPeer) (c : AllocCall) : AllocCall :=
  match c.phase with
  | .reading =>
    let read := rows.filter fun r => decide (r.profileId = c.profileId ∧ r.userId ∈ c.userIds)
    { c with phase := .done (.addresses (read.map fun r => (r.userId, r.ip))) }
  | _ => c

def takeSnapshot (rows : List AmneziawgPeer) (c : AllocCall) : AllocCall :=
  match c.phase with
  | .querying => { c with phase := .inserting ⟨rows, c.chosen rows, c.chosen rows, []⟩ }
  | _ => c

def abortCall (c : AllocCall) : AllocCall :=
  match c.phase with
  | .done _ => c
  | _ => { c with phase := .done .failed }

def AllocState.step (s : AllocState) : AllocEvent → AllocState
  | .allocatePeer profileId userId cidr => s.start profileId cidr (.allocatePeer userId)
  | .preallocatePeers profileId userIds cidr =>
    if userIds = [] then s else s.start profileId cidr (.preallocatePeers userIds)
  | .releasePeer profileId userId =>
    { s with
      rows := s.rows.filter fun r => !decide (r.profileId = profileId ∧ r.userId = userId) }
  | .snapshot i => s.turn i fun c => (s.rows, takeSnapshot s.rows c)
  | .insertRow i j => s.turn i fun c => (s.rows, insertRow s i j c)
  | .commit i => s.turn i (commitInsert s.rows)
  | .count i => s.turn i fun c => (s.rows, countTaken s.rows c)
  | .read i => s.turn i fun c => (s.rows, readRows s.rows c)
  | .abort i => s.turn i fun c => (s.rows, abortCall c)

/-- No two rows of a profile share a user or an address. -/
def UniqueKeys (rows : List AmneziawgPeer) : Prop :=
  rows.Pairwise fun r r' => r.conflicts r' = false

/-- The histories of the table: they start with any rows the keys allow, and no call. -/
def peers : Machine AllocState AllocEvent :=
  Machine.ofFun (fun s => UniqueKeys s.rows ∧ s.calls = []) AllocState.step

end Iceslab
