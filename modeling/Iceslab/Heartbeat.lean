import Iceslab.Lib.Base64
import Iceslab.Lib.JsPrefix
import Iceslab.Lib.Machine
import Iceslab.Lib.OrderedMap

/-!
# The heartbeat that takes a deleted node's agent down

The panel's `heartbeat-token.ts` and `heartbeat.routes.ts`, `deleteNode`, and the agent's
`heartbeat.go`: the agent asks with a token minted from its node's secret, and stops for good when
the panel has answered 410 often enough.

* `signHeartbeatToken`, `verifyHeartbeatToken` — the token.
* `meStatus` — the two reads of the handler; `trackAgentStart` is in steps of its own.
* `pollOnce`, `Loop.heard` — the agent's loop.
* `Step` — one read, write or answer of any of them; `machine`.
-/

set_option autoImplicit false

namespace Iceslab.Heartbeat

open JsText

/-! ## The token -/

section Token

-- `createHmac('sha256', secret).update(text).digest()`
variable (hmac : List Nat → String → List Nat)

def signHeartbeatToken (nodeId : String) (secret : List Nat) : String :=
  nodeId ++ "." ++ Base64.encodeUrl (hmac secret nodeId)

/-- `UUID_V4_RE`, place by place: `h` is a hex digit, `v` one of `89ab`. -/
def uuidPattern : List Char := "hhhhhhhh-hhhh-4hhh-vhhh-hhhhhhhhhhhh".toList

def fits (c p : Char) : Bool :=
  if p = 'h' then isHex c else if p = 'v' then decide (c ∈ "89abAB".toList) else decide (c = p)

def isUuidV4 (s : String) : Bool :=
  decide (s.toList.length = uuidPattern.length) &&
    (s.toList.zip uuidPattern).all fun x => fits x.1 x.2

def verifyHeartbeatToken (token : String) (lookupSecret : String → Option (List Nat)) :
    Option String :=
  let nodeId := String.ofList (token.toList.takeWhile (· ≠ '.'))
  let rest := token.toList.dropWhile (· ≠ '.')
  if nodeId = "" ∨ rest.length ≤ 1 then none
  else if isUuidV4 nodeId = false then none
  else
    match lookupSecret nodeId with
    | none => none
    | some secret =>
      if Base64.encodeUrl (hmac secret nodeId) = String.ofList rest.tail then some nodeId else none

end Token

/-! ## The panel -/

/-- Of a row of `nodes`, what the handler reads. -/
structure Node where
  heartbeatSecret : List Nat
  deleted : Bool
  status : String
deriving DecidableEq, Repr

abbrev Nodes := OrderedMap String Node

inductive Answer
  | missingBearer
  | invalidToken
  | gone
  | status (s : String)
deriving DecidableEq, Repr

/-- The status code, and the body's `status`. -/
def Answer.response : Answer → Nat × Option String
  | .missingBearer | .invalidToken => (401, none)
  | .gone => (410, none)
  | .status s => (200, some s)

/-- The handler up to its second read: the node of a valid token. -/
def verifyRequest (hmac : List Nat → String → List Nat) (nodes : Nodes)
    (authorization : Option String) : Except Answer String :=
  match authorization.bind (afterPrefix "Bearer ") with
  | none => .error .missingBearer
  | some token =>
    let secretOf := fun id => (nodes.get? id).map (·.heartbeatSecret)
    match verifyHeartbeatToken hmac (trim token) secretOf with
    | none => .error .invalidToken
    | some nodeId => .ok nodeId

/-- The handler from its second read on. -/
def meStatus (nodes : Nodes) (nodeId : String) : Answer :=
  match nodes.get? nodeId with
  | none => .gone
  | some node =>
    if node.deleted then .gone
    else if node.status = "disabled" then .status "disabled"
    else .status "active"

/-- `deleteNode`: a node that a cascade is through stays, and so does the row of one that goes. -/
def deleteNode (nodes : Nodes) (id : String) (inCascade : Bool) : Nodes :=
  match nodes.get? id with
  | none => nodes
  | some node =>
    if node.deleted ∨ inCascade then nodes else nodes.set id { node with deleted := true }

def AGENT_START_MAX_LEN : Nat := 64

/-- Whether `trackAgentStart` goes on with a value. -/
def trackable (startTime : String) : Bool :=
  decide (startTime ≠ "") && decide (startTime.length ≤ AGENT_START_MAX_LEN) &&
    startTime.toList.all fun c => c.isAlphanum || c = '_' || c = '-'

/-! ## The agent -/

inductive Polled
  | active
  | disabled
  | gone
  | failed
deriving DecidableEq, Repr

/-- `pollOnce`, of what came back if anything did. -/
def pollOnce : Option (Nat × Option String) → Polled
  | some (410, _) => .gone
  | some (200, some "active") => .active
  | some (200, some "disabled") => .disabled
  | _ => .failed

structure Loop where
  seenActive : Bool
  gone : Nat
  /-- `OnGone` was called -/
  ended : Bool
deriving DecidableEq, Repr

def Loop.new : Loop := ⟨false, 0, false⟩

/-- What `Run` makes of a poll. -/
def Loop.heard (threshold : Nat) (polled : Polled) (l : Loop) : Loop :=
  match polled with
  | .failed => l
  | .active | .disabled => { l with gone := 0, seenActive := true }
  | .gone =>
    if l.seenActive = false then { l with gone := l.gone + 1 }
    else { l with gone := l.gone + 1, ended := decide (threshold ≤ l.gone + 1) }

/-- `GoneThreshold`, with its default. -/
def goneThreshold (configured : Int) : Nat := if configured ≤ 0 then 3 else configured.toNat

structure Agent where
  token : String
  startTime : String
  loop : Loop
  /-- the poll it waits for -/
  waiting : Option Nat
deriving DecidableEq, Repr

/-! ## The two together -/

/-- A request in the panel's hands; `nodeId` once its token is verified. -/
structure Request where
  poll : Nat
  authorization : Option String
  startTime : Option String
  nodeId : Option String
deriving DecidableEq, Repr

/-- Where a `trackAgentStart` is. -/
inductive Tracking
  | reading
  | writing (previous : Option String)
  | pushing
deriving DecidableEq, Repr

structure Tracker where
  nodeId : String
  startTime : String
  stage : Tracking
deriving DecidableEq, Repr

structure State where
  nodes : Nodes
  /-- the last start time seen of each node, in Redis -/
  starts : OrderedMap String String
  trackers : List Tracker
  /-- the nodes `enqueueNodePush` was called for, with the start time logged; the latest first -/
  pushes : List (String × String)
  requests : List Request
  answers : List (Nat × Answer)
  polls : Nat
  agent : Option Agent

def State.new : State := ⟨.empty, .empty, [], [], [], [], 0, none⟩

section Steps

variable (hmac : List Nat → String → List Nat) (node : String) (threshold : Nat)

/-- A request arrives. -/
def request (authorization startTime : Option String) (s : State) : State :=
  { s with
    requests := ⟨s.polls, authorization, startTime, none⟩ :: s.requests
    polls := s.polls + 1 }

/-- The agent polls. -/
def poll (a : Agent) (s : State) : State :=
  { request (some ("Bearer " ++ a.token)) (some a.startTime) s with
    agent := some { a with waiting := some s.polls } }

/-- The handler's first read. -/
def verify (r : Request) (s : State) : State :=
  let s := { s with requests := s.requests.erase r }
  match verifyRequest hmac s.nodes r.authorization with
  | .error a => { s with answers := (r.poll, a) :: s.answers }
  | .ok nodeId => { s with requests := { r with nodeId := some nodeId } :: s.requests }

/-- The handler's second read; a node that is still there has its start tracked. -/
def judge (r : Request) (nodeId : String) (s : State) : State :=
  let answer := meStatus s.nodes nodeId
  let s := { s with
    requests := s.requests.erase r
    answers := (r.poll, answer) :: s.answers }
  match r.startTime.map trim with
  | none => s
  | some startTime =>
    if answer = .gone ∨ trackable startTime = false then s
    else { s with trackers := ⟨nodeId, startTime, .reading⟩ :: s.trackers }

/-- A `trackAgentStart`, up to its next operation on Redis. -/
def track (t : Tracker) (s : State) : State :=
  let s := { s with trackers := s.trackers.erase t }
  match t.stage with
  | .reading =>
    { s with trackers := { t with stage := .writing (s.starts.get? t.nodeId) } :: s.trackers }
  | .writing previous =>
    let s := { s with starts := s.starts.set t.nodeId t.startTime }
    if previous.any fun p => decide (p ≠ "" ∧ p ≠ t.startTime) then
      { s with trackers := { t with stage := .pushing } :: s.trackers }
    else s
  | .pushing => { s with pushes := (t.nodeId, t.startTime) :: s.pushes }

/-- An answer reaches the agent that waits for it. -/
def deliver (a : Agent) (answer : Answer) (s : State) : State :=
  { s with
    agent := some { a with
      waiting := none
      loop := a.loop.heard threshold (pollOnce (some answer.response)) } }

inductive Event
  | create (id : String) (secret : List Nat)
  | setStatus (id status : String)
  | delete (id : String) (inCascade : Bool)
  | boot (startTime : String)
  | poll
  | stray (authorization startTime : Option String)
  | verify (r : Request)
  | judge (r : Request)
  | fails (r : Request)
  | deliver (poll : Nat) (answer : Answer)
  | lose
  | track (t : Tracker)
  | trackFails (t : Tracker)
  | forget (id : String)
deriving DecidableEq, Repr

/-- One read, write, message or failure.  The agent is that of `node`; others ask as they please. -/
inductive Step : State → Event → State → Prop
  | create (s : State) (id : String) (secret : List Nat) (h : s.nodes.get? id = none) :
      Step s (.create id secret) { s with nodes := s.nodes.set id ⟨secret, false, "unknown"⟩ }
  | setStatus (s : State) (id status : String) (row : Node) (h : s.nodes.get? id = some row) :
      Step s (.setStatus id status)
        { s with nodes := s.nodes.set id { row with status := status } }
  | delete (s : State) (id : String) (inCascade : Bool) :
      Step s (.delete id inCascade) { s with nodes := deleteNode s.nodes id inCascade }
  -- a process of the agent begins, with the payload the panel once built for its node
  | boot (s : State) (startTime : String) (row : Node) (h : s.nodes.get? node = some row) :
      Step s (.boot startTime) { s with
        agent := some ⟨signHeartbeatToken hmac node row.heartbeatSecret, startTime, .new, none⟩ }
  | poll (s : State) (a : Agent) (h : s.agent = some a) (hw : a.waiting = none)
      (hrun : a.loop.ended = false) : Step s .poll (poll a s)
  | stray (s : State) (authorization startTime : Option String) :
      Step s (.stray authorization startTime) (request authorization startTime s)
  | verify (s : State) (r : Request) (h : r ∈ s.requests) (hv : r.nodeId = none) :
      Step s (.verify r) (verify hmac r s)
  | judge (s : State) (r : Request) (nodeId : String) (h : r ∈ s.requests)
      (hv : r.nodeId = some nodeId) : Step s (.judge r) (judge r nodeId s)
  -- the panel goes down, or answers 429 or 5xx
  | fails (s : State) (r : Request) : Step s (.fails r) { s with requests := s.requests.erase r }
  | deliver (s : State) (a : Agent) (p : Nat) (answer : Answer) (h : (p, answer) ∈ s.answers)
      (ha : s.agent = some a) (hw : a.waiting = some p) :
      Step s (.deliver p answer) (deliver threshold a answer s)
  -- a poll fails or times out
  | lose (s : State) (a : Agent) (h : s.agent = some a) :
      Step s .lose { s with agent := some { a with
        waiting := none
        loop := a.loop.heard threshold .failed } }
  | track (s : State) (t : Tracker) (h : t ∈ s.trackers) : Step s (.track t) (track t s)
  | trackFails (s : State) (t : Tracker) :
      Step s (.trackFails t) { s with trackers := s.trackers.erase t }
  -- the key runs out, or Redis loses it
  | forget (s : State) (id : String) :
      Step s (.forget id) { s with starts := s.starts.filter (· ≠ id) }

/-- Every interleaving. -/
def machine : Machine State Event where
  start s := s = .new
  step := Step hmac node threshold

end Steps

end Iceslab.Heartbeat
