import Iceslab.Lib.Machine

/-!
# The status poll of the nodes

`pollNodeStatuses` of `nodes.cron.ts`.  A run reads the nodes that are neither deleted nor disabled,
asks each over the network, and writes what has moved since the read.  Runs may overlap, and the
operator edits the nodes meanwhile.

* `worthWriting` — whether an answer moves anything on the row that was read.
* `NodeRow.written` — what a write makes of the row that is there by then.
* `nodePoll` — the machine: reads, requests, answers, writes and the operator's edits in any order.
-/

set_option autoImplicit false

namespace Iceslab.NodePoll

/-! ## The facts of a row -/

inductive NodeStatus where
  | unknown
  | online
  | degraded
  | unreachable
  /-- the operator's -/
  | disabled
  deriving DecidableEq, Repr

/-- What a check can find. -/
inductive CheckStatus where
  | online
  | degraded
  | unreachable
  deriving DecidableEq, Repr

def CheckStatus.stored : CheckStatus → NodeStatus
  | .online => .online
  | .degraded => .degraded
  | .unreachable => .unreachable

/-- The restart tally of a core; `observedAt` is `none` where its stamp does not parse. -/
structure NodeCoreRestarts where
  core : String
  crash : Nat
  memory : Nat
  lastAt : Option String := none
  lastReason : Option String := none
  sinceAt : Option String := none
  memoryLimitBytes : Option Nat := none
  rssBytes : Option Nat := none
  observedAt : Option Nat
  deriving DecidableEq, Repr

def NodeCoreRestarts.total (r : NodeCoreRestarts) : Nat := r.crash + r.memory

/-- The core inventory; the list of cores is kept as its JSON text. -/
structure NodeCores where
  cores : String
  arch : Option String := none
  chainEngine : Option String := none
  observedAt : Option Nat
  deriving DecidableEq, Repr

/-- A stored report, as its JSON text and when it was seen. -/
structure Report where
  content : String
  observedAt : Option Nat
  deriving DecidableEq, Repr

structure NodeEngines where
  intendedEngines : List String
  protocol : String
  singboxEngine : Bool
  deriving DecidableEq, Repr

/-- What the poll writes beside the status and its message. -/
structure NodeFacts where
  coreVersion : Option String := none
  coreRestarts : Option NodeCoreRestarts := none
  cores : Option NodeCores := none
  chainStatus : Option String := none
  geo : Option Report := none
  engines : NodeEngines := ⟨[], "none", false⟩
  certNotAfter : Option Nat := none
  certFromHandshake : Bool := false
  policyDrawn : Option Report := none
  deriving DecidableEq, Repr

/-- What `checkOne` answers.  An absent fact keeps what is stored; `some none` is a node that
answered without it. -/
structure PollResult where
  status : CheckStatus
  message : Option String
  coreVersion : Option String := none
  coreRestarts : Option NodeCoreRestarts := none
  cores : Option NodeCores := none
  chain : Option (Option String) := none
  geo : Option (Option String) := none
  declaredEngines : Option (List String) := none
  /-- the end of the certificate, and whether it was read off a handshake -/
  cert : Option (Nat × Bool) := none
  policyDrawn : Option String := none
  deriving DecidableEq, Repr

/-! ## What is worth writing -/

def RESTARTS_HEARTBEAT_MS : Nat := 10 * 60 * 1000

/-- The stamp is missing, or older than the heartbeat. -/
def stale (observedAt : Option Nat) (nowMs : Nat) : Bool :=
  match observedAt with
  | none => true
  | some seen => decide (seen + RESTARTS_HEARTBEAT_MS ≤ nowMs)

/-- `Math.abs(next - prev) / prev > 0.1` -/
def drifted (prev next : Nat) : Bool :=
  if prev = 0 then decide (next ≠ 0)
  else decide (prev < 10 * (next - prev) ∨ prev < 10 * (prev - next))

def restartsWorthWriting (stored : Option NodeCoreRestarts) (fresh : NodeCoreRestarts)
    (nowMs : Nat) : Bool :=
  match stored with
  | none => true
  | some stored =>
    decide (stored.core ≠ fresh.core ∨ stored.total ≠ fresh.total ∨ stored.crash ≠ fresh.crash
        ∨ stored.memory ≠ fresh.memory ∨ stored.lastAt ≠ fresh.lastAt
        ∨ stored.lastReason ≠ fresh.lastReason ∨ stored.sinceAt ≠ fresh.sinceAt
        ∨ stored.memoryLimitBytes ≠ fresh.memoryLimitBytes)
      || stale stored.observedAt nowMs
      || drifted (stored.rssBytes.getD 0) (fresh.rssBytes.getD 0)

def coresWorthWriting (stored : Option NodeCores) (fresh : NodeCores) (nowMs : Nat) : Bool :=
  match stored with
  | none => true
  | some stored =>
    decide (stored.cores ≠ fresh.cores ∨ stored.arch ≠ fresh.arch
        ∨ stored.chainEngine ≠ fresh.chainEngine)
      || stale stored.observedAt nowMs

def policyDrawnWorthWriting (stored : Option Report) (fresh : String) (nowMs : Nat) : Bool :=
  match stored with
  | none => true
  | some stored => decide (stored.content ≠ fresh) || stale stored.observedAt nowMs

def ENGINE_NAMES : List String :=
  ["xray", "hysteria", "singbox", "amneziawg", "naive", "mieru", "mtproto"]

def engineSet (engines : List String) : List String :=
  ENGINE_NAMES.filter fun e => decide (e ∈ engines)

def nodeProtocolOf (engines : List String) : String := (engineSet engines).head?.getD "none"

def nativeEngineFor (protocol : String) : String :=
  if protocol = "shadowsocks" then "xray"
  else if protocol = "tuic" ∨ protocol = "anytls" ∨ protocol = "shadowtls" then "singbox"
  else protocol

def intendedEngines (node : NodeEngines) : List String :=
  if node.intendedEngines ≠ [] then engineSet node.intendedEngines
  else if node.protocol = "none" then if node.singboxEngine then ["singbox"] else []
  else engineSet (nativeEngineFor node.protocol :: if node.singboxEngine then ["singbox"] else [])

/-- The engines to write; `none` where the node says nothing new. -/
def intendedFromReport (stored : NodeEngines) (declared : Option (List String)) :
    Option NodeEngines :=
  match declared with
  | none => none
  | some declared =>
    let next := engineSet declared
    if next = intendedEngines stored then none
    else some ⟨next, nodeProtocolOf next, decide ("singbox" ∈ next)⟩

structure NodeRow where
  id : String
  deleted : Bool := false
  status : NodeStatus
  lastStatusMessage : Option String := none
  facts : NodeFacts := {}
  deriving DecidableEq, Repr

section Changed

variable (read : NodeRow) (r : PollResult) (nowMs : Nat)

def statusChanged : Bool := decide (r.status.stored ≠ read.status)

def messageChanged : Bool := decide (r.message ≠ read.lastStatusMessage)

def versionChanged : Bool := r.coreVersion.isSome && decide (r.coreVersion ≠ read.facts.coreVersion)

def restartsChanged : Bool :=
  r.coreRestarts.any fun fresh => restartsWorthWriting read.facts.coreRestarts fresh nowMs

def coresChanged : Bool := r.cores.any fun fresh => coresWorthWriting read.facts.cores fresh nowMs

def chainChanged : Bool := r.chain.any fun fresh => decide (fresh ≠ read.facts.chainStatus)

def geoChanged : Bool :=
  r.geo.any fun fresh => decide (fresh ≠ read.facts.geo.map (·.content))

def certChanged : Bool :=
  r.cert.any fun fresh => decide (some fresh.1 ≠ read.facts.certNotAfter
    ∨ fresh.2 ≠ read.facts.certFromHandshake)

def policyChanged : Bool :=
  r.policyDrawn.any fun fresh => policyDrawnWorthWriting read.facts.policyDrawn fresh nowMs

/-- Any of the ten facts has moved since the row was read. -/
def worthWriting : Bool :=
  policyChanged read r nowMs || certChanged read r || statusChanged read r || messageChanged read r
    || versionChanged read r || restartsChanged read r nowMs || coresChanged read r nowMs
    || chainChanged read r || geoChanged read r
    || (intendedFromReport read.facts.engines r.declaredEngines).isSome

/-- The facts of a row after a write: those that moved, the others as they are. -/
def NodeFacts.written (facts : NodeFacts) : NodeFacts where
  coreVersion := if versionChanged read r then r.coreVersion else facts.coreVersion
  coreRestarts := if restartsChanged read r nowMs then r.coreRestarts else facts.coreRestarts
  cores := if coresChanged read r nowMs then r.cores else facts.cores
  chainStatus := if chainChanged read r then r.chain.getD none else facts.chainStatus
  geo :=
    if geoChanged read r then (r.geo.getD none).map fun content => ⟨content, some nowMs⟩
    else facts.geo
  engines := (intendedFromReport read.facts.engines r.declaredEngines).getD facts.engines
  certNotAfter := if certChanged read r then r.cert.map Prod.fst else facts.certNotAfter
  certFromHandshake :=
    if certChanged read r then (r.cert.map Prod.snd).getD false else facts.certFromHandshake
  policyDrawn :=
    if policyChanged read r nowMs then r.policyDrawn.map fun content => ⟨content, some nowMs⟩
    else facts.policyDrawn

end Changed

/-- The row after a write: the status and its message are always written. -/
def NodeRow.written (row read : NodeRow) (r : PollResult) (nowMs : Nat) : NodeRow :=
  { row with
    status := r.status.stored
    lastStatusMessage := r.message
    facts := row.facts.written read r nowMs }

/-! ## The machine -/

inductive CheckPhase where
  | read
  /-- the health request is under way; requests are counted in the order they are sent -/
  | sent (request : Nat)
  | answered (request : Nat) (result : PollResult)
  | done
  deriving DecidableEq, Repr

/-- One node of one run: its row as the run read it, and how far the check is. -/
structure Check where
  row : NodeRow
  phase : CheckPhase
  deriving DecidableEq, Repr

structure Poll where
  nodes : List NodeRow
  checks : List Check
  requests : Nat

inductive PollEvent where
  /-- a run starts: it reads the nodes -/
  | run
  | send (i : Nat)
  | answer (i : Nat) (result : PollResult)
  | write (i nowMs : Nat)
  /-- the operator disables or enables a node -/
  | setStatus (id : String) (status : NodeStatus)
  | delete (id : String)
  deriving DecidableEq, Repr

namespace Poll

variable (s : Poll)

/-- `where: { deletedAt: null, status: { not: 'disabled' } }` -/
def polled : List NodeRow :=
  s.nodes.filter fun n => !n.deleted && decide (n.status ≠ .disabled)

/-- An update by id. -/
def update (id : String) (f : NodeRow → NodeRow) : Poll :=
  { s with nodes := s.nodes.map fun n => if n.id = id then f n else n }

def setPhase (i : Nat) (c : Check) (phase : CheckPhase) : Poll :=
  { s with checks := s.checks.set i { c with phase := phase } }

def write (i nowMs : Nat) : Poll :=
  match s.checks[i]? with
  | some ⟨row, .answered request result⟩ =>
    let ended := s.setPhase i ⟨row, .answered request result⟩ .done
    if worthWriting row result nowMs then
      ended.update row.id fun n => n.written row result nowMs
    else ended
  | _ => s

def step : PollEvent → Poll
  | .run => { s with checks := s.checks ++ s.polled.map fun n => ⟨n, .read⟩ }
  | .send i =>
    match s.checks[i]? with
    | some ⟨row, .read⟩ =>
      { s.setPhase i ⟨row, .read⟩ (.sent s.requests) with requests := s.requests + 1 }
    | _ => s
  | .answer i result =>
    match s.checks[i]? with
    | some ⟨row, .sent request⟩ => s.setPhase i ⟨row, .sent request⟩ (.answered request result)
    | _ => s
  | .write i nowMs => s.write i nowMs
  | .setStatus id status => s.update id fun n => { n with status := status }
  | .delete id => s.update id fun n => { n with deleted := true }

end Poll

/-- Nodes in any state, one row for an id, and no run under way. -/
def nodePoll : Machine Poll PollEvent :=
  .ofFun (fun s => (s.nodes.map (·.id)).Nodup ∧ s.checks = []) Poll.step

end Iceslab.NodePoll
