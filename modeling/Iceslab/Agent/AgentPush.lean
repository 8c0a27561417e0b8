import Iceslab.Agent.Dto
import Mathlib.Data.List.Dedup

/-!
# A push as the agent applies it

`internal/server/server.go` and `internal/server/store.go`: the node-level blocks, the chain, the
hand-off and the inbounds of a push go to the registered cores, each of which takes its part or
keeps what it had; the store is written with what they took, and a restarted agent applies the store
the way it applies a push.

* `applyPushKept` — one body for a push and for a restore.
* `acceptedBlock`, `acceptedPush`, `persistAccepted` — what the store is left with.
* `handleApplyInbounds`, `restoreFromStore`.
-/

set_option autoImplicit false

namespace Iceslab.Agent

/-- A node-level block a core is given: a `null` is no block. -/
def RawMessage.orNone (b : RawMessage) : RawMessage := if b.carries then b else .empty

/-! ## The agent -/

/-- A registered core and what it can be told. -/
structure Adapter where
  name : String
  engine : String
  /-- a stand-in for a core that is not installed -/
  absent : Bool
  policyReceiver : Bool
  dnsReceiver : Bool
  cascadeReceiver : Bool
  deriving DecidableEq, Repr

/-- `coreKey` -/
def Adapter.key (a : Adapter) : String × String := (a.name, a.engine)

/-- The registered cores, told apart by their keys, and whether this agent runs a chain manager. -/
structure AgentConfig where
  adapters : List Adapter
  keys : (adapters.map Adapter.key).Nodup
  chainManager : Bool

/-- What one core runs: inbounds by id, with port and config, and the blocks it took. -/
@[ext] structure CoreState where
  inbounds : String → Option (Int × RawMessage)
  policy : RawMessage
  dns : RawMessage
  cascade : Option Handoff

def CoreState.idle : CoreState := ⟨fun _ => none, .empty, .empty, none⟩

/-- The stored push, and the policy and the resolver of each core that kept an older one. -/
structure StoreFile where
  req : ApplyInboundsRequest
  policyByCore : String × String → Option RawMessage
  dnsByCore : String × String → Option RawMessage

structure AgentState where
  cores : Adapter → CoreState
  /-- the chain manager: the block it runs on, and whether it holds one -/
  accepted : Option NodeChain
  held : Bool
  store : Option StoreFile

/-- A new agent: nothing told, nothing held. -/
def AgentState.fresh (store : Option StoreFile) : AgentState :=
  ⟨fun _ => .idle, none, false, store⟩

/-- What the chain manager makes of a block: it takes it, takes it and fails later (tunnels or the
start), or refuses it. -/
inductive ChainAnswer where
  | takes
  | takesWith (err : String)
  | refuses (err : String)
  deriving DecidableEq, Repr

/-- What the cores and the disk answer to one push; an error is a refusal. -/
structure PushAnswers where
  policy : Adapter → Option String
  dns : Adapter → Option String
  chain : ChainAnswer
  cascade : Adapter → Option String
  inbound : String → Option String
  store : Option String

/-- Why a push did not apply whole. -/
inductive PushReason where
  | policy (core err : String)
  | dns (core err : String)
  | chain (err : String)
  | noChainManager
  | userCore (e : PayloadError)
  | inbound (name protocol err : String)
  deriving DecidableEq, Repr

def PushReason.text (quote : String → String) : PushReason → String
  | .policy core err => "policy (" ++ core ++ "): " ++ err
  | .dns core err => "dns (" ++ core ++ "): " ++ err
  | .chain err => "chain: " ++ err
  | .noChainManager => "chain: this agent cannot run a chain process"
  | .userCore e => e.text quote
  | .inbound name protocol err => name ++ " (" ++ protocol ++ "): " ++ err

/-- The cores that refused a node-level block, and whether any took it. -/
structure BlockOutcome where
  refusedBy : List (String × String)
  taken : Bool
  deriving DecidableEq, Repr

structure PushOutcome where
  applied : Nat
  failed : Nat
  reasons : List PushReason
  /-- the ids of the inbounds whose core returned an error -/
  refused : String → Bool
  chainRefused : Bool
  chainInForce : Option NodeChain
  userCoreRefused : Bool
  policy : BlockOutcome
  dns : BlockOutcome

/-! ## The node-level blocks -/

/-- `blockFor`: the exception of a core, or the stored block. -/
def blockFor (key : String × String) (stored : RawMessage)
    (byCore : String × String → Option RawMessage) : RawMessage :=
  match byCore key with
  | none => stored
  | some b => b.orNone

section Push

variable (cfg : AgentConfig) (ans : PushAnswers)

def blockOutcome (receives : Adapter → Bool) (err : Adapter → Option String) : BlockOutcome where
  refusedBy := ((cfg.adapters.filter receives).filter fun a => (err a).isSome).map Adapter.key
  taken := (cfg.adapters.filter receives).any fun a => (err a).isNone

/-- What a core runs after being given a block it may refuse. -/
def afterBlock (receives : Bool) (err : Option String) (given old : RawMessage) : RawMessage :=
  if receives ∧ err = none then given.orNone else old

/-! ## The chain and the hand-off -/

/-- The chain piece of a push: the manager's state, its refusal, and the block whose hand-off the
cores are drawn to. -/
structure ChainStep where
  accepted : Option NodeChain
  held : Bool
  refusal : Option PushReason
  handoffBlock : Option NodeChain

def chainStep (s : AgentState) (block : Option NodeChain) : ChainStep :=
  if cfg.chainManager then
    match block with
    | none => ⟨none, false, none, none⟩
    | some b =>
      match ans.chain with
      | .takes => ⟨some b, true, none, some b⟩
      | .takesWith err => ⟨some b, true, some (.chain err), some b⟩
      | .refuses err =>
        -- the process that runs is the one the cores follow; with nothing accepted before, the
        -- refused block stays, and its empty port fails closed
        match s.accepted with
        | some a => ⟨some a, true, some (.chain err), some a⟩
        | none => ⟨none, true, some (.chain err), some b⟩
  else ⟨s.accepted, s.held, block.map fun _ => .noChainManager, block⟩

/-- The router a push names with what it is handed; an error when the hand-off is malformed, and
then no core is told about a cascade. -/
def handoffOf (inForce : Bool) (block : Option NodeChain) (cascade : Option NodeCascade) :
    Except PayloadError (Option (String × Option Handoff)) :=
  if inForce then
    match block.bind (·.userCore) with
    | none => .ok none
    | some u =>
      match u.payload with
      | .ok p => .ok (some (u.engine, some p))
      | .error e => .error e
  else
    match cascade with
    | none => .ok none
    | some c =>
      .ok (some (c.engine, if c.fragments.carries then some (.fragments c.fragments) else none))

/-- What one core is told about the cascade. -/
def mineOf (d : Option (String × Option Handoff)) (a : Adapter) : Option Handoff :=
  match d with
  | none => none
  | some (router, h) => if router ≠ "" ∧ a.engine = router then h else none

/-- What a core draws after being told. -/
def afterHandoff (d : Except PayloadError (Option (String × Option Handoff))) (a : Adapter)
    (old : Option Handoff) : Option Handoff :=
  match d with
  | .error _ => old
  | .ok d => if a.cascadeReceiver ∧ ans.cascade a = none then mineOf d a else old

/-! ## The inbounds -/

/-- `adapterFor` -/
def adapterFor (ib : InboundDto) : Option Adapter :=
  cfg.adapters.find? fun a =>
    !a.absent && decide (a.name = ib.protocol) && decide (a.engine = ib.resolvedEngine)

def inboundRefused (ib : InboundDto) : Bool :=
  (adapterFor cfg ib).isSome && (ans.inbound ib.id).isSome

def CoreState.setInbound (c : CoreState) (ib : InboundDto) : CoreState :=
  { c with inbounds := fun id => if id = ib.id then some (ib.port, ib.config) else c.inbounds id }

/-- One inbound to its core; one that no core matches is stored and not applied. -/
def applyInbound (cores : Adapter → CoreState) (ib : InboundDto) : Adapter → CoreState :=
  match adapterFor cfg ib with
  | none => cores
  | some m =>
    if (ans.inbound ib.id).isSome then cores
    else fun a => if a = m then (cores m).setInbound ib else cores a

def applyInbounds (cores : Adapter → CoreState) : List InboundDto → Adapter → CoreState
  | [] => cores
  | ib :: rest => applyInbounds (applyInbound cfg ans cores ib) rest

/-- The ids a core keeps: `keepByProtocol` -/
def keepOf (inbounds : List InboundDto) (a : Adapter) : List String :=
  (inbounds.filter fun ib => decide (ib.protocol = a.name) && decide (ib.resolvedEngine = a.engine)).map
    (·.id)

/-- `RetainInbounds` -/
def CoreState.retain (c : CoreState) (keep : List String) : CoreState :=
  { c with inbounds := fun id => if id ∈ keep then c.inbounds id else none }

/-- The reasons of the refused inbounds, while there are fewer than three. -/
def inboundReasons : List PushReason → List InboundDto → List PushReason
  | reasons, [] => reasons
  | reasons, ib :: rest =>
    match adapterFor cfg ib, ans.inbound ib.id with
    | some _, some err =>
      if reasons.length < 3 then
        inboundReasons (reasons ++ [.inbound ib.name ib.protocol err]) rest
      else inboundReasons reasons rest
    | _, _ => inboundReasons reasons rest

/-! ## One push -/

def blockReasons (receives : Adapter → Bool) (err : Adapter → Option String)
    (reason : String → String → PushReason) : List PushReason :=
  (cfg.adapters.filter receives).filterMap fun a => (err a).map (reason a.name)

/-- `applyPushKept`: `policyFor` and `dnsFor` are what each core is given, the push's block but on a
restore. -/
def applyPushKept (s : AgentState) (req : ApplyInboundsRequest)
    (policyFor dnsFor : Adapter → RawMessage) : AgentState × PushOutcome :=
  let chain := chainStep cfg ans s req.chain
  let inForce := cfg.chainManager && chain.held
  let handoff := handoffOf inForce chain.handoffBlock req.cascade
  let told : Adapter → CoreState := fun a =>
    let c := s.cores a
    { c with
      policy := afterBlock a.policyReceiver (ans.policy a) (policyFor a) c.policy
      dns := afterBlock a.dnsReceiver (ans.dns a) (dnsFor a) c.dns
      cascade := afterHandoff ans handoff a c.cascade }
  let applied := applyInbounds cfg ans told req.inbounds
  let userCoreReasons : List PushReason :=
    match handoff with
    | .error e => [.userCore e]
    | .ok _ => []
  let before : List PushReason :=
    blockReasons cfg (·.policyReceiver) ans.policy .policy
      ++ blockReasons cfg (·.dnsReceiver) ans.dns .dns ++ chain.refusal.toList ++ userCoreReasons
  let refusedCount := (req.inbounds.filter (inboundRefused cfg ans)).length
  ({ s with
      cores := fun a => (applied a).retain (keepOf req.inbounds a)
      accepted := chain.accepted
      held := chain.held },
    { applied := (req.inbounds.filter fun ib =>
        (adapterFor cfg ib).isSome && (ans.inbound ib.id).isNone).length
      failed := before.length + refusedCount
      reasons := inboundReasons cfg ans before req.inbounds
      refused := fun id => req.inbounds.any fun ib => decide (ib.id = id) && inboundRefused cfg ans ib
      chainRefused := chain.refusal.isSome
      chainInForce := if chain.refusal.isSome then chain.handoffBlock else none
      userCoreRefused := match handoff with
        | .error _ => true
        | .ok _ => false
      policy := blockOutcome cfg (·.policyReceiver) ans.policy
      dns := blockOutcome cfg (·.dnsReceiver) ans.dns })

end Push

/-! ## The store -/

/-- `acceptedBlock`: a node-level block as the cores took it, core by core. -/
def acceptedBlock (prev : RawMessage) (prevBy : String × String → Option RawMessage)
    (pushed : RawMessage) (o : BlockOutcome) : RawMessage × (String × String → Option RawMessage) :=
  if o.refusedBy = [] then (pushed, fun _ => none)
  else if !o.taken then (prev, prevBy)
  else (pushed, fun key => if key ∈ o.refusedBy then some ((prevBy key).getD prev) else none)

/-- The stored inbound of an id: the last one. -/
def storedInbound (inbounds : List InboundDto) (id : String) : Option InboundDto :=
  if id = "" then none else (inbounds.filter fun ib => decide (ib.id = id)).getLast?

/-- The inbounds of the push that applied, and the stored version of each that was refused. -/
def acceptedInbounds (prev : List InboundDto) (refused : String → Bool) (inbounds : List InboundDto) :
    List InboundDto :=
  inbounds.filterMap fun ib => if refused ib.id then storedInbound prev ib.id else some ib

/-- `acceptedPush`: the push as the cores took it. -/
def acceptedPush (prev req : ApplyInboundsRequest) (o : PushOutcome) : ApplyInboundsRequest :=
  { req with
    inbounds := acceptedInbounds prev.inbounds o.refused req.inbounds
    chain :=
      if o.chainRefused then o.chainInForce
      else if o.userCoreRefused then
        req.chain.map fun c => { c with userCore := prev.chain.bind (·.userCore) }
      else req.chain }

/-- What a missing or unreadable store reads as. -/
def StoreFile.blank : StoreFile :=
  ⟨⟨[], .empty, .empty, none, none⟩, fun _ => none, fun _ => none⟩

/-- `persistAccepted`, once written. -/
def persistAccepted (prev : StoreFile) (req : ApplyInboundsRequest) (o : PushOutcome) : StoreFile :=
  let policy := acceptedBlock prev.req.policy prev.policyByCore req.policy o.policy
  let dns := acceptedBlock prev.req.dns prev.dnsByCore req.dns o.dns
  { req := { acceptedPush prev.req req o with policy := policy.1, dns := dns.1 }
    policyByCore := policy.2
    dnsByCore := dns.2 }

/-- A push from the panel: its inbounds are bindings, each with an id of its own. -/
structure PanelPush where
  req : ApplyInboundsRequest
  ids : (req.inbounds.map (·.id)).Nodup
  named : ∀ ib ∈ req.inbounds, ib.id ≠ ""

/-- `handleApplyInbounds`, on an agent with a store. -/
def handleApplyInbounds (cfg : AgentConfig) (ans : PushAnswers) (s : AgentState) (p : PanelPush) :
    AgentState :=
  let r := applyPushKept cfg ans s p.req (fun _ => p.req.policy) (fun _ => p.req.dns)
  match ans.store with
  | some _ => r.1
  | none => { r.1 with store := some (persistAccepted (s.store.getD .blank) p.req r.2) }

/-- `restoreFromStore`, by an agent just started. -/
def restoreFromStore (cfg : AgentConfig) (ans : PushAnswers) (store : Option StoreFile) :
    AgentState :=
  match store with
  | none => .fresh none
  | some f =>
    if f.req.inbounds = [] then .fresh (some f)
    else
      (applyPushKept cfg ans (.fresh (some f)) f.req
        (fun a => blockFor a.key f.req.policy f.policyByCore)
        (fun a => blockFor a.key f.req.dns f.dnsByCore)).1

end Iceslab.Agent
