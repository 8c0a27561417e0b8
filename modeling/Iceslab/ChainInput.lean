import Iceslab.ChainConfig
import Iceslab.EntryGate
import Iceslab.SavedTopology

/-!
# A topology from one node's point of view

`cascade.service.ts` with `cascade-tunnel.ts`: what the reader of a stored cascade hands to the
renderers, the role a node plays in it, and the chain renderer's input for that node.

* `TopologyInput` — the topology as it is read; `Drawn` ties it to the saved one.
* `chainInputFor`, `exitPolicyFor`, `chainInputOf` — the renderer's input.
-/

set_option autoImplicit false

namespace Iceslab

open JsText

/-! ## The topology as it is read -/

structure TopologyPosition where
  position : Nat
  nodeIds : List String
  deriving DecidableEq, Repr

/-- A way out: a pool, or a named outbound in its place. -/
structure TopologyDirection where
  tag : Nat
  nodeIds : List String
  outbound : Option (ForeignType × Json) := none

structure TopologyLinkRow where
  fromNodeId : String
  toNodeId : String
  directionTag : Nat
  cred : LinkCred
  underlay : LinkUnderlay := .direct
  deriving DecidableEq

def MAX_LINK_TUNNELS : Nat := 1000

/-- A stored tunnel; its index came from the panel-wide pool. -/
structure TopologyTunnel where
  fromNodeId : String
  toNodeId : String
  index : Nat
  index_lt : index < MAX_LINK_TUNNELS
  deriving DecidableEq

structure TopologyInput where
  positions : List TopologyPosition
  directions : List TopologyDirection
  links : List TopologyLinkRow
  /-- public host per node id -/
  hosts : String → Option String
  policies : List CascadePolicy := []
  auto : Bool := false
  chainSocksPassword : Option String := none
  entryProtocol : Option String := none
  tunnels : List TopologyTunnel := []
  entryPolicyOrdinal : Option Nat := none
  entryUserGate : Option EntryUserGate := none

/-! ## Tunnels -/

def LINK_TUNNEL_NET_PREFIX : String := "10.67"

def LINK_TUNNEL_IFACE_PREFIX : String := "awg-l"

def tunnelIface (index : Nat) : String := LINK_TUNNEL_IFACE_PREFIX ++ toString index

/-- The inner address of the receiving end of a tunnel's /30. -/
def tunnelTo (index : Nat) : String :=
  LINK_TUNNEL_NET_PREFIX ++ "." ++ toString (index / 64) ++ "." ++ toString (index % 64 * 4 + 2)

namespace TopologyInput

variable (t : TopologyInput)

/-- The tunnel under a pair, when its leg rides one. -/
def tunnelUnder (l : TopologyLinkRow) : Option TopologyTunnel :=
  if l.underlay = .awg then
    t.tunnels.find? fun x => decide (x.fromNodeId = l.fromNodeId ∧ x.toNodeId = l.toNodeId)
  else none

/-- Where a node's link-in listens: its tunnels' inner addresses when every leg rides one. -/
def linkInListen (incoming : List TopologyLinkRow) : Option (List String) :=
  if incoming = [] ∨ incoming.any (fun l => (t.tunnelUnder l).isNone) then none
  else some ((incoming.filterMap t.tunnelUnder).map (fun x => tunnelTo x.index)).eraseDups

/-! ## Roles -/

def linksFrom (nodeId : String) : List TopologyLinkRow :=
  t.links.filter fun l => decide (l.fromNodeId = nodeId)

def linksTo (nodeId : String) : List TopologyLinkRow :=
  t.links.filter fun l => decide (l.toNodeId = nodeId)

/-- The named outbounds this node dials: every outbound direction's, on the last position. -/
def foreignOf (nodeId : String) : List ChainForeignOut :=
  match t.positions.getLast? with
  | none => []
  | some last =>
    if nodeId ∈ last.nodeIds then
      t.directions.filterMap fun d => d.outbound.map fun o => ⟨d.tag, o.1, o.2⟩
    else []

/-- Which end of the chain this node is. -/
def chainRoleOf (nodeId : String) : Option ChainRole :=
  let incoming := t.links.any fun l => decide (l.toNodeId = nodeId)
  let outgoing := (t.links.any fun l => decide (l.fromNodeId = nodeId))
    || !(t.foreignOf nodeId).isEmpty
  if !incoming && !outgoing then none
  else if (t.positions.head?.map fun p => decide (nodeId ∈ p.nodeIds)).getD false then some .entry
  else if t.directions.any fun d => decide (nodeId ∈ d.nodeIds) then some .exit
  else some .transit

/-! ## The renderer's input -/

/-- A leg out; none when the far end has no address any more. -/
def legOut (l : TopologyLinkRow) : Option ChainLegOut :=
  match truthy (t.hosts l.toNodeId) with
  | none => none
  | some host =>
    match t.tunnelUnder l with
    | some tun => some { tag := l.directionTag, host := tunnelTo tun.index, cred := l.cred,
                         via := some (tunnelIface tun.index) }
    | none => some { tag := l.directionTag, host, cred := l.cred }

/-- What the listener is told about one arriving leg. -/
def clientOf (l : TopologyLinkRow) : ChainClient :=
  match l.cred with
  | .vless c => { tag := l.directionTag, uuid := some c.uuid, shortId := c.reality.map (·.shortId) }
  | _ => { tag := l.directionTag }

/-- The listener takes its credential from the first arriving leg. -/
def legIn (nodeId : String) : Option ChainLegIn :=
  match t.linksTo nodeId with
  | [] => none
  | l :: ls => some { cred := l.cred, clients := (l :: ls).map clientOf,
                      listen := t.linkInListen (l :: ls) }

/-- The tags of the ways out of a node, each once and in order. -/
def wayTags (nodeId : String) : List Nat :=
  (((t.linksFrom nodeId).map (·.directionTag)) ++ (t.foreignOf nodeId).map
    (·.tag)).eraseDups.insertionSort (· ≤ ·)

/-- A hysteria or amneziawg entry hands all its users to one listener, Auto's. -/
def handsWholeEntry : Bool :=
  decide (t.entryProtocol = some "hysteria") || decide (t.entryProtocol = some "amneziawg")

def directionTags (nodeId : String) : List Nat :=
  if t.handsWholeEntry ∨ t.auto ∧ (t.wayTags nodeId).length > 1 then 0 :: t.wayTags nodeId
  else t.wayTags nodeId

def chainInputFor (lib : TextLib) (nodeId : String) (role : ChainRole) (socksPassword : String) :
    Option ChainRenderInput :=
  let out := (t.linksFrom nodeId).filterMap t.legOut
  if out.length ≠ (t.linksFrom nodeId).length then none
  else
    match role, t.legIn nodeId with
    | .entry, _ =>
      let p := chainPoliciesOf lib t.policies
      some
        { role := .entry
          socksPassword
          selfHost := truthy (t.hosts nodeId)
          directionTags := t.directionTags nodeId
          out
          foreign := t.foreignOf nodeId
          policies := p.policies
          ruleSets := p.ruleSets.map fun r => ⟨r.tag, r.path⟩
          tproxy := if t.entryProtocol = some "amneziawg" then some (t.entryPolicyOrdinal.getD 0)
            else none }
    | _, none => none
    | .exit, some leg => some { role := .exit, socksPassword, legIn := some leg }
    | .transit, some leg =>
      some
        { role := .transit
          socksPassword
          selfHost := truthy (t.hosts nodeId)
          legIn := some leg
          out
          foreign := t.foreignOf nodeId }

end TopologyInput

/-! ## The node policy of an exit -/

/-- The WARP account of a node, as stored. -/
structure WarpAccount where
  secretKey : Option String := none
  address : List String := []
  publicKey : Option String := none
  endpoint : Option String := none
  reserved : Option (List Nat) := none
  deriving DecidableEq, Repr

/-- What is stored beside the cascade for a node: its resolved policy, and its WARP account where
the node has WARP on. -/
structure NodeSettings where
  policy : Option (List ChainNodePolicyRule) := none
  warp : Option WarpAccount := none

/-- The account as the chain takes it, when it is usable. -/
def WarpAccount.usable (acct : WarpAccount) : Option ChainWarp :=
  match truthy acct.secretKey, acct.address with
  | some privateKey, a :: as =>
    some { privateKey, address := a :: as, publicKey := truthy acct.publicKey,
           endpoint := truthy acct.endpoint, reserved := acct.reserved }
  | _, _ => none

/-- The policy half of an exit's input; a rule into WARP without a usable account is refused. -/
def exitPolicyFor (lib : TextLib) (node : NodeSettings) :
    Except String (Option ExitPolicy × List RuleSetDecl) :=
  let p := chainNodePolicyOf lib (node.policy.getD [])
  if p.rules = [] then .ok (none, [])
  else
    let sets := p.ruleSets.map fun r => ⟨r.tag, r.path⟩
    if p.usesWarp then
      match node.warp.bind WarpAccount.usable with
      | some warp => .ok (some { rules := p.rules, warp := some warp }, sets)
      | none => .error ("the node policy routes into WARP and this exit has no usable WARP account "
          ++ "(enable WARP on the node)")
    else .ok (some { rules := p.rules }, sets)

/-- The input of a node's chain, from its role in the cascade and its own settings. -/
def chainInputOf (lib : TextLib) (t : TopologyInput) (node : NodeSettings) (nodeId : String)
    (socksPassword : String) : Except String (Option ChainRenderInput) :=
  match t.chainRoleOf nodeId with
  | none => .ok none
  | some role =>
    match t.chainInputFor lib nodeId role socksPassword with
    | none => .ok none
    | some base =>
      if role = .exit then
        (exitPolicyFor lib node).map fun p => some { base with exitPolicy := p.1, ruleSets := p.2 }
      else .ok (some base)

end Iceslab
