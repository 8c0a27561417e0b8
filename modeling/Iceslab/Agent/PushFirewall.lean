import Iceslab.Agent.AgentPush
import Iceslab.Lib.CachedSet
import Iceslab.Lib.GoText

/-!
# The firewall of a push

`internal/firewall/firewall.go`, `internal/server/chain_firewall.go` and the firewall half of
`internal/server/server.go`.  The rules of one host have four writers in one push, always in this
order: the chain's tunnels, the link ports of the block in force, the accepted inbounds, and, once
the store is written, the ports no stored inbound serves any more.  `ufw` does what it is told.

* `resolveSources` — the addresses a list of sources stands for at the time of the call.
* `ensureChainFirewall`, `openInbounds`, `closeDroppedPorts` — the writers.
* `pushNode`, `bootNode`, `restoreNode` — what a push and a start make of the node.
-/

set_option autoImplicit false

namespace Iceslab.Agent

/-! ## Rules -/

/-- `chainFwRule`: one allow rule; an empty source is anyone. -/
structure FwRule where
  port : Int
  proto : String
  src : String
  deriving DecidableEq, Repr

/-- The rules of the host, and `allowedSpecs`: those this process has ensured. -/
abbrev Firewall := CachedSet FwRule

/-- `net.ParseIP` and `net.ParseCIDR`, as far as they say yes or no; neither takes an empty text. -/
structure AddressParse where
  isIP : String → Bool
  isCIDR : String → Bool
  isIP_empty : isIP "" = false
  isCIDR_empty : isCIDR "" = false

/-- `isLiteralSource` -/
def AddressParse.isLiteral (net : AddressParse) (s : String) : Bool := net.isIP s || net.isCIDR s

def validSpec (port : Int) (proto : String) : Bool :=
  decide (0 < port) && decide (port ≤ 65535)
    && (decide (proto = "tcp") || decide (proto = "udp"))

/-- `Allow` -/
def fwAllow (f : Firewall) (port : Int) (proto : String) : Firewall :=
  if validSpec port proto then f.add ⟨port, proto, ""⟩ else f

/-- `Close` -/
def fwClose (f : Firewall) (port : Int) (proto : String) : Firewall :=
  if validSpec port proto then f.remove ⟨port, proto, ""⟩ else f

/-- `AllowSource` -/
def fwAllowSource (net : AddressParse) (f : Firewall) (port : Int) (proto src : String) :
    Firewall :=
  if validSpec port proto && net.isLiteral src then f.add ⟨port, proto, src⟩ else f

/-- `CloseSource` -/
def fwCloseSource (net : AddressParse) (f : Firewall) (port : Int) (proto src : String) :
    Firewall :=
  if validSpec port proto && net.isLiteral src then f.remove ⟨port, proto, src⟩ else f

/-! ## Sources -/

/-- What looking a host up answers, by the place of the source and the host; none when it does not
resolve. -/
abbrev Lookup := Nat → String → Option (List String)

def addOnce (resolved : List String) (s : String) : List String :=
  if s ∈ resolved then resolved else resolved ++ [s]

/-- A source without the spaces and brackets around it. -/
def bareSource (raw : String) : String := GoText.trim (GoText.trimSpace raw) "[]"

def resolveFrom (net : AddressParse) (lookup : Lookup) :
    Nat → List String → List String → List String → List String × List String
  | _, resolved, unresolved, [] => (resolved, unresolved)
  | n, resolved, unresolved, raw :: rest =>
    let s := bareSource raw
    if s = "" then resolveFrom net lookup (n + 1) resolved unresolved rest
    else if net.isLiteral s then
      resolveFrom net lookup (n + 1) (addOnce resolved s) unresolved rest
    else
      match lookup n s with
      | none => resolveFrom net lookup (n + 1) resolved (unresolved ++ [s]) rest
      | some ips =>
        let resolved' := (ips.filter net.isIP).foldl addOnce resolved
        resolveFrom net lookup (n + 1) resolved'
          (if resolved'.length = resolved.length then unresolved ++ [s] else unresolved) rest

/-- `ResolveSources`: what resolved, and what did not. -/
def resolveSources (net : AddressParse) (lookup : Lookup) (sources : List String) :
    List String × List String :=
  resolveFrom net lookup 0 [] [] sources

/-- `AllowFrom`: open to anyone when no source resolves. -/
def fwAllowFrom (net : AddressParse) (lookup : Lookup) (f : Firewall) (port : Int) (proto : String)
    (sources : List String) : Firewall :=
  if validSpec port proto then
    let valid := (resolveSources net lookup sources).1
    if valid = [] then fwAllow f port proto
    else valid.foldl (fun f src => fwAllowSource net f port proto src) f
  else f

/-! ## What the agent reads -/

/-- The host's parsing of addresses, what the agent decodes of an xray config, and its own port. -/
structure FwEnv where
  net : AddressParse
  /-- `network`, none when it is not there or the config does not decode -/
  networkOf : RawMessage → Option String
  /-- `linkIngressPort` and `linkAllowFrom` of `cascade`, none when there is none or the config
  does not decode -/
  cascadeOf : RawMessage → Option (Int × List String)
  /-- the agent's own port, when it is a number -/
  agentPort : Option Int

/-- What happens beside the cores' answers while a push is applied or a store is read. -/
structure FwAnswers where
  /-- how many of the block's tunnels the chain opens -/
  raised : Nat
  /-- the lookups for each link-ingress entry -/
  names : Nat → Lookup
  /-- the lookups for the link port an xray config carries, by inbound and transport -/
  linkNames : Nat → String → Lookup
  /-- `UsesACME` of the core an inbound went to -/
  usesACME : Nat → Bool
  /-- the error of writing `chain-firewall.json` -/
  chainFile : Option String

/-- The rules of the host, and the ones opened for the block in force as the file keeps them. -/
structure FwState where
  fw : Firewall
  chainFw : List FwRule

/-- `protoForInbound` -/
def protoForInbound (protocol : String) : List String :=
  if protocol = "hysteria" ∨ protocol = "amneziawg" ∨ protocol = "tuic" then ["udp"]
  else if protocol = "shadowsocks" ∨ protocol = "mieru" then ["tcp", "udp"]
  else ["tcp"]

section Writers

variable (env : FwEnv)

def transportsOf (ib : InboundDto) : List String :=
  if ib.protocol = "xray" ∧ ib.config.isEmpty = false ∧ env.networkOf ib.config = some "kcp" then
    ["udp"]
  else protoForInbound ib.protocol

/-! ## The chain -/

/-- The rules one link-ingress entry asks for; none without a source. -/
def entryRules (lookup : Lookup) (e : ChainLinkIngress) : List FwRule :=
  if e.allowFrom.toList = [] then []
  else
    let srcs := (resolveSources env.net lookup e.allowFrom.toList).1
    (e.transports.toList.filter fun t => decide (t = "tcp") || decide (t = "udp")).flatMap
      fun proto =>
        if srcs = [] then [⟨e.port, proto, ""⟩] else srcs.map fun src => ⟨e.port, proto, src⟩

def wantFrom (names : Nat → Lookup) : Nat → List ChainLinkIngress → List FwRule
  | _, [] => []
  | i, e :: rest => entryRules env (names i) e ++ wantFrom names (i + 1) rest

/-- The link ports of a block. -/
def linkIngressOf (block : Option NodeChain) : List ChainLinkIngress :=
  match block with
  | none => []
  | some c => c.linkIngress.toList

/-- The rules of a block, each once. -/
def wantOf (names : Nat → Lookup) (block : Option NodeChain) : List FwRule :=
  (wantFrom env names 0 (linkIngressOf block)).dedup

def openRule (f : Firewall) (r : FwRule) : Firewall :=
  if r.src = "" then fwAllow f r.port r.proto else fwAllowSource env.net f r.port r.proto r.src

def closeRule (f : Firewall) (r : FwRule) : Firewall :=
  if r.src = "" then fwClose f r.port r.proto else fwCloseSource env.net f r.port r.proto r.src

/-- `ensureChainFirewall`: the rules of the block are opened, then those of an earlier one that it
does not ask for are closed. -/
def ensureChainFirewall (fa : FwAnswers) (w : FwState) (block : Option NodeChain) : FwState :=
  let want := wantOf env fa.names block
  let opened := want.foldl (openRule env) w.fw
  { fw := (w.chainFw.filter fun r => decide (r ∉ want)).foldl (closeRule env) opened
    chainFw :=
      match fa.chainFile with
      | none => want
      | some _ => w.chainFw }

/-- `openTunnel`: the UDP port of a tunnel's receiving end. -/
def openTunnel (f : Firewall) (t : ChainTunnel) : Firewall :=
  if 0 < t.listenPort then fwAllow f t.listenPort "udp" else f

/-! ## The inbounds -/

def ensureInboundFirewall (f : Firewall) (ib : InboundDto) : Firewall :=
  if ib.port = 0 then f
  else (transportsOf env ib).foldl (fun f proto => fwAllow f ib.port proto) f

/-- The link port of a cascade drawn by xray itself, and who may dial it. -/
def carriedLink (ib : InboundDto) : Option (Int × List String) :=
  if ib.protocol ≠ "xray" ∨ ib.config.isEmpty = true then none
  else
    match env.cascadeOf ib.config with
    | none => none
    | some link => if link.1 = 0 then none else some link

def ensureCascadeFirewall (lookups : String → Lookup) (f : Firewall) (ib : InboundDto) : Firewall :=
  match carriedLink env ib with
  | none => f
  | some link =>
    ["tcp", "udp"].foldl (fun f proto => fwAllowFrom env.net (lookups proto) f link.1 proto link.2) f

def ensureACMEFirewall (f : Firewall) (uses : Bool) : Firewall :=
  if uses then fwAllow f 80 "tcp" else f

/-! ## The ports no inbound serves any more -/

/-- The rules of the ports a list of inbounds serves on. -/
def openPorts (inbounds : List InboundDto) : List FwRule :=
  inbounds.flatMap fun ib =>
    if ib.port ≤ 0 then [] else (transportsOf env ib).map fun proto => ⟨ib.port, proto, ""⟩

/-- SSH, ACME and the agent's own. -/
def keepsPort (port : Int) : Bool :=
  decide (port = 22) || decide (port = 80) || decide (env.agentPort = some port)

/-- `closeDroppedPorts` -/
def closeDroppedPorts (before after : List InboundDto) (f : Firewall) : Firewall :=
  CachedSet.removeOnce (fun r => validSpec r.port r.proto) f (openPorts env after)
    (openPorts env (before.filter fun ib => !keepsPort env ib.port))

/-! ## A push -/

variable (cfg : AgentConfig) (ans : PushAnswers) (fa : FwAnswers)

/-- The core of the inbound is there and takes it. -/
def inboundTaken (ib : InboundDto) : Bool :=
  (adapterFor cfg ib).isSome && (ans.inbound ib.id).isNone

/-- The accepted inbounds of a push, from the `n`th on. -/
def openInbounds : Nat → Firewall → List InboundDto → Firewall
  | _, f, [] => f
  | n, f, ib :: rest =>
    if inboundTaken cfg ans ib then
      openInbounds (n + 1)
        (ensureACMEFirewall
          (ensureCascadeFirewall env (fa.linkNames n) (ensureInboundFirewall env f ib) ib)
          (fa.usesACME n)) rest
    else openInbounds (n + 1) f rest

/-- The tunnels the chain opens when it is given a block. -/
def raisedTunnels (block : Option NodeChain) : List ChainTunnel :=
  match block, ans.chain with
  | none, _ => []
  | some _, .refuses _ => []
  | some b, _ => b.tunnels.toList.take fa.raised

/-- What `applyPushKept` does to the rules. -/
def applyPushFirewall (s : AgentState) (req : ApplyInboundsRequest) (w : FwState) : FwState :=
  let w :=
    if cfg.chainManager then
      let tunnels := (raisedTunnels ans fa req.chain).foldl openTunnel w.fw
      ensureChainFirewall env fa { w with fw := tunnels } (chainStep cfg ans s req.chain).handoffBlock
    else w
  { w with fw := openInbounds env cfg ans fa 0 w.fw req.inbounds }

/-- A node: its agent, its rules, and what the names of the link ports last resolved to. -/
structure NodeState where
  agent : AgentState
  fws : FwState
  names : Nat → Lookup
  /-- the process has read its rules from the store and has not brought the cores up yet -/
  starting : Bool

/-- `handleApplyInbounds` with its firewall: nothing is closed when the store is not written. -/
def pushNode (s : NodeState) (p : PanelPush) : NodeState :=
  let agent := handleApplyInbounds cfg ans s.agent p
  let w := applyPushFirewall env cfg ans fa s.agent p.req s.fws
  let before := (s.agent.store.getD .blank).req.inbounds
  let after := (agent.store.getD .blank).req.inbounds
  { s with
    agent
    fws :=
      match ans.store with
      | none => { w with fw := closeDroppedPorts env before after w.fw }
      | some _ => w
    names := fa.names }

/-! ## A start -/

/-- The stored inbounds, from the `n`th on. -/
def openStored : Nat → Firewall → List InboundDto → Firewall
  | _, f, [] => f
  | n, f, ib :: rest =>
    openStored (n + 1)
      (ensureCascadeFirewall env (fa.linkNames n) (ensureInboundFirewall env f ib) ib) rest

/-- `ensureFirewallFromStore` -/
def ensureFirewallFromStore (store : Option StoreFile) (w : FwState) : FwState :=
  match store with
  | none => w
  | some f =>
    ensureChainFirewall env fa { w with fw := openStored env fa 0 w.fw f.req.inbounds } f.req.chain

/-- A new process on the same host. -/
def bootNode (s : NodeState) : NodeState where
  agent := .fresh s.agent.store
  fws := ensureFirewallFromStore env fa s.agent.store { s.fws with fw := s.fws.fw.forget }
  names := match s.agent.store with
    | none => s.names
    | some _ => fa.names
  starting := true

/-- `restoreFromStore` with its firewall. -/
def restoreNode (s : NodeState) : NodeState :=
  let agent := restoreFromStore cfg ans s.agent.store
  match s.agent.store with
  | none => { s with agent, starting := false }
  | some f =>
    if f.req.inbounds = [] then { s with agent, starting := false }
    else
      { agent
        fws := applyPushFirewall env cfg ans fa (.fresh (some f)) f.req s.fws
        names := fa.names
        starting := false }

end Writers

end Iceslab.Agent
