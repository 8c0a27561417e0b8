import Iceslab.LinkCred

/-!
# A sing-box config

The part of sing-box's configuration the chain renderer writes: inbounds, outbounds, route rules.
A key the source leaves out of a rule is an empty list here, which the engine reads the same way.

* `SbRule` — a default rule or a logical one, with its action.
* `SbConds.spread` — `{ ...a, ...b }` of two sets of conditions.
* `Inbound`, `Outbound`, `ChainConfig`.
-/

set_option autoImplicit false

namespace Iceslab

/-! ## Route rules -/

/-- The conditions of a rule. -/
structure SbConds where
  inbound : List String := []
  auth_user : List String := []
  protocol : List String := []
  network : List String := []
  port : List Nat := []
  port_range : List String := []
  domain : List String := []
  domain_suffix : List String := []
  domain_keyword : List String := []
  domain_regex : List String := []
  ip_cidr : List String := []
  rule_set : List String := []
  deriving DecidableEq, Repr

/-- A key of the second set wins where it is there. -/
def spreadKey {α : Type} (a b : List α) : List α := if b.isEmpty then a else b

/-- `{ ...a, ...b }` -/
def SbConds.spread (a b : SbConds) : SbConds where
  inbound := spreadKey a.inbound b.inbound
  auth_user := spreadKey a.auth_user b.auth_user
  protocol := spreadKey a.protocol b.protocol
  network := spreadKey a.network b.network
  port := spreadKey a.port b.port
  port_range := spreadKey a.port_range b.port_range
  domain := spreadKey a.domain b.domain
  domain_suffix := spreadKey a.domain_suffix b.domain_suffix
  domain_keyword := spreadKey a.domain_keyword b.domain_keyword
  domain_regex := spreadKey a.domain_regex b.domain_regex
  ip_cidr := spreadKey a.ip_cidr b.ip_cidr
  rule_set := spreadKey a.rule_set b.rule_set

theorem spreadKey_eq_nil {α : Type} {a b : List α} : spreadKey a b = [] ↔ a = [] ∧ b = [] := by
  unfold spreadKey
  cases b <;> simp

theorem mem_spreadKey {α : Type} {a b : List α} {x : α} (h : x ∈ spreadKey a b) :
    x ∈ a ∨ x ∈ b := by
  unfold spreadKey at h
  split at h
  · exact Or.inl h
  · exact Or.inr h

theorem SbConds.mem_spread_rule_set {a b : SbConds} {t : String}
    (h : t ∈ (a.spread b).rule_set) : t ∈ a.rule_set ∨ t ∈ b.rule_set :=
  mem_spreadKey h

/-- A spread has no condition only when neither side has one. -/
theorem SbConds.spread_eq_empty {a b : SbConds} : a.spread b = {} ↔ a = {} ∧ b = {} := by
  cases a
  cases b
  simp only [SbConds.spread, SbConds.mk.injEq, spreadKey_eq_nil]
  tauto

/-- `reject` is always rendered with `method: 'drop'`. -/
inductive SbAction where
  | sniff
  | resolve
  | hijackDns
  | reject
  | route (outbound : String)
  deriving DecidableEq, Repr

inductive SbRule where
  | default (conds : SbConds) (action : SbAction)
  | logicalAnd (rules : List SbConds) (action : SbAction)
  deriving DecidableEq, Repr

def SbRule.action : SbRule → SbAction
  | .default _ action => action
  | .logicalAnd _ action => action

/-- The sets of conditions of a rule, its own or the nested ones. -/
def SbRule.conds : SbRule → List SbConds
  | .default conds _ => [conds]
  | .logicalAnd rules _ => rules

/-- Every rule-set a rule names. -/
def SbRule.ruleSets (r : SbRule) : List String := r.conds.flatMap (·.rule_set)

/-- The outbound a rule routes to. -/
def SbRule.outbound? (r : SbRule) : Option String :=
  match r.action with
  | .route outbound => some outbound
  | _ => none

/-! ## Inbounds -/

structure SocksUser where
  username : String
  password : String
  deriving DecidableEq, Repr

structure VlessUser where
  uuid : String
  name : String
  flow : Option String
  deriving DecidableEq, Repr

/-- The REALITY block of a listener. -/
structure RealityIn where
  serverName : String
  handshakeServer : String
  handshakePort : Int
  privateKey : String
  shortIds : List String
  deriving DecidableEq, Repr

/-- The TLS block of a QUIC leg: what is presented, and the key only on the listening side. -/
structure LegTls where
  serverName : String
  certificate : List String
  key : Option (List String)
  deriving DecidableEq, Repr

inductive InboundKind where
  | socks (users : List SocksUser)
  | tproxy
  | vless (users : List VlessUser) (tls : Option RealityIn)
  | shadowsocks (method password : String)
  | hysteria2 (users : List String) (obfs : String) (tls : LegTls)
  | tuic (users : List (String × String)) (congestion : LinkCongestion) (tls : LegTls)
  deriving DecidableEq, Repr

structure Inbound where
  tag : String
  listen : String
  listen_port : Nat
  kind : InboundKind
  deriving DecidableEq, Repr

/-! ## Outbounds -/

/-- The REALITY block of a dialler. -/
structure RealityOut where
  serverName : String
  publicKey : String
  shortId : String
  deriving DecidableEq, Repr

inductive OutboundKind where
  | vless (server : String) (port : Nat) (uuid : String) (flow : Option String)
      (tls : Option RealityOut)
  | shadowsocks (server : String) (port : Nat) (method password : String)
  | hysteria2 (server : String) (port : Nat) (password obfs : String) (tls : LegTls)
  | tuic (server : String) (port : Nat) (uuid password : String) (congestion : LinkCongestion)
      (tls : LegTls)
  | foreign (fields : List (String × Json))
  | urltest (outbounds : List String) (url interval : String) (tolerance : Nat)
  | direct

structure Outbound where
  tag : String
  kind : OutboundKind
  /-- the tunnel interface a leg is bound to -/
  bind_interface : Option String := none
  /-- the resolver of a leg's server name and its strategy -/
  domain_resolver : Option (String × String) := none

/-- The tags an outbound picks from. -/
def Outbound.members (o : Outbound) : List String :=
  match o.kind with
  | .urltest outbounds _ _ _ => outbounds
  | _ => []

/-- A wireguard endpoint, routed to by tag like an outbound. -/
structure WarpEndpoint where
  tag : String
  mtu : Nat
  address : List String
  privateKey : String
  peerAddress : String
  peerPort : Int
  publicKey : String
  reserved : Option (List Nat)
  deriving DecidableEq, Repr

structure RuleSetDecl where
  tag : String
  path : String
  deriving DecidableEq, Repr

structure ChainConfig where
  /-- the `local` DNS server a pinned leg names -/
  dnsServers : List String
  inbounds : List Inbound
  outbounds : List Outbound
  endpoints : List WarpEndpoint
  rules : List SbRule
  final : Option String
  ruleSets : List RuleSetDecl

end Iceslab
