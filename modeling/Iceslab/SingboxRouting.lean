import Iceslab.Lib.RuleRun
import Iceslab.SingboxConfig

/-!
# How sing-box routes

The reading of a config's route rules: the items of one key OR, the keys AND, but for the
destination's (names, addresses, rule-sets), which OR together; a logical rule ANDs; the rules run
in order; after a `resolve` the rules that follow see the resolved addresses; what no rule decides
goes to `final`, or to the first outbound.

How one item matches one name or one address is the engine's own (`SbEngine`).

* `SbRule.apply`, `ChainConfig.verdict` — one rule, and the whole config.
* `LeadsTo` — the outbound behind a tag, whatever member its groups pick.
-/

set_option autoImplicit false

namespace Iceslab

open RuleRun

/-- How the engine matches the items of a condition. -/
structure SbEngine (Addr : Type) where
  domain : String → String → Bool
  domain_suffix : String → String → Bool
  domain_keyword : String → String → Bool
  domain_regex : String → String → Bool
  ip_cidr : String → Addr → Bool
  port_range : String → Nat → Bool
  /-- the names and the addresses of a rule-set -/
  setName : String → String → Bool
  setAddr : String → Addr → Bool
  resolve : String → List Addr

inductive Network where
  | tcp
  | udp
  deriving DecidableEq, Repr

def Network.name : Network → String
  | .tcp => "tcp"
  | .udp => "udp"

/-- Where a connection goes: by address, or by name with the addresses resolved so far. -/
inductive Destination (Addr : Type) where
  | addr (addr : Addr)
  | name (name : String) (resolved : List Addr)

/-- A connection as the rules see it. -/
structure SbConn (Addr : Type) where
  inbound : String
  user : Option String
  /-- what sniffing found -/
  protocol : Option String
  network : Network
  port : Nat
  dest : Destination Addr

/-- A key that is absent holds. -/
def anyOf {α : Type} (l : List α) (p : α → Bool) : Bool := l.isEmpty || l.any p

@[simp] theorem anyOf_nil {α : Type} (p : α → Bool) : anyOf [] p = true := rfl

@[simp] theorem anyOf_singleton {α : Type} (a : α) (p : α → Bool) : anyOf [a] p = p a := by
  simp [anyOf]

section Routing

variable {Addr : Type} (E : SbEngine Addr)

/-- Some key of the destination is there. -/
def SbConds.hasDestination (c : SbConds) : Bool :=
  !(c.domain.isEmpty && c.domain_suffix.isEmpty && c.domain_keyword.isEmpty
    && c.domain_regex.isEmpty && c.ip_cidr.isEmpty && c.rule_set.isEmpty)

def SbConds.takesName (c : SbConds) (name : String) : Bool :=
  c.domain.any (E.domain · name) || c.domain_suffix.any (E.domain_suffix · name)
    || c.domain_keyword.any (E.domain_keyword · name) || c.domain_regex.any (E.domain_regex · name)
    || c.rule_set.any (E.setName · name)

def SbConds.takesAddr (c : SbConds) (addr : Addr) : Bool :=
  c.ip_cidr.any (E.ip_cidr · addr) || c.rule_set.any (E.setAddr · addr)

/-- The keys beside the destination's. -/
def SbConds.admitsRest (c : SbConds) (x : SbConn Addr) : Bool :=
  anyOf c.inbound (fun t => decide (t = x.inbound))
    && anyOf c.auth_user (fun u => decide (some u = x.user))
    && anyOf c.protocol (fun p => decide (some p = x.protocol))
    && anyOf c.network (fun n => decide (n = x.network.name))
    && (c.port.isEmpty && c.port_range.isEmpty || c.port.any (fun p => decide (p = x.port))
      || c.port_range.any (E.port_range · x.port))

def SbConds.takesDestination (c : SbConds) (d : Destination Addr) : Bool :=
  match d with
  | .addr a => c.takesAddr E a
  | .name n resolved => c.takesName E n || resolved.any (c.takesAddr E)

def SbConds.admits (c : SbConds) (x : SbConn Addr) : Bool :=
  c.admitsRest E x && (!c.hasDestination || c.takesDestination E x.dest)

def SbRule.admits (r : SbRule) (x : SbConn Addr) : Bool := r.conds.all (·.admits E x)

/-- After a `resolve` a name's addresses are known. -/
def Destination.resolve (d : Destination Addr) : Destination Addr :=
  match d with
  | .addr a => .addr a
  | .name n _ => .name n (E.resolve n)

def SbConn.resolved (x : SbConn Addr) : SbConn Addr := { x with dest := x.dest.resolve E }

inductive SbVerdict where
  | dns
  | reject
  | outbound (tag : String)
  deriving DecidableEq, Repr

def SbAction.apply (a : SbAction) (x : SbConn Addr) : Outcome (SbConn Addr) SbVerdict :=
  match a with
  | .sniff => .next x
  | .resolve => .next (x.resolved E)
  | .hijackDns => .done .dns
  | .reject => .done .reject
  | .route tag => .done (.outbound tag)

def SbRule.apply (r : SbRule) (x : SbConn Addr) : Outcome (SbConn Addr) SbVerdict :=
  if r.admits E x then r.action.apply E x else .next x

/-- Where nothing decides: `final`, or the first outbound. -/
def ChainConfig.default (cfg : ChainConfig) : String :=
  cfg.final.getD ((cfg.outbounds.head?.map (·.tag)).getD "")

/-- Where a config sends a connection. -/
def ChainConfig.verdict (cfg : ChainConfig) (x : SbConn Addr) : SbVerdict :=
  match run (SbRule.apply E) cfg.rules x with
  | .done v => v
  | .next _ => .outbound cfg.default

/-- The parts of a connection no rule changes. -/
structure SbConn.SameArrival (x y : SbConn Addr) : Prop where
  inbound : y.inbound = x.inbound
  user : y.user = x.user
  network : y.network = x.network

theorem SbRule.apply_sameArrival {r : SbRule} {x y z : SbConn Addr} (h : x.SameArrival y)
    (hz : r.apply E y = .next z) : x.SameArrival z := by
  unfold SbRule.apply at hz
  split at hz
  · unfold SbAction.apply at hz
    split at hz
    · cases hz
      exact h
    · cases hz
      exact ⟨h.inbound, h.user, h.network⟩
    all_goals cases hz
  · cases hz
    exact h

theorem run_sameArrival {rules : List SbRule} {x y : SbConn Addr}
    (h : run (SbRule.apply E) rules x = .next y) : x.SameArrival y :=
  run_keeps (fun _ _ _ _ hs hn => SbRule.apply_sameArrival E hs hn) ⟨rfl, rfl, rfl⟩ h

end Routing

/-- A group of outbounds. -/
def Outbound.isGroup (o : Outbound) : Bool :=
  match o.kind with
  | .urltest _ _ _ _ => true
  | _ => false

/-- The outbound behind a tag: itself, or behind any member of the group it is. -/
inductive LeadsTo (cfg : ChainConfig) : String → Outbound → Prop
  | leaf {o : Outbound} (h : o ∈ cfg.outbounds) (hk : o.isGroup = false) : LeadsTo cfg o.tag o
  | member {g o : Outbound} {m : String} (hg : g ∈ cfg.outbounds) (hm : m ∈ g.members)
      (h : LeadsTo cfg m o) : LeadsTo cfg g.tag o

end Iceslab
