import Iceslab.Lib.FirstMatch

/-!
# The routing rules of the node's xray

The records the panel writes into `routing.rules`, and what xray does with them as far as the
panel relies on it: the conditions of one rule AND together, a condition that is absent or an
empty list is dropped, the first rule that matches decides.  What the conditions other than the
user and the tag mean is a parameter (`XrayMatcher`); the modules that need more instantiate it.
-/

set_option autoImplicit false

namespace Iceslab

/-- The conditions of an xray rule that name neither a user nor a tag. -/
structure XrayConds where
  inboundTag : Option (List String) := none
  domain : Option (List String) := none
  ip : Option (List String) := none
  port : Option String := none
  network : Option String := none
  deriving DecidableEq, Repr

/-- `outboundTag` or `balancerTag`. -/
inductive XrayTarget where
  | outbound (tag : String)
  | balancer (tag : String)
  deriving DecidableEq, Repr

/-- A rule of `type: 'field'`.  `vlessRoute` is the comma-separated list, read. -/
structure XrayRule extends XrayConds where
  vlessRoute : Option (List Nat) := none
  user : Option (List String) := none
  target : XrayTarget
  deriving DecidableEq, Repr

/-- A connection: the email its inbound gave it, the tag in its UUID, and everything else. -/
structure XrayConn (ω : Type*) where
  user : String
  vlessRoute : Nat
  rest : ω

/-- xray drops a condition that is an empty list. -/
def listCond {α : Type*} (l : Option (List α)) (p : α → Bool) : Bool :=
  match l with
  | none => true
  | some [] => true
  | some (a :: as) => (a :: as).any p

@[simp] theorem listCond_none {α : Type*} (p : α → Bool) : listCond none p = true := rfl

theorem listCond_some {α : Type*} {l : List α} (h : l ≠ []) (p : α → Bool) :
    listCond (some l) p = l.any p := by
  cases l with
  | nil => exact absurd rfl h
  | cons a as => rfl

/-- How the conditions beside user and tag are matched; none of them present holds always. -/
structure XrayMatcher (ω : Type*) where
  holds : XrayConds → ω → Bool
  holds_empty : ∀ w, holds {} w = true

section Routing

variable {ω : Type*} (M : XrayMatcher ω)

def XrayRule.admits (c : XrayConn ω) (r : XrayRule) : Bool :=
  listCond r.vlessRoute (fun t => decide (t = c.vlessRoute))
    && listCond r.user (fun u => decide (u = c.user))
    && M.holds r.toXrayConds c.rest

/-- Where the list sends a connection; `none` is xray's default outbound, the first one. -/
def xrayRoute (rules : List XrayRule) (c : XrayConn ω) : Option XrayTarget :=
  FirstMatch.verdict (XrayRule.admits M c) (·.target) rules

end Routing

end Iceslab
