import Iceslab.Lib.JsPrefix
import Iceslab.PolicyEntries

/-!
# Device routing presets in the client formats

`subscription.device-rules.ts`, over the grammar of `routing-presets.rules.ts`.  One list of rules
is written as xray routing rules, as lines of a Clash file and as the route of sing-box.

* `matcherKind`, `Admitted` — the matchers the API lets through.
* `xrayDeviceRules`, `clashDeviceRuleLines`, `singboxDeviceRoute` — the three writers.
-/

set_option autoImplicit false

namespace Iceslab.Subscription

open JsText

/-! ## The grammar -/

inductive DeviceRouteAction where
  | direct
  | block
  | proxy
  deriving DecidableEq, Repr

structure DeviceRouteRule where
  /-- `match` -/
  matchers : List String
  action : DeviceRouteAction
  deriving DecidableEq, Repr

/-- The two groups of `/^port:(\d{1,5})(?:-(\d{1,5}))?$/`, as numbers. -/
def portBounds (m : String) : Option (Nat × Nat) :=
  let number (s : String) : Option Nat :=
    if isDigits s ∧ s.length ≤ 5 then some (numberOf s) else none
  (afterPrefix "port:" m).bind fun rest =>
    match split '-' rest with
    | [lo] => (number lo).map fun n => (n, n)
    | [lo, hi] => (number lo).bind fun n => (number hi).map fun k => (n, k)
    | _ => none

def isPortMatcher (m : String) : Bool :=
  (portBounds m).any fun b => decide (1 ≤ b.1 ∧ b.2 ≤ 65535 ∧ b.1 ≤ b.2)

inductive MatcherKind where
  | domain
  | ip
  | port
  deriving DecidableEq, Repr

def matcherKind (lib : TextLib) (m : String) : Option MatcherKind :=
  if isPortMatcher m then some .port
  else if ["ext:", "ext-domain:", "ext-ip:"].any fun pre => (afterPrefix pre m).isSome then none
  else (classifyPolicyEntry lib m).map fun
    | .domain => .domain
    | .ip => .ip

/-- A matcher as the API stores it: trimmed, of a kind a device rule can carry. -/
def Admitted (lib : TextLib) (m : String) : Prop := trim m = m ∧ (matcherKind lib m).isSome = true

instance (lib : TextLib) (m : String) : Decidable (Admitted lib m) :=
  inferInstanceAs (Decidable (_ ∧ _))

/-! ## Kinds -/

/-- `m.split('/')[0]` -/
def bareOf (m : String) : String := String.ofList (m.toList.takeWhile (· ≠ '/'))

def kindOf (m : String) : MatcherKind :=
  if (afterPrefix "port:" m).isSome then .port
  else if (afterPrefix "geoip:" m).isSome then .ip
  else if isIP (bareOf m) ≠ 0 then .ip
  else .domain

/-- `byKind(match)[kind]` -/
def byKind (kind : MatcherKind) (matchers : List String) : List String :=
  matchers.filter fun m => decide (kindOf m = kind)

/-- `m.slice('port:'.length)` -/
def portText (m : String) : String := String.ofList (m.toList.drop 5)

/-! ## xray -/

/-- Where a `proxy` rule sends traffic. -/
inductive XrayTarget where
  | outboundTag (tag : String)
  | balancerTag (tag : String)
  deriving DecidableEq, Repr

/-- A field rule; a field with nothing in it is absent. -/
structure XrayFieldRule where
  domain : List String
  ip : List String
  port : Option String
  target : XrayTarget
  deriving DecidableEq, Repr

def XRAY_DOMAIN_PREFIXES : List String := ["geosite:", "domain:", "full:", "keyword:", "regexp:"]

def xrayDomain (m : String) : String :=
  if XRAY_DOMAIN_PREFIXES.any fun p => (afterPrefix p m).isSome then m else "domain:" ++ m

/-- `r.action === 'direct' ? … : r.action === 'block' ? … : proxy` -/
def xrayTarget (proxy : Option XrayTarget) : DeviceRouteAction → Option XrayTarget
  | .direct => some (.outboundTag "direct")
  | .block => some (.outboundTag "block")
  | .proxy => proxy

def xrayRulesOf (matchers : List String) (target : XrayTarget) : List XrayFieldRule :=
  let domain := byKind .domain matchers
  let ip := byKind .ip matchers
  let port := byKind .port matchers
  (if domain ≠ [] then [⟨domain.map xrayDomain, [], none, target⟩] else [])
    ++ (if ip ≠ [] then [⟨[], ip, none, target⟩] else [])
    ++ (if port ≠ [] then [⟨[], [], some (",".intercalate (port.map portText)), target⟩] else [])

def xrayDeviceRules (rules : List DeviceRouteRule) (proxy : Option XrayTarget) :
    List XrayFieldRule :=
  rules.flatMap fun r =>
    match xrayTarget proxy r.action with
    | none => []
    | some target => xrayRulesOf r.matchers target

/-! ## Clash -/

/-- `geoip:private` as explicit ranges. -/
def CLASH_PRIVATE : List String :=
  ["IP-CIDR,10.0.0.0/8", "IP-CIDR,172.16.0.0/12", "IP-CIDR,192.168.0.0/16", "IP-CIDR,127.0.0.0/8",
    "IP-CIDR,169.254.0.0/16", "IP-CIDR6,fc00::/7", "IP-CIDR6,fe80::/10", "IP-CIDR6,::1/128"]

/-- One rule without its target. -/
structure ClashBody where
  body : String
  noResolve : Bool
  deriving DecidableEq, Repr

/-- The case mappings of the runtime. -/
structure CaseLib extends TextLib where
  toUpperCase : String → String

/-- `[addr, bits] = m.split('/')` -/
def addrBits (m : String) : String × Option String :=
  match split '/' m with
  | addr :: bits :: _ => (addr, some bits)
  | [addr] => (addr, none)
  | [] => ("", none)

/-- The rule types of names that take what follows the tag as it is. -/
def CLASH_NAMES : List (String × String) :=
  [("full:", "DOMAIN,"), ("keyword:", "DOMAIN-KEYWORD,"), ("regexp:", "DOMAIN-REGEX,"),
    ("domain:", "DOMAIN-SUFFIX,")]

def clashMatcher (lib : CaseLib) (m : String) : List ClashBody :=
  if m = "geoip:private" then CLASH_PRIVATE.map fun body => ⟨body, true⟩
  else
    match afterPrefix "geosite:" m with
    | some tag => [⟨"GEOSITE," ++ tag, false⟩]
    | none =>
      match afterPrefix "geoip:" m with
      | some tag => [⟨"GEOIP," ++ lib.toUpperCase tag, false⟩]
      | none =>
        match CLASH_NAMES.findSome? fun p => (afterPrefix p.1 m).map (p.2 ++ ·) with
        | some body => [⟨body, false⟩]
        | none =>
          if (afterPrefix "port:" m).isSome then [⟨"DST-PORT," ++ portText m, false⟩]
          else
            let (addr, bits) := addrBits m
            let family := isIP addr
            if family ≠ 0 then
              let cidr := addr ++ "/" ++ bits.getD (if family = 4 then "32" else "128")
              [⟨(if family = 4 then "IP-CIDR" else "IP-CIDR6") ++ "," ++ cidr, true⟩]
            else [⟨"DOMAIN-SUFFIX," ++ m, false⟩]

def clashTarget (proxyGroup : Option String) : DeviceRouteAction → Option String
  | .direct => some "DIRECT"
  | .block => some "REJECT"
  | .proxy => proxyGroup.filter (· ≠ "")

def clashLine (target : String) (b : ClashBody) : String :=
  "  - " ++ b.body ++ "," ++ target ++ (if b.noResolve then ",no-resolve" else "")

def clashDeviceRuleLines (lib : CaseLib) (rules : List DeviceRouteRule)
    (proxyGroup : Option String) : List String :=
  rules.flatMap fun r =>
    match clashTarget proxyGroup r.action with
    | none => []
    | some target => r.matchers.flatMap fun m => (clashMatcher lib m).map (clashLine target)

/-! ## sing-box -/

structure SingboxRuleSet where
  tag : String
  url : String
  deriving DecidableEq, Repr

/-- The remote set of a `geosite:` or `geoip:` name. -/
def singboxRuleSet (lib : CaseLib) (m : String) : SingboxRuleSet :=
  match afterPrefix "geosite:" m with
  | some name =>
    let tag := "geosite-" ++ lib.toLowerCase name
    ⟨tag, "https://raw.githubusercontent.com/SagerNet/sing-geosite/rule-set/" ++ tag ++ ".srs"⟩
  | none =>
    let tag := "geoip-" ++ lib.toLowerCase (String.ofList (m.toList.drop 6))
    ⟨tag, "https://raw.githubusercontent.com/SagerNet/sing-geoip/rule-set/" ++ tag ++ ".srs"⟩

inductive SingboxAction where
  | reject
  | route (outbound : String)
  deriving DecidableEq, Repr

/-- A route rule; a field with nothing in it is absent. -/
structure SingboxRule where
  ip_is_private : Bool
  rule_set : List String
  domain : List String
  domain_suffix : List String
  domain_keyword : List String
  domain_regex : List String
  ip_cidr : List String
  port : List Nat
  port_range : List String
  action : SingboxAction
  deriving DecidableEq, Repr

/-- What the loop over a group's matchers fills. -/
structure SingboxInline where
  isPrivate : Bool
  geo : List SingboxRuleSet
  domain : List String
  domain_suffix : List String
  domain_keyword : List String
  domain_regex : List String
  cidr : List String
  ports : List Nat
  ranges : List String
  deriving DecidableEq, Repr

def SingboxInline.empty : SingboxInline := ⟨false, [], [], [], [], [], [], [], []⟩

def singboxMatcher (lib : CaseLib) (s : SingboxInline) (m : String) : SingboxInline :=
  if m = "geoip:private" then { s with isPrivate := true }
  else if (afterPrefix "geosite:" m).isSome ∨ (afterPrefix "geoip:" m).isSome then
    { s with geo := setAdd s.geo (singboxRuleSet lib m) }
  else
    match afterPrefix "full:" m with
    | some p => { s with domain := s.domain ++ [p] }
    | none =>
      match afterPrefix "keyword:" m with
      | some p => { s with domain_keyword := s.domain_keyword ++ [p] }
      | none =>
        match afterPrefix "regexp:" m with
        | some p => { s with domain_regex := s.domain_regex ++ [p] }
        | none =>
          match afterPrefix "domain:" m with
          | some p => { s with domain_suffix := s.domain_suffix ++ [p] }
          | none =>
            if (afterPrefix "port:" m).isSome then
              match split '-' (portText m) with
              | lo :: hi :: _ => { s with ranges := s.ranges ++ [lo ++ ":" ++ hi] }
              | [lo] => { s with ports := s.ports ++ [numberOf lo] }
              | [] => s
            else if isIP (bareOf m) ≠ 0 then
              { s with cidr := s.cidr
                  ++ [if '/' ∈ m.toList then m else m ++ "/" ++ (if isIP m = 4 then "32" else "128")] }
            else { s with domain_suffix := s.domain_suffix ++ [m] }

def SingboxRule.only (action : SingboxAction) : SingboxRule :=
  ⟨false, [], [], [], [], [], [], [], [], action⟩

/-- The rules of one group, each kind its own rule. -/
def singboxRulesOf (s : SingboxInline) (action : SingboxAction) : List SingboxRule :=
  let rule := SingboxRule.only action
  (if s.isPrivate then [{ rule with ip_is_private := true }] else [])
    ++ (if s.geo ≠ [] then [{ rule with rule_set := s.geo.map SingboxRuleSet.tag }] else [])
    ++ (if s.domain ≠ [] ∨ s.domain_suffix ≠ [] ∨ s.domain_keyword ≠ [] ∨ s.domain_regex ≠ [] then
        [{ rule with
            domain := s.domain, domain_suffix := s.domain_suffix
            domain_keyword := s.domain_keyword, domain_regex := s.domain_regex }] else [])
    ++ (if s.cidr ≠ [] then [{ rule with ip_cidr := s.cidr }] else [])
    ++ (if s.ports ≠ [] then [{ rule with port := s.ports }] else [])
    ++ (if s.ranges ≠ [] then [{ rule with port_range := s.ranges }] else [])

/-- Consecutive rules of one action are one group. -/
def singboxGroup (groups : List DeviceRouteRule) (r : DeviceRouteRule) : List DeviceRouteRule :=
  match groups.getLast? with
  | some last =>
    if last.action = r.action then
      groups.dropLast ++ [{ last with matchers := last.matchers ++ r.matchers }]
    else groups ++ [r]
  | none => groups ++ [r]

def singboxGroups (rules : List DeviceRouteRule) : List DeviceRouteRule :=
  rules.foldl singboxGroup []

def singboxAction (proxyOutbound : Option String) : DeviceRouteAction → Option SingboxAction
  | .block => some .reject
  | .direct => some (.route "direct")
  | .proxy => (proxyOutbound.filter (· ≠ "")).map .route

structure SingboxRoute where
  rules : List SingboxRule
  rule_set : List SingboxRuleSet
  deriving DecidableEq, Repr

def singboxInlineOf (lib : CaseLib) (matchers : List String) : SingboxInline :=
  matchers.foldl (singboxMatcher lib) .empty

/-- A set is kept under its tag, which its address follows from. -/
def singboxGroupRoute (lib : CaseLib) (proxyOutbound : Option String) (route : SingboxRoute)
    (g : DeviceRouteRule) : SingboxRoute :=
  match singboxAction proxyOutbound g.action with
  | none => route
  | some action =>
    let s := singboxInlineOf lib g.matchers
    { rules := route.rules ++ singboxRulesOf s action
      rule_set := s.geo.foldl setAdd route.rule_set }

def singboxDeviceRoute (lib : CaseLib) (rules : List DeviceRouteRule)
    (proxyOutbound : Option String) : SingboxRoute :=
  (singboxGroups rules).foldl (singboxGroupRoute lib proxyOutbound) ⟨[], []⟩

end Iceslab.Subscription
