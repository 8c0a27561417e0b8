import Iceslab.Agent.XrayInbound

/-!
# The config of xray

`renderMultiConfigInto` of `internal/core/xray/config.go`: five sources merged into one document of
inbounds, outbounds and routing rules.  The sections that are the same in every document (`log`,
`stats`, `api`, `policy`) are left out.

* `Fragment` — a piece of a cascade as the panel wrote it, as far as the agent reads one.
* `fitCascadeExits`, `buildPolicyRules` — the node policy, fitted to the drawing of this render.
* `renderMultiConfigInto` — the document, and what was done with the policy.
-/

set_option autoImplicit false

namespace Iceslab.Agent.Xray

/-! ## Fragments -/

/-- A value of an object, as far as it is read; a null among the strings of an array is none. -/
inductive FragmentValue
  | null
  | string (s : String)
  | strings (items : List (Option String))
  | other (text : String)
deriving DecidableEq

/-- The JSON of a fragment: the fields of an object in the order written, or something else. -/
inductive Fragment
  | object (fields : List (String × FragmentValue))
  | other (text : String)
deriving DecidableEq

/-- A field as `encoding/json` decodes it into a string: the last of that name, in any case; none
where the object does not decode. -/
def decodeString (name : String) : Option String → String × FragmentValue → Option String
  | none, _ => none
  | some s, (key, value) =>
    if key.toLower = name then
      match value with
      | .null => some s
      | .string s' => some s'
      | _ => none
    else some s

/-- The tag of an outbound that names one. -/
def Fragment.tag : Fragment → Option String
  | .object fields => (fields.foldl (decodeString "tag") (some "")).filter (· ≠ "")
  | .other _ => none

/-- `isDoorRule` -/
def isDoorRule : Fragment → Bool
  | .object fields => !fields.any fun f => f.1 ∈ ["domain", "ip", "port", "protocol"]
  | .other _ => true

structure CascadeFragments where
  inbounds : List Fragment
  outbounds : List Fragment
  routingRules : List Fragment
  observatory : Option Fragment
  balancers : List Fragment
deriving DecidableEq

/-- `cutCascadeRulesAtTheFirstDoor` -/
def cutCascadeRulesAtTheFirstDoor (rules : List Fragment) : List Fragment × List Fragment :=
  rules.span fun r => !isDoorRule r

/-! ## Routing rules -/

/-- A rule of type `field`; what is empty is not written. -/
structure FieldRule where
  inboundTag : List String := []
  domain : List String := []
  ip : List String := []
  port : String := ""
  protocol : List String := []
  network : String := ""
  user : List String := []
  outboundTag : String
deriving DecidableEq

inductive Rule
  | field (rule : FieldRule)
  | fragment (raw : Fragment)
deriving DecidableEq

/-- The four base rules: the management inbound, name lookups, BitTorrent and outgoing mail. -/
def baseRules : List Rule :=
  [.field { inboundTag := ["api-in"], outboundTag := "api" },
   .field { protocol := ["dns"], outboundTag := "dns-out" },
   .field { protocol := ["bittorrent"], outboundTag := "blocked" },
   .field { port := "25", outboundTag := "blocked" }]

/-! ## The node policy -/

structure NodePolicyMatch where
  domain : List String
  ip : List String
  port : String
  protocol : List String
  network : String
deriving DecidableEq

structure NodePolicyAction where
  kind : String
  exit : String
  users : Slice String
deriving DecidableEq

structure NodePolicyRule where
  cond : NodePolicyMatch
  action : NodePolicyAction
deriving DecidableEq

structure PolicyNotDrawn where
  exit : String
  direction : Nat
deriving DecidableEq

structure PolicyDrawn where
  drawing : String
  notDrawn : List PolicyNotDrawn
deriving DecidableEq

/-- What `^pre(\d+)post$` takes of a text. -/
def digitsBetween (pre post s : String) : Option String :=
  let digits := GoText.trimSuffix (GoText.trimPrefix s pre) post
  if s = pre ++ digits ++ post ∧ digits ≠ "" ∧ digits.toList.all Char.isDigit = true
  then some digits
  else none

/-- `legacyExitRe` -/
def legacyExit (exit : String) : Option String := digitsBetween "cascade-link-out-d" "-0" exit

/-- `handoverExitRe` -/
def handoverExit (exit : String) : Option String := digitsBetween "cascade-link-out-chain-d" "" exit

/-- `n, _ = strconv.Atoi(digits)`: a number out of range is the largest one. -/
def atoiOrMax (digits : String) : Nat := min (Nat.ofDigitChars 10 digits.toList 0) (2 ^ 63 - 1)

/-- The number of the direction a way out is named after; zero where it is named after none. -/
def exitDirection (exit : String) : Nat :=
  match legacyExit exit with
  | some digits => atoiOrMax digits
  | none =>
    match handoverExit exit with
    | some digits => atoiOrMax digits
    | none => 0

/-- The other name of the same direction's way out. -/
def otherExit (exit : String) : Option String :=
  match legacyExit exit with
  | some digits => some ("cascade-link-out-chain-d" ++ digits)
  | none => (handoverExit exit).map fun digits => "cascade-link-out-d" ++ digits ++ "-0"

/-- `drawnOutboundTags` -/
def drawnOutboundTags (cascade : Option CascadeFragments) : List String :=
  match cascade with
  | none => []
  | some c => c.outbounds.filterMap Fragment.tag

/-- `cascadeDrawingOf` -/
def cascadeDrawingOf (cascade : Option CascadeFragments) : String :=
  let drawn := drawnOutboundTags cascade
  if drawn.any fun tag => (handoverExit tag).isSome then "handover"
  else if drawn.any fun tag => (legacyExit tag).isSome then "legacy"
  else "none"

/-- One turn of `fitCascadeExits`: the rule as it is kept, or the report of leaving it out. -/
def fitCascadeExit (drawn : List String) (r : NodePolicyRule) : NodePolicyRule ⊕ PolicyNotDrawn :=
  let leftOut := .inr ⟨r.action.exit, exitDirection r.action.exit⟩
  if r.action.kind = "cascade" ∧ r.action.users = some [] then leftOut
  else if r.action.kind ≠ "cascade" ∨ r.action.exit = "" ∨ r.action.exit ∈ drawn then .inl r
  else
    match otherExit r.action.exit with
    | none => leftOut
    | some other =>
      if other ∈ drawn then .inl { r with action := { r.action with exit := other } } else leftOut

/-- `fitCascadeExits` -/
def fitCascadeExits (rules : List NodePolicyRule) (cascade : Option CascadeFragments) :
    List NodePolicyRule × List PolicyNotDrawn :=
  let fitted := rules.map (fitCascadeExit (drawnOutboundTags cascade))
  (fitted.filterMap Sum.getLeft?, fitted.filterMap Sum.getRight?)

/-- `geoEntry` -/
def geoEntry (e : String) : String :=
  match ["ext:", "ext-domain:", "ext-ip:"].find? (GoText.hasPrefix e) with
  | none => e
  | some pre =>
    match GoText.cut (GoText.trimPrefix e pre) ':' with
    | none => e
    | some (set, tag) =>
      if set = "" ∨ GoText.hasSuffix set ".dat" then e
      else pre ++ "iceslab-" ++ set ++ ".dat:" ++ tag

inductive RenderError
  | inbound (e : InboundError)
  | duplicateTag (tag : String)
  | duplicatePort (port : Int)
  | noExitName (rule : Nat)
  | noKind (rule : Nat)
  | unknownKind (rule : Nat) (kind : String)
deriving DecidableEq

/-- The message, with `%q` as `quote` writes it. -/
def RenderError.text (quote : String → String) : RenderError → String
  | .inbound e => e.text quote
  | .duplicateTag tag => "render xray config: duplicate inbound tag " ++ quote tag
  | .duplicatePort port => "render xray config: two inbounds on port " ++ toString port
  | .noExitName rule =>
    "policy rule " ++ toString rule ++ ": cascade action carries no exit name"
  | .noKind rule => "policy rule " ++ toString rule ++ ": action has no kind"
  | .unknownKind rule kind =>
    "policy rule " ++ toString rule ++ ": unknown action kind " ++ quote kind

/-- `policyOutboundTag`, of the rule at a place. -/
def policyOutboundTag (place : Nat) (a : NodePolicyAction) : Except RenderError String :=
  if a.kind = "direct" then .ok "direct"
  else if a.kind = "block" then .ok "blocked"
  else if a.kind = "warp" then .ok "warp"
  else if a.kind = "cascade" then
    if a.exit = "" then .error (.noExitName place) else .ok a.exit
  else if a.kind = "" then .error (.noKind place)
  else .error (.unknownKind place a.kind)

/-- The rule of a policy rule that leads to an outbound. -/
def policyRule (r : NodePolicyRule) (tag : String) : FieldRule where
  domain := r.cond.domain.map geoEntry
  ip := r.cond.ip.map geoEntry
  port := r.cond.port
  protocol := r.cond.protocol
  network := r.cond.network
  user := if r.action.kind = "cascade" then r.action.users.toList else []
  outboundTag := tag

/-- `buildPolicyRules`, from a place on. -/
def buildPolicyRulesFrom : Nat → List NodePolicyRule → Except RenderError (List FieldRule)
  | _, [] => .ok []
  | i, r :: rules => do
    let tag ← policyOutboundTag i r.action
    let rest ← buildPolicyRulesFrom (i + 1) rules
    return policyRule r tag :: rest

/-- `buildPolicyRules` -/
def buildPolicyRules (rules : List NodePolicyRule) : Except RenderError (List FieldRule) :=
  buildPolicyRulesFrom 0 rules

/-! ## WARP -/

def warpDefaultPublicKey : String := "bmXOC+F1FxEMF9dyiK2H5/1SUtzH0JuVo51h2wPfgyo="

/-- The settings of a wireguard outbound. -/
structure WarpSettings where
  secretKey : String
  address : Slice String
  publicKey : String
  endpoint : String
  mtu : Int
  reserved : Option (List Int)
deriving DecidableEq

/-- `buildWarpOutbound`, the tag apart. -/
def buildWarpOutbound (w : WarpConfig) : WarpSettings where
  secretKey := w.secretKey
  address := w.address
  publicKey := if w.publicKey = "" then warpDefaultPublicKey else w.publicKey
  endpoint := if w.endpoint = "" then "162.159.192.1:2408" else w.endpoint
  mtu := if w.mtu = 0 then 1280 else w.mtu
  reserved := if w.reserved.length = 3 then some w.reserved else none

/-! ## The resolver -/

structure DnsServer where
  address : String
  domains : List String
  expectIPs : List String
  skipFallback : Bool
deriving DecidableEq

structure DnsCfg where
  servers : List DnsServer
  queryStrategy : String
  disableCache : Bool
deriving DecidableEq

/-- A server as it is written: its address alone, or an object; what is empty is not written. -/
inductive DnsEntry
  | address (address : String)
  | object (address : String) (domains expectIPs : List String) (skipFallback : Bool)
deriving DecidableEq

structure DnsSection where
  servers : List DnsEntry
  queryStrategy : String
  disableCache : Bool
deriving DecidableEq

def DnsServer.entry (s : DnsServer) : DnsEntry :=
  if s.domains = [] ∧ s.expectIPs = [] ∧ s.skipFallback = false then .address s.address
  else .object s.address (s.domains.map geoEntry) (s.expectIPs.map geoEntry) s.skipFallback

/-- `renderDnsSection`, of a resolver that was named. -/
def renderDnsSection (chosen : DnsCfg) : DnsSection where
  servers := chosen.servers.map DnsServer.entry
  queryStrategy := chosen.queryStrategy
  disableCache := chosen.disableCache

/-- `core.ResolveStrategy` -/
def resolveStrategy (ipv6 : Bool) : String := if ipv6 then "UseIP" else "UseIPv4"

def defaultDnsSection (ipv6 : Bool) : DnsSection where
  servers := ["1.1.1.1", "8.8.8.8", "localhost"].map .address
  queryStrategy := resolveStrategy ipv6
  disableCache := false

/-! ## The document -/

inductive Inbound
  | user (entry : UserInbound)
  | api (port : Int)
  | fragment (raw : Fragment)
deriving DecidableEq

inductive Outbound
  | direct (domainStrategy : String)
  | dnsOut
  | blocked
  | fragment (raw : Fragment)
  | warp (tag : String) (settings : WarpSettings)
deriving DecidableEq

def Outbound.tag : Outbound → Option String
  | .direct _ => some "direct"
  | .dnsOut => some "dns-out"
  | .blocked => some "blocked"
  | .fragment raw => raw.tag
  | .warp tag _ => some tag

structure Routing where
  domainStrategy : String
  rules : List Rule
  balancers : List Fragment
deriving DecidableEq

structure Document where
  inbounds : List Inbound
  outbounds : List Outbound
  routing : Routing
  dns : DnsSection
  observatory : Option Fragment
deriving DecidableEq

/-- What of the machine a render reads: `core.HostHasGlobalIPv6`, and which hosts are literals of
an internal address. -/
structure Host where
  ipv6 : Bool
  internal : String → Bool

/-- What the loop over the inbounds carries. -/
structure InboundsSeen where
  tags : List String
  ports : List Int
  entries : List UserInbound
  apiPort : Int

/-- One turn of the loop over the inbounds. -/
def renderInbound (host : Host) (users : List Client) (seen : InboundsSeen) (ib : InboundConfig) :
    Except RenderError InboundsSeen := do
  (ib.validate host.internal).mapError .inbound
  let cfg := ib.withDefaults
  if cfg.tag ∈ seen.tags then throw (.duplicateTag cfg.tag)
  if cfg.listenPort ∈ seen.ports then throw (.duplicatePort cfg.listenPort)
  let ibUsers := cfg.usersFor users
  let empty := cfg.isPlain ∧ plainAccounts ibUsers = []
  return {
    tags := cfg.tag :: seen.tags
    ports := cfg.listenPort :: seen.ports
    entries := if empty then seen.entries else seen.entries ++ [cfg.userInboundEntry ibUsers]
    apiPort := cfg.apiPort }

/-- What the loop over WARP carries: the outbounds so far by their settings, and the rules. -/
structure WarpSeen where
  tags : OrderedMap WarpSettings String
  rules : List FieldRule

/-- One turn of the loop over WARP. -/
def renderWarp (seen : WarpSeen) (ib : InboundConfig) : WarpSeen :=
  let c := ib.withDefaults
  match c.warp with
  | none => seen
  | some w =>
    let settings := buildWarpOutbound w
    let tag := (seen.tags.get? settings).getD
      (if seen.tags.entries = [] then "warp" else "warp-" ++ c.tag)
    { tags := if seen.tags.has settings then seen.tags else seen.tags.set settings tag
      rules := seen.rules ++ [{ inboundTag := [c.tag], outboundTag := tag }] }

/-- `renderMultiConfigInto` -/
def renderMultiConfigInto (host : Host) (inboundCfgs : List InboundConfig) (users : List Client)
    (cascade : Option CascadeFragments) (apiPort : Int) (policy : List NodePolicyRule)
    (dns : Option DnsCfg) : Except RenderError (Document × PolicyDrawn) := do
  let seen ← inboundCfgs.foldlM (renderInbound host users) ⟨[], [], [], 0⟩
  let cut := cutCascadeRulesAtTheFirstDoor ((cascade.map CascadeFragments.routingRules).getD [])
  let fitted := fitCascadeExits policy cascade
  let policyRules ← buildPolicyRules fitted.1
  let warp := inboundCfgs.foldl renderWarp ⟨OrderedMap.empty, []⟩
  return ({
    inbounds := seen.entries.map .user ++ [.api (if apiPort = 0 then seen.apiPort else apiPort)] ++
      ((cascade.map CascadeFragments.inbounds).getD []).map .fragment
    outbounds := [.direct (resolveStrategy host.ipv6), .dnsOut, .blocked] ++
      ((cascade.map CascadeFragments.outbounds).getD []).map .fragment ++
      warp.tags.entries.map fun e => .warp e.2 e.1
    routing := {
      domainStrategy := "IPIfNonMatch"
      rules := baseRules ++ cut.1.map .fragment ++ policyRules.map .field ++ cut.2.map .fragment ++
        warp.rules.map .field
      balancers := (cascade.map CascadeFragments.balancers).getD [] }
    dns := (dns.map renderDnsSection).getD (defaultDnsSection host.ipv6)
    observatory := cascade.bind CascadeFragments.observatory },
    { drawing := cascadeDrawingOf cascade, notDrawn := fitted.2 })

end Iceslab.Agent.Xray
