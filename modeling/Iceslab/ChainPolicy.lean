import Iceslab.Lib.OrderedMap
import Iceslab.PolicyEntries
import Iceslab.SingboxConfig

/-!
# Policies as the chain carries them out

`chain-policy.ts`: entries spelled for xray become matchers of sing-box, the route policies of an
entry and the node policy of an exit become what its rules are written from.

* `matchOf`, `ipMatchOf`, `portMatchOf` — one kind of condition each.
* `chainNodePolicyOf` — a node policy as route rules, in order.
* `chainPoliciesOf` — the route policies of an entry, by ordinal.
* `mem_ruleSets_iff` — every rule-set named is declared, and each once.
-/

set_option autoImplicit false

namespace Iceslab

open JsText

/-- Domain matchers of one rule. -/
structure ChainMatch where
  domain : List String := []
  domain_suffix : List String := []
  domain_keyword : List String := []
  domain_regex : List String := []
  rule_set : List String := []
  deriving DecidableEq, Repr

/-- Address matchers of one rule. -/
structure ChainIpMatch where
  ip_cidr : List String := []
  rule_set : List String := []
  deriving DecidableEq, Repr

def ChainMatch.conds (m : ChainMatch) : SbConds :=
  { domain := m.domain, domain_suffix := m.domain_suffix, domain_keyword := m.domain_keyword,
    domain_regex := m.domain_regex, rule_set := m.rule_set }

def ChainIpMatch.conds (m : ChainIpMatch) : SbConds :=
  { ip_cidr := m.ip_cidr, rule_set := m.rule_set }

/-- One rule-set the chain config names. -/
structure ChainRuleSetRef where
  tag : String
  path : String
  file : String
  set : String
  setTag : String
  deriving DecidableEq, Repr

section Translate

variable (lib : TextLib)

def ruleSetOf (ref : GeoRef) : ChainRuleSetRef :=
  let setTag := lib.toLowerCase ref.tag
  let file := chainRuleSetFileName lib ref.set setTag
  { tag := "geo-" ++ ref.set ++ "-" ++ setTag, path := GEO_DIR_ON_NODE ++ "/" ++ file, file,
    set := ref.set, setTag }

/-- The rule-set of an entry of a domain list; one that names addresses means nothing there. -/
def domainSetOf (entry : String) : Option ChainRuleSetRef :=
  match parseGeoRef lib entry with
  | none => none
  | some ref =>
    if ref.set = "geoip" ∨ (afterPrefix "ext-ip:" (trim entry)).isSome then none
    else some (ruleSetOf lib ref)

/-- The rule-set of an entry of an address list. -/
def ipSetOf (entry : String) : Option ChainRuleSetRef := (parseGeoRef lib entry).map (ruleSetOf lib)

/-- An entry that names no set. -/
def nameMatch (e : String) : ChainMatch :=
  match afterPrefix "domain:" e with
  | some v => { domain := [v], domain_suffix := ["." ++ v] }
  | none =>
    match afterPrefix "full:" e with
    | some v => { domain := [v] }
    | none =>
      match afterPrefix "keyword:" e with
      | some v => { domain_keyword := [v] }
      | none =>
        match afterPrefix "regexp:" e with
        | some v => { domain_regex := [v] }
        | none => { domain_suffix := [e] }

/-- What one entry of a domain list adds to the matchers. -/
def addEntry (entry : String) : ChainMatch :=
  let e := trim entry
  if e = "" then {}
  else if (parseGeoRef lib entry).isSome then
    { rule_set := (domainSetOf lib entry).toList.map (·.tag) }
  else if (afterPrefix "geoip:" e).isSome then {}
  else nameMatch e

def matchOf (entries : List String) : ChainMatch where
  domain := (entries.flatMap fun e => (addEntry lib e).domain).eraseDups
  domain_suffix := (entries.flatMap fun e => (addEntry lib e).domain_suffix).eraseDups
  domain_keyword := (entries.flatMap fun e => (addEntry lib e).domain_keyword).eraseDups
  domain_regex := (entries.flatMap fun e => (addEntry lib e).domain_regex).eraseDups
  rule_set := (entries.flatMap fun e => (addEntry lib e).rule_set).eraseDups

def chainMatchIsEmpty (m : ChainMatch) : Bool := decide (m = {})

/-- A bare address as the network of itself. -/
def cidrOf (e : String) : String :=
  if '/' ∈ e.toList then e else if ':' ∈ e.toList then e ++ "/128" else e ++ "/32"

/-- What one entry of an address list adds to the matchers. -/
def addIpEntry (entry : String) : ChainIpMatch :=
  let e := trim entry
  if e = "" then {}
  else
    match ipSetOf lib entry with
    | some ref => { rule_set := [ref.tag] }
    | none => { ip_cidr := [cidrOf e] }

def ipMatchOf (entries : List String) : ChainIpMatch where
  ip_cidr := (entries.flatMap fun e => (addIpEntry lib e).ip_cidr).eraseDups
  rule_set := (entries.flatMap fun e => (addIpEntry lib e).rule_set).eraseDups

/-- The sets a list of references asks for, each once and in the order first asked. -/
def collectSets (refs : List ChainRuleSetRef) : OrderedMap String ChainRuleSetRef :=
  OrderedMap.collect ChainRuleSetRef.tag (fun o r => o.getD r) refs

/-- `[...sets.values()].sort(by tag)` -/
def sortedSets (refs : List ChainRuleSetRef) : List ChainRuleSetRef :=
  (collectSets refs).values.insertionSort fun a b => lib.localeLe a.tag b.tag

end Translate

/-! ## The node policy of an exit -/

/-- One item of a port list: a port, or a range. -/
def portItem (part : String) : SbConds :=
  let p := trim part
  let before := p.toList.takeWhile (· ≠ '-')
  if p = "" then {}
  else if before ≠ [] ∧ before.length < p.length then
    { port_range := [trim (String.ofList before) ++ ":"
        ++ trim (String.ofList (p.toList.drop (before.length + 1)))] }
  else if isDigits p then { port := [numberOf p] }
  else {}

/-- xray's port string in sing-box's two fields. -/
def portMatchOf (port : Option String) : SbConds :=
  let items := (split ',' (port.getD "")).map portItem
  { port := items.flatMap (·.port), port_range := items.flatMap (·.port_range) }

inductive NodePolicyNetwork where
  | tcp
  | udp
  | both
  deriving DecidableEq, Repr

inductive NodePolicyAction where
  | direct
  | block
  | warp
  | cascade
  deriving DecidableEq, Repr

structure ChainNodePolicyRule where
  domain : List String := []
  ip : List String := []
  port : Option String := none
  protocol : List String := []
  network : Option NodePolicyNetwork := none
  action : NodePolicyAction
  deriving DecidableEq, Repr

def CHAIN_WARP_TAG : String := "warp"

section NodePolicy

variable (lib : TextLib)

/-- `network`, unless it names both. -/
def networkOf : Option NodePolicyNetwork → List String
  | some .tcp => ["tcp"]
  | some .udp => ["udp"]
  | _ => []

namespace ChainNodePolicyRule

variable (r : ChainNodePolicyRule)

def dom : SbConds := (matchOf lib r.domain).conds

def addr : SbConds := (ipMatchOf lib r.ip).conds

/-- The conditions that are neither names nor addresses. -/
def rest : SbConds :=
  { portMatchOf r.port with protocol := r.protocol, network := networkOf r.network }

/-- The rule lost a whole kind of condition it was written with. -/
def lostKind : Bool :=
  (!r.domain.isEmpty && decide (r.dom lib = {}))
    || (!r.ip.isEmpty && decide (r.addr lib = {}))
    || (decide (r.port.getD "" ≠ "") && decide (portMatchOf r.port = {}))

def sbAction : SbAction :=
  match r.action with
  | .block => .reject
  | .warp => .route CHAIN_WARP_TAG
  | _ => .route "direct"

/-- The rule as one of the chain's. -/
def translated : SbRule :=
  if r.dom lib ≠ {} ∧ r.addr lib ≠ {} then
    .logicalAnd ([r.dom lib, r.addr lib] ++ if r.rest = {} then [] else [r.rest]) r.sbAction
  else if r.dom lib = {} ∧ r.addr lib = {} ∧ r.rest = {} then
    -- no rule goes without a condition: the one every connection meets
    .default { network := ["tcp", "udp"] } r.sbAction
  else .default (((r.dom lib).spread (r.addr lib)).spread r.rest) r.sbAction

end ChainNodePolicyRule

/-- The rules in order, a `resolve` before the first that matches by address. -/
def chainNodeRules (resolved : Bool) : List ChainNodePolicyRule → List SbRule
  | [] => []
  | r :: rs =>
    if r.action = .cascade ∨ r.lostKind lib then chainNodeRules resolved rs
    else if r.addr lib ≠ {} ∧ resolved = false then
      .default {} .resolve :: r.translated lib :: chainNodeRules true rs
    else r.translated lib :: chainNodeRules resolved rs

/-- The rule-sets a list of rules asks for. -/
def nodePolicySets (rules : List ChainNodePolicyRule) : List ChainRuleSetRef :=
  (rules.filter (fun r => decide (r.action ≠ .cascade))).flatMap fun r =>
    r.domain.filterMap (domainSetOf lib) ++ r.ip.filterMap (ipSetOf lib)

structure ChainNodePolicy where
  rules : List SbRule
  ruleSets : List ChainRuleSetRef
  usesWarp : Bool

def chainNodePolicyOf (rules : List ChainNodePolicyRule) : ChainNodePolicy where
  rules := chainNodeRules lib false rules
  ruleSets := sortedSets lib (nodePolicySets lib rules)
  usesWarp := rules.any fun r => decide (r.action = .warp)

end NodePolicy

/-! ## The route policies of an entry -/

structure CascadePolicy where
  ordinal : Nat
  directDomains : List String
  blockDomains : List String
  deriving DecidableEq, Repr

structure ChainPolicy where
  ordinal : Nat
  block : ChainMatch
  direct : ChainMatch
  blockIp : Option ChainIpMatch
  directIp : Option ChainIpMatch
  deriving DecidableEq, Repr

structure ChainPolicies where
  policies : List ChainPolicy
  ruleSets : List ChainRuleSetRef

section RoutePolicies

variable (lib : TextLib)

def ipOf (entries : List String) : Option ChainIpMatch :=
  let m := ipMatchOf lib (splitPolicyEntries lib entries).ip
  if m = {} then none else some m

def chainPolicyOf (p : CascadePolicy) : ChainPolicy where
  ordinal := p.ordinal
  block := matchOf lib (splitPolicyEntries lib p.blockDomains).domain
  direct := matchOf lib (splitPolicyEntries lib p.directDomains).domain
  blockIp := ipOf lib p.blockDomains
  directIp := ipOf lib p.directDomains

def sortPolicies (policies : List CascadePolicy) : List CascadePolicy :=
  policies.insertionSort fun a b => a.ordinal ≤ b.ordinal

/-- The rule-sets of one policy, in the order it asks for them. -/
def policySets (p : CascadePolicy) : List ChainRuleSetRef :=
  (splitPolicyEntries lib p.blockDomains).ip.filterMap (ipSetOf lib)
    ++ (splitPolicyEntries lib p.directDomains).ip.filterMap (ipSetOf lib)
    ++ (splitPolicyEntries lib p.blockDomains).domain.filterMap (domainSetOf lib)
    ++ (splitPolicyEntries lib p.directDomains).domain.filterMap (domainSetOf lib)

def chainPoliciesOf (policies : List CascadePolicy) : ChainPolicies where
  policies := (sortPolicies policies).map (chainPolicyOf lib)
  ruleSets := sortedSets lib ((sortPolicies policies).flatMap (policySets lib))

end RoutePolicies

/-! ## Every rule-set named is declared once -/

section RuleSets

variable (lib : TextLib) {t : String} {entries : List String} {rules : List ChainNodePolicyRule}

theorem perm_sortedSets (refs : List ChainRuleSetRef) :
    ((sortedSets lib refs).map (·.tag)).Perm (collectSets refs).keys := by
  have h := OrderedMap.map_values_collect_keep ChainRuleSetRef.tag refs
  rw [collectSets, ← h]
  exact (List.perm_insertionSort _ _).map _

theorem nodup_sortedSets (refs : List ChainRuleSetRef) :
    ((sortedSets lib refs).map (·.tag)).Nodup :=
  (perm_sortedSets lib refs).nodup_iff.mpr (OrderedMap.nodup_keys _)

theorem mem_sortedSets (refs : List ChainRuleSetRef) (t : String) :
    t ∈ (sortedSets lib refs).map (·.tag) ↔ t ∈ refs.map (·.tag) := by
  rw [(perm_sortedSets lib refs).mem_iff, collectSets, OrderedMap.mem_keys_collect, List.mem_map]

theorem nameMatch_rule_set (e : String) : (nameMatch e).rule_set = [] := by
  unfold nameMatch
  repeat' split
  all_goals rfl

theorem trim_ne_empty {e : String} (h : (parseGeoRef lib e).isSome = true) : trim e ≠ "" := by
  intro hempty
  have hparts : geoParts "" = none := by decide
  rw [parseGeoRef, hempty, hparts] at h
  cases h

theorem addEntry_rule_set (e : String) :
    (addEntry lib e).rule_set = (domainSetOf lib e).toList.map (·.tag) := by
  unfold addEntry
  dsimp only
  by_cases href : (parseGeoRef lib e).isSome = true
  · rw [if_neg (trim_ne_empty lib href), if_pos href]
  · have hset : domainSetOf lib e = none := by
      simp [domainSetOf, Option.not_isSome_iff_eq_none.mp href]
    rw [if_neg href, hset]
    split
    · rfl
    · split
      · rfl
      · exact nameMatch_rule_set _

theorem addIpEntry_rule_set (e : String) :
    (addIpEntry lib e).rule_set = (ipSetOf lib e).toList.map (·.tag) := by
  unfold addIpEntry ipSetOf
  dsimp only
  cases href : parseGeoRef lib e with
  | none => split <;> rfl
  | some ref => exact congrArg _ (if_neg (trim_ne_empty lib (href ▸ rfl)))

/-- The rule-sets of a domain match are those its entries name. -/
theorem mem_matchOf_rule_set :
    t ∈ (matchOf lib entries).rule_set ↔
      t ∈ (entries.filterMap (domainSetOf lib)).map (·.tag) := by
  rw [List.filterMap_eq_flatMap_toList, List.map_flatMap]
  simp only [matchOf, List.mem_eraseDups, addEntry_rule_set]

theorem mem_ipMatchOf_rule_set :
    t ∈ (ipMatchOf lib entries).rule_set ↔ t ∈ (entries.filterMap (ipSetOf lib)).map (·.tag) := by
  rw [List.filterMap_eq_flatMap_toList, List.map_flatMap]
  simp only [ipMatchOf, List.mem_eraseDups, addIpEntry_rule_set]

theorem mem_ipOf_rule_set :
    t ∈ ((ipOf lib entries).map (·.rule_set)).getD [] ↔
      t ∈ ((splitPolicyEntries lib entries).ip.filterMap (ipSetOf lib)).map (·.tag) := by
  rw [← mem_ipMatchOf_rule_set]
  simp only [ipOf]
  split
  · rename_i hempty
    rw [hempty]
    rfl
  · rfl

/-- Every rule-set a route policy names. -/
def ChainPolicy.ruleSets (p : ChainPolicy) : List String :=
  p.block.rule_set ++ p.direct.rule_set
    ++ (p.blockIp.map (·.rule_set)).getD [] ++ (p.directIp.map (·.rule_set)).getD []

/-- **The route policies name declared rule-sets.** -/
theorem chainPoliciesOf_ruleSets {policies : List CascadePolicy} {p : ChainPolicy}
    (hp : p ∈ (chainPoliciesOf lib policies).policies) (ht : t ∈ p.ruleSets) :
    t ∈ (chainPoliciesOf lib policies).ruleSets.map (·.tag) := by
  obtain ⟨q, hq, rfl⟩ := List.mem_map.mp hp
  rw [chainPoliciesOf, mem_sortedSets]
  have hsets : t ∈ (policySets lib q).map (·.tag) := by
    simp only [policySets, List.map_append, List.mem_append]
    simp only [ChainPolicy.ruleSets, chainPolicyOf, List.mem_append] at ht
    rcases ht with ((h | h) | h) | h
    · exact Or.inl (Or.inr ((mem_matchOf_rule_set lib).mp h))
    · exact Or.inr ((mem_matchOf_rule_set lib).mp h)
    · exact Or.inl (Or.inl (Or.inl ((mem_ipOf_rule_set lib).mp h)))
    · exact Or.inl (Or.inl (Or.inr ((mem_ipOf_rule_set lib).mp h)))
  obtain ⟨ref, href, rfl⟩ := List.mem_map.mp hsets
  exact List.mem_map_of_mem (List.mem_flatMap.mpr ⟨q, hq, href⟩)

/-! ## The rules of a node policy are well formed -/

/-- What a rule of an exit's policy is. -/
structure NodeRuleOk (usesWarp : Bool) (sets : List String) (r : SbRule) : Prop where
  conds : r.action ≠ .resolve → r.conds ≠ [] ∧ ∀ c ∈ r.conds, c ≠ {}
  outbound : ∀ o, r.outbound? = some o → o = "direct" ∨ o = CHAIN_WARP_TAG ∧ usesWarp = true
  ruleSets : ∀ t ∈ r.ruleSets, t ∈ sets

theorem translated_conds (r : ChainNodePolicyRule) :
    (r.translated lib).conds ≠ [] ∧ ∀ c ∈ (r.translated lib).conds, c ≠ {} := by
  unfold ChainNodePolicyRule.translated
  split
  · rename_i h
    refine ⟨by simp [SbRule.conds], fun c hc => ?_⟩
    simp only [SbRule.conds, List.mem_append, List.mem_cons, List.not_mem_nil, or_false] at hc
    rcases hc with (rfl | rfl) | hc
    · exact h.1
    · exact h.2
    · split at hc
      · cases hc
      · rename_i hrest
        rw [List.mem_singleton.mp hc]
        exact hrest
  · split
    · refine ⟨by simp [SbRule.conds], fun c hc => ?_⟩
      rw [List.mem_singleton.mp hc]
      decide
    · rename_i _ h
      refine ⟨by simp [SbRule.conds], fun c hc => ?_⟩
      rw [List.mem_singleton.mp hc, ne_eq, SbConds.spread_eq_empty, SbConds.spread_eq_empty,
        and_assoc]
      exact h

theorem translated_action (r : ChainNodePolicyRule) : (r.translated lib).action = r.sbAction := by
  unfold ChainNodePolicyRule.translated
  repeat' split
  all_goals rfl

/-- The rule-sets of a translated rule are those of its names and of its addresses. -/
theorem mem_translated_ruleSets {r : ChainNodePolicyRule} :
    t ∈ (r.translated lib).ruleSets ↔ t ∈ (r.dom lib).rule_set ∨ t ∈ (r.addr lib).rule_set := by
  have hrest : r.rest.rule_set = [] := rfl
  unfold ChainNodePolicyRule.translated
  split
  · simp only [SbRule.ruleSets, SbRule.conds, List.flatMap_append, List.flatMap_cons,
      List.flatMap_nil, List.append_nil, List.mem_append]
    split <;> simp [hrest]
  · rename_i hboth
    split
    · rename_i hnone
      rw [hnone.1, hnone.2.1]
      simp [SbRule.ruleSets, SbRule.conds]
    · simp only [SbRule.ruleSets, SbRule.conds, List.flatMap_cons, List.flatMap_nil,
        List.append_nil]
      change t ∈ spreadKey (spreadKey (r.dom lib).rule_set (r.addr lib).rule_set) [] ↔ _
      -- a rule of names and addresses is a logical one, so here there is one of them
      by_cases hdom : r.dom lib = {}
      · rw [hdom]
        cases haddr : (r.addr lib).rule_set <;> simp [spreadKey]
      · have haddr : r.addr lib = {} := by
          by_contra hne
          exact hboth ⟨hdom, hne⟩
        rw [haddr]
        simp [spreadKey]

/-- What every rule of a translated list is: a `resolve`, or one kept rule translated. -/
theorem mem_chainNodeRules {resolved : Bool} {x : SbRule}
    (h : x ∈ chainNodeRules lib resolved rules) :
    x = .default {} .resolve
      ∨ ∃ r ∈ rules, r.action ≠ .cascade ∧ x = r.translated lib := by
  induction rules generalizing resolved with
  | nil => cases h
  | cons r rs ih =>
    have hlater : ∀ b, x ∈ chainNodeRules lib b rs → x = .default {} .resolve
        ∨ ∃ r' ∈ r :: rs, r'.action ≠ .cascade ∧ x = r'.translated lib := by
      intro b hb
      rcases ih hb with h | ⟨r', hr', h⟩
      · exact Or.inl h
      · exact Or.inr ⟨r', List.mem_cons_of_mem r hr', h⟩
    unfold chainNodeRules at h
    split at h
    · exact hlater _ h
    · rename_i hkept
      have hcas : r.action ≠ .cascade := fun h => hkept (Or.inl h)
      split at h
      · rcases List.mem_cons.mp h with rfl | h
        · exact Or.inl rfl
        · rcases List.mem_cons.mp h with rfl | h
          · exact Or.inr ⟨r, List.mem_cons_self, hcas, rfl⟩
          · exact hlater _ h
      · rcases List.mem_cons.mp h with rfl | h
        · exact Or.inr ⟨r, List.mem_cons_self, hcas, rfl⟩
        · exact hlater _ h

/-- **Every rule of an exit's policy** has conditions, routes to `direct` or to WARP, and names
declared rule-sets. -/
theorem chainNodePolicyOf_rules {x : SbRule} (h : x ∈ (chainNodePolicyOf lib rules).rules) :
    NodeRuleOk (chainNodePolicyOf lib rules).usesWarp
      ((chainNodePolicyOf lib rules).ruleSets.map (·.tag)) x := by
  rcases mem_chainNodeRules lib h with rfl | ⟨r, hr, hcas, rfl⟩
  · refine ⟨fun hne => absurd rfl hne, fun o ho => ?_, fun t ht => ?_⟩
    · cases ho
    · simp [SbRule.ruleSets, SbRule.conds] at ht
  · refine ⟨fun _ => translated_conds lib r, fun o ho => ?_, fun t ht => ?_⟩
    · rw [SbRule.outbound?, translated_action] at ho
      cases ha : r.action with
      | block => simp [ChainNodePolicyRule.sbAction, ha] at ho
      | warp =>
        refine Or.inr ⟨by simpa [ChainNodePolicyRule.sbAction, ha] using ho.symm, ?_⟩
        exact List.any_eq_true.mpr ⟨r, hr, decide_eq_true ha⟩
      | direct => exact Or.inl (by simpa [ChainNodePolicyRule.sbAction, ha] using ho.symm)
      | cascade => exact absurd ha hcas
    · rw [chainNodePolicyOf, mem_sortedSets]
      have hsets : t ∈ (r.domain.filterMap (domainSetOf lib)
          ++ r.ip.filterMap (ipSetOf lib)).map (·.tag) := by
        rw [List.map_append, List.mem_append]
        exact ((mem_translated_ruleSets lib).mp ht).imp (mem_matchOf_rule_set lib).mp
          (mem_ipMatchOf_rule_set lib).mp
      obtain ⟨ref, href, rfl⟩ := List.mem_map.mp hsets
      exact List.mem_map_of_mem (List.mem_flatMap.mpr
        ⟨r, List.mem_filter.mpr ⟨hr, decide_eq_true hcas⟩, href⟩)

end RuleSets

end Iceslab
