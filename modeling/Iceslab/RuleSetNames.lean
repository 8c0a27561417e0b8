import Iceslab.ChainPolicy
import Iceslab.Lib.Names

/-!
# The names of the chain's rule-sets

A rule-set's tag in the chain config is its set and its tag joined by a dash, which both may hold;
the map of declared rule-sets keeps the first source registered under a tag.

* `NamesSources` — what a matcher names is built from the sources its entries spell.
* `RouteNamesKept`, `NodeNamesKept` — the names are kept over the route policies of an entry and
  over the node policy of an exit.
* `Blurred` — two sources that come to one tag.
* `names_kept_iff` — the names are kept exactly where no two sources are blurred.
-/

set_option autoImplicit false

namespace Iceslab

open JsText

/-! ## What keeping the names is -/

/-- One tag, one source. -/
def SourcesApart (asked : List ChainRuleSetRef) : Prop :=
  ∀ r ∈ asked, ∀ r' ∈ asked, r.tag = r'.tag → r.set = r'.set ∧ r.setTag = r'.setTag

/-- The declared rule-sets a matcher names are built from the sources its entries spell. -/
def NamesSources (declared : List ChainRuleSetRef) (named : List String)
    (spelled : List ChainRuleSetRef) : Prop :=
  ∀ set setTag : String, (∃ d ∈ declared, d.tag ∈ named ∧ d.set = set ∧ d.setTag = setTag)
    ↔ ∃ r ∈ spelled, r.set = set ∧ r.setTag = setTag

section Kept

variable (lib : TextLib)

/-- The path is the file of the source. -/
def FileOfSource (d : ChainRuleSetRef) : Prop :=
  d.file = chainRuleSetFileName lib d.set d.setTag ∧ d.path = GEO_DIR_ON_NODE ++ "/" ++ d.file

/-- The sources a list of names and a list of addresses spell. -/
def spelledNames (entries : List String) : List ChainRuleSetRef := entries.filterMap (domainSetOf lib)

def spelledAddresses (entries : List String) : List ChainRuleSetRef := entries.filterMap (ipSetOf lib)

/-- Each of a policy's matchers names the sources of its own list. -/
structure PolicyNamesKept (declared : List ChainRuleSetRef) (q : CascadePolicy) (p : ChainPolicy) :
    Prop where
  block : NamesSources declared p.block.rule_set
    (spelledNames lib (splitPolicyEntries lib q.blockDomains).domain)
  direct : NamesSources declared p.direct.rule_set
    (spelledNames lib (splitPolicyEntries lib q.directDomains).domain)
  blockIp : NamesSources declared ((p.blockIp.map (·.rule_set)).getD [])
    (spelledAddresses lib (splitPolicyEntries lib q.blockDomains).ip)
  directIp : NamesSources declared ((p.directIp.map (·.rule_set)).getD [])
    (spelledAddresses lib (splitPolicyEntries lib q.directDomains).ip)

/-- The sources the policies of an entry spell. -/
def routeSources (policies : List CascadePolicy) : List ChainRuleSetRef :=
  (sortPolicies policies).flatMap (policySets lib)

/-- The names are kept over the route policies of an entry. -/
structure RouteNamesKept (policies : List CascadePolicy) : Prop where
  apart : SourcesApart (routeSources lib policies)
  named : ∀ e ∈ (sortPolicies policies).zip (chainPoliciesOf lib policies).policies,
    PolicyNamesKept lib (chainPoliciesOf lib policies).ruleSets e.1 e.2
  files : ∀ d ∈ (chainPoliciesOf lib policies).ruleSets, FileOfSource lib d

/-- The sources a rule spells. -/
def ChainNodePolicyRule.sources (r : ChainNodePolicyRule) : List ChainRuleSetRef :=
  spelledNames lib r.domain ++ spelledAddresses lib r.ip

/-- The names are kept over the node policy of an exit. -/
structure NodeNamesKept (rules : List ChainNodePolicyRule) : Prop where
  apart : SourcesApart (nodePolicySets lib rules)
  named : ∀ x ∈ (chainNodePolicyOf lib rules).rules, x = .default {} .resolve
    ∨ ∃ r ∈ rules, x = r.translated lib
      ∧ NamesSources (chainNodePolicyOf lib rules).ruleSets x.ruleSets (r.sources lib)
  files : ∀ d ∈ (chainNodePolicyOf lib rules).ruleSets, FileOfSource lib d

end Kept

/-- The longer set takes in the other and a piece of its tag. -/
def Blurred (r r' : ChainRuleSetRef) : Prop :=
  ∃ m : String, r'.set = r.set ++ "-" ++ m ∧ r.setTag = m ++ "-" ++ r'.setTag

def Unblurred (asked : List ChainRuleSetRef) : Prop := ∀ r ∈ asked, ∀ r' ∈ asked, ¬ Blurred r r'

/-! ## Where two sources come to one tag -/

/-- Two words joined by a dash that come to one text are the same two, or the longer first word
holds the dash. -/
theorem append_dash_cases {s t s' t' : String} (h : s ++ "-" ++ t = s' ++ "-" ++ t') :
    (s = s' ∧ t = t') ∨ (∃ m, s' = s ++ "-" ++ m ∧ t = m ++ "-" ++ t')
      ∨ ∃ m, s = s' ++ "-" ++ m ∧ t' = m ++ "-" ++ t := by
  have hlists : s.toList ++ '-' :: t.toList = s'.toList ++ '-' :: t'.toList := by
    simpa using congrArg String.toList h
  have hword : ∀ (a b : String) (m : List Char), a.toList = b.toList ++ '-' :: m →
      a = b ++ "-" ++ String.ofList m := by
    intro a b m ha
    exact String.toList_inj.mp (by simpa using ha)
  have htag : ∀ (a b : String) (m : List Char), a.toList = m ++ '-' :: b.toList →
      a = String.ofList m ++ "-" ++ b := by
    intro a b m ha
    exact String.toList_inj.mp (by simpa using ha)
  rcases Names.append_sep_cases hlists with ⟨hs, ht⟩ | ⟨m, hs, ht⟩ | ⟨m, hs, ht⟩
  · exact .inl ⟨String.toList_inj.mp hs, String.toList_inj.mp ht⟩
  · exact .inr (.inl ⟨String.ofList m, hword _ _ m hs, htag _ _ m ht⟩)
  · exact .inr (.inr ⟨String.ofList m, hword _ _ m hs, htag _ _ m ht⟩)

/-- The tag, the file and the path are made from the source. -/
structure Spelled (lib : TextLib) (r : ChainRuleSetRef) : Prop where
  tag : r.tag = "geo-" ++ r.set ++ "-" ++ r.setTag
  file : FileOfSource lib r

section Sources

variable {lib : TextLib} {asked : List ChainRuleSetRef} {entries : List String}
  {r : ChainRuleSetRef} {t : String} {e : String} {rules : List ChainNodePolicyRule}
  {d r' : ChainRuleSetRef}

theorem spelled_ruleSetOf (ref : GeoRef) : Spelled lib (ruleSetOf lib ref) := ⟨rfl, rfl, rfl⟩

theorem spelled_domainSetOf (h : domainSetOf lib e = some r) : Spelled lib r := by
  unfold domainSetOf at h
  split at h
  · cases h
  · split at h
    · cases h
    · obtain rfl := Option.some.inj h
      exact spelled_ruleSetOf _

theorem spelled_ipSetOf (h : ipSetOf lib e = some r) : Spelled lib r := by
  obtain ⟨ref, -, rfl⟩ := Option.map_eq_some_iff.mp h
  exact spelled_ruleSetOf ref

theorem spelled_routeSources {policies : List CascadePolicy} :
    ∀ r ∈ routeSources lib policies, Spelled lib r := by
  intro r hr
  simp only [routeSources, policySets, List.mem_flatMap, List.mem_append, List.mem_filterMap] at hr
  obtain ⟨q, -, ((⟨e, -, h⟩ | ⟨e, -, h⟩) | ⟨e, -, h⟩) | ⟨e, -, h⟩⟩ := hr
  · exact spelled_ipSetOf h
  · exact spelled_ipSetOf h
  · exact spelled_domainSetOf h
  · exact spelled_domainSetOf h

theorem spelled_nodePolicySets : ∀ r ∈ nodePolicySets lib rules, Spelled lib r := by
  intro r hr
  simp only [nodePolicySets, List.mem_flatMap, List.mem_append, List.mem_filterMap] at hr
  obtain ⟨q, -, ⟨e, -, h⟩ | ⟨e, -, h⟩⟩ := hr
  · exact spelled_domainSetOf h
  · exact spelled_ipSetOf h

/-- Two sources of one tag are one source, or one of the two takes in the other. -/
theorem tag_eq_iff (hr : Spelled lib r) (hr' : Spelled lib r') :
    r.tag = r'.tag ↔ (r.set = r'.set ∧ r.setTag = r'.setTag) ∨ Blurred r r' ∨ Blurred r' r := by
  rw [hr.tag, hr'.tag]
  constructor
  · intro htag
    have hjoined : r.set ++ "-" ++ r.setTag = r'.set ++ "-" ++ r'.setTag := by
      simpa [String.append_assoc] using htag
    exact append_dash_cases hjoined
  · rintro (⟨hset, htag⟩ | ⟨m, hset, htag⟩ | ⟨m, hset, htag⟩)
    · rw [hset, htag]
    · rw [hset, htag]
      simp only [String.append_assoc]
    · rw [hset, htag]
      simp only [String.append_assoc]

/-- The longer of two blurred sets is another set. -/
theorem Blurred.set_ne (h : Blurred r r') : r.set ≠ r'.set := by
  obtain ⟨m, hset, -⟩ := h
  intro heq
  have hlen : r.set.length = (r.set ++ "-" ++ m).length := by rw [← hset, ← heq]
  have hdash : "-".length = 1 := rfl
  simp only [String.length_append] at hlen
  omega

theorem sourcesApart_iff (h : ∀ r ∈ asked, Spelled lib r) : SourcesApart asked ↔ Unblurred asked := by
  constructor
  · intro hapart r hr r' hr' hblurred
    have htag := (tag_eq_iff (h r hr) (h r' hr')).mpr (.inr (.inl hblurred))
    exact hblurred.set_ne (hapart r hr r' hr' htag).1
  · intro hclear r hr r' hr' htag
    rcases (tag_eq_iff (h r hr) (h r' hr')).mp htag with hsame | hblurred | hblurred
    · exact hsame
    · exact absurd hblurred (hclear r hr r' hr')
    · exact absurd hblurred (hclear r' hr' r hr)

/-! ## The matchers name their sources -/

/-- The declared rule-set of a tag is the first source asked for under it. -/
theorem find?_of_mem_sortedSets (h : d ∈ sortedSets lib asked) :
    asked.find? (fun r => decide (r.tag = d.tag)) = some d := by
  have hvalue := (List.perm_insertionSort _ _).mem_iff.mp h
  obtain ⟨k, hk⟩ := (OrderedMap.mem_values_iff _ _).mp hvalue
  rw [collectSets, OrderedMap.get?_collect_keep ChainRuleSetRef.tag (fun r => r),
    Option.map_id'] at hk
  obtain rfl : d.tag = k := by simpa using List.find?_some hk
  exact hk

theorem mem_sortedSets_asked (h : d ∈ sortedSets lib asked) : d ∈ asked :=
  List.mem_of_find?_eq_some (find?_of_mem_sortedSets h)

/-- Where one tag is one source, a matcher that names the tags of what its entries spell names
their sources. -/
theorem namesSources_of_apart (hapart : SourcesApart asked) {spelled : List ChainRuleSetRef}
    (hasked : ∀ r ∈ spelled, r ∈ asked) {named : List String}
    (hnamed : ∀ t, t ∈ named ↔ t ∈ spelled.map (·.tag)) :
    NamesSources (sortedSets lib asked) named spelled := by
  intro set setTag
  constructor
  · rintro ⟨d, hd, hmem, rfl, rfl⟩
    obtain ⟨r, hr, htag⟩ := List.mem_map.mp ((hnamed d.tag).mp hmem)
    exact ⟨r, hr, hapart r (hasked r hr) d (mem_sortedSets_asked hd) htag⟩
  · rintro ⟨r, hr, rfl, rfl⟩
    have htag : r.tag ∈ (sortedSets lib asked).map (·.tag) :=
      (mem_sortedSets lib asked r.tag).mpr (List.mem_map_of_mem (hasked r hr))
    obtain ⟨d, hd, hsame⟩ := List.mem_map.mp htag
    refine ⟨d, hd, (hnamed d.tag).mpr ?_, hapart d (mem_sortedSets_asked hd) r (hasked r hr) hsame⟩
    rw [hsame]
    exact List.mem_map_of_mem hr

theorem mem_translated_sources {r : ChainNodePolicyRule} :
    t ∈ (r.translated lib).ruleSets ↔ t ∈ (r.sources lib).map (·.tag) := by
  rw [mem_translated_ruleSets, ChainNodePolicyRule.sources, List.map_append, List.mem_append]
  exact or_congr (mem_matchOf_rule_set lib) (mem_ipMatchOf_rule_set lib)

/-! ## When the names are kept -/

theorem ruleSets_chainPoliciesOf (lib : TextLib) (policies : List CascadePolicy) :
    (chainPoliciesOf lib policies).ruleSets = sortedSets lib (routeSources lib policies) := rfl

theorem fileOf_sortedSets (h : ∀ r ∈ asked, Spelled lib r) :
    ∀ d ∈ sortedSets lib asked, FileOfSource lib d := by
  intro d hd
  exact (h d (mem_sortedSets_asked hd)).file

theorem routeNamesKept_of_apart {policies : List CascadePolicy}
    (hapart : SourcesApart (routeSources lib policies)) : RouteNamesKept lib policies where
  apart := hapart
  named := by
    intro e he
    rw [chainPoliciesOf, ← List.map_prod_left_eq_zip, List.mem_map] at he
    obtain ⟨q, hq, rfl⟩ := he
    have hasked : ∀ r ∈ policySets lib q, r ∈ routeSources lib policies := by
      intro r hr
      exact List.mem_flatMap.mpr ⟨q, hq, hr⟩
    simp only [policySets, List.mem_append] at hasked
    constructor
    · apply namesSources_of_apart hapart
      · intro r hr
        exact hasked r (.inl (.inr hr))
      · exact fun t => mem_matchOf_rule_set lib
    · apply namesSources_of_apart hapart
      · intro r hr
        exact hasked r (.inr hr)
      · exact fun t => mem_matchOf_rule_set lib
    · apply namesSources_of_apart hapart
      · intro r hr
        exact hasked r (.inl (.inl (.inl hr)))
      · exact fun t => mem_ipOf_rule_set lib
    · apply namesSources_of_apart hapart
      · intro r hr
        exact hasked r (.inl (.inl (.inr hr)))
      · exact fun t => mem_ipOf_rule_set lib
  files := fileOf_sortedSets spelled_routeSources

theorem nodeNamesKept_of_apart
    (hapart : SourcesApart (nodePolicySets lib rules)) : NodeNamesKept lib rules where
  apart := hapart
  named := by
    intro x hx
    rcases mem_chainNodeRules lib hx with rfl | ⟨r, hr, haction, rfl⟩
    · exact .inl rfl
    · refine .inr ⟨r, hr, rfl, ?_⟩
      apply namesSources_of_apart hapart
      · intro s hs
        exact List.mem_flatMap.mpr ⟨r, List.mem_filter.mpr ⟨hr, decide_eq_true haction⟩, hs⟩
      · exact fun t => mem_translated_sources
  files := fileOf_sortedSets spelled_nodePolicySets

end Sources

/-- **Different rule-sets keep different names** exactly where no two of the sources the entries
spell are blurred: over the route policies of an entry, and over the node policy of an exit. -/
theorem names_kept_iff (lib : TextLib) :
    (∀ policies, RouteNamesKept lib policies ↔ Unblurred (routeSources lib policies))
      ∧ ∀ rules, NodeNamesKept lib rules ↔ Unblurred (nodePolicySets lib rules) := by
  constructor
  · intro policies
    have hclear : SourcesApart (routeSources lib policies) ↔ Unblurred (routeSources lib policies) :=
      sourcesApart_iff spelled_routeSources
    rw [← hclear]
    exact ⟨RouteNamesKept.apart, routeNamesKept_of_apart⟩
  · intro rules
    have hclear : SourcesApart (nodePolicySets lib rules) ↔ Unblurred (nodePolicySets lib rules) :=
      sourcesApart_iff spelled_nodePolicySets
    rw [← hclear]
    exact ⟨NodeNamesKept.apart, nodeNamesKept_of_apart⟩

/-! ## Two sets under one name -/

/-- Block the tag `c` of the set `a-b`, and the tag `b-c` of the set `a`. -/
def dashedPolicy : CascadePolicy where
  ordinal := 1
  directDomains := []
  blockDomains := ["ext:a-b:c", "ext:a:b-c"]

def dashedSet : ChainRuleSetRef where
  tag := "geo-a-b-c"
  path := "/etc/iceslab-node/geo/iceslab-a-b.c.json"
  file := "iceslab-a-b.c.json"
  set := "a-b"
  setTag := "c"

def dashedTag : ChainRuleSetRef where
  tag := "geo-a-b-c"
  path := "/etc/iceslab-node/geo/iceslab-a.b-c.json"
  file := "iceslab-a.b-c.json"
  set := "a"
  setTag := "b-c"

theorem routeSources_dashed :
    routeSources asciiText [dashedPolicy] = [dashedSet, dashedTag] := by decide

/-- The second set is declared nowhere: whatever names the tag reads the file of the first. -/
theorem dashed_sets_collide :
    dashedTag ∈ routeSources asciiText [dashedPolicy]
      ∧ (∀ d ∈ (chainPoliciesOf asciiText [dashedPolicy]).ruleSets, d = dashedSet)
      ∧ ¬ RouteNamesKept asciiText [dashedPolicy] := by
  have hfirst : dashedSet ∈ routeSources asciiText [dashedPolicy] := by
    rw [routeSources_dashed]
    exact List.mem_cons_self
  have hsecond : dashedTag ∈ routeSources asciiText [dashedPolicy] := by
    rw [routeSources_dashed]
    exact List.mem_cons_of_mem _ List.mem_cons_self
  refine ⟨hsecond, ?_, ?_⟩
  · intro d hd
    rw [ruleSets_chainPoliciesOf, routeSources_dashed] at hd
    have hfind := find?_of_mem_sortedSets hd
    have htag : dashedSet.tag = d.tag := by
      have hmem := mem_sortedSets_asked hd
      simp only [List.mem_cons, List.not_mem_nil, or_false] at hmem
      rcases hmem with rfl | rfl <;> rfl
    simp only [List.find?_cons, htag, decide_true, Option.some.injEq] at hfind
    exact hfind.symm
  · intro hkept
    exact absurd (hkept.apart dashedSet hfirst dashedTag hsecond rfl).1 (by decide)

end Iceslab
