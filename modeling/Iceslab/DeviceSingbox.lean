import Iceslab.DevicePrograms

/-!
# The device rules in sing-box

`singboxDeviceRoute` merges the consecutive rules of one action and writes a group kind by kind.

* `singboxAtom` — what a matcher becomes: a geo name is a remote set.
* `decided_groups` — merging keeps what is decided.
* `readSingbox_verdict` — the first rule one of whose matchers holds decides.
-/

set_option autoImplicit false

namespace Iceslab.Subscription

open JsText

def singboxAtom (lib : CaseLib) : Atom → Atom
  | .geosite tag => .ruleSet ("geosite-" ++ lib.toLowerCase tag)
  | .geoip tag => if tag = "private" then .isPrivate else .ruleSet ("geoip-" ++ lib.toLowerCase tag)
  | a => a

/-- How the config says an action; its built-in outbound is no proxy. -/
def SingboxAction.read : SingboxAction → DeviceRouteAction
  | .reject => .block
  | .route outbound => if outbound = "direct" then .direct else .proxy

/-- Names, sets and addresses are alternatives, and so are ports; the two both have to match. -/
def SingboxRule.read (r : SingboxRule) : Option Rule :=
  (r.port_range.mapM (readPort ':')).map fun ranges =>
    ⟨present [(if r.ip_is_private then [.isPrivate] else []) ++ r.rule_set.map .ruleSet
        ++ r.domain.map .full ++ r.domain_suffix.map .suffix ++ r.domain_keyword.map .keyword
        ++ r.domain_regex.map .regexp ++ r.ip_cidr.map .network,
      r.port.map (fun n => .port n n) ++ ranges], r.action.read⟩

/-- A rule that names a set the route does not define refuses the config. -/
def readSingbox (route : SingboxRoute) : Option (List Rule) :=
  if route.rules.all fun r =>
      r.rule_set.all fun tag => decide (tag ∈ route.rule_set.map SingboxRuleSet.tag)
  then route.rules.mapM SingboxRule.read else none

theorem exists_mem_append {α : Type} {l l' : List α} {p : α → Prop} :
    (∃ x ∈ l ++ l', p x) ↔ (∃ x ∈ l, p x) ∨ ∃ x ∈ l', p x := by
  simp only [List.mem_append, or_and_right, exists_or]

/-! ## Groups -/

section Groups

variable {holds : String → Bool} {carried : DeviceRouteAction → Bool}

theorem decided_append (gs gs' : List DeviceRouteRule) :
    decided holds carried (gs ++ gs') =
      (decided holds carried gs).or (decided holds carried gs') :=
  FirstMatch.verdict_append _ _ _ _

theorem decided_group (gs : List DeviceRouteRule) (r : DeviceRouteRule) :
    decided holds carried (singboxGroup gs r) = decided holds carried (gs ++ [r]) := by
  unfold singboxGroup
  split
  · rename_i last hlast
    split
    · rename_i haction
      have hgs : gs = gs.dropLast ++ [last] := by
        obtain ⟨init, rfl⟩ := List.getLast?_eq_some_iff.mp hlast
        rw [List.dropLast_concat]
      conv_rhs => rw [hgs]
      rw [decided_append, List.append_assoc, decided_append]
      congr 1
      simp only [decided, FirstMatch.verdict_cons, FirstMatch.verdict_nil, List.cons_append,
        List.nil_append, List.any_append, haction]
      cases carried r.action
      · simp
      · cases last.matchers.any holds <;> simp
    · rfl
  · rfl

/-- **Merging keeps what is decided.** -/
theorem decided_groups (rules : List DeviceRouteRule) :
    decided holds carried (singboxGroups rules) = decided holds carried rules := by
  have hfold (gs : List DeviceRouteRule) :
      decided holds carried (rules.foldl singboxGroup gs) =
        decided holds carried (gs ++ rules) := by
    induction rules generalizing gs with
    | nil => rw [List.foldl_nil, List.append_nil]
    | cons r rules ih =>
      rw [List.foldl_cons, ih, decided_append, decided_group, ← decided_append, List.append_assoc]
      rfl
  exact hfold []

/-- What the groups hold is what the rules hold, under their actions. -/
theorem mem_group (gs : List DeviceRouteRule) (r : DeviceRouteRule) (m : String)
    (action : DeviceRouteAction) :
    (∃ g ∈ singboxGroup gs r, g.action = action ∧ m ∈ g.matchers) ↔
      ∃ g ∈ gs ++ [r], g.action = action ∧ m ∈ g.matchers := by
  unfold singboxGroup
  split
  · rename_i last hlast
    split
    · rename_i haction
      have hgs : gs = gs.dropLast ++ [last] := by
        obtain ⟨init, rfl⟩ := List.getLast?_eq_some_iff.mp hlast
        rw [List.dropLast_concat]
      conv_rhs => rw [hgs]
      rw [List.append_assoc, exists_mem_append, exists_mem_append]
      refine or_congr_right ?_
      simp only [List.cons_append, List.nil_append, List.mem_cons, List.not_mem_nil, or_false,
        exists_eq_left, exists_eq_or_imp, List.mem_append, haction, and_or_left]
    · rfl
  · rfl

theorem mem_groups (rules : List DeviceRouteRule) (m : String) (action : DeviceRouteAction) :
    (∃ g ∈ singboxGroups rules, g.action = action ∧ m ∈ g.matchers) ↔
      ∃ r ∈ rules, r.action = action ∧ m ∈ r.matchers := by
  have hfold (gs : List DeviceRouteRule) :
      (∃ g ∈ rules.foldl singboxGroup gs, g.action = action ∧ m ∈ g.matchers) ↔
        ∃ g ∈ gs ++ rules, g.action = action ∧ m ∈ g.matchers := by
    induction rules generalizing gs with
    | nil => rw [List.foldl_nil, List.append_nil]
    | cons r rules ih =>
      rw [List.foldl_cons, ih, exists_mem_append, mem_group, ← exists_mem_append,
        List.append_assoc]
      rfl
  exact hfold []

end Groups

/-! ## One group -/

/-- What a group fills, kind by kind; the ranges as they are read. -/
def SingboxInline.kinds (s : SingboxInline) (ranges : List Atom) : List (List Atom) :=
  [if s.isPrivate then [.isPrivate] else [], s.geo.map fun set => .ruleSet set.tag,
    s.domain.map .full ++ s.domain_suffix.map .suffix ++ s.domain_keyword.map .keyword
      ++ s.domain_regex.map .regexp,
    s.cidr.map .network, s.ports.map fun n => .port n n, ranges]

/-- The ranges are read, and the kinds hold an atom of every matcher and nothing else. -/
def Holds (lib : CaseLib) (s : SingboxInline) (matchers : List String) : Prop :=
  ∃ ranges, s.ranges.mapM (readPort ':') = some ranges ∧
    ∀ a, a ∈ (s.kinds ranges).flatten ↔ ∃ m ∈ matchers, singboxAtom lib (atomOf m) = a

variable {matchers : List String}

section Fill

variable {lib : CaseLib} {s : SingboxInline} {m : String}

theorem Holds.add {s' : SingboxInline} (h : Holds lib s matchers)
    (hranges : ∀ ranges, s.ranges.mapM (readPort ':') = some ranges →
      ∃ ranges', s'.ranges.mapM (readPort ':') = some ranges' ∧
        ∀ a, a ∈ (s'.kinds ranges').flatten ↔
          a ∈ (s.kinds ranges).flatten ∨ singboxAtom lib (atomOf m) = a) :
    Holds lib s' (matchers ++ [m]) := by
  obtain ⟨ranges, hread, hkinds⟩ := h
  obtain ⟨ranges', hread', hkinds'⟩ := hranges ranges hread
  refine ⟨ranges', hread', fun a => ?_⟩
  rw [hkinds', hkinds, exists_mem_append]
  simp

theorem Holds.fill {s' : SingboxInline} (h : Holds lib s matchers) (hsame : s'.ranges = s.ranges)
    (hkinds : ∀ ranges a, a ∈ (s'.kinds ranges).flatten ↔
      a ∈ (s.kinds ranges).flatten ∨ singboxAtom lib (atomOf m) = a) :
    Holds lib s' (matchers ++ [m]) :=
  h.add fun ranges hread => ⟨ranges, by rwa [hsame], hkinds ranges⟩

theorem singboxRuleSet_geosite (tag : String) :
    (singboxRuleSet lib ("geosite:" ++ tag)).tag = "geosite-" ++ lib.toLowerCase tag := by
  rw [singboxRuleSet, afterPrefix_append]

theorem singboxRuleSet_geoip (tag : String) :
    (singboxRuleSet lib ("geoip:" ++ tag)).tag = "geoip-" ++ lib.toLowerCase tag := by
  have hdrop : String.ofList (("geoip:" ++ tag).toList.drop 6) = tag := by
    refine String.toList_inj.mp ?_
    rw [String.toList_ofList, String.toList_append]
    rfl
  rw [singboxRuleSet, afterPrefix_tag (by decide) (by decide) (by decide), hdrop]

theorem mem_kinds {ranges : List Atom} (a : Atom) :
    a ∈ (s.kinds ranges).flatten ↔
      (s.isPrivate = true ∧ .isPrivate = a) ∨ (∃ set ∈ s.geo, .ruleSet set.tag = a)
        ∨ (∃ d ∈ s.domain, .full d = a) ∨ (∃ d ∈ s.domain_suffix, .suffix d = a)
        ∨ (∃ t ∈ s.domain_keyword, .keyword t = a) ∨ (∃ p ∈ s.domain_regex, .regexp p = a)
        ∨ (∃ n ∈ s.cidr, .network n = a) ∨ (∃ n ∈ s.ports, .port n n = a) ∨ a ∈ ranges := by
  have hprivate : a ∈ (if s.isPrivate then [Atom.isPrivate] else []) ↔
      s.isPrivate = true ∧ .isPrivate = a := by
    cases s.isPrivate
    · simp
    · simp [eq_comm]
  simp only [SingboxInline.kinds, List.flatten_cons, List.flatten_nil, List.append_nil,
    List.mem_append, List.mem_map, hprivate, or_assoc]

/-- **One matcher fills in its atom.** -/
theorem Holds.step (h : Holds lib s matchers) (hm : Shape m) :
    Holds lib (singboxMatcher lib s m) (matchers ++ [m]) := by
  rcases hm.cases with ⟨p, hp, t, rfl⟩ | ⟨tag, rfl⟩ | ⟨rest, a, rfl, hread⟩ | hbare
  · have hatom := atomOf_name (t := t) p hp
    simp only [nameAtoms, List.mem_cons, List.not_mem_nil, or_false] at hp
    rcases hp with rfl | rfl | rfl | rfl | rfl <;>
      simp (disch := decide) only [singboxMatcher, Subscription.ne_private, if_false,
        afterPrefix_tag, afterPrefix_append, Option.isSome_some, Option.isSome_none,
        or_false, if_true, Bool.false_eq_true] <;>
      refine h.fill rfl fun ranges a => ?_ <;>
      rw [hatom, mem_kinds, mem_kinds] <;>
      simp only [singboxAtom, mem_setAdd, exists_mem_append, List.mem_singleton, exists_eq_left,
        or_and_right, exists_or, singboxRuleSet_geosite] <;>
      exact Iff.of_eq (by ac_rfl)
  · rw [singboxMatcher]
    split
    · rename_i hprivate
      refine h.fill rfl fun ranges a => ?_
      rw [atomOf_geoip, mem_kinds, mem_kinds, append_eq_private.mp hprivate]
      by_cases ha : Atom.isPrivate = a <;> simp [singboxAtom, ha]
    · rename_i hprivate
      rw [if_pos (.inr (by rw [afterPrefix_append]; rfl))]
      refine h.fill rfl fun ranges a => ?_
      rw [atomOf_geoip, mem_kinds, mem_kinds]
      simp only [singboxAtom, if_neg (mt append_eq_private.mpr hprivate), mem_setAdd,
        or_and_right, exists_or, exists_eq_left, singboxRuleSet_geoip]
      exact Iff.of_eq (by ac_rfl)
  · have hatom := atomOf_port hread
    simp (disch := decide) only [singboxMatcher, Subscription.ne_private, if_false,
      afterPrefix_tag, afterPrefix_append, Option.isSome_some, Option.isSome_none, or_false,
      if_true, Bool.false_eq_true, portText_append]
    have hdash := hread
    unfold readPort at hdash
    split at hdash
    · rename_i lo hsplit
      split at hdash
      · cases hdash
        rw [hsplit]
        refine h.fill rfl fun ranges a => ?_
        rw [hatom, mem_kinds, mem_kinds]
        simp only [singboxAtom, exists_mem_append, List.mem_singleton, exists_eq_left]
        exact Iff.of_eq (by ac_rfl)
      · cases hdash
    · rename_i lo hi hsplit
      split at hdash
      · rename_i hdigits
        cases hdash
        rw [hsplit]
        have hrange : readPort ':' (lo ++ ":" ++ hi) = some (.port (numberOf lo) (numberOf hi)) :=
          readPort_two hdigits.1 hdigits.2 (by decide)
        refine h.add fun ranges hranges =>
          ⟨ranges ++ [.port (numberOf lo) (numberOf hi)], ?_, fun a => ?_⟩
        · refine mapM_append_eq_some hranges ?_
          rw [List.mapM_cons, hrange]
          rfl
        · rw [hatom, mem_kinds, mem_kinds]
          simp only [singboxAtom, List.mem_append, List.mem_singleton, eq_comm (a := a)]
          exact Iff.of_eq (by ac_rfl)
      · cases hdash
    · cases hdash
  · rw [singboxMatcher, if_neg hbare.ne_private, hbare.untagged "geosite:" (by decide),
      hbare.untagged "geoip:" (by decide), hbare.untagged "full:" (by decide),
      hbare.untagged "keyword:" (by decide), hbare.untagged "regexp:" (by decide),
      hbare.untagged "domain:" (by decide), hbare.untagged "port:" (by decide), if_neg (by simp)]
    dsimp only
    rw [if_neg (by simp)]
    split
    · rename_i hip
      refine h.fill rfl fun ranges a => ?_
      rw [hbare.atomOf, if_pos hip, mem_kinds, mem_kinds]
      simp only [singboxAtom, withBits, exists_mem_append, List.mem_singleton, exists_eq_left]
      exact Iff.of_eq (by ac_rfl)
    · rename_i hip
      refine h.fill rfl fun ranges a => ?_
      rw [hbare.atomOf, if_neg hip, mem_kinds, mem_kinds]
      simp only [singboxAtom, exists_mem_append, List.mem_singleton, exists_eq_left]
      exact Iff.of_eq (by ac_rfl)

theorem holds_inlineOf (h : ∀ m ∈ matchers, Shape m) :
    Holds lib (singboxInlineOf lib matchers) matchers := by
  have hfold (s : SingboxInline) (before : List String) (hs : Holds lib s before) :
      Holds lib (matchers.foldl (singboxMatcher lib) s) (before ++ matchers) := by
    induction matchers generalizing s before with
    | nil => rwa [List.append_nil]
    | cons m matchers ih =>
      have hrest := ih (fun m' hm' => h m' (List.mem_cons_of_mem m hm')) _ _
        (hs.step (h m List.mem_cons_self))
      rwa [List.append_assoc] at hrest
  refine hfold .empty [] ⟨[], rfl, fun a => ?_⟩
  simp [SingboxInline.kinds, SingboxInline.empty]

end Fill

/-! ## The route -/

section Route

variable {lib : CaseLib} {proxyOutbound : Option String} {rules : List DeviceRouteRule}
  {s : SingboxInline}

def SingboxInline.rangeAtoms (s : SingboxInline) : List Atom :=
  (s.ranges.mapM (readPort ':')).getD []

theorem Holds.mapM_ranges
    (h : Holds lib s matchers) : s.ranges.mapM (readPort ':') = some s.rangeAtoms := by
  obtain ⟨ranges, hread, -⟩ := h
  rw [SingboxInline.rangeAtoms, hread, Option.getD_some]

theorem Holds.mem_kinds (h : Holds lib s matchers) (a : Atom) : a ∈ (s.kinds s.rangeAtoms).flatten ↔
      ∃ m ∈ matchers, singboxAtom lib (atomOf m) = a := by
  obtain ⟨ranges, hread, hkinds⟩ := h
  rw [SingboxInline.rangeAtoms, hread, Option.getD_some]
  exact hkinds a

theorem mapM_singboxRulesOf (h : Holds lib s matchers) (action : SingboxAction) :
    (singboxRulesOf s action).mapM SingboxRule.read =
      some (apart action.read (s.kinds s.rangeAtoms)) := by
  have hsix (a b c d e f : List Atom) : apart action.read [a, b, c, d, e, f] =
      apart action.read [a] ++ apart action.read [b] ++ apart action.read [c]
        ++ apart action.read [d] ++ apart action.read [e] ++ apart action.read [f] := by
    rw [apart_cons, apart_cons _ b, apart_cons _ c, apart_cons _ d, apart_cons _ e]
    simp only [List.append_assoc]
  have hranges := h.mapM_ranges
  have hnil : s.rangeAtoms ≠ [] ↔ s.ranges ≠ [] := by
    cases hs : s.ranges with
    | nil => simp [SingboxInline.rangeAtoms, hs]
    | cons t ts =>
      rw [hs, List.mapM_cons] at hranges
      obtain ⟨a, -, hrest⟩ := Option.bind_eq_some_iff.mp hranges
      obtain ⟨as, -, heq⟩ := Option.bind_eq_some_iff.mp hrest
      rw [← Option.some.inj heq]
      simp
  unfold singboxRulesOf SingboxInline.kinds
  dsimp only
  rw [hsix]
  refine mapM_append_eq_some (mapM_append_eq_some (mapM_append_eq_some (mapM_append_eq_some
    (mapM_append_eq_some ?_ ?_) ?_) ?_) ?_) ?_
  · refine mapM_piece (by simp) fun hp => ?_
    simp [SingboxRule.read, SingboxRule.only, present_cons, present_nil, hp]
  · refine mapM_piece (by simp) fun hp => ?_
    simp [SingboxRule.read, SingboxRule.only, present_cons, present_nil, hp, Function.comp_def]
  · have hnames : s.domain.map Atom.full ++ s.domain_suffix.map .suffix
        ++ s.domain_keyword.map .keyword ++ s.domain_regex.map .regexp ≠ [] ↔
          s.domain ≠ [] ∨ s.domain_suffix ≠ [] ∨ s.domain_keyword ≠ [] ∨ s.domain_regex ≠ [] := by
      simp only [ne_eq, List.append_eq_nil_iff, List.map_eq_nil_iff, not_and_or, or_assoc]
    refine mapM_piece hnames fun hp => ?_
    have hne := hnames.mpr hp
    simp only [SingboxRule.read, SingboxRule.only, List.mapM_nil, Option.pure_def,
      Option.map_some, List.map_nil, List.append_nil, List.nil_append, Bool.false_eq_true,
      if_false, present_cons, if_neg hne, if_true, present_nil]
  · refine mapM_piece (by simp) fun hp => ?_
    simp [SingboxRule.read, SingboxRule.only, present_cons, present_nil, hp]
  · refine mapM_piece (by simp) fun hp => ?_
    simp [SingboxRule.read, SingboxRule.only, present_cons, present_nil, hp]
  · refine mapM_piece hnil fun hp => ?_
    simp [SingboxRule.read, SingboxRule.only, present_cons, present_nil, hranges, hnil.mpr hp]

/-- The rules written for one group. -/
def groupRules (lib : CaseLib) (proxyOutbound : Option String) (g : DeviceRouteRule) :
    List SingboxRule :=
  match singboxAction proxyOutbound g.action with
  | none => []
  | some action => singboxRulesOf (singboxInlineOf lib g.matchers) action

/-- The sets a rule of a group names are among the group's. -/
theorem mem_geo_of_rule {action : SingboxAction} {r : SingboxRule}
    (hr : r ∈ singboxRulesOf s action) {tag : String} (htag : tag ∈ r.rule_set) :
    tag ∈ s.geo.map SingboxRuleSet.tag := by
  simp only [singboxRulesOf, List.mem_append] at hr
  have hpiece {P : Prop} [Decidable P] {x : SingboxRule} (h : r ∈ if P then [x] else []) : r = x := by
    split at h
    · exact List.mem_singleton.mp h
    · cases h
  rcases hr with ((((hr | hr) | hr) | hr) | hr) | hr <;> rw [hpiece hr] at htag
  · cases htag
  · exact htag
  all_goals cases htag

theorem route_fold (lib : CaseLib) (proxyOutbound : Option String) (groups : List DeviceRouteRule)
    (route : SingboxRoute) :
    (groups.foldl (singboxGroupRoute lib proxyOutbound) route).rules =
        route.rules ++ groups.flatMap (groupRules lib proxyOutbound) ∧
      (∀ set ∈ route.rule_set,
        set ∈ (groups.foldl (singboxGroupRoute lib proxyOutbound) route).rule_set) ∧
      ∀ g ∈ groups, (singboxAction proxyOutbound g.action).isSome = true →
        ∀ set ∈ (singboxInlineOf lib g.matchers).geo,
          set ∈ (groups.foldl (singboxGroupRoute lib proxyOutbound) route).rule_set := by
  have hadd (sets : List SingboxRuleSet) (all : List SingboxRuleSet) (set : SingboxRuleSet) :
      set ∈ sets.foldl setAdd all ↔ set ∈ all ∨ set ∈ sets := by
    induction sets generalizing all with
    | nil => simp
    | cons s sets ih =>
      rw [List.foldl_cons, ih, mem_setAdd, List.mem_cons]
      exact or_assoc
  induction groups generalizing route with
  | nil => exact ⟨by simp, fun _ h => h, nofun⟩
  | cons g groups ih =>
    obtain ⟨hrules, hkept, hsets⟩ := ih (singboxGroupRoute lib proxyOutbound route g)
    rw [List.foldl_cons]
    cases haction : singboxAction proxyOutbound g.action with
    | none =>
      have hsame : singboxGroupRoute lib proxyOutbound route g = route := by
        rw [singboxGroupRoute, haction]
      rw [hsame] at hrules hkept hsets ⊢
      refine ⟨?_, hkept, fun g' hg' hsome => ?_⟩
      · rw [hrules, List.flatMap_cons, groupRules, haction]
        rfl
      · rcases List.mem_cons.mp hg' with rfl | hg'
        · rw [haction] at hsome
          cases hsome
        · exact hsets g' hg' hsome
    | some action =>
      have hnext : singboxGroupRoute lib proxyOutbound route g =
          { rules := route.rules ++ singboxRulesOf (singboxInlineOf lib g.matchers) action
            rule_set := (singboxInlineOf lib g.matchers).geo.foldl setAdd route.rule_set } := by
        rw [singboxGroupRoute, haction]
      rw [hnext] at hrules hkept hsets ⊢
      refine ⟨?_, fun set hset => hkept set ((hadd _ _ set).mpr (.inl hset)),
        fun g' hg' hsome set hset => ?_⟩
      · rw [hrules, List.flatMap_cons, groupRules, haction, List.append_assoc]
      · rcases List.mem_cons.mp hg' with rfl | hg'
        · exact hkept set ((hadd _ _ set).mpr (.inr hset))
        · exact hsets g' hg' hsome set hset

/-- **Every set a rule names is defined.** -/
theorem sets_defined {r : SingboxRule} (hr : r ∈ (singboxDeviceRoute lib rules proxyOutbound).rules)
    {tag : String} (htag : tag ∈ r.rule_set) :
    tag ∈ (singboxDeviceRoute lib rules proxyOutbound).rule_set.map SingboxRuleSet.tag := by
  obtain ⟨hrules, -, hsets⟩ :=
    route_fold lib proxyOutbound (singboxGroups rules) ⟨[], []⟩
  unfold singboxDeviceRoute at hr ⊢
  rw [hrules, List.nil_append] at hr
  obtain ⟨g, hg, hr⟩ := List.mem_flatMap.mp hr
  unfold groupRules at hr
  split at hr
  · cases hr
  · rename_i action haction
    obtain ⟨set, hset, rfl⟩ := List.mem_map.mp (mem_geo_of_rule hr htag)
    exact List.mem_map_of_mem (hsets g hg (by rw [haction]; rfl) set hset)

/-- The rules sing-box reads for one group. -/
def groupProgram (lib : CaseLib) (proxyOutbound : Option String) (g : DeviceRouteRule) :
    List Rule :=
  match singboxAction proxyOutbound g.action with
  | none => []
  | some action =>
    let s := singboxInlineOf lib g.matchers
    apart action.read (s.kinds s.rangeAtoms)

theorem shape_of_groups (h : ∀ r ∈ rules, ∀ m ∈ r.matchers, Shape m) :
    ∀ g ∈ singboxGroups rules, ∀ m ∈ g.matchers, Shape m := by
  intro g hg m hm
  obtain ⟨r, hr, -, hmr⟩ := (mem_groups rules m g.action).mp ⟨g, hg, rfl, hm⟩
  exact h r hr m hmr

/-- What sing-box reads: for each group it carries, one rule of each kind. -/
theorem readSingbox_rules (h : ∀ r ∈ rules, ∀ m ∈ r.matchers, Shape m) :
    readSingbox (singboxDeviceRoute lib rules proxyOutbound) =
      some ((singboxGroups rules).flatMap (groupProgram lib proxyOutbound)) := by
  have hdefined : ((singboxDeviceRoute lib rules proxyOutbound).rules.all fun r =>
      r.rule_set.all fun tag => decide (tag ∈
        (singboxDeviceRoute lib rules proxyOutbound).rule_set.map SingboxRuleSet.tag)) = true := by
    simp only [List.all_eq_true, decide_eq_true_eq]
    exact fun r hr tag htag => sets_defined hr htag
  rw [readSingbox, if_pos hdefined, singboxDeviceRoute, (route_fold _ _ _ _).1, List.nil_append]
  refine mapM_flatMap_eq_some fun g hg => ?_
  unfold groupRules groupProgram
  split
  · rfl
  · exact mapM_singboxRulesOf (holds_inlineOf (shape_of_groups h g hg)) _

def singboxCarried (proxyOutbound : Option String) (action : DeviceRouteAction) : Bool :=
  (singboxAction proxyOutbound action).isSome

theorem read_of_singboxAction (hproxy : proxyOutbound ≠ some "direct")
    {action : DeviceRouteAction} {a : SingboxAction}
    (h : singboxAction proxyOutbound action = some a) : a.read = action := by
  cases action with
  | direct =>
    cases h
    rfl
  | block =>
    cases h
    rfl
  | proxy =>
    obtain ⟨outbound, hout, rfl⟩ := Option.map_eq_some_iff.mp h
    have hsome := (Option.filter_eq_some_iff.mp hout).1
    rw [SingboxAction.read, if_neg]
    rintro rfl
    exact hproxy hsome

/-- **The first rule one of whose matchers holds decides in sing-box.** -/
theorem readSingbox_verdict (h : ∀ r ∈ rules, ∀ m ∈ r.matchers, Shape m)
    (hproxy : proxyOutbound ≠ some "direct") (c : Clients) (geo : GeoData) (x : Connection) :
    (readSingbox (singboxDeviceRoute lib rules proxyOutbound)).map (verdict c geo x) =
      some (decided (fun m => (singboxAtom lib (atomOf m)).holds c geo x)
        (singboxCarried proxyOutbound) rules) := by
  rw [readSingbox_rules h, Option.map_some, verdict, ← decided_groups, decided]
  refine congrArg some (FirstMatch.verdict_flatMap fun g hg => ?_)
  rw [singboxCarried]
  unfold groupProgram
  split
  · rename_i haction
    rw [haction]
    rfl
  · rename_i action haction
    have hholds : Holds lib (singboxInlineOf lib g.matchers) g.matchers :=
      holds_inlineOf (shape_of_groups h g hg)
    rw [haction, Option.isSome_some, Bool.true_and,
      ← verdict_apart_of g.action hholds.mem_kinds]
    rw [read_of_singboxAction hproxy haction, verdict]

end Route

end Iceslab.Subscription
