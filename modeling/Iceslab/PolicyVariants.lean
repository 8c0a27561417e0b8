import Iceslab.SquadGrants

/-!
# Where a policy's variants lead

A policy granted by squads that may use only some ways out of a cascade is offered on those; its
Auto variant egresses through every direction, and is offered as soon as one of them is usable.

* `VariantsGranted` — a variant reaches no exit that no squad granting its policy may use.
* `Covered` — the squads that grant a policy reach every direction together, or none.
* `policy_variants_iff` — the variants reach granted exits alone exactly where Auto is closed to
  the user or every policy is covered.
-/

set_option autoImplicit false

namespace Iceslab.RouteProfiles

/-! ## What the variants of a policy reach -/

section Reach

variable (db : RouteDb) (speaks : String → Prop) (c : RouteCascade)

/-- A squad that speaks and grants the policy may use the way out. -/
def GrantedFor (key : String) (ordinal : Nat) : Prop :=
  ∃ g, speaks g ∧ db.Grants g ordinal ∧ db.MayUse c.id g key

/-- Auto is open: asked for, with two directions to choose from, and some squad is unlimited. -/
def AutoOpen : Prop := c.autoProfile = true ∧ 1 < (usable c).length ∧ Free db speaks c.id

/-- A squad that speaks and grants the policy lists the way out. -/
def ListedFor (key : String) (ordinal : Nat) : Prop :=
  ∃ g, speaks g ∧ db.Grants g ordinal ∧ db.Lists c.id g key

/-- An unlimited squad grants the policy, or those that grant it list every direction, or none. -/
def Covered (ordinal : Nat) : Prop :=
  (∃ g, speaks g ∧ db.Grants g ordinal ∧ ¬ db.Limited c.id g)
    ∨ (∀ d ∈ usable c, ListedFor db speaks c d.id ordinal)
    ∨ ∀ d ∈ usable c, ¬ ListedFor db speaks c d.id ordinal

end Reach

/-- A variant reaches no exit that no squad granting its policy may use. -/
structure VariantsGranted (toUpperCase : String → String) (db : RouteDb) (groupIds : List String)
    (entryReach : Option (String → Option (List String))) (c : RouteCascade) (entry : String) :
    Prop where
  direction : ∀ d ∈ c.directions, ∀ way p, wayOf toUpperCase c d = some way →
    ⟨some way, some p⟩ ∈ offersAt toUpperCase db groupIds entryReach c entry →
    GrantedFor db (Speaks db groupIds entryReach c.id entry) c d.id p.ordinal
  auto : ∀ p, ⟨none, some p⟩ ∈ offersAt toUpperCase db groupIds entryReach c entry →
    ∀ d ∈ usable c, GrantedFor db (Speaks db groupIds entryReach c.id entry) c d.id p.ordinal

section Variants

variable {toUpperCase : String → String} {db : RouteDb} {groupIds : List String}
variable {entryReach : Option (String → Option (List String))} {c : RouteCascade} {entry : String}
variable {speaks : String → Prop} {way : Option WayOut} {p : RoutePolicyRef} {n : Nat}

theorem key_of_wayOf {d : RouteDirection} {way : WayOut} (h : wayOf toUpperCase c d = some way) :
    way.key = d.id := by
  obtain ⟨exit, -, rfl⟩ := Option.map_eq_some_iff.mp h
  rfl

/-- Whoever grants a policy on a way out may use it. -/
theorem GrantedOn.grantedFor {key : String}
    (h : GrantedOn db speaks c.id (some [key]) n) : GrantedFor db speaks c key n := by
  obtain ⟨g, hs, hkeys, hn⟩ := h
  refine ⟨g, hs, hn, (hkeys [key] rfl).imp id ?_⟩
  rintro ⟨k, hk, hlist⟩
  obtain rfl := List.mem_singleton.mp hk
  exact hlist

theorem mem_variants {o : RouteOffer} {policies : List RoutePolicyRef}
    (h : o ∈ variants way policies) (hp : o.policy = some p) : p ∈ policies := by
  rcases List.mem_cons.mp h with rfl | hmem
  · cases hp
  · obtain ⟨q, hq, rfl⟩ := List.mem_map.mp hmem
    obtain rfl := Option.some.inj hp
    exact hq

/-- Where a policy is offered, some squad speaks. -/
theorem speaks_of_policy
    (h : ⟨way, some p⟩ ∈ directionOffers toUpperCase db groupIds entryReach c entry) :
    ∃ g, Speaks db groupIds entryReach c.id entry g := by
  have hpolicies : ∀ (keys : List String), p ∈ policiesForEntry groupIds entry entryReach
        ((db.offByCascade groupIds).get? c.id) (db.policiesByGroup groupIds).get? (some keys)
        (db.allowByGroupOf groupIds c.id) →
      ∃ g, Speaks db groupIds entryReach c.id entry g := by
    intro keys hp
    obtain ⟨g, hs, -⟩ := (ordinal_policiesForEntry (.inr rfl)).mp (List.mem_map_of_mem hp)
    exact ⟨g, hs⟩
  simp only [directionOffers] at h
  split at h
  · cases h
  · rcases List.mem_append.mp h with hauto | hdirection
    · split at hauto
      · exact hpolicies _ (mem_variants hauto rfl)
      · cases hauto
    · obtain ⟨d, -, hd⟩ := List.mem_flatMap.mp hdirection
      split at hd
      · cases hd
      · split at hd
        · exact hpolicies _ (mem_variants hd rfl)
        · cases hd

/-- A policy offered with a way out, or with Auto, is given with it. -/
theorem given_of_offer
    (h : ⟨way, some p⟩ ∈ directionOffers toUpperCase db groupIds entryReach c entry) :
    GivenDirections db (Speaks db groupIds entryReach c.id entry) toUpperCase c
      (way, some p.ordinal) :=
  (choice_directionOffers (speaks_of_policy h)).mp (List.mem_map_of_mem (f := (·.choice)) h)

/-- What is given is offered, under the name of some policy of that ordinal. -/
theorem offer_of_given (h : ∃ g, Speaks db groupIds entryReach c.id entry g)
    (hgiven : GivenDirections db (Speaks db groupIds entryReach c.id entry) toUpperCase c
      (way, some n)) :
    ∃ p : RoutePolicyRef, p.ordinal = n
      ∧ ⟨way, some p⟩ ∈ directionOffers toUpperCase db groupIds entryReach c entry := by
  obtain ⟨⟨w, policy⟩, ho, hchoice⟩ := List.mem_map.mp ((choice_directionOffers h).mpr hgiven)
  obtain ⟨rfl, hpolicy⟩ := Prod.mk.inj hchoice
  obtain ⟨p, rfl, hp⟩ := Option.map_eq_some_iff.mp hpolicy
  exact ⟨p, hp, ho⟩

/-! ## When the Auto variants are granted -/

/-- A covered policy offered with Auto is granted for every direction. -/
theorem Covered.grantedFor (h : Covered db speaks c n)
    (hon : GrantedOn db speaks c.id (some ((usable c).map (·.id))) n) :
    ∀ d ∈ usable c, GrantedFor db speaks c d.id n := by
  intro d hd
  rcases h with ⟨g, hs, hn, hfree⟩ | hall | hnone
  · exact ⟨g, hs, hn, .inl hfree⟩
  · obtain ⟨g, hs, hn, hlist⟩ := hall d hd
    exact ⟨g, hs, hn, .inr hlist⟩
  · obtain ⟨g, hs, hkeys, hn⟩ := hon
    rcases hkeys _ rfl with hfree | ⟨k, hk, hlist⟩
    · exact ⟨g, hs, hn, .inl hfree⟩
    · obtain ⟨d', hd', rfl⟩ := List.mem_map.mp hk
      exact absurd ⟨g, hs, hn, hlist⟩ (hnone d' hd')

/-- A policy that is granted for every direction, once it is granted on one, is covered. -/
theorem covered_of_grantedFor (h : GrantedOn db speaks c.id (some ((usable c).map (·.id))) n →
      ∀ d ∈ usable c, GrantedFor db speaks c d.id n) : Covered db speaks c n := by
  by_cases hfree : ∃ g, speaks g ∧ db.Grants g n ∧ ¬ db.Limited c.id g
  · exact .inl hfree
  · by_cases hlisted : ∃ d ∈ usable c, ListedFor db speaks c d.id n
    · refine .inr (.inl ?_)
      intro d hd
      obtain ⟨d', hd', g', hs', hn', hlist'⟩ := hlisted
      have hon : GrantedOn db speaks c.id (some ((usable c).map (·.id))) n := by
        refine ⟨g', hs', ?_, hn'⟩
        intro ks hks
        obtain rfl := Option.some.inj hks
        exact .inr ⟨d'.id, List.mem_map_of_mem hd', hlist'⟩
      obtain ⟨g, hs, hn, huse⟩ := h hon d hd
      exact ⟨g, hs, hn, huse.resolve_left fun hlimited => hfree ⟨g, hs, hn, hlimited⟩⟩
    · refine .inr (.inr ?_)
      intro d hd hlist
      exact hlisted ⟨d, hd, hlist⟩

theorem variantsGranted_iff :
    VariantsGranted toUpperCase db groupIds entryReach c entry
      ↔ (AutoOpen db (Speaks db groupIds entryReach c.id entry) c →
        ∀ n, Covered db (Speaks db groupIds entryReach c.id entry) c n) := by
  by_cases hshape : c.directions.isEmpty = true
  · -- a cascade of hops has no directions, and Auto none to egress through
    have hnil : c.directions = [] := List.isEmpty_iff.mp hshape
    have husable : usable c = [] := by rw [usable, hnil, List.filter_nil]
    refine iff_of_true ⟨?_, ?_⟩ ?_
    · intro d hd
      rw [hnil] at hd
      cases hd
    · intro p hp d hd
      rw [husable] at hd
      cases hd
    · rintro ⟨-, htwo, -⟩
      rw [husable] at htwo
      cases htwo
  · have hoffers : offersAt toUpperCase db groupIds entryReach c entry
        = directionOffers toUpperCase db groupIds entryReach c entry := if_neg hshape
    constructor
    · intro h hopen n
      apply covered_of_grantedFor
      intro hon
      have hgiven : GivenDirections db (Speaks db groupIds entryReach c.id entry) toUpperCase c
          (none, some n) := by
        refine ⟨hopen.1, hopen.2.1, hopen.2.2, ?_⟩
        intro m hm
        obtain rfl := Option.some.inj hm
        exact hon
      obtain ⟨p, rfl, hp⟩ := offer_of_given (hon.imp fun g hg => hg.1) hgiven
      exact h.auto p (by rw [hoffers]; exact hp)
    · intro h
      refine ⟨?_, ?_⟩
      · intro d hd way p hway hp
        rw [hoffers] at hp
        obtain ⟨d', hd', hway', -, hpolicy⟩ := given_of_offer hp
        have hkey : d'.id = d.id := (key_of_wayOf hway').symm.trans (key_of_wayOf hway)
        rw [← hkey]
        exact (hpolicy p.ordinal rfl).grantedFor
      · intro p hp
        rw [hoffers] at hp
        obtain ⟨hauto, htwo, hfree, hpolicy⟩ := given_of_offer hp
        exact (h ⟨hauto, htwo, hfree⟩ p.ordinal).grantedFor (hpolicy p.ordinal rfl)

end Variants

/-- **A policy's variants reach granted exits alone** exactly where Auto is closed to the user or
each policy is covered.  What goes out at an entry are the profiles of a cascade there. -/
theorem policy_variants_iff (toUpperCase : String → String) (db : RouteDb)
    (groupIds : List String) (entryReach : Option (String → Option (List String)))
    (cascades : List RouteCascade) (nodeIds : List String) :
    OfCascades toUpperCase db groupIds entryReach cascades nodeIds
        (getRouteProfilesByEntryNode toUpperCase db groupIds entryReach cascades nodeIds)
      ∧ ∀ (c : RouteCascade) (entry : String),
        VariantsGranted toUpperCase db groupIds entryReach c entry
          ↔ (AutoOpen db (Speaks db groupIds entryReach c.id entry) c →
            ∀ n, Covered db (Speaks db groupIds entryReach c.id entry) c n) :=
  ⟨profiles_of_offers cascades, fun _ _ => variantsGranted_iff⟩

/-! ## A narrow grant on Auto -/

theorem speaks_narrowGrants {g : String} (hg : g ∈ ["wide", "narrow"]) :
    Speaks narrowGrants ["wide", "narrow"] none "two-ways" "entry" g :=
  ⟨hg, rfl, List.not_mem_nil⟩

/-- The wide squad opens Auto, the narrow one grants the policy for one direction: the policy goes
out on Auto, which leaves through the other direction too. -/
theorem narrow_grant_on_auto :
    (∃ p : RoutePolicyRef, p.ordinal = 1
        ∧ ⟨none, some p⟩ ∈ offersAt id narrowGrants ["wide", "narrow"] none twoWays "entry")
      ∧ ¬ VariantsGranted id narrowGrants ["wide", "narrow"] none twoWays "entry" := by
  have hlisted : narrowGrants.Lists "two-ways" "narrow" "nl" :=
    ⟨_, List.mem_singleton_self _, rfl, rfl, rfl, by decide⟩
  have hgrants : narrowGrants.Grants "narrow" 1 := ⟨_, List.mem_singleton_self _, rfl, rfl⟩
  have hfree : Free narrowGrants
      (Speaks narrowGrants ["wide", "narrow"] none "two-ways" "entry") "two-ways" := by
    refine ⟨"wide", speaks_narrowGrants (by decide), ?_⟩
    rintro ⟨r, hr, hgroup, -⟩
    obtain rfl := List.mem_singleton.mp hr
    exact absurd hgroup (by decide)
  have hgiven : GivenDirections narrowGrants
      (Speaks narrowGrants ["wide", "narrow"] none "two-ways" "entry") id twoWays
      (none, some 1) := by
    refine ⟨rfl, by decide, hfree, ?_⟩
    intro n hn
    obtain rfl := Option.some.inj hn
    refine ⟨"narrow", speaks_narrowGrants (by decide), ?_, hgrants⟩
    intro ks hks
    obtain rfl := Option.some.inj hks
    exact .inr ⟨"nl", by decide, hlisted⟩
  have hnarrow := speaks_narrowGrants (g := "narrow") (by decide)
  obtain ⟨p, hp, hoffer⟩ := offer_of_given (c := twoWays) ⟨"narrow", hnarrow⟩ hgiven
  refine ⟨⟨p, hp, hoffer⟩, ?_⟩
  intro h
  have hse : twoWays.directions[1] ∈ usable twoWays := by decide
  obtain ⟨g, hs, hn, huse⟩ := h.auto p hoffer _ hse
  -- only the narrow squad grants the policy, and its one row names the other direction
  obtain ⟨r, hr, rfl, -⟩ := hn
  obtain rfl := List.mem_singleton.mp hr
  rcases huse with hfree | ⟨r, hr, -, -, hkey, -⟩
  · exact hfree ⟨_, List.mem_singleton_self _, rfl, rfl⟩
  · obtain rfl := List.mem_singleton.mp hr
    exact absurd (Option.some.inj hkey) (by decide)

end Iceslab.RouteProfiles
