import Iceslab.RouteProfiles

/-!
# Squads grant and never take away

What the squads of a user come to at an entry of a cascade, against what each of them was given.
A squad speaks where it hands the entry out and did not switch the cascade off.

* `SwitchedOff`, `Limited`, `Lists`, `Grants` — what one squad was given, off the rows alone.
* `GivenDirections`, `GivenHops` — the choices that squads who speak give together.
* `offered_eq_given` — where some squad hands the entry out, the code offers what is given.
* `squads_only_grant` — the order of the squads is nothing to the choices, one more squad takes
  none away, and one that is silent adds none.
-/

set_option autoImplicit false

namespace Iceslab.RouteProfiles

open Grants JsText

/-! ## What one squad was given -/

namespace RouteDb

variable (db : RouteDb) (cascadeId g : String)

def SwitchedOff : Prop := ⟨g, cascadeId⟩ ∈ db.offRows

/-- The squad has exit rows for the cascade. -/
def Limited : Prop := ∃ r ∈ db.exitRows, r.groupId = g ∧ r.cascadeId = cascadeId

/-- One of the rows names the way out. -/
def Lists (key : String) : Prop :=
  ∃ r ∈ db.exitRows, r.groupId = g ∧ r.cascadeId = cascadeId ∧ aclKey r = some key ∧ key ≠ ""

/-- No rows for the cascade is every way out of it. -/
def MayUse (key : String) : Prop := ¬ db.Limited cascadeId g ∨ db.Lists cascadeId g key

def Grants (ordinal : Nat) : Prop := ∃ r ∈ db.grants, r.groupId = g ∧ r.policy.ordinal = ordinal

end RouteDb

/-- The squad is the user's, hands the entry out and did not switch the cascade off. -/
structure Speaks (db : RouteDb) (groupIds : List String)
    (entryReach : Option (String → Option (List String))) (cascadeId entryNodeId g : String) :
    Prop where
  member : g ∈ groupIds
  out : handsOut entryNodeId entryReach g = true
  on : ¬ db.SwitchedOff cascadeId g

/-! ## The maps hold what the squads were given -/

variable {x : Option WayOut × Option Nat} {keys : Option (List String)} {k : String} {n : Nat}

section Maps

variable {db : RouteDb} {groupIds : List String} {cascadeId g : String}

theorem switchedOff_iff (hg : g ∈ groupIds) :
    switchedOff ((db.offByCascade groupIds).get? cascadeId) g = true
      ↔ db.SwitchedOff cascadeId g := by
  unfold switchedOff RouteDb.offByCascade
  rw [decide_eq_true_iff,
    OrderedMap.getD_get?_collect (·.cascadeId) []
      (fun s (r : GroupCascadeOff) => setAdd s r.groupId),
    ← List.foldl_map (f := fun r : GroupCascadeOff => r.groupId) (g := setAdd), mem_foldl_setAdd]
  simp only [List.not_mem_nil, false_or, List.mem_map, List.mem_filter, decide_eq_true_eq]
  constructor
  · rintro ⟨⟨_, _⟩, ⟨⟨hr, -⟩, rfl⟩, rfl⟩
    exact hr
  · intro hr
    exact ⟨⟨g, cascadeId⟩, ⟨⟨hr, hg⟩, rfl⟩, rfl⟩

theorem mem_exitRowsOn {r : GroupCascadeExit} (hg : r.groupId ∈ groupIds) :
    r ∈ db.exitRowsOn groupIds ↔ r ∈ db.exitRows ∧ ¬ db.SwitchedOff r.cascadeId r.groupId := by
  unfold RouteDb.exitRowsOn
  simp only [List.mem_filter, Bool.not_eq_true', decide_eq_true_eq]
  rw [← Bool.not_eq_true, switchedOff_iff hg]
  simp [hg]

theorem mem_foldl_addAclKey {rows : List GroupCascadeExit} {keys : List String} :
    k ∈ rows.foldl addAclKey keys
      ↔ k ∈ keys ∨ ∃ r ∈ rows, (aclKey r).filter (· ≠ "") = some k := by
  induction rows generalizing keys with
  | nil => simp
  | cons r rows ih =>
    rw [List.foldl_cons, ih, addAclKey]
    simp only [List.mem_cons, exists_eq_or_imp]
    cases hkey : (aclKey r).filter (· ≠ "") with
    | none => simp
    | some key => simp only [mem_setAdd, Option.some.injEq, or_assoc, eq_comm]

theorem allow_eq_none_iff (hg : g ∈ groupIds) (hon : ¬ db.SwitchedOff cascadeId g) :
    db.allowByGroupOf groupIds cascadeId g = none ↔ ¬ db.Limited cascadeId g := by
  unfold RouteDb.allowByGroupOf RouteDb.allowByGroupCascade
  rw [if_pos hg, OrderedMap.get?_collect_eq_none]
  constructor
  · rintro h ⟨r, hr, rfl, rfl⟩
    exact h r ((mem_exitRowsOn hg).mpr ⟨hr, hon⟩) rfl
  · rintro h r hr hkey
    obtain ⟨rfl, rfl⟩ := Prod.mk.inj hkey
    exact h ⟨r, ((mem_exitRowsOn hg).mp hr).1, rfl, rfl⟩

theorem mem_allow_iff (hg : g ∈ groupIds) (hon : ¬ db.SwitchedOff cascadeId g) :
    k ∈ (db.allowByGroupOf groupIds cascadeId g).getD [] ↔ db.Lists cascadeId g k := by
  unfold RouteDb.allowByGroupOf RouteDb.allowByGroupCascade
  rw [if_pos hg, OrderedMap.getD_get?_collect (fun r : GroupCascadeExit => (r.groupId, r.cascadeId))
    [] addAclKey, mem_foldl_addAclKey]
  simp only [List.not_mem_nil, false_or, List.mem_filter, decide_eq_true_eq, Prod.mk.injEq,
    Option.filter_eq_some_iff]
  constructor
  · rintro ⟨r, ⟨hr, rfl, rfl⟩, hkey, hne⟩
    exact ⟨r, ((mem_exitRowsOn hg).mp hr).1, rfl, rfl, hkey, hne⟩
  · rintro ⟨r, hr, rfl, rfl, hkey, hne⟩
    exact ⟨r, ⟨(mem_exitRowsOn hg).mpr ⟨hr, hon⟩, rfl, rfl⟩, hkey, hne⟩

theorem permits_allow_iff (hg : g ∈ groupIds) (hon : ¬ db.SwitchedOff cascadeId g) :
    permits (db.allowByGroupOf groupIds cascadeId g) k = true ↔ db.MayUse cascadeId g k := by
  unfold RouteDb.MayUse
  rw [← allow_eq_none_iff hg hon, ← mem_allow_iff hg hon]
  cases db.allowByGroupOf groupIds cascadeId g with
  | none => simp
  | some keys => simp

theorem ordinal_policiesByGroup (hg : g ∈ groupIds) :
    n ∈ (((db.policiesByGroup groupIds).get? g).getD []).map (·.ordinal) ↔ db.Grants g n := by
  unfold RouteDb.policiesByGroup
  rw [OrderedMap.getD_get?_collect (·.groupId) []
      (fun l (r : GroupRoutePolicy) => pushUnseen (·.ordinal) l r.policy),
    ← List.foldl_map (f := fun r : GroupRoutePolicy => r.policy)
      (g := pushUnseen (·.ordinal)), mem_map_pushUnseen]
  simp only [List.map_nil, List.not_mem_nil, false_or, List.mem_map, List.mem_filter,
    decide_eq_true_eq, exists_exists_and_eq_and]
  constructor
  · rintro ⟨r, ⟨⟨hr, -⟩, rfl⟩, rfl⟩
    exact ⟨r, hr, rfl, rfl⟩
  · rintro ⟨r, hr, rfl, rfl⟩
    exact ⟨r, ⟨⟨hr, hg⟩, rfl⟩, rfl⟩

end Maps

/-! ## What squads who speak give together -/

section Given

variable (db : RouteDb) (speaks : String → Prop)

/-- One of them is not limited. -/
def Free (cascadeId : String) : Prop := ∃ g, speaks g ∧ ¬ db.Limited cascadeId g

/-- One of them may use the way out. -/
def Opened (cascadeId key : String) : Prop := ∃ g, speaks g ∧ db.MayUse cascadeId g key

/-- One of them grants the policy, and may use one of the ways out where such are named. -/
def GrantedOn (cascadeId : String) (keys : Option (List String)) (ordinal : Nat) : Prop :=
  ∃ g, speaks g ∧ (∀ ks ∈ keys, ¬ db.Limited cascadeId g ∨ ∃ k ∈ ks, db.Lists cascadeId g k)
    ∧ db.Grants g ordinal

variable (toUpperCase : String → String) (c : RouteCascade)

def usable : List RouteDirection := c.directions.filter directionServes

/-- The choices of a cascade with directions: a way out or Auto, a policy or none. -/
def GivenDirections (x : Option WayOut × Option Nat) : Prop :=
  match x.1 with
  | none => c.autoProfile = true ∧ 1 < (usable c).length ∧ Free db speaks c.id
      ∧ ∀ n ∈ x.2, GrantedOn db speaks c.id (some ((usable c).map (·.id))) n
  | some way => ∃ d ∈ c.directions, wayOf toUpperCase c d = some way ∧ Opened db speaks c.id d.id
      ∧ ∀ n ∈ x.2, GrantedOn db speaks c.id (some [d.id]) n

/-- The choices of a cascade of the legacy hop shape; a chain nobody grants a policy on has none. -/
def GivenHops (x : Option WayOut × Option Nat) : Prop :=
  (c.mode = "balancer" ∨ ∃ n, GrantedOn db speaks c.id none n)
    ∧ (∀ n ∈ x.2, GrantedOn db speaks c.id none n)
    ∧ match x.1 with
      | none => c.autoProfile = true ∧ c.mode = "balancer" ∧ 1 < (fullExits toUpperCase c).length
          ∧ Free db speaks c.id
      | some way => way ∈ fullExits toUpperCase c ∧ Opened db speaks c.id way.key

def Given (x : Option WayOut × Option Nat) : Prop :=
  if c.directions.isEmpty then GivenHops db speaks toUpperCase c x
  else GivenDirections db speaks toUpperCase c x

end Given

section Mono

variable {db : RouteDb} {speaks speaks' : String → Prop} {cascadeId : String}
variable {toUpperCase : String → String} {c : RouteCascade}

theorem Free.mono (h : ∀ g, speaks g → speaks' g) :
    Free db speaks cascadeId → Free db speaks' cascadeId :=
  Exists.imp fun g hg => ⟨h g hg.1, hg.2⟩

theorem Free.opened {key : String} (h : Free db speaks cascadeId) :
    Opened db speaks cascadeId key :=
  Exists.imp (fun _ hg => ⟨hg.1, .inl hg.2⟩) h

theorem Opened.mono (h : ∀ g, speaks g → speaks' g) {key : String} :
    Opened db speaks cascadeId key → Opened db speaks' cascadeId key :=
  Exists.imp fun g hg => ⟨h g hg.1, hg.2⟩

theorem GrantedOn.mono (h : ∀ g, speaks g → speaks' g) :
    GrantedOn db speaks cascadeId keys n → GrantedOn db speaks' cascadeId keys n :=
  Exists.imp fun g hg => ⟨h g hg.1, hg.2⟩

/-- **More squads give no less.** -/
theorem Given.mono (h : ∀ g, speaks g → speaks' g)
    (hx : Given db speaks toUpperCase c x) : Given db speaks' toUpperCase c x := by
  obtain ⟨way, policy⟩ := x
  unfold Given at hx ⊢
  split
  · rename_i hhops
    rw [if_pos hhops] at hx
    obtain ⟨hplain, hpolicy, hway⟩ := hx
    refine ⟨hplain.imp id (Exists.imp fun n => GrantedOn.mono h), ?_, ?_⟩
    · intro n hn
      exact (hpolicy n hn).mono h
    · cases way with
      | none => exact ⟨hway.1, hway.2.1, hway.2.2.1, hway.2.2.2.mono h⟩
      | some way => exact ⟨hway.1, hway.2.mono h⟩
  · rename_i hdirs
    rw [if_neg hdirs] at hx
    cases way with
    | none =>
      obtain ⟨hauto, htwo, hfree, hpolicy⟩ := hx
      refine ⟨hauto, htwo, hfree.mono h, ?_⟩
      intro n hn
      exact (hpolicy n hn).mono h
    | some way =>
      obtain ⟨d, hd, hway, hopen, hpolicy⟩ := hx
      refine ⟨d, hd, hway, hopen.mono h, ?_⟩
      intro n hn
      exact (hpolicy n hn).mono h

end Mono

/-! ## The three functions come to what the squads give -/

section Entry

variable {db : RouteDb} {groupIds : List String} {cascadeId entry : String}
variable {entryReach : Option (String → Option (List String))}
  {allow : String → Option (List String)}

theorem mem_speaking {g : String} :
    g ∈ groupIds.filter (fun g => handsOut entry entryReach g
        && !switchedOff ((db.offByCascade groupIds).get? cascadeId) g)
      ↔ Speaks db groupIds entryReach cascadeId entry g := by
  rw [List.mem_filter, Bool.and_eq_true, Bool.not_eq_true', ← Bool.not_eq_true]
  constructor
  · rintro ⟨hg, hout, hon⟩
    exact ⟨hg, hout, fun h => hon ((switchedOff_iff hg).mpr h)⟩
  · rintro ⟨hg, hout, hon⟩
    exact ⟨hg, hout, fun h => hon ((switchedOff_iff hg).mp h)⟩

/-- A cascade is off where squads hand the entry out and none of them speaks. -/
theorem cascadeIsOffAt_iff :
    cascadeIsOffAt groupIds entry entryReach ((db.offByCascade groupIds).get? cascadeId) = true
      ↔ (∃ g ∈ groupIds, handsOut entry entryReach g = true)
        ∧ ∀ g, ¬ Speaks db groupIds entryReach cascadeId entry g := by
  have hall : (∀ g, ¬ Speaks db groupIds entryReach cascadeId entry g)
      ↔ ∀ g ∈ groupIds, handsOut entry entryReach g = true →
        switchedOff ((db.offByCascade groupIds).get? cascadeId) g = true := by
    constructor
    · intro h g hg hout
      by_contra hon
      exact h g ⟨hg, hout, fun hoff => hon ((switchedOff_iff hg).mpr hoff)⟩
    · intro h g hs
      exact hs.on ((switchedOff_iff hs.member).mp (h g hs.member hs.out))
  rw [hall, cascadeIsOffAt]
  split
  · rename_i hempty
    rw [List.isEmpty_iff] at hempty
    constructor
    · exact fun h => absurd h Bool.false_ne_true
    · rintro ⟨⟨g, hg, hout⟩, h⟩
      have hoff := h g hg hout
      rw [switchedOff, hempty] at hoff
      simp at hoff
  · simp only [Bool.and_eq_true, Bool.not_eq_true', List.isEmpty_eq_false_iff_exists_mem,
      List.all_eq_true, List.mem_filter, and_imp]

theorem exitAllowAt_eq_none :
    exitAllowAt groupIds entry entryReach ((db.offByCascade groupIds).get? cascadeId)
        (db.allowByGroupOf groupIds cascadeId) = none
      ↔ (∀ g, ¬ Speaks db groupIds entryReach cascadeId entry g)
        ∨ Free db (Speaks db groupIds entryReach cascadeId entry) cascadeId := by
  simp only [exitAllowAt]
  split
  · rename_i hempty
    rw [List.isEmpty_iff] at hempty
    refine iff_of_true rfl (.inl ?_)
    intro g hs
    have hmem := mem_speaking.mpr hs
    rw [hempty] at hmem
    cases hmem
  · rename_i hsome
    have hnot : ¬ ∀ g, ¬ Speaks db groupIds entryReach cascadeId entry g := by
      intro h
      apply hsome
      rw [List.isEmpty_iff, List.eq_nil_iff_forall_not_mem]
      intro g hg
      exact h g (mem_speaking.mp hg)
    rw [unionAllow_eq_none, List.mem_map, or_iff_right hnot]
    constructor
    · rintro ⟨g, hg, hnone⟩
      have hs := mem_speaking.mp hg
      exact ⟨g, hs, (allow_eq_none_iff hs.member hs.on).mp hnone⟩
    · rintro ⟨g, hs, hfree⟩
      exact ⟨g, mem_speaking.mpr hs, (allow_eq_none_iff hs.member hs.on).mpr hfree⟩

theorem permits_exitAllowAt (h : ∃ g, Speaks db groupIds entryReach cascadeId entry g) :
    permits (exitAllowAt groupIds entry entryReach ((db.offByCascade groupIds).get? cascadeId)
        (db.allowByGroupOf groupIds cascadeId)) k = true
      ↔ Opened db (Speaks db groupIds entryReach cascadeId entry) cascadeId k := by
  obtain ⟨g, hs⟩ := h
  have hsome := List.ne_nil_of_mem (mem_speaking.mpr hs)
  simp only [exitAllowAt]
  rw [if_neg (by rw [List.isEmpty_iff]; exact hsome), permits_unionAllow]
  simp only [List.not_mem_nil, false_or, List.mem_map, exists_exists_and_eq_and]
  constructor
  · rintro ⟨g, hg, hallow⟩
    have hs := mem_speaking.mp hg
    exact ⟨g, hs, (permits_allow_iff hs.member hs.on).mp hallow⟩
  · rintro ⟨g, hs, huse⟩
    exact ⟨g, mem_speaking.mpr hs, (permits_allow_iff hs.member hs.on).mpr huse⟩

/-- The gate of one squad: it may use one of the ways out, where such are named. -/
theorem opensOne_iff
    (hallow : keys = none ∨ allow = db.allowByGroupOf groupIds cascadeId) {g : String}
    (hs : Speaks db groupIds entryReach cascadeId entry g) :
    opensOne keys (allow g) = true
      ↔ ∀ ks ∈ keys, ¬ db.Limited cascadeId g ∨ ∃ k ∈ ks, db.Lists cascadeId g k := by
  cases keys with
  | none => simp [opensOne]
  | some ids =>
    obtain rfl := hallow.resolve_left (Option.some_ne_none ids)
    simp only [Option.mem_some_iff, forall_eq', ← allow_eq_none_iff hs.member hs.on,
      ← mem_allow_iff hs.member hs.on]
    cases db.allowByGroupOf groupIds cascadeId g with
    | none => simp [opensOne]
    | some allows => simp [opensOne]

theorem ordinal_policiesForEntry
    (hallow : keys = none ∨ allow = db.allowByGroupOf groupIds cascadeId) :
    n ∈ (policiesForEntry groupIds entry entryReach ((db.offByCascade groupIds).get? cascadeId)
        (db.policiesByGroup groupIds).get? keys allow).map (·.ordinal)
      ↔ GrantedOn db (Speaks db groupIds entryReach cascadeId entry) cascadeId keys n := by
  simp only [policiesForEntry]
  rw [mem_map_pushUnseen, List.map_flatMap, List.mem_flatMap]
  simp only [List.map_nil, List.not_mem_nil, false_or]
  constructor
  · rintro ⟨g, hg, hn⟩
    rw [List.mem_filter, Bool.and_eq_true] at hg
    have hs := mem_speaking.mp (List.mem_filter.mpr ⟨hg.1, hg.2.1⟩)
    exact ⟨g, hs, (opensOne_iff hallow hs).mp hg.2.2, (ordinal_policiesByGroup hs.member).mp hn⟩
  · rintro ⟨g, hs, hkeys, hn⟩
    have hg := List.mem_filter.mp (mem_speaking.mpr hs)
    refine ⟨g, List.mem_filter.mpr ⟨hs.member, ?_⟩, (ordinal_policiesByGroup hs.member).mpr hn⟩
    rw [Bool.and_eq_true]
    exact ⟨hg.2, (opensOne_iff hallow hs).mpr hkeys⟩

end Entry

/-! ## The choices are what the squads give -/

/-- A choice without the name of its policy, which the ordinal stands for. -/
def RouteOffer.choice (o : RouteOffer) : Option WayOut × Option Nat :=
  (o.way, o.policy.map (·.ordinal))

theorem choice_variants {way : Option WayOut} {policies : List RoutePolicyRef} :
    x ∈ (variants way policies).map (·.choice)
      ↔ x.1 = way ∧ ∀ n ∈ x.2, n ∈ policies.map (·.ordinal) := by
  obtain ⟨w, policy⟩ := x
  simp only [variants, List.map_cons, List.mem_cons, List.map_map, List.mem_map,
    Function.comp_apply, RouteOffer.choice, Option.map_none, Option.map_some, Prod.mk.injEq]
  cases policy with
  | none => simp
  | some n =>
    simp only [reduceCtorEq, and_false, Option.some.injEq, false_or, Option.mem_def, forall_eq']
    constructor
    · rintro ⟨p, hp, rfl, rfl⟩
      exact ⟨rfl, p, hp, rfl⟩
    · rintro ⟨rfl, p, hp, rfl⟩
      exact ⟨p, hp, rfl, rfl⟩

section Offers

variable {toUpperCase : String → String} {db : RouteDb} {groupIds : List String}
variable {entryReach : Option (String → Option (List String))} {c : RouteCascade} {entry : String}

theorem choice_ite {p : Prop} [Decidable p] {offers : List RouteOffer} :
    x ∈ (if p then offers else []).map (·.choice) ↔ p ∧ x ∈ offers.map (·.choice) := by
  split
  · rename_i hp
    exact (and_iff_right hp).symm
  · rename_i hp
    simp [hp]

theorem choice_ite_nil {p : Prop} [Decidable p] {offers : List RouteOffer} :
    x ∈ (if p then [] else offers).map (·.choice) ↔ ¬ p ∧ x ∈ offers.map (·.choice) := by
  rw [← ite_not, choice_ite]

theorem not_off_of_speaks (h : ∃ g, Speaks db groupIds entryReach c.id entry g) :
    ¬ cascadeIsOffAt groupIds entry entryReach ((db.offByCascade groupIds).get? c.id) = true := by
  rw [cascadeIsOffAt_iff]
  exact fun hoff => Exists.elim h hoff.2

theorem choice_directionOffers (h : ∃ g, Speaks db groupIds entryReach c.id entry g) :
    x ∈ (directionOffers toUpperCase db groupIds entryReach c entry).map (·.choice)
      ↔ GivenDirections db (Speaks db groupIds entryReach c.id entry) toUpperCase c x := by
  obtain ⟨way, policy⟩ := x
  have hnot : ¬ ∀ g, ¬ Speaks db groupIds entryReach c.id entry g := not_forall_not.mpr h
  simp only [directionOffers]
  rw [if_neg (not_off_of_speaks h), List.map_append, List.mem_append, choice_ite,
    choice_variants, List.map_flatMap, List.mem_flatMap]
  simp only [ordinal_policiesForEntry (.inr rfl), Bool.and_eq_true, decide_eq_true_eq,
    Option.isNone_iff_eq_none, exitAllowAt_eq_none, or_iff_right hnot]
  constructor
  · rintro (⟨⟨⟨hauto, hfree⟩, htwo⟩, rfl, hpolicy⟩ | ⟨d, hd, hx⟩)
    · exact ⟨hauto, htwo, hfree, hpolicy⟩
    · cases hway : wayOf toUpperCase c d with
      | none =>
        rw [hway] at hx
        cases hx
      | some w =>
        rw [hway] at hx
        simp only [choice_ite, choice_variants, ordinal_policiesForEntry (.inr rfl),
          permits_exitAllowAt h] at hx
        obtain ⟨hopen, rfl, hpolicy⟩ := hx
        exact ⟨d, hd, hway, hopen, hpolicy⟩
  · intro hx
    cases way with
    | none =>
      obtain ⟨hauto, htwo, hfree, hpolicy⟩ := hx
      exact .inl ⟨⟨⟨hauto, hfree⟩, htwo⟩, rfl, hpolicy⟩
    | some w =>
      obtain ⟨d, hd, hway, hopen, hpolicy⟩ := hx
      refine .inr ⟨d, hd, ?_⟩
      rw [hway]
      simp only [choice_ite, choice_variants, ordinal_policiesForEntry (.inr rfl),
        permits_exitAllowAt h]
      exact ⟨hopen, trivial, hpolicy⟩

theorem choice_hopOffers (h : ∃ g, Speaks db groupIds entryReach c.id entry g) :
    x ∈ (hopOffers toUpperCase db groupIds entryReach c entry).map (·.choice)
      ↔ GivenHops db (Speaks db groupIds entryReach c.id entry) toUpperCase c x := by
  obtain ⟨way, policy⟩ := x
  have hnot : ¬ ∀ g, ¬ Speaks db groupIds entryReach c.id entry g := not_forall_not.mpr h
  have hexit : ∀ w, w ∈ applyExitAcl (fullExits toUpperCase c)
        (exitAllowAt groupIds entry entryReach ((db.offByCascade groupIds).get? c.id)
          (db.allowByGroupOf groupIds c.id))
      ↔ w ∈ fullExits toUpperCase c
        ∧ Opened db (Speaks db groupIds entryReach c.id entry) c.id w.key := by
    intro w
    rw [applyExitAcl, List.mem_filter, permits_exitAllowAt h]
  have hgranted : ∀ policies : List RoutePolicyRef,
      policies.isEmpty = true ↔ ∀ n, n ∉ policies.map (·.ordinal) := by
    intro policies
    rw [List.isEmpty_iff, ← List.map_eq_nil_iff (f := (·.ordinal)), List.eq_nil_iff_forall_not_mem]
  simp only [hopOffers]
  rw [if_neg (not_off_of_speaks h), choice_ite_nil, choice_ite_nil, List.map_append,
    List.mem_append, choice_ite, choice_variants, List.map_flatMap, List.mem_flatMap]
  simp only [ordinal_policiesForEntry (.inl rfl), Bool.and_eq_true, Bool.not_eq_true',
    decide_eq_true_eq, decide_eq_false_iff_not, Option.isNone_iff_eq_none, exitAllowAt_eq_none,
    or_iff_right hnot, choice_variants, hgranted, hexit, List.isEmpty_iff]
  constructor
  · rintro ⟨hplain, -, ⟨⟨⟨⟨hauto, hmode⟩, hfree⟩, htwo⟩, rfl, hpolicy⟩ | ⟨w, hw, rfl, hpolicy⟩⟩
    · exact ⟨.inl hmode, hpolicy, hauto, hmode, htwo, hfree⟩
    · refine ⟨?_, hpolicy, hw⟩
      by_cases hmode : c.mode = "balancer"
      · exact .inl hmode
      · exact .inr (not_forall_not.mp fun hnone => hplain ⟨hmode, hnone⟩)
  · rintro ⟨hplain, hpolicy, hway⟩
    have hgate : ¬ (¬ c.mode = "balancer" ∧ ∀ n,
        ¬ GrantedOn db (Speaks db groupIds entryReach c.id entry) c.id none n) := by
      rintro ⟨hmode, hnone⟩
      rcases hplain with hbalancer | ⟨n, hn⟩
      · exact hmode hbalancer
      · exact hnone n hn
    cases way with
    | none =>
      obtain ⟨hauto, hmode, htwo, hfree⟩ := hway
      obtain ⟨w, hw⟩ := List.exists_mem_of_length_pos (Nat.zero_lt_of_lt htwo)
      refine ⟨hgate, ?_, .inl ⟨⟨⟨⟨hauto, hmode⟩, hfree⟩, htwo⟩, rfl, hpolicy⟩⟩
      exact List.ne_nil_of_mem ((hexit w).mpr ⟨hw, hfree.opened⟩)
    | some w =>
      exact ⟨hgate, List.ne_nil_of_mem ((hexit w).mpr hway), .inr ⟨w, hway, rfl, hpolicy⟩⟩

/-- Where no squad speaks, nothing is given. -/
theorem not_given_of_silent {speaks : String → Prop} (h : ∀ g, ¬ speaks g)
    (x : Option WayOut × Option Nat) : ¬ Given db speaks toUpperCase c x := by
  have hopen : ∀ key, ¬ Opened db speaks c.id key := by
    rintro key ⟨g, hg, -⟩
    exact h g hg
  have hfree : ¬ Free db speaks c.id := fun hfree => hopen "" hfree.opened
  obtain ⟨way, policy⟩ := x
  unfold Given
  split
  · rintro ⟨-, -, hway⟩
    cases way with
    | none => exact hfree hway.2.2.2
    | some w => exact hopen w.key hway.2
  · intro hx
    cases way with
    | none => exact hfree hx.2.2.1
    | some w =>
      obtain ⟨d, -, -, hd, -⟩ := hx
      exact hopen d.id hd

/-- What the code offers at an entry: the ways out or Auto, each with a policy or none. -/
def offered (toUpperCase : String → String) (db : RouteDb)
    (entryReach : Option (String → Option (List String))) (c : RouteCascade) (entry : String)
    (groupIds : List String) : Set (Option WayOut × Option Nat) :=
  fun x => x ∈ (offersAt toUpperCase db groupIds entryReach c entry).map (·.choice)

/-- **The code offers what the squads who speak give together**, where one of the squads hands the
entry out. -/
theorem offered_eq_given (h : ∃ g ∈ groupIds, handsOut entry entryReach g = true) :
    offered toUpperCase db entryReach c entry groupIds
      = Given db (Speaks db groupIds entryReach c.id entry) toUpperCase c := by
  funext x
  apply propext
  show x ∈ (offersAt toUpperCase db groupIds entryReach c entry).map (·.choice)
    ↔ Given db (Speaks db groupIds entryReach c.id entry) toUpperCase c x
  by_cases hs : ∃ g, Speaks db groupIds entryReach c.id entry g
  · unfold offersAt Given
    split
    · exact choice_hopOffers hs
    · exact choice_directionOffers hs
  · have hsilent := not_exists.mp hs
    have hoff := cascadeIsOffAt_iff.mpr ⟨h, hsilent⟩
    refine iff_of_false ?_ (not_given_of_silent hsilent x)
    have hnil : offersAt toUpperCase db groupIds entryReach c entry = [] := by
      simp only [offersAt, hopOffers, directionOffers, hoff, if_true, ite_self]
    rw [hnil]
    exact List.not_mem_nil

end Offers

/-! ## Squads grant -/

section Squads

variable {db : RouteDb} {groupIds : List String} {cascadeId entry : String}
variable {entryReach : Option (String → Option (List String))}

theorem Speaks.mono {more : List String} (h : ∀ g ∈ groupIds, g ∈ more) {g : String}
    (hs : Speaks db groupIds entryReach cascadeId entry g) :
    Speaks db more entryReach cascadeId entry g :=
  ⟨h g hs.member, hs.out, hs.on⟩

theorem Speaks.of_cons {squad : String}
    (h : handsOut entry entryReach squad = false ∨ db.SwitchedOff cascadeId squad) {g : String}
    (hs : Speaks db (squad :: groupIds) entryReach cascadeId entry g) :
    Speaks db groupIds entryReach cascadeId entry g := by
  rcases List.mem_cons.mp hs.member with rfl | hg
  · rcases h with hout | hoff
    · exact absurd hs.out (by rw [hout]; exact Bool.false_ne_true)
    · exact absurd hoff hs.on
  · exact ⟨hg, hs.out, hs.on⟩

end Squads

/-- **Squads grant and never take away.**  Where one of a user's squads hands an entry out, what is
offered there does not depend on their order, grows with every squad that is added, and is left as
it was by one that does not hand the entry out or switched the cascade off. -/
theorem squads_only_grant (toUpperCase : String → String) (db : RouteDb)
    (entryReach : Option (String → Option (List String))) (c : RouteCascade) (entry : String)
    (groupIds : List String) (h : ∃ g ∈ groupIds, handsOut entry entryReach g = true) :
    (∀ reordered : List String, reordered.Perm groupIds →
        offered toUpperCase db entryReach c entry reordered
          = offered toUpperCase db entryReach c entry groupIds)
      ∧ (∀ squad : String, offered toUpperCase db entryReach c entry groupIds
          ⊆ offered toUpperCase db entryReach c entry (squad :: groupIds))
      ∧ ∀ squad : String, handsOut entry entryReach squad = false ∨ db.SwitchedOff c.id squad →
        offered toUpperCase db entryReach c entry (squad :: groupIds)
          = offered toUpperCase db entryReach c entry groupIds := by
  have hmore : ∀ more : List String, (∀ g ∈ groupIds, g ∈ more) →
      ∃ g ∈ more, handsOut entry entryReach g = true := by
    intro more hsub
    obtain ⟨g, hg, hout⟩ := h
    exact ⟨g, hsub g hg, hout⟩
  have hgrow : ∀ more : List String, (∀ g ∈ groupIds, g ∈ more) →
      offered toUpperCase db entryReach c entry groupIds
        ⊆ offered toUpperCase db entryReach c entry more := by
    intro more hsub
    rw [offered_eq_given h, offered_eq_given (hmore more hsub)]
    intro x hx
    exact hx.mono fun g hs => hs.mono hsub
  -- the other way it is enough that whoever speaks now spoke before
  have hback : ∀ more : List String, (∀ g ∈ groupIds, g ∈ more) →
      (∀ g, Speaks db more entryReach c.id entry g → Speaks db groupIds entryReach c.id entry g) →
      offered toUpperCase db entryReach c entry more
        = offered toUpperCase db entryReach c entry groupIds := by
    intro more hsub hspeaks
    refine Set.Subset.antisymm ?_ (hgrow more hsub)
    rw [offered_eq_given h, offered_eq_given (hmore more hsub)]
    intro x hx
    exact hx.mono hspeaks
  refine ⟨?_, ?_, ?_⟩
  · intro reordered hperm
    apply hback reordered
    · exact fun g hg => hperm.mem_iff.mpr hg
    · exact fun g hs => hs.mono fun g hg => hperm.mem_iff.mp hg
  · intro squad
    exact hgrow (squad :: groupIds) fun g hg => List.mem_cons_of_mem squad hg
  · intro squad hsilent
    apply hback (squad :: groupIds)
    · exact fun g hg => List.mem_cons_of_mem squad hg
    · exact fun g hs => hs.of_cons hsilent

/-! ## A narrow squad beside a wide one -/

/-- Squad `narrow` was given one direction and a policy, squad `wide` nothing of its own. -/
def narrowGrants : RouteDb where
  exitRows := [⟨"narrow", "two-ways", some "nl", none⟩]
  grants := [⟨"narrow", ⟨1, "no ads"⟩⟩]
  offRows := []

/-- Two directions behind one entry, with the Auto profile. -/
def twoWays : RouteCascade where
  id := "two-ways"
  name := "two-ways"
  mode := "chain"
  autoProfile := true
  hops := []
  positions := [⟨0, some "vless", ["entry"]⟩]
  directions := [⟨"nl", 1, some "NL", [⟨"nl-01", none⟩], none⟩,
    ⟨"se", 2, some "SE", [⟨"se-01", none⟩], none⟩]

theorem squads_only_grant_wide :
    offered id narrowGrants none twoWays "entry" ["wide"]
        ⊆ offered id narrowGrants none twoWays "entry" ["narrow", "wide"]
      ∧ offered id narrowGrants none twoWays "entry" ["wide", "narrow"]
        = offered id narrowGrants none twoWays "entry" ["narrow", "wide"] := by
  have hwide : ∃ g ∈ ["wide"], handsOut "entry" none g = true := ⟨"wide", by simp, rfl⟩
  have hboth : ∃ g ∈ ["narrow", "wide"], handsOut "entry" none g = true := ⟨"wide", by simp, rfl⟩
  constructor
  · exact (squads_only_grant id narrowGrants none twoWays "entry" ["wide"] hwide).2.1 "narrow"
  · exact (squads_only_grant id narrowGrants none twoWays "entry" ["narrow", "wide"] hboth).1
      ["wide", "narrow"] (List.Perm.swap "narrow" "wide" [])

end Iceslab.RouteProfiles
