import Mathlib.Data.List.Sort
import Mathlib.Data.String.Basic
import Iceslab.Lib.OrderedMap
import Iceslab.Lib.Names
import Iceslab.XrayRouting

/-!
# The entry's rules gated by who may take each tag

`applyEntryUserGate` of `cascade.config.ts`.  A rule naming tags that some user of the entry may
not take is split by who may take which, in its place, and one trap at the end sends those tags
to `blocked`.

* `gateRule_verdict` — what the pieces of one rule match together.
* `applyEntryUserGate_route` — the whole list: a connection keeps the rules it may take and the
  untagged ones, and falls into the trap after them when its tag is gated.
-/

set_option autoImplicit false

namespace Iceslab

open FirstMatch

/-- `Map<userId, Set<tag>>`. -/
abbrev EntryUserGate := OrderedMap String (List Nat)

/-- `[...allowedTagsOf.keys()].sort()` -/
def gateUsers (allowedTagsOf : EntryUserGate) : List String :=
  allowedTagsOf.keys.insertionSort (· ≤ ·)

/-- Who may take a tag; `none` is everybody, no gate. -/
def whoMayTake (allowedTagsOf : EntryUserGate) (t : Nat) : Option (List String) :=
  let users := gateUsers allowedTagsOf
  let list := users.filter (fun u => decide (t ∈ (allowedTagsOf.get? u).getD []))
  if list.length = users.length ∧ users.length > 0 then none else some list

def tagsOf (r : XrayRule) : Option (List Nat) := r.vlessRoute

/-- `allowed`: who may take each tag drawn here, in the order the tags are met. -/
def gateAllowed (rules : List XrayRule) (allowedTagsOf : EntryUserGate) :
    OrderedMap Nat (Option (List String)) :=
  OrderedMap.collect id (fun o t => o.getD (whoMayTake allowedTagsOf t))
    (rules.flatMap (fun r => (tagsOf r).getD []))

/-- The key a rule's tags are grouped under: `'*'`, or the users joined by commas. -/
def gateKey (list : Option (List String)) : String :=
  match list with
  | none => "*"
  | some us => String.intercalate (String.singleton ',') us

structure GateGroup where
  tags : List Nat
  users : Option (List String)
  deriving DecidableEq, Repr

def gateGroups (listOf : Nat → Option (List String)) (tags : List Nat) :
    OrderedMap String GateGroup :=
  OrderedMap.collect (fun t => gateKey (listOf t))
    (fun o t => let g := o.getD ⟨[], listOf t⟩; { g with tags := g.tags ++ [t] }) tags

/-- One group of a split rule, dropped when nobody is in it. -/
def gatePiece (r : XrayRule) (g : GateGroup) : Option XrayRule :=
  match g.users with
  | some [] => none
  | some (u :: us) => some { r with vlessRoute := some g.tags, user := some (u :: us) }
  | none => some { r with vlessRoute := some g.tags }

/-- What stands in a rule's place. -/
def gateRule (allowed : OrderedMap Nat (Option (List String))) (r : XrayRule) : List XrayRule :=
  match tagsOf r with
  | none => [r]
  | some tags =>
    if tags.all (fun t => decide (allowed.get? t = some none)) then [r]
    else
      (gateGroups (fun t => (allowed.get? t).getD none) tags).values.filterMap (gatePiece r)

def gatedTags (allowed : OrderedMap Nat (Option (List String))) : List Nat :=
  (allowed.entries.filter (fun e => e.2.isSome)).map Prod.fst

def trapRule (tags : List Nat) : XrayRule :=
  { vlessRoute := some (tags.insertionSort (· ≤ ·)), target := .outbound "blocked" }

def applyEntryUserGate (rules : List XrayRule) (allowedTagsOf : EntryUserGate) : List XrayRule :=
  let allowed := gateAllowed rules allowedTagsOf
  let out := rules.flatMap (gateRule allowed)
  if (gatedTags allowed).length > 0 then out ++ [trapRule (gatedTags allowed)] else out

/-! ## Who may take a tag -/

/-- The user is on the entry's list with this tag allowed. -/
def Listed (gate : EntryUserGate) (u : String) (t : Nat) : Prop :=
  ∃ ts, gate.get? u = some ts ∧ t ∈ ts

/-- Every user on the entry's list may take the tag. -/
def OpenTo (gate : EntryUserGate) (t : Nat) : Prop := ∀ u ∈ gate.keys, Listed gate u t

/-- A user id that survives being a word of a comma-separated key: every panel id (a uuid) is. -/
def PlainId (u : String) : Prop := ',' ∉ u.toList ∧ u ≠ "" ∧ u ≠ "*"

instance (u : String) : Decidable (PlainId u) :=
  inferInstanceAs (Decidable (',' ∉ u.toList ∧ u ≠ "" ∧ u ≠ "*"))

/-- Some rule of the list names the tag. -/
def NamedBy (rules : List XrayRule) (t : Nat) : Prop := ∃ r ∈ rules, t ∈ (tagsOf r).getD []

def untagged (r : XrayRule) : Bool := decide ((tagsOf r).getD [] = [])

theorem mem_gateUsers (gate : EntryUserGate) (u : String) : u ∈ gateUsers gate ↔ u ∈ gate.keys := by
  simp [gateUsers]

theorem listed_iff (gate : EntryUserGate) (u : String) (t : Nat) :
    Listed gate u t ↔ u ∈ gate.keys ∧ t ∈ (gate.get? u).getD [] := by
  constructor
  · rintro ⟨ts, hg, ht⟩
    exact ⟨OrderedMap.mem_keys_of_get? hg, by simpa [hg] using ht⟩
  · rintro ⟨hu, ht⟩
    obtain ⟨ts, hg⟩ := OrderedMap.exists_get?_of_mem_keys hu
    exact ⟨ts, hg, by simpa [hg] using ht⟩

theorem whoMayTake_eq_none_iff (gate : EntryUserGate) (t : Nat) :
    whoMayTake gate t = none ↔ OpenTo gate t ∧ gate.keys ≠ [] := by
  have hlen : 0 < (gateUsers gate).length ↔ gate.keys ≠ [] := by
    rw [gateUsers, List.length_insertionSort, List.length_pos_iff]
  simp only [whoMayTake, ite_eq_left_iff, reduceCtorEq, imp_false, not_not,
    List.length_filter_eq_length_iff, decide_eq_true_eq, mem_gateUsers, gt_iff_lt, hlen]
  simp only [OpenTo, listed_iff]
  constructor
  · rintro ⟨h, hne⟩
    exact ⟨fun u hu => ⟨hu, h u hu⟩, hne⟩
  · rintro ⟨h, hne⟩
    exact ⟨fun u hu => (h u hu).2, hne⟩

variable {gate : EntryUserGate} {tags : List Nat} {g : GateGroup} {t : Nat}
  {listOf : Nat → Option (List String)} {p r : XrayRule} {u : String}

theorem mem_whoMayTake {us : List String}
    (h : whoMayTake gate t = some us) (u : String) : u ∈ us ↔ Listed gate u t := by
  simp only [whoMayTake] at h
  split at h
  · cases h
  · cases h
    simp [List.mem_filter, mem_gateUsers, listed_iff]

/-- Whether a list of users, `none` for everybody, lets this one through. -/
def inList (users : Option (List String)) (u : String) : Bool :=
  match users with
  | none => true
  | some us => decide (u ∈ us)

/-- Whether the gate lets a user through to the rules naming the tag. -/
def mayTake (gate : EntryUserGate) (u : String) (t : Nat) : Bool := inList (whoMayTake gate t) u

theorem mayTake_of_listed (h : Listed gate u t) : mayTake gate u t = true := by
  unfold mayTake inList
  split
  · rfl
  · rename_i us hw
    exact decide_eq_true ((mem_whoMayTake hw u).mpr h)

theorem mayTake_eq_false
    (hg : whoMayTake gate t ≠ none) (h : ¬ Listed gate u t) : mayTake gate u t = false := by
  unfold mayTake inList
  split
  · rename_i hw
    exact absurd hw hg
  · rename_i us hw
    exact decide_eq_false (fun hu => h ((mem_whoMayTake hw u).mp hu))

theorem get?_gateAllowed (rules : List XrayRule) (gate : EntryUserGate) (t : Nat) :
    (gateAllowed rules gate).get? t
      = if t ∈ rules.flatMap (fun r => (tagsOf r).getD []) then some (whoMayTake gate t)
        else none := by
  rw [gateAllowed, OrderedMap.get?_collect_keep]
  split
  · rename_i h
    cases hf : (rules.flatMap (fun r => (tagsOf r).getD [])).find? (fun a => decide (id a = t)) with
    | none =>
      have := List.find?_eq_none.mp hf t h
      simp at this
    | some a =>
      have : a = t := by simpa using List.find?_some hf
      simp [this]
  · rename_i h
    rw [Option.map_eq_none_iff, List.find?_eq_none]
    intro a ha he
    obtain rfl : a = t := by simpa using he
    exact h ha

/-! ## The pieces of one rule -/

theorem gateKey_inj {l l' : Option (List String)} (hl : ∀ us, l = some us → ∀ u ∈ us, PlainId u)
    (hl' : ∀ us, l' = some us → ∀ u ∈ us, PlainId u) (h : gateKey l = gateKey l') : l = l' := by
  -- "*" is not the join of plain ids: splitting it gives "*" itself
  have hstar : ∀ us : List String, (∀ u ∈ us, PlainId u) → gateKey (some us) ≠ gateKey none := by
    intro us hus he
    have he : String.intercalate (String.singleton ',') us = String.intercalate
        (String.singleton ',') ["*"] := by simpa [gateKey] using he
    have := Names.intercalate_inj (fun u hu => ⟨(hus u hu).1, (hus u hu).2.1⟩) (by simp) he
    exact (hus "*" (by simp [this])).2.2 rfl
  cases l with
  | none =>
    cases l' with
    | none => rfl
    | some us => exact absurd h.symm (hstar us (hl' us rfl))
  | some us =>
    cases l' with
    | none => exact absurd h (hstar us (hl us rfl))
    | some us' =>
      rw [Names.intercalate_inj (fun u hu => ⟨(hl us rfl u hu).1, (hl us rfl u hu).2.1⟩)
        (fun u hu => ⟨(hl' us' rfl u hu).1, (hl' us' rfl u hu).2.1⟩) h]

theorem foldl_gateGroup (listOf : Nat → Option (List String)) (l : List Nat) (g : GateGroup) :
    l.foldl (fun (o : Option GateGroup) t =>
        some { o.getD ⟨[], listOf t⟩ with tags := (o.getD ⟨[], listOf t⟩).tags ++ [t] }) (some g)
      = some { g with tags := g.tags ++ l } := by
  induction l generalizing g with
  | nil => simp
  | cons t l ih => simp [ih]

/-- A group holds exactly the tags of its key, and the users of the first of them. -/
theorem get?_gateGroups (listOf : Nat → Option (List String)) (tags : List Nat) (k : String)
    (g : GateGroup) :
    (gateGroups listOf tags).get? k = some g
      ↔ g.tags = tags.filter (fun t => decide (gateKey (listOf t) = k))
        ∧ (g.tags.head?).map listOf = some g.users := by
  rw [gateGroups, OrderedMap.get?_collect]
  cases hf : tags.filter (fun t => decide (gateKey (listOf t) = k)) with
  | nil =>
    simp only [List.foldl_nil, reduceCtorEq, false_iff, not_and]
    intro ht
    simp [ht]
  | cons t ts =>
    have hrun := foldl_gateGroup listOf ts ⟨[t], listOf t⟩
    simp only [List.foldl_cons, Option.getD_none, List.nil_append]
    rw [hrun]
    obtain ⟨gt, gu⟩ := g
    simp only [List.singleton_append, Option.some.injEq, GateGroup.mk.injEq]
    constructor
    · rintro ⟨rfl, rfl⟩
      exact ⟨rfl, rfl⟩
    · rintro ⟨rfl, h⟩
      exact ⟨rfl, by simpa using h⟩

theorem exists_gateGroup (listOf : Nat → Option (List String))
    (ht : t ∈ tags) : ∃ g ∈ (gateGroups listOf tags).values, t ∈ g.tags := by
  have hkey : gateKey (listOf t) ∈ (gateGroups listOf tags).keys :=
    (OrderedMap.mem_keys_collect _ _ tags _).mpr ⟨t, ht, rfl⟩
  obtain ⟨g, hg⟩ := OrderedMap.exists_get?_of_mem_keys hkey
  refine ⟨g, (OrderedMap.mem_values_iff _ g).mpr ⟨_, hg⟩, ?_⟩
  rw [((get?_gateGroups listOf tags _ g).mp hg).1]
  simpa using ht

theorem gateGroup_tags_ne_nil (hg : g ∈ (gateGroups listOf tags).values) : g.tags ≠ [] := by
  obtain ⟨k, hk⟩ := (OrderedMap.mem_values_iff _ g).mp hg
  have hgu := ((get?_gateGroups _ _ _ _).mp hk).2
  intro h
  simp [h] at hgu

/-- Where the keys tell the lists apart, all tags of a group are for the group's users. -/
theorem users_of_gateGroup (hinj : ∀ a ∈ tags, ∀ b ∈ tags, gateKey (listOf a) = gateKey (listOf b) →
      listOf a = listOf b) (hg : g ∈ (gateGroups listOf tags).values) (ht : t ∈ g.tags) :
    t ∈ tags ∧ g.users = listOf t := by
  obtain ⟨k, hk⟩ := (OrderedMap.mem_values_iff _ g).mp hg
  obtain ⟨hgt, hgu⟩ := (get?_gateGroups _ _ _ _).mp hk
  obtain ⟨t₀, ts, hg₀⟩ := List.exists_cons_of_ne_nil (List.ne_nil_of_mem ht)
  have ht₀ : t₀ ∈ g.tags := by simp [hg₀]
  rw [hgt, List.mem_filter, decide_eq_true_eq] at ht ht₀
  rw [hg₀, List.head?_cons, Option.map_some, Option.some.injEq] at hgu
  exact ⟨ht.1, by rw [← hgu, hinj t₀ ht₀.1 t ht.1 (by rw [ht₀.2, ht.2])]⟩

/-- The pieces keep the rule's target and its other conditions. -/
theorem gatePiece_eq_some (h : gatePiece r g = some p) :
    p.target = r.target ∧ p.toXrayConds = r.toXrayConds ∧ p.vlessRoute = some g.tags := by
  unfold gatePiece at h
  split at h
  · cases h
  · cases h
    exact ⟨rfl, rfl, rfl⟩
  · cases h
    exact ⟨rfl, rfl, rfl⟩

theorem gatePiece_isSome (r : XrayRule)
    (h : inList g.users u = true) : ∃ p, gatePiece r g = some p := by
  unfold gatePiece
  split
  · rename_i hu
    simp [hu, inList] at h
  · exact ⟨_, rfl⟩
  · exact ⟨_, rfl⟩

/-- The rule names the connection's tag to somebody who may take it, or names no tag. -/
def passesGate (gate : EntryUserGate) (u : String) (t : Nat) (r : XrayRule) : Bool :=
  untagged r || mayTake gate u t

/-- No condition beside user and tag is looked at. -/
def anyRest : XrayMatcher Unit := ⟨fun _ _ => true, fun _ => rfl⟩

/-- `new Map([[user, tags], …])` -/
def gateOf (entries : List (String × List Nat)) : EntryUserGate :=
  OrderedMap.collect Prod.fst (fun _ e => e.2) entries

section Pieces

variable {ω : Type*} (M : XrayMatcher ω) (c : XrayConn ω) {rules : List XrayRule}
  {allowed : OrderedMap Nat (Option (List String))}

theorem admits_gatePiece (hg : g.tags ≠ []) (hr : r.user = none) (h : gatePiece r g = some p) :
    p.admits M c = (decide (c.vlessRoute ∈ g.tags)
      && inList g.users c.user
      && M.holds r.toXrayConds c.rest) := by
  have hany : ∀ (α : Type) [DecidableEq α] (l : List α) (a : α),
      l.any (fun x => decide (x = a)) = decide (a ∈ l) := by
    intro α _ l a
    rw [Bool.eq_iff_iff]
    simp
  unfold gatePiece at h
  split at h
  · cases h
  · rename_i u us hu
    cases h
    rw [hu]
    simp only [XrayRule.admits, listCond_some hg, listCond_some (List.cons_ne_nil u us), hany,
      inList]
  · rename_i hu
    cases h
    rw [hu]
    simp only [XrayRule.admits, listCond_some hg, hr, listCond_none, hany, inList]

/-- Some piece of a split rule admits the connection when the rule does and the gate lets the
user through. -/
theorem gatePieces_any (hids : ∀ u ∈ gate.keys, PlainId u)
    (hallowed : ∀ t ∈ tags, allowed.get? t = some (whoMayTake gate t))
    (htags : tagsOf r = some tags) (huser : r.user = none) (hne : tags ≠ []) :
    ((gateGroups (fun t => (allowed.get? t).getD none) tags).values.filterMap
        (gatePiece r)).any (XrayRule.admits M c)
      = (r.admits M c && passesGate gate c.user c.vlessRoute r) := by
  have hlist : ∀ t ∈ tags, (allowed.get? t).getD none = whoMayTake gate t := by
    intro t ht
    simp [hallowed t ht]
  have hplain : ∀ t us, whoMayTake gate t = some us → ∀ u ∈ us, PlainId u := by
    intro t us hw u hu
    exact hids u ((listed_iff gate u t).mp ((mem_whoMayTake hw u).mp hu)).1
  have hadm : r.admits M c = (decide (c.vlessRoute ∈ tags) && M.holds r.toXrayConds c.rest) := by
    have hv : r.vlessRoute = some tags := htags
    simp only [XrayRule.admits, hv, huser, listCond_some hne, listCond_none, Bool.and_true]
    congr 1
    rw [Bool.eq_iff_iff]
    simp
  have hpass : passesGate gate c.user c.vlessRoute r = mayTake gate c.user c.vlessRoute := by
    simp [passesGate, untagged, htags, hne]
  have hinj : ∀ a ∈ tags, ∀ b ∈ tags,
      gateKey ((allowed.get? a).getD none) = gateKey ((allowed.get? b).getD none) →
        (allowed.get? a).getD none = (allowed.get? b).getD none := by
    intro a ha b hb h
    rw [hlist a ha, hlist b hb] at h ⊢
    exact gateKey_inj (hplain a) (hplain b) h
  rw [hadm, hpass, Bool.eq_iff_iff, List.any_eq_true]
  constructor
  · rintro ⟨p, hp, hm⟩
    obtain ⟨g, hg, hgp⟩ := List.mem_filterMap.mp hp
    have hgne : g.tags ≠ [] := gateGroup_tags_ne_nil hg
    rw [admits_gatePiece M c hgne huser hgp, Bool.and_eq_true, Bool.and_eq_true,
      decide_eq_true_eq] at hm
    obtain ⟨⟨ht, hu⟩, hrest⟩ := hm
    obtain ⟨htt, hgu⟩ := users_of_gateGroup hinj hg ht
    rw [hgu, hlist _ htt] at hu
    simp only [Bool.and_eq_true, decide_eq_true_eq]
    exact ⟨⟨htt, hrest⟩, hu⟩
  · intro h
    simp only [Bool.and_eq_true, decide_eq_true_eq] at h
    obtain ⟨⟨ht, hrest⟩, hmay⟩ := h
    obtain ⟨g, hg, htg⟩ := exists_gateGroup (fun t => (allowed.get? t).getD none) ht
    have hgne : g.tags ≠ [] := gateGroup_tags_ne_nil hg
    obtain ⟨-, hgu⟩ := users_of_gateGroup hinj hg htg
    rw [hlist _ ht] at hgu
    obtain ⟨p, hp⟩ := gatePiece_isSome r (g := g) (u := c.user) (by
      rw [hgu]
      exact hmay)
    refine ⟨p, List.mem_filterMap.mpr ⟨g, hg, hp⟩, ?_⟩
    rw [admits_gatePiece M c hgne huser hp, hgu]
    simp only [Bool.and_eq_true, decide_eq_true_eq]
    exact ⟨⟨htg, hmay⟩, hrest⟩

/-- **What stands in a rule's place matches the rule's connections that pass the gate.** -/
theorem gateRule_verdict (hids : ∀ u ∈ gate.keys, PlainId u) (hr : r ∈ rules)
    (hown : (tagsOf r).isSome → r.user = none) :
    verdict (XrayRule.admits M c) (·.target) (gateRule (gateAllowed rules gate) r)
      = if r.admits M c && passesGate gate c.user c.vlessRoute r then some r.target else none := by
  have hallowed : ∀ t ∈ (tagsOf r).getD [],
      (gateAllowed rules gate).get? t = some (whoMayTake gate t) := by
    intro t ht
    rw [get?_gateAllowed, if_pos (List.mem_flatMap.mpr ⟨r, hr, ht⟩)]
  cases htags : tagsOf r with
  | none =>
    have hpass : passesGate gate c.user c.vlessRoute r = true := by
      simp [passesGate, untagged, htags]
    simp [gateRule, htags, verdict_cons, hpass]
  | some tags =>
    simp only [htags, Option.getD_some] at hallowed
    by_cases hopen : tags.all (fun t => decide ((gateAllowed rules gate).get? t = some none)) = true
    · -- every tag is open: the rule stands as it was
      have hpass : r.admits M c = true → passesGate gate c.user c.vlessRoute r = true := by
        intro hm
        rw [passesGate, Bool.or_eq_true]
        by_cases hnil : tags = []
        · left
          simp [untagged, htags, hnil]
        · right
          have ht : c.vlessRoute ∈ tags := by
            have hv : r.vlessRoute = some tags := htags
            simp only [XrayRule.admits, hv, listCond_some hnil, Bool.and_eq_true] at hm
            simpa using hm.1.1
          have := List.all_eq_true.mp hopen _ ht
          rw [decide_eq_true_eq, hallowed _ ht, Option.some.injEq] at this
          simp [mayTake, inList, this]
      rw [gateRule, htags]
      simp only [hopen, if_true, verdict_cons, verdict_nil]
      cases hm : r.admits M c with
      | false => rfl
      | true => simp [hpass hm]
    · rw [gateRule, htags]
      simp only [hopen, Bool.false_eq_true, if_false]
      rw [verdict_const (a := r.target) (by
        intro p hp
        obtain ⟨g, -, hg⟩ := List.mem_filterMap.mp hp
        exact (gatePiece_eq_some hg).1)]
      rw [gatePieces_any M c hids hallowed htags (hown (by simp [htags])) (by
        rintro rfl
        exact hopen rfl)]

/-! ## The whole list -/

theorem mem_gatedTags (rules : List XrayRule) (gate : EntryUserGate) (t : Nat) :
    t ∈ gatedTags (gateAllowed rules gate)
      ↔ NamedBy rules t ∧ ¬ (OpenTo gate t ∧ gate.keys ≠ []) := by
  have hnamed : t ∈ rules.flatMap (fun r => (tagsOf r).getD []) ↔ NamedBy rules t :=
    List.mem_flatMap
  rw [← hnamed, ← whoMayTake_eq_none_iff, gatedTags, List.mem_map]
  constructor
  · rintro ⟨⟨t', o⟩, he, rfl⟩
    obtain ⟨he, ho⟩ := List.mem_filter.mp he
    have hg := (OrderedMap.get?_eq_some_iff _ _ _).mpr he
    rw [get?_gateAllowed] at hg
    split at hg
    · rename_i h
      simp only [Option.some.injEq] at hg
      refine ⟨h, ?_⟩
      rw [hg]
      simpa [Option.isSome_iff_ne_none] using ho
    · cases hg
  · rintro ⟨h, hne⟩
    refine ⟨(t, whoMayTake gate t), List.mem_filter.mpr ⟨?_, ?_⟩, rfl⟩
    · rw [← OrderedMap.get?_eq_some_iff, get?_gateAllowed, if_pos h]
    · exact Option.isSome_iff_ne_none.mpr hne

theorem admits_trapRule (h : tags ≠ []) :
    (trapRule tags).admits M c = decide (c.vlessRoute ∈ tags) := by
  have hne : tags.insertionSort (· ≤ ·) ≠ [] := by
    intro hn
    have := congrArg List.length hn
    rw [List.length_insertionSort] at this
    exact h (List.length_eq_zero_iff.mp this)
  simp only [XrayRule.admits, trapRule, listCond_some hne, listCond_none, Bool.and_true,
    M.holds_empty]
  rw [Bool.eq_iff_iff]
  simp [List.mem_insertionSort]

/-- **The gated list: the rules that pass the gate decide, then the trap.** -/
theorem applyEntryUserGate_route (hids : ∀ u ∈ gate.keys, PlainId u)
    (hown : ∀ r ∈ rules, (tagsOf r).isSome → r.user = none) :
    xrayRoute M (applyEntryUserGate rules gate) c
      = (xrayRoute M (rules.filter (passesGate gate c.user c.vlessRoute)) c).or
          (if c.vlessRoute ∈ gatedTags (gateAllowed rules gate) then some (.outbound "blocked")
            else none) := by
  have hpieces : verdict (XrayRule.admits M c) (·.target)
      (rules.flatMap (gateRule (gateAllowed rules gate)))
        = xrayRoute M (rules.filter (passesGate gate c.user c.vlessRoute)) c := by
    rw [xrayRoute, verdict_filter]
    refine verdict_flatMap (fun r hr => ?_)
    rw [gateRule_verdict M c hids hr (hown r hr), Bool.and_comm]
  simp only [applyEntryUserGate]
  split
  · rename_i hlen
    have hne : gatedTags (gateAllowed rules gate) ≠ [] := List.length_pos_iff.mp hlen
    rw [xrayRoute, verdict_append, hpieces, verdict_cons, admits_trapRule M c hne, verdict_nil]
    simp only [decide_eq_true_eq, trapRule]
  · rename_i hlen
    have hnil : gatedTags (gateAllowed rules gate) = [] := by
      simpa [List.length_pos_iff] using hlen
    rw [xrayRoute, hpieces, hnil]
    simp

/-- No group is drawn with an empty list. -/
theorem user_of_gateRule (hown : (tagsOf r).isSome → r.user = none) (hp : p ∈ gateRule allowed r) :
    p = r ∨ p.user ≠ some [] := by
  unfold gateRule at hp
  split at hp
  · left
    simpa using hp
  · rename_i tags htags
    split at hp
    · left
      simpa using hp
    · right
      obtain ⟨g, -, hg⟩ := List.mem_filterMap.mp hp
      unfold gatePiece at hg
      split at hg
      · cases hg
      · cases hg
        simp
      · cases hg
        simp [hown (by simp [htags])]

theorem user_of_applyEntryUserGate (hown : ∀ r ∈ rules, (tagsOf r).isSome → r.user = none)
    (hr : r ∈ applyEntryUserGate rules gate) (hu : r.user = some []) : r ∈ rules := by
  have hmem : r ∈ rules.flatMap (gateRule (gateAllowed rules gate))
      ∨ r = trapRule (gatedTags (gateAllowed rules gate)) := by
    simp only [applyEntryUserGate] at hr
    split at hr
    · simpa using hr
    · exact Or.inl hr
  rcases hmem with hm | rfl
  · obtain ⟨r₀, hr₀, hp⟩ := List.mem_flatMap.mp hm
    rcases user_of_gateRule (hown r₀ hr₀) hp with rfl | hne
    · exact hr₀
    · exact absurd hu hne
  · simp [trapRule] at hu

theorem route_filter_of_mayTake (h : mayTake gate c.user c.vlessRoute = true) :
    xrayRoute M (rules.filter (passesGate gate c.user c.vlessRoute)) c = xrayRoute M rules c := by
  rw [xrayRoute, verdict_filter]
  exact verdict_congr (fun r _ => by simp [passesGate, h]) (fun _ _ => rfl)

theorem route_filter_of_not_named (h : ¬ NamedBy rules c.vlessRoute) :
    xrayRoute M (rules.filter (passesGate gate c.user c.vlessRoute)) c = xrayRoute M rules c := by
  rw [xrayRoute, verdict_filter]
  refine verdict_congr (fun r hr => ?_) (fun _ _ => rfl)
  cases hadm : r.admits M c with
  | false => simp
  | true =>
    -- a rule that takes a tag it does not name names none
    have hnot : c.vlessRoute ∉ (tagsOf r).getD [] := fun ht => h ⟨r, hr, ht⟩
    have hun : untagged r = true := by
      cases hv : r.vlessRoute with
      | none => simp [untagged, tagsOf, hv]
      | some ts =>
        by_cases hnil : ts = []
        · simp [untagged, tagsOf, hv, hnil]
        · simp only [XrayRule.admits, hv, listCond_some hnil, Bool.and_eq_true] at hadm
          simp only [tagsOf, hv, Option.getD_some] at hnot
          exact absurd (by simpa using hadm.1.1) hnot
    simp [passesGate, hun]

theorem route_filter_of_not_mayTake (h : mayTake gate c.user c.vlessRoute = false) :
    rules.filter (passesGate gate c.user c.vlessRoute) = rules.filter untagged :=
  List.filter_congr (fun r _ => by simp [passesGate, h])

/-- **What the gate decides.**  A tag no rule names, or one every user of a non-empty list may
take, is routed as before.  Any other tag: a user listed for it keeps every outcome the original
list gave, anybody else is decided by the untagged rules alone, and both are blocked where those
decide nothing. -/
theorem applyEntryUserGate_decides (rules : List XrayRule) (gate : EntryUserGate)
    (hids : ∀ u ∈ gate.keys, PlainId u) (hown : ∀ r ∈ rules, (tagsOf r).isSome → r.user = none) :
    ((¬ NamedBy rules c.vlessRoute ∨ OpenTo gate c.vlessRoute ∧ gate.keys ≠ []) →
        xrayRoute M (applyEntryUserGate rules gate) c = xrayRoute M rules c)
    ∧ (NamedBy rules c.vlessRoute ∧ ¬ (OpenTo gate c.vlessRoute ∧ gate.keys ≠ []) →
        (Listed gate c.user c.vlessRoute →
          xrayRoute M (applyEntryUserGate rules gate) c
            = (xrayRoute M rules c).or (some (.outbound "blocked")))
        ∧ (¬ Listed gate c.user c.vlessRoute →
          xrayRoute M (applyEntryUserGate rules gate) c
            = (xrayRoute M (rules.filter untagged) c).or (some (.outbound "blocked"))))
    ∧ (∀ r ∈ applyEntryUserGate rules gate, r.user = some [] → r ∈ rules) := by
  refine ⟨fun h => ?_, fun ⟨hn, hg⟩ => ⟨fun hl => ?_, fun hl => ?_⟩, fun r hr hu =>
    user_of_applyEntryUserGate hown hr hu⟩
  · have hgated : c.vlessRoute ∉ gatedTags (gateAllowed rules gate) := by
      rw [mem_gatedTags]
      rcases h with h | h
      · exact fun ⟨hn, _⟩ => h hn
      · exact fun ⟨_, ho⟩ => ho h
    rw [applyEntryUserGate_route M c hids hown, if_neg hgated, Option.or_none]
    rcases h with h | h
    · exact route_filter_of_not_named M c h
    · have hw := (whoMayTake_eq_none_iff gate c.vlessRoute).mpr h
      exact route_filter_of_mayTake M c (by simp [mayTake, inList, hw])
  · have hgated := (mem_gatedTags rules gate c.vlessRoute).mpr ⟨hn, hg⟩
    rw [applyEntryUserGate_route M c hids hown, if_pos hgated,
      route_filter_of_mayTake M c (mayTake_of_listed hl)]
  · have hgated := (mem_gatedTags rules gate c.vlessRoute).mpr ⟨hn, hg⟩
    have hw : whoMayTake gate c.vlessRoute ≠ none :=
      fun h => hg ((whoMayTake_eq_none_iff gate c.vlessRoute).mp h)
    rw [applyEntryUserGate_route M c hids hown, if_pos hgated,
      route_filter_of_not_mayTake c (mayTake_eq_false hw hl)]

end Pieces

theorem applyEntryUserGate_decides_squad :
    xrayRoute anyRest (applyEntryUserGate
        [{ vlessRoute := some [0, 256], target := .outbound "out-d1" },
          { vlessRoute := some [1, 257], target := .outbound "out-d2" }]
        (gateOf [("u-nl", [0]), ("u-all", [0, 1, 256, 257])])) ⟨"u-nl", 256, ()⟩
      = some (.outbound "blocked") := by
  have h := applyEntryUserGate_decides anyRest ⟨"u-nl", 256, ()⟩
    [{ vlessRoute := some [0, 256], target := .outbound "out-d1" },
      { vlessRoute := some [1, 257], target := .outbound "out-d2" }]
    (gateOf [("u-nl", [0]), ("u-all", [0, 1, 256, 257])]) (by decide) (by decide)
  have hnot : ¬ Listed (gateOf [("u-nl", [0]), ("u-all", [0, 1, 256, 257])]) "u-nl" 256 := by
    rw [listed_iff]
    decide
  have hnamed : NamedBy [{ vlessRoute := some [0, 256], target := .outbound "out-d1" },
      { vlessRoute := some [1, 257], target := .outbound "out-d2" }] 256 :=
    ⟨_, List.mem_cons_self, by decide⟩
  exact (h.2.1 ⟨hnamed, fun ho => hnot (ho.1 "u-nl" (by decide))⟩).2 hnot

/-- The empty map gates every tag although every user on it (there is none) may take it; ids with
a comma share a group with other users; a rule's own `user` list is replaced. -/
theorem applyEntryUserGate_empty_comma_own :
    (OpenTo (gateOf []) 1
      ∧ xrayRoute anyRest (applyEntryUserGate
          [{ vlessRoute := some [1], target := .outbound "out-d1" }] (gateOf [])) ⟨"u", 1, ()⟩
        ≠ xrayRoute anyRest
          [{ vlessRoute := some [1], target := .outbound "out-d1" }] ⟨"u", 1, ()⟩)
    ∧ (¬ Listed (gateOf [("a,b", [2]), ("a", [1]), ("b", [1])]) "a" 2
      ∧ xrayRoute anyRest (applyEntryUserGate
          [{ vlessRoute := some [1, 2], target := .outbound "out" }]
          (gateOf [("a,b", [2]), ("a", [1]), ("b", [1])])) ⟨"a", 2, ()⟩
        = some (.outbound "out"))
    ∧ (Listed (gateOf [("a", [7]), ("vip", [7]), ("b", [])]) "a" 7
      ∧ xrayRoute anyRest
          [{ vlessRoute := some [7], user := some ["vip"], target := .outbound "out-1" },
            { vlessRoute := some [7], target := .outbound "out-2" }] ⟨"a", 7, ()⟩
        = some (.outbound "out-2")
      ∧ xrayRoute anyRest (applyEntryUserGate
          [{ vlessRoute := some [7], user := some ["vip"], target := .outbound "out-1" },
            { vlessRoute := some [7], target := .outbound "out-2" }]
          (gateOf [("a", [7]), ("vip", [7]), ("b", [])])) ⟨"a", 7, ()⟩
        = some (.outbound "out-1")) := by
  refine ⟨⟨?_, ?_⟩, ⟨?_, ?_⟩, ?_, ?_, ?_⟩
  · intro u hu
    cases hu
  · decide
  · rintro ⟨ts, hg, ht⟩
    have hts : (gateOf [("a,b", [2]), ("a", [1]), ("b", [1])]).get? "a" = some [1] := by decide
    rw [hts, Option.some.injEq] at hg
    simp [← hg] at ht
  · decide
  · exact ⟨[7], by decide, by decide⟩
  · decide
  · decide

end Iceslab
