import Iceslab.Lib.JsonDoc

/-!
# One document up to the order of its keys

* `Keyed` — no object has two members of one key.
* `Same` — documents alike place by place and key by key.
* `same_iff` — documents are the same exactly when they are one with their keys in order, and
  `text_sortKeys_eq_iff`, exactly when they are then one text.
-/

set_option autoImplicit false

namespace JsonDoc

variable {ν : Type} {members members' : List (Units × Doc ν)} {key s t : Units} {d d' : Doc ν}

/-- No object has two members of one key. -/
inductive Keyed : Doc ν → Prop
  | null : Keyed .null
  | bool (b : Bool) : Keyed (.bool b)
  | num (x : ν) : Keyed (.num x)
  | str (s : Units) : Keyed (.str s)
  | arr {items : List (Doc ν)} (h : ∀ d ∈ items, Keyed d) : Keyed (.arr items)
  | obj {members : List (Units × Doc ν)} (hkeys : (members.map Prod.fst).Nodup)
      (h : ∀ m ∈ members, Keyed m.2) : Keyed (.obj members)

/-- One document, up to the order of its keys: alike place by place and key by key. -/
inductive Same : Doc ν → Doc ν → Prop
  | null : Same .null .null
  | bool (b : Bool) : Same (.bool b) (.bool b)
  | num (x : ν) : Same (.num x) (.num x)
  | str (s : Units) : Same (.str s) (.str s)
  | arr {items items' : List (Doc ν)} (hlen : items.length = items'.length)
      (h : ∀ (i : Nat) d d', items[i]? = some d → items'[i]? = some d' → Same d d') :
      Same (.arr items) (.arr items')
  | obj {members members' : List (Units × Doc ν)}
      (hkeys : ∀ key, key ∈ members.map Prod.fst ↔ key ∈ members'.map Prod.fst)
      (h : ∀ key d d', (key, d) ∈ members → (key, d') ∈ members' → Same d d') :
      Same (.obj members) (.obj members')

/-! ## Sorting the members -/

theorem sortMembers_perm (members : List (Units × Doc ν)) : (sortMembers members).Perm members :=
  List.perm_insertionSort _ members

theorem unitsLe_cons {u v : Nat} :
    unitsLe (u :: s) (v :: t) = true ↔ u < v ∨ (u = v ∧ unitsLe s t = true) := by
  simp [unitsLe]

theorem unitsLe_total (s t : Units) : unitsLe s t = true ∨ unitsLe t s = true := by
  induction s generalizing t with
  | nil => exact .inl rfl
  | cons u s ih =>
    cases t with
    | nil => exact .inr rfl
    | cons v t =>
      rw [unitsLe_cons, unitsLe_cons]
      rcases Nat.lt_trichotomy u v with hlt | rfl | hlt
      · exact .inl (.inl hlt)
      · exact (ih t).imp (fun h => .inr ⟨rfl, h⟩) fun h => .inr ⟨rfl, h⟩
      · exact .inr (.inl hlt)

theorem unitsLe_antisymm (h : unitsLe s t = true) (h' : unitsLe t s = true) : s = t := by
  induction s generalizing t with
  | nil =>
    cases t with
    | nil => rfl
    | cons v t => cases h'
  | cons u s ih =>
    cases t with
    | nil => cases h
    | cons v t =>
      rw [unitsLe_cons] at h h'
      obtain ⟨rfl, hle⟩ := h.resolve_left (by omega)
      obtain ⟨-, hle'⟩ := h'.resolve_left (by omega)
      rw [ih hle hle']

theorem unitsLe_trans {s t r : Units} (h : unitsLe s t = true) (h' : unitsLe t r = true) :
    unitsLe s r = true := by
  induction s generalizing t r with
  | nil => rfl
  | cons u s ih =>
    cases t with
    | nil => cases h
    | cons v t =>
      cases r with
      | nil => cases h'
      | cons w r =>
        rw [unitsLe_cons] at h h' ⊢
        rcases h with hlt | ⟨rfl, hle⟩
        · left
          omega
        · rcases h' with hlt' | ⟨rfl, hle'⟩
          · exact .inl hlt'
          · exact .inr ⟨rfl, ih hle hle'⟩

theorem pairwise_sortMembers (members : List (Units × Doc ν)) :
    (sortMembers members).Pairwise fun a b => unitsLe a.1 b.1 = true := by
  have htotal : Std.Total fun a b : Units × Doc ν => unitsLe a.1 b.1 = true :=
    ⟨fun a b => unitsLe_total a.1 b.1⟩
  have htrans : IsTrans (Units × Doc ν) fun a b => unitsLe a.1 b.1 = true :=
    ⟨fun _ _ _ => unitsLe_trans⟩
  exact List.pairwise_insertionSort _ members

/-- Members of distinct keys come out in one order, whatever order they came in. -/
theorem sortMembers_eq_iff (hkeys : (members.map Prod.fst).Nodup) :
    sortMembers members = sortMembers members' ↔ members.Perm members' := by
  constructor
  · intro h
    exact ((sortMembers_perm members).symm.trans (.of_eq h)).trans (sortMembers_perm members')
  · intro h
    refine List.Perm.eq_of_pairwise ?_ (pairwise_sortMembers members)
      (pairwise_sortMembers members')
      (((sortMembers_perm members).trans h).trans (sortMembers_perm members').symm)
    intro a b ha hb hab hba
    have ha' := (sortMembers_perm members).mem_iff.mp ha
    have hb' := h.mem_iff.mpr ((sortMembers_perm members').mem_iff.mp hb)
    exact List.inj_on_of_nodup_map hkeys ha' hb' (unitsLe_antisymm hab hba)

/-! ## The same documents are one with their keys in order -/

theorem map_eq_map_iff {α β : Type} {f : α → β} {as bs : List α} :
    as.map f = bs.map f ↔ as.length = bs.length ∧
      ∀ (i : Nat) a b, as[i]? = some a → bs[i]? = some b → f a = f b := by
  constructor
  · intro h
    refine ⟨by simpa using congrArg List.length h, ?_⟩
    intro i a b ha hb
    have hi := congrArg (fun cs : List β => cs[i]?) h
    simpa [ha, hb] using hi
  · rintro ⟨hlen, h⟩
    apply List.ext_getElem
    · simpa using hlen
    · intro i hi hi'
      rw [List.getElem_map, List.getElem_map]
      exact h i _ _ (List.getElem?_eq_getElem _) (List.getElem?_eq_getElem _)

/-- The members with their values rewritten. -/
def onValues (h : Doc ν → Doc ν) (members : List (Units × Doc ν)) : List (Units × Doc ν) :=
  members.map fun m => (m.1, h m.2)

theorem keys_onValues (h : Doc ν → Doc ν) (members : List (Units × Doc ν)) :
    (onValues h members).map Prod.fst = members.map Prod.fst := by
  rw [onValues, List.map_map]
  rfl

theorem mem_onValues {h : Doc ν → Doc ν} {members : List (Units × Doc ν)}
    {e : Doc ν} : (key, e) ∈ onValues h members ↔ ∃ d, (key, d) ∈ members ∧ h d = e := by
  rw [onValues, List.mem_map]
  constructor
  · rintro ⟨⟨key', d⟩, hm, heq⟩
    obtain ⟨rfl, rfl⟩ := Prod.mk.inj heq
    exact ⟨d, hm, rfl⟩
  · rintro ⟨d, hm, rfl⟩
    exact ⟨(key, d), hm, rfl⟩

/-- Of members of distinct keys, one key has one value. -/
theorem member_unique {members : List (Units × Doc ν)} (hkeys : (members.map Prod.fst).Nodup)
    (h : (key, d) ∈ members) (h' : (key, d') ∈ members) : d = d' :=
  congrArg Prod.snd (List.inj_on_of_nodup_map hkeys h h' rfl)

/-- The same keys, with the same rewritten values. -/
theorem onValues_perm_iff {h : Doc ν → Doc ν}
    (hkeys : (members.map Prod.fst).Nodup) (hkeys' : (members'.map Prod.fst).Nodup) :
    (onValues h members).Perm (onValues h members') ↔
      (∀ key, key ∈ members.map Prod.fst ↔ key ∈ members'.map Prod.fst) ∧
      ∀ key d d', (key, d) ∈ members → (key, d') ∈ members' → h d = h d' := by
  constructor
  · intro hperm
    refine ⟨?_, ?_⟩
    · intro key
      have hfst := (hperm.map Prod.fst).mem_iff (a := key)
      rwa [keys_onValues, keys_onValues] at hfst
    · intro key d d' hd hd'
      obtain ⟨e, he, heq⟩ := mem_onValues.mp (hperm.mem_iff.mp (mem_onValues.mpr ⟨d, hd, rfl⟩))
      rw [← heq, member_unique hkeys' he hd']
  · rintro ⟨hsame, hvalue⟩
    have hnodup : ∀ ms : List (Units × Doc ν), (ms.map Prod.fst).Nodup → (onValues h ms).Nodup := by
      intro ms hms
      apply List.Nodup.of_map Prod.fst
      rwa [keys_onValues]
    have hside : ∀ ms ms' : List (Units × Doc ν),
        (∀ key, key ∈ ms.map Prod.fst → key ∈ ms'.map Prod.fst) →
        (∀ key d d', (key, d) ∈ ms → (key, d') ∈ ms' → h d = h d') →
        ∀ m, m ∈ onValues h ms → m ∈ onValues h ms' := by
      rintro ms ms' hkey hval ⟨key, e⟩ hm
      obtain ⟨d, hd, rfl⟩ := mem_onValues.mp hm
      obtain ⟨⟨key', d'⟩, hd', rfl⟩ := List.mem_map.mp (hkey key (List.mem_map_of_mem hd))
      exact mem_onValues.mpr ⟨d', hd', (hval _ d d' hd hd').symm⟩
    rw [List.perm_ext_iff_of_nodup (hnodup members hkeys) (hnodup members' hkeys')]
    intro m
    exact ⟨hside members members' (fun key => (hsame key).mp) hvalue m,
      hside members' members (fun key => (hsame key).mpr)
        (fun key d d' hd hd' => (hvalue key d' d hd' hd).symm) m⟩

theorem same_iff (hd : Keyed d) (hd' : Keyed d') : Same d d' ↔ sortKeys d = sortKeys d' := by
  constructor
  · intro h
    induction h with
    | null => rfl
    | bool b => rfl
    | num x => rfl
    | str s => rfl
    | arr hlen h ih =>
      cases hd with
      | arr hitems =>
        cases hd' with
        | arr hitems' =>
          rw [sortKeys_arr, sortKeys_arr]
          refine congrArg Doc.arr (map_eq_map_iff.mpr ⟨hlen, fun i e e' he he' => ?_⟩)
          exact ih i e e' he he' (hitems e (List.mem_of_getElem? he))
            (hitems' e' (List.mem_of_getElem? he'))
    | @obj members members' hkeys h ih =>
      cases hd with
      | obj hnodup hvalues =>
        cases hd' with
        | obj hnodup' hvalues' =>
          rw [sortKeys_obj, sortKeys_obj]
          refine congrArg Doc.obj ((sortMembers_eq_iff ?_).mpr ?_)
          · exact (keys_onValues sortKeys members).symm ▸ hnodup
          · refine (onValues_perm_iff hnodup hnodup').mpr ⟨hkeys, fun key e e' he he' => ?_⟩
            exact ih key e e' he he' (hvalues _ he) (hvalues' _ he')
  · intro h
    induction d using Doc.induct generalizing d' with
    | null =>
      cases d' <;> simp at h
      exact .null
    | bool b =>
      cases d' <;> simp at h
      subst h
      exact .bool b
    | num x =>
      cases d' <;> simp at h
      subst h
      exact .num x
    | str s =>
      cases d' <;> simp at h
      subst h
      exact .str s
    | arr items ih =>
      cases d' <;> simp only [sortKeys_null, sortKeys_bool, sortKeys_num, sortKeys_str,
        sortKeys_arr, sortKeys_obj, reduceCtorEq, Doc.arr.injEq] at h
      cases hd with
      | arr hitems =>
        cases hd' with
        | arr hitems' =>
          obtain ⟨hlen, hall⟩ := map_eq_map_iff.mp h
          refine .arr hlen fun i e e' he he' => ?_
          have hmem := List.mem_of_getElem? he
          exact ih e hmem (hitems e hmem) (hitems' e' (List.mem_of_getElem? he'))
            (hall i e e' he he')
    | obj members ih =>
      cases d' <;> simp only [sortKeys_null, sortKeys_bool, sortKeys_num, sortKeys_str,
        sortKeys_arr, sortKeys_obj, reduceCtorEq, Doc.obj.injEq] at h
      cases hd with
      | obj hnodup hvalues =>
        cases hd' with
        | obj hnodup' hvalues' =>
          have hkeys : ((onValues sortKeys members).map Prod.fst).Nodup := by
            rw [keys_onValues]
            exact hnodup
          obtain ⟨hsame, hvalue⟩ :=
            (onValues_perm_iff hnodup hnodup').mp ((sortMembers_eq_iff hkeys).mp h)
          refine .obj hsame fun key e e' he he' => ?_
          exact ih (key, e) he (hvalues _ he) (hvalues' _ he') (hvalue key e e' he he')

theorem text_sortKeys_eq_iff {N : Numbers ν} (hd : Keyed d) (hd' : Keyed d') :
    text N (sortKeys d) = text N (sortKeys d') ↔ Same d d' := by
  rw [same_iff hd hd']
  refine ⟨fun htext => ?_, congrArg (text N)⟩
  have hread := jsonParse_text (N := N) (sortKeys d)
  rw [htext, jsonParse_text] at hread
  exact (Option.some.inj hread).symm

end JsonDoc
