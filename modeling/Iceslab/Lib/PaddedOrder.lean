import Mathlib.Order.Lattice
import Mathlib.Data.List.GetD
import Mathlib.Data.Nat.Find

/-!
# Lists compared place by place

Two lists are compared by the first place in which they differ, the shorter one read with a filler
after its end.

* `cmp_eq_iff`, `cmp_lt_iff`, `cmp_gt_iff` — the order by places.
* `cmp_swap`, `cmp_trans`, `cmp_congr_left` — it is an order.
* `cmp_map_iff` — when a map that keeps the order of the places keeps that of the lists.
-/

set_option autoImplicit false

namespace PaddedOrder

/-! ## Places -/

section Places

variable {α : Type*}

/-- The place after the end is `zero`. -/
def place (zero : α) (xs : List α) (i : Nat) : α := xs.getD i zero

/-- The first place in which the lists differ. -/
def FirstAt (zero : α) (xs ys : List α) (i : Nat) : Prop :=
  (∀ j < i, place zero xs j = place zero ys j) ∧ place zero xs i ≠ place zero ys i

variable {zero : α} {xs ys : List α} {i j : Nat}

theorem place_of_le (h : xs.length ≤ i) : place zero xs i = zero := List.getD_eq_default _ _ h

theorem place_map {β : Type*} (f : α → β) (xs : List α) (i : Nat) :
    place (f zero) (xs.map f) i = f (place zero xs i) := by
  simp only [place, List.getD_eq_getElem?_getD, List.getElem?_map]
  cases xs[i]? <;> rfl

theorem place_drop (k i : Nat) : place zero (xs.drop k) i = place zero xs (k + i) := by
  simp only [place, List.getD_eq_getElem?_getD, List.getElem?_drop]

theorem FirstAt.lt (h : FirstAt zero xs ys i) : i < max xs.length ys.length := by
  by_contra hle
  have hx : xs.length ≤ i := by omega
  have hy : ys.length ≤ i := by omega
  exact h.2 ((place_of_le hx).trans (place_of_le hy).symm)

theorem FirstAt.unique (hi : FirstAt zero xs ys i) (hj : FirstAt zero xs ys j) : i = j := by
  rcases Nat.lt_trichotomy i j with h | h | h
  · exact absurd (hj.1 i h) hi.2
  · exact h
  · exact absurd (hi.1 j h) hj.2

/-- Two lists have a first place that differs, or none. -/
theorem same_or_firstAt (zero : α) (xs ys : List α) :
    (∀ i, place zero xs i = place zero ys i) ∨ ∃ i, FirstAt zero xs ys i := by
  classical
  by_cases h : ∃ i, place zero xs i ≠ place zero ys i
  · exact .inr ⟨Nat.find h, fun j hj => not_not.mp (Nat.find_min h hj), Nat.find_spec h⟩
  · exact .inl fun i => not_not.mp fun hne => h ⟨i, hne⟩

end Places

/-! ## The first place decides -/

section Compared

variable {α : Type*} [LinearOrder α]

/-- The first place that differs decides. -/
def cmp (zero : α) (xs ys : List α) : Ordering :=
  match (List.range (max xs.length ys.length)).find?
      fun i => decide (place zero xs i ≠ place zero ys i) with
  | some i => compare (place zero xs i) (place zero ys i)
  | none => .eq

variable {zero : α} {xs ys zs : List α}

theorem cmp_of_firstAt {i : Nat} (h : FirstAt zero xs ys i) :
    cmp zero xs ys = compare (place zero xs i) (place zero ys i) := by
  have hfind : (List.range (max xs.length ys.length)).find?
      (fun i => decide (place zero xs i ≠ place zero ys i)) = some i := by
    rw [List.find?_range_eq_some]
    refine ⟨by simpa using h.2, List.mem_range.mpr h.lt, fun j hj => ?_⟩
    simpa using h.1 j hj
  rw [cmp, hfind]

theorem cmp_of_same (h : ∀ i, place zero xs i = place zero ys i) : cmp zero xs ys = .eq := by
  have hfind : (List.range (max xs.length ys.length)).find?
      (fun i => decide (place zero xs i ≠ place zero ys i)) = none := by
    rw [List.find?_eq_none]
    intro i _
    simpa using h i
  rw [cmp, hfind]

theorem cmp_eq_iff : cmp zero xs ys = .eq ↔ ∀ i, place zero xs i = place zero ys i := by
  refine ⟨fun h => ?_, cmp_of_same⟩
  rcases same_or_firstAt zero xs ys with hsame | ⟨i, hi⟩
  · exact hsame
  · rw [cmp_of_firstAt hi, compare_eq_iff_eq] at h
    exact absurd h hi.2

theorem cmp_lt_iff : cmp zero xs ys = .lt ↔
    ∃ i, (∀ j < i, place zero xs j = place zero ys j) ∧ place zero xs i < place zero ys i := by
  constructor
  · intro h
    rcases same_or_firstAt zero xs ys with hsame | ⟨i, hi⟩
    · rw [cmp_of_same hsame] at h
      cases h
    · rw [cmp_of_firstAt hi, compare_lt_iff_lt] at h
      exact ⟨i, hi.1, h⟩
  · rintro ⟨i, hbefore, hlt⟩
    rw [cmp_of_firstAt ⟨hbefore, hlt.ne⟩, compare_lt_iff_lt]
    exact hlt

/-! ## An order -/

theorem cmp_swap (zero : α) (xs ys : List α) : cmp zero ys xs = (cmp zero xs ys).swap := by
  rcases same_or_firstAt zero xs ys with hsame | ⟨i, hi⟩
  · rw [cmp_of_same hsame, cmp_of_same fun i => (hsame i).symm]
    rfl
  · have hi' : FirstAt zero ys xs i := ⟨fun j hj => (hi.1 j hj).symm, hi.2.symm⟩
    rw [cmp_of_firstAt hi, cmp_of_firstAt hi']
    exact Std.OrientedCmp.eq_swap

theorem cmp_gt_iff : cmp zero xs ys = .gt ↔
    ∃ i, (∀ j < i, place zero xs j = place zero ys j) ∧ place zero ys i < place zero xs i := by
  rw [← Ordering.swap_inj, ← cmp_swap]
  exact cmp_lt_iff.trans (by simp only [eq_comm])

theorem cmp_congr_left (h : ∀ i, place zero xs i = place zero ys i) :
    cmp zero xs zs = cmp zero ys zs := by
  rcases same_or_firstAt zero ys zs with hsame | ⟨i, hi⟩
  · rw [cmp_of_same hsame, cmp_of_same fun i => (h i).trans (hsame i)]
  · have hi' : FirstAt zero xs zs i := ⟨fun j hj => (h j).trans (hi.1 j hj), h i ▸ hi.2⟩
    rw [cmp_of_firstAt hi, cmp_of_firstAt hi', h i]

theorem cmp_lt_trans (h : cmp zero xs ys = .lt) (h' : cmp zero ys zs = .lt) :
    cmp zero xs zs = .lt := by
  obtain ⟨i, hi, hlt⟩ := cmp_lt_iff.mp h
  obtain ⟨j, hj, hlt'⟩ := cmp_lt_iff.mp h'
  refine cmp_lt_iff.mpr ⟨min i j, fun k hk => ?_, ?_⟩
  · exact (hi k (by omega)).trans (hj k (by omega))
  · rcases Nat.lt_trichotomy i j with hij | rfl | hij
    · rw [Nat.min_eq_left (Nat.le_of_lt hij), ← hj i hij]
      exact hlt
    · rw [Nat.min_self]
      exact hlt.trans hlt'
    · rw [Nat.min_eq_right (Nat.le_of_lt hij), hi j hij]
      exact hlt'

theorem cmp_trans {o : Ordering} (h : cmp zero xs ys = o) (h' : cmp zero ys zs = o) :
    cmp zero xs zs = o := by
  cases o with
  | lt => exact cmp_lt_trans h h'
  | eq => rw [cmp_congr_left (cmp_eq_iff.mp h), h']
  | gt =>
    have hswap : ∀ {as bs : List α}, cmp zero as bs = .gt → cmp zero bs as = .lt := fun hg => by
      rw [cmp_swap, hg]
      rfl
    rw [cmp_swap, cmp_lt_trans (hswap h') (hswap h)]
    rfl

end Compared

/-! ## Under a map -/

section Map

variable {α β : Type*} [LinearOrder α] [LinearOrder β] {zero : α} {f : α → β} {xs ys : List α}

theorem cmp_drop {k : Nat} (h : ∀ j < k, place zero xs j = place zero ys j) :
    cmp zero xs ys = cmp zero (xs.drop k) (ys.drop k) := by
  rcases same_or_firstAt zero (xs.drop k) (ys.drop k) with hsame | ⟨i, hi⟩
  · have hall : ∀ i, place zero xs i = place zero ys i := fun i => by
      by_cases hik : i < k
      · exact h i hik
      · have hplace := hsame (i - k)
        rw [place_drop, place_drop, Nat.add_sub_cancel' (by omega)] at hplace
        exact hplace
    rw [cmp_of_same hsame, cmp_of_same hall]
  · have hfirst : FirstAt zero xs ys (k + i) := by
      refine ⟨fun j hj => ?_, by rw [← place_drop, ← place_drop]; exact hi.2⟩
      by_cases hjk : j < k
      · exact h j hjk
      · have hplace := hi.1 (j - k) (by omega)
        rw [place_drop, place_drop, Nat.add_sub_cancel' (by omega)] at hplace
        exact hplace
    rw [cmp_of_firstAt hi, cmp_of_firstAt hfirst, place_drop, place_drop]

/-- In the first place that differs the map tells the lists apart, or what follows it is in the
order of that place. -/
def Told (zero : α) (f : α → β) (xs ys : List α) : Prop :=
  ∀ i, FirstAt zero xs ys i → f (place zero xs i) ≠ f (place zero ys i) ∨
    cmp (f zero) ((xs.drop (i + 1)).map f) ((ys.drop (i + 1)).map f)
      = compare (place zero xs i) (place zero ys i)

/-- **A map that keeps the order keeps that of two lists exactly where it tells them apart.** -/
theorem cmp_map_iff (hf : Monotone f) :
    cmp (f zero) (xs.map f) (ys.map f) = cmp zero xs ys ↔ Told zero f xs ys := by
  have hmap (i : Nat) (h : place zero xs i = place zero ys i) :
      place (f zero) (xs.map f) i = place (f zero) (ys.map f) i := by
    rw [place_map, place_map, h]
  rcases same_or_firstAt zero xs ys with hsame | ⟨i, hi⟩
  · rw [cmp_of_same hsame, cmp_of_same fun i => hmap i (hsame i)]
    exact ⟨fun _ i hi => absurd (hsame i) hi.2, fun _ => rfl⟩
  · have htold : Told zero f xs ys ↔ f (place zero xs i) ≠ f (place zero ys i) ∨
        cmp (f zero) ((xs.drop (i + 1)).map f) ((ys.drop (i + 1)).map f)
          = compare (place zero xs i) (place zero ys i) :=
      ⟨fun h => h i hi, fun h j hj => hj.unique hi ▸ h⟩
    rw [htold, cmp_of_firstAt hi]
    by_cases hne : f (place zero xs i) = f (place zero ys i)
    · have hrest : ∀ j < i + 1,
          place (f zero) (xs.map f) j = place (f zero) (ys.map f) j := fun j hj => by
        rcases Nat.lt_succ_iff_lt_or_eq.mp hj with hj | rfl
        · exact hmap j (hi.1 j hj)
        · rw [place_map, place_map, hne]
      rw [cmp_drop hrest, ← List.map_drop, ← List.map_drop]
      simp only [hne, ne_eq, not_true_eq_false, false_or]
    · have hfirst : FirstAt (f zero) (xs.map f) (ys.map f) i :=
        ⟨fun j hj => hmap j (hi.1 j hj), by rw [place_map, place_map]; exact hne⟩
      rw [cmp_of_firstAt hfirst, place_map, place_map]
      refine ⟨fun _ => .inl hne, fun _ => ?_⟩
      rcases lt_or_gt_of_ne hi.2 with hlt | hgt
      · rw [compare_lt_iff_lt.mpr hlt, compare_lt_iff_lt.mpr (lt_of_le_of_ne (hf hlt.le) hne)]
      · rw [compare_gt_iff_gt.mpr hgt, compare_gt_iff_gt.mpr
          (lt_of_le_of_ne (hf hgt.le) (Ne.symm hne))]

end Map

end PaddedOrder
