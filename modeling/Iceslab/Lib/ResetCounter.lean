import Mathlib.Algebra.GroupWithZero.Nat
import Mathlib.Order.Interval.Finset.Nat

/-!
# Counters that restart from zero

A counter counts what passes and may be reset to zero.  A `Reading` is its value at one instant,
together with all that has passed so far and the number of resets, which the reader does not see.
A reader that knows the values alone takes `increments`: the growth over the reading before, and
nothing when the value fell.  Readings and increments are listed newest first.

* `sum_increments_le` — the increments never exceed what has passed since the first reading.
* `sum_increments_eq_iff` — they are the last value less the first exactly when no value fell;
  `sum_increments_of_no_reset` — in particular when the counter was not reset.
* `counted_pairwise` — each increment is a set of units the reading saw, and no two share a unit.
-/

set_option autoImplicit false

structure Reading where
  value : Nat
  passed : Nat
  resets : Nat
  value_le : value ≤ passed

namespace Reading

/-- What one reading knows of the one before it. -/
structure After (later earlier : Reading) : Prop where
  passed : earlier.passed ≤ later.passed
  resets : earlier.resets ≤ later.resets
  kept : later.resets = earlier.resets →
    later.value = earlier.value + (later.passed - earlier.passed)
  lost : later.resets ≠ earlier.resets → later.value ≤ later.passed - earlier.passed

theorem After.refl (r : Reading) : After r r :=
  ⟨Nat.le_refl _, Nat.le_refl _, fun _ => by omega, fun h => absurd rfl h⟩

theorem After.trans {a b c : Reading} (h : After a b) (h' : After b c) : After a c where
  passed := Nat.le_trans h'.passed h.passed
  resets := Nat.le_trans h'.resets h.resets
  kept he := by
    have hr := h.resets
    have hr' := h'.resets
    have hk := h.kept (by omega)
    have hk' := h'.kept (by omega)
    have hp := h.passed
    have hp' := h'.passed
    omega
  lost hne := by
    have hp := h.passed
    have hp' := h'.passed
    by_cases he : a.resets = b.resets
    · have hk := h.kept he
      have hl := h'.lost (by omega)
      omega
    · have hl := h.lost he
      omega

/-- `n` units pass. -/
def count (r : Reading) (n : Nat) : Reading :=
  ⟨r.value + n, r.passed + n, r.resets, Nat.add_le_add_right r.value_le n⟩

def reset (r : Reading) : Reading := ⟨0, r.passed, r.resets + 1, Nat.zero_le _⟩

theorem after_count (r : Reading) (n : Nat) : After (r.count n) r :=
  ⟨Nat.le_add_right _ _, Nat.le_refl _, fun _ => by simp only [count]; omega,
    fun h => absurd rfl h⟩

theorem after_reset (r : Reading) : After r.reset r :=
  ⟨Nat.le_refl _, Nat.le_succ _, fun h => absurd h (Nat.succ_ne_self _), fun _ => Nat.zero_le _⟩

/-- The growth of one reading over another is no more than what passed in between. -/
theorem After.growth_le {a b : Reading} (h : After a b) :
    a.value - b.value ≤ a.passed - b.passed := by
  by_cases he : a.resets = b.resets
  · have hk := h.kept he
    omega
  · have hl := h.lost he
    omega

end Reading

/-! ## Increments -/

/-- The growth over the value before, if there is one. -/
def incrementOver (prev : Option Nat) (value : Nat) : Nat :=
  match prev with
  | none => 0
  | some p => value - p

def increments : List Nat → List Nat
  | [] => []
  | c :: cs => incrementOver cs.head? c :: increments cs

theorem incrementOver_le (prev : Option Nat) (value : Nat) : incrementOver prev value ≤ value := by
  cases prev with
  | none => exact Nat.zero_le _
  | some p => exact Nat.sub_le _ _

section Sums

variable {r : Reading} {rs : List Reading}

theorem after_getLast (h : (r :: rs).IsChain Reading.After) :
    r.After ((r :: rs).getLast (List.cons_ne_nil r rs)) := by
  induction rs generalizing r with
  | nil => exact .refl r
  | cons p rs ih =>
    rw [List.isChain_cons_cons] at h
    rw [List.getLast_cons_cons]
    exact h.1.trans (ih h.2)

theorem sum_increments_le (h : (r :: rs).IsChain Reading.After) :
    (increments ((r :: rs).map Reading.value)).sum +
      ((r :: rs).getLast (List.cons_ne_nil r rs)).passed ≤ r.passed := by
  induction rs generalizing r with
  | nil => simp [increments, incrementOver]
  | cons p rs ih =>
    rw [List.isChain_cons_cons] at h
    have ih := ih h.2
    have hg := h.1.growth_le
    have hp := h.1.passed
    simp only [List.map_cons, increments, List.head?_cons, incrementOver, List.sum_cons,
      List.getLast_cons_cons] at ih ⊢
    omega

/-- **The increments are the last value less the first exactly when no value fell.** -/
theorem sum_increments_eq_iff (c : Nat) (cs : List Nat) :
    c ≤ (increments (c :: cs)).sum + (c :: cs).getLast (List.cons_ne_nil c cs) ∧
      ((increments (c :: cs)).sum + (c :: cs).getLast (List.cons_ne_nil c cs) = c ↔
        (c :: cs).IsChain (fun later earlier => earlier ≤ later)) := by
  induction cs generalizing c with
  | nil => simp [increments, incrementOver]
  | cons p cs ih =>
    obtain ⟨hle, heq⟩ := ih p
    rw [List.isChain_cons_cons, ← heq]
    simp only [increments, List.head?_cons, incrementOver, List.sum_cons,
      List.getLast_cons_cons] at hle ⊢
    constructor
    · omega
    · omega

theorem isChain_value_of_no_reset (h : (r :: rs).IsChain Reading.After)
    (hr : r.resets = ((r :: rs).getLast (List.cons_ne_nil r rs)).resets) :
    ((r :: rs).map Reading.value).IsChain (fun later earlier => earlier ≤ later) := by
  induction rs generalizing r with
  | nil => exact .singleton _
  | cons p rs ih =>
    rw [List.isChain_cons_cons] at h
    rw [List.getLast_cons_cons] at hr
    have hlast := (after_getLast h.2).resets
    have hres := h.1.resets
    have hk := h.1.kept (by omega)
    rw [List.map_cons, List.map_cons, List.isChain_cons_cons]
    refine ⟨by omega, ih h.2 (by omega)⟩

end Sums

/-! ## What an increment counts -/

/-- The units an increment stands for: the newest ones the reading saw. -/
def countedBy (r : Reading) (n : Nat) : Finset Nat := Finset.Ico (r.passed - n) r.passed

def counted (rs : List Reading) : List (Finset Nat) :=
  List.zipWith countedBy rs (increments (rs.map Reading.value))

theorem card_counted (rs : List Reading) :
    (counted rs).map Finset.card = increments (rs.map Reading.value) := by
  induction rs with
  | nil => rfl
  | cons r rs ih =>
    have hv := r.value_le
    have hle := incrementOver_le (rs.map Reading.value).head? r.value
    have ih : (List.zipWith countedBy rs (increments (rs.map Reading.value))).map Finset.card =
        increments (rs.map Reading.value) := ih
    simp only [counted, List.map_cons, increments, List.zipWith_cons_cons, ih, countedBy,
      Nat.card_Ico, List.cons.injEq, and_true]
    omega

/-- An increment counts units the reading saw. -/
theorem counted_subset (rs : List Reading) :
    List.Forall₂ (fun units r => units ⊆ countedBy r r.value) (counted rs) rs := by
  induction rs with
  | nil => exact .nil
  | cons r rs ih =>
    refine .cons ?_ ih
    have hle := incrementOver_le (rs.map Reading.value).head? r.value
    exact Finset.Ico_subset_Ico (by omega) (Nat.le_refl _)

/-- Every unit counted by older readings had passed at the reading before. -/
theorem lt_passed_of_mem_counted {r : Reading} {rs : List Reading}
    (h : (r :: rs).IsChain Reading.After) {units : Finset Nat} (hu : units ∈ counted (r :: rs))
    {n : Nat} (hn : n ∈ units) : n < r.passed := by
  induction rs generalizing r with
  | nil =>
    simp only [counted, List.map_cons, List.map_nil, increments, List.zipWith_cons_cons,
      List.zipWith_nil_right, List.mem_singleton] at hu
    subst hu
    exact (Finset.mem_Ico.mp hn).2
  | cons p rs ih =>
    rw [List.isChain_cons_cons] at h
    have hcons : counted (r :: p :: rs) =
        countedBy r (r.value - p.value) :: counted (p :: rs) := rfl
    rw [hcons] at hu
    rcases List.mem_cons.mp hu with rfl | hu
    · exact (Finset.mem_Ico.mp hn).2
    · have hp := ih h.2 hu
      have hpassed := h.1.passed
      omega

/-- **No unit is counted twice.** -/
theorem counted_pairwise {rs : List Reading} (h : rs.IsChain Reading.After) :
    (counted rs).Pairwise Disjoint := by
  induction rs with
  | nil => exact .nil
  | cons r rs ih =>
    cases rs with
    | nil => exact List.pairwise_singleton _ _
    | cons p rs =>
      rw [List.isChain_cons_cons] at h
      refine List.pairwise_cons.mpr ⟨fun units hu => ?_, ih h.2⟩
      rw [Finset.disjoint_left]
      intro n hn hm
      have hlt := lt_passed_of_mem_counted h.2 hu hm
      have hge : r.passed - (r.value - p.value) ≤ n := (Finset.mem_Ico.mp hn).1
      have hgrowth := h.1.growth_le
      have hpassed := h.1.passed
      omega
