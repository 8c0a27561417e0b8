import Mathlib.Data.List.Sort
import Mathlib.Data.List.Rotate

/-!
# Rendezvous hashing

Candidates in the order of their scores, and things dealt to them: the thing of number `n` goes to
the first candidate from place `n` on, round the order, that may hold it.

* `order` — highest score first, ties by a second key; `order_congr`: a function of the set.
* `dealt` — who holds; `dealt_isSome`: somebody does, where somebody may.
-/

set_option autoImplicit false

namespace Rendezvous

variable {κ σ τ : Type*} [LinearOrder σ] [LinearOrder τ] (score : κ → σ) (tie : κ → τ)

/-- `a` does not come after `b`. -/
def Before (a b : κ) : Prop := score b < score a ∨ score a = score b ∧ tie a ≤ tie b

instance (a b : κ) : Decidable (Before score tie a b) := inferInstanceAs (Decidable (_ ∨ _))

/-- The candidates, highest score first. -/
def order (keys : List κ) : List κ := keys.insertionSort (Before score tie)

@[simp] theorem mem_order {keys : List κ} {k : κ} : k ∈ order score tie keys ↔ k ∈ keys :=
  List.mem_insertionSort _

theorem order_perm (keys : List κ) : (order score tie keys).Perm keys :=
  List.perm_insertionSort _ keys

theorem before_total (a b : κ) : Before score tie a b ∨ Before score tie b a := by
  unfold Before
  rcases lt_trichotomy (score a) (score b) with h | h | h
  · exact .inr (.inl h)
  · rcases le_total (tie a) (tie b) with ht | ht
    · exact .inl (.inr ⟨h, ht⟩)
    · exact .inr (.inr ⟨h.symm, ht⟩)
  · exact .inl (.inl h)

theorem before_trans {a b c : κ} (hab : Before score tie a b) (hbc : Before score tie b c) :
    Before score tie a c := by
  rcases hab with hab | ⟨hab, htab⟩
  · rcases hbc with hbc | ⟨hbc, -⟩
    · exact .inl (hbc.trans hab)
    · exact .inl (hbc ▸ hab)
  · rcases hbc with hbc | ⟨hbc, htbc⟩
    · exact .inl (hab ▸ hbc)
    · exact .inr ⟨hab.trans hbc, htab.trans htbc⟩

theorem before_antisymm (htie : Function.Injective tie) {a b : κ} (hab : Before score tie a b)
    (hba : Before score tie b a) : a = b := by
  rcases hab with hab | ⟨hab, htab⟩
  · rcases hba with hba | ⟨hba, -⟩
    · exact absurd hab (not_lt_of_gt hba)
    · exact absurd (hba ▸ hab) (lt_irrefl _)
  · rcases hba with hba | ⟨-, htba⟩
    · exact absurd (hab ▸ hba) (lt_irrefl _)
    · exact htie (le_antisymm htab htba)

theorem pairwise_order (keys : List κ) : (order score tie keys).Pairwise (Before score tie) := by
  have : Std.Total (Before score tie) := ⟨before_total score tie⟩
  have : IsTrans κ (Before score tie) := ⟨fun _ _ _ => before_trans score tie⟩
  exact List.pairwise_insertionSort (Before score tie) keys

/-- **The order is a function of the set of candidates**, not of the list they came in. -/
theorem order_congr (htie : Function.Injective tie) {keys keys' : List κ} (h : keys.Nodup)
    (h' : keys'.Nodup) (hmem : ∀ k, k ∈ keys ↔ k ∈ keys') :
    order score tie keys = order score tie keys' := by
  have hperm : keys.Perm keys' := (List.perm_ext_iff_of_nodup h h').mpr hmem
  refine List.Perm.eq_of_pairwise (fun a b _ _ => before_antisymm score tie htie)
    (pairwise_order score tie keys) (pairwise_order score tie keys') ?_
  exact (order_perm score tie keys).trans (hperm.trans (order_perm score tie keys').symm)

/-- The first of `order` from place `n` on, round it, that may hold. -/
def dealt (order : List κ) (n : Nat) (may : κ → Bool) : Option κ :=
  (order.rotate (n % order.length)).find? may

variable {order : List κ} {n : Nat} {may : κ → Bool} {k : κ}

theorem may_of_dealt (h : dealt order n may = some k) : may k = true :=
  List.find?_some h

theorem mem_of_dealt (h : dealt order n may = some k) : k ∈ order :=
  List.mem_rotate.mp (List.mem_of_find?_eq_some h)

/-- **Somebody holds**, where somebody may. -/
theorem dealt_isSome (hk : k ∈ order) (hmay : may k = true) :
    ∃ holder, dealt order n may = some holder := by
  refine Option.isSome_iff_exists.mp (List.find?_isSome.mpr ⟨k, ?_, hmay⟩)
  exact List.mem_rotate.mpr hk

theorem dealt_congr {may' : κ → Bool} (h : ∀ k, may k = may' k) :
    dealt order n may = dealt order n may' := by
  rw [funext h]

end Rendezvous
