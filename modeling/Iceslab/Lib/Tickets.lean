import Mathlib.Data.List.Perm.Basic
import Mathlib.Data.List.Range

/-!
# Tickets of a counter

Whoever increments a counter holds the number it came to: the numbers held are the first ones, each
once, whatever the order they were taken in.

* `List.exists_perm_set` — one place of a list set, the others as they were.
* `Numbered` — the numbers held of a counter.
* `Numbered.take` — the next one.
* `Numbered.countP_le`, `Numbered.surplus` — how many hold one up to a cap, and how far past it.
* `Numbered.count_mem` — the last number is held.
-/

set_option autoImplicit false

/-- A place of a list, taken out and put back. -/
theorem List.exists_perm_set {α : Type*} {l : List α} {i : Nat} {a : α} (h : l[i]? = some a) :
    ∃ rest, l.Perm (a :: rest) ∧ ∀ b, (l.set i b).Perm (b :: rest) := by
  obtain ⟨hi, rfl⟩ := List.getElem?_eq_some_iff.mp h
  exact ⟨l.eraseIdx i, (List.getElem_cons_eraseIdx_perm hi).symm,
    fun b => List.set_perm_cons_eraseIdx hi b⟩

/-- Those that a predicate picks each hold a number that another picks. -/
theorem List.countP_le_filterMap {α β : Type*} {l : List α} {f : α → Option β} {p : α → Bool}
    {q : β → Bool} (h : ∀ a ∈ l, p a = true → ∃ b, f a = some b ∧ q b = true) :
    l.countP p ≤ (l.filterMap f).countP q := by
  induction l with
  | nil => exact Nat.le_refl 0
  | cons a l ih =>
    have hl := ih fun a' ha' => h a' (List.mem_cons_of_mem a ha')
    rw [List.countP_cons]
    by_cases ha : p a = true
    · obtain ⟨b, hb, hq⟩ := h a List.mem_cons_self ha
      rw [List.filterMap_cons_some hb, List.countP_cons, if_pos ha, if_pos hq]
      exact Nat.add_le_add_right hl 1
    · rw [if_neg ha]
      refine hl.trans ?_
      cases hb : f a with
      | none => rw [List.filterMap_cons_none hb]
      | some b =>
        rw [List.filterMap_cons_some hb, List.countP_cons]
        exact Nat.le_add_right _ _

/-- The numbers given out are `1` to `n`. -/
def Numbered (held : List Nat) (n : Nat) : Prop := held.Perm (List.range' 1 n)

namespace Numbered

variable {held : List Nat} {n cap : Nat}

theorem nil : Numbered [] 0 := List.Perm.refl _

theorem take (h : Numbered held n) : Numbered ((n + 1) :: held) (n + 1) := by
  unfold Numbered
  rw [List.range'_concat]
  have hlast : (List.range' 1 n ++ [1 + 1 * n]).Perm ((n + 1) :: List.range' 1 n) := by
    rw [Nat.one_mul, Nat.add_comm 1 n]
    exact List.perm_append_comm
  exact (h.cons (n + 1)).trans hlast.symm

theorem length (h : Numbered held n) : held.length = n := by
  rw [List.Perm.length_eq h, List.length_range']

theorem mem_iff (h : Numbered held n) {k : Nat} : k ∈ held ↔ 1 ≤ k ∧ k ≤ n := by
  rw [List.Perm.mem_iff h, List.mem_range'_1]
  omega

theorem count_mem (h : Numbered held n) (hn : 0 < n) : n ∈ held := h.mem_iff.mpr ⟨hn, Nat.le_refl n⟩

theorem countP_range' (n cap : Nat) :
    (List.range' 1 n).countP (fun k => decide (k ≤ cap)) = min n cap := by
  induction n with
  | zero => simp
  | succ n ih =>
    rw [List.range'_concat, List.countP_append, ih, List.countP_singleton]
    split
    · rename_i hle
      have := of_decide_eq_true hle
      omega
    · rename_i hle
      have : ¬ 1 + 1 * n ≤ cap := by simpa using hle
      omega

theorem countP_le (h : Numbered held n) (cap : Nat) :
    held.countP (fun k => decide (k ≤ cap)) = min n cap := by
  rw [List.Perm.countP_eq _ h, countP_range']

/-- How far past the cap a number is. -/
def past (cap k : Nat) : Option Nat := if cap < k then some (k - cap) else none

theorem filterMap_past_range' (n cap : Nat) :
    (List.range' 1 n).filterMap (past cap) = List.range' 1 (n - cap) := by
  induction n with
  | zero => simp
  | succ n ih =>
    rw [List.range'_concat, List.filterMap_append, ih]
    by_cases hcap : cap < 1 + 1 * n
    · have hsub : n + 1 - cap = n - cap + 1 := by omega
      have hlast : 1 + 1 * n - cap = 1 + 1 * (n - cap) := by omega
      rw [hsub, List.range'_concat, List.filterMap_cons, past, if_pos hcap, hlast]
      rfl
    · have hsub : n + 1 - cap = n - cap := by omega
      rw [hsub, List.filterMap_cons, past, if_neg hcap]
      exact List.append_nil _

/-- The numbers past the cap are the first ones again. -/
theorem surplus (h : Numbered held n) (cap : Nat) :
    Numbered (held.filterMap (past cap)) (n - cap) := by
  unfold Numbered
  rw [← filterMap_past_range']
  exact List.Perm.filterMap _ h

end Numbered
