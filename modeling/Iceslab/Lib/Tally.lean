import Iceslab.Lib.OrderedMap
import Mathlib.Algebra.BigOperators.Group.List.Basic
import Mathlib.Data.List.Sort

/-!
# Sums by key, and rows in the order of a key

A loop that adds each element's share to what its key has, and the rows such a map is written out
in.

* `OrderedMap.tally` — the loop.  `get?_tally`: a key has the sum of its elements' shares.
* `SortedRows.sortOn` — rows of distinct keys, sorted: strictly increasing, and a function of the
  set of rows alone (`sortOn_congr`).
* `OrderedMap.entries_perm` — two maps that read the same hold the same entries.
-/

set_option autoImplicit false

/-! ## Rows -/

namespace SortedRows

variable {ρ γ : Type*} [LinearOrder γ] (key : ρ → γ) {rows rows' : List ρ}

def sortOn (rows : List ρ) : List ρ := rows.insertionSort fun a b => key a ≤ key b

theorem perm_sortOn (rows : List ρ) : (sortOn key rows).Perm rows := List.perm_insertionSort _ rows

@[simp] theorem mem_sortOn {r : ρ} : r ∈ sortOn key rows ↔ r ∈ rows :=
  (perm_sortOn key rows).mem_iff

theorem sortOn_le (rows : List ρ) : (sortOn key rows).Pairwise fun a b => key a ≤ key b := by
  have : Std.Total fun a b : ρ => key a ≤ key b := ⟨fun a b => le_total (key a) (key b)⟩
  have : IsTrans ρ fun a b => key a ≤ key b := ⟨fun _ _ _ => le_trans⟩
  exact List.pairwise_insertionSort (fun a b => key a ≤ key b) rows

theorem sortOn_lt (h : (rows.map key).Nodup) : ((sortOn key rows).map key).Pairwise (· < ·) := by
  have hnodup : ((sortOn key rows).map key).Nodup :=
    ((perm_sortOn key rows).map key).nodup_iff.mpr h
  have hle : ((sortOn key rows).map key).Pairwise (· ≤ ·) :=
    List.pairwise_map.mpr (sortOn_le key rows)
  exact hle.imp₂ (fun _ _ hle hne => lt_of_le_of_ne hle hne) hnodup

theorem sortOn_congr (h : (rows.map key).Nodup) (hperm : rows.Perm rows') :
    sortOn key rows = sortOn key rows' := by
  have hperm' : (sortOn key rows).Perm (sortOn key rows') :=
    ((perm_sortOn key rows).trans hperm).trans (perm_sortOn key rows').symm
  refine hperm'.eq_of_pairwise (fun a b ha hb hab hba => ?_) (sortOn_le key rows)
    (sortOn_le key rows')
  exact List.inj_on_of_nodup_map h ((mem_sortOn key).mp ha)
    (hperm.mem_iff.mpr ((mem_sortOn key).mp hb)) (le_antisymm hab hba)

end SortedRows

/-! ## Sums -/

namespace OrderedMap

variable {κ ν α : Type*} [DecidableEq κ]

theorem entries_perm {m m' : OrderedMap κ ν} (h : ∀ k, m.get? k = m'.get? k) :
    m.entries.Perm m'.entries := by
  refine (List.perm_ext_iff_of_nodup m.nodup.of_map m'.nodup.of_map).mpr fun e => ?_
  rw [← get?_eq_some_iff m e.1 e.2, ← get?_eq_some_iff m' e.1 e.2, h]

section Tally

theorem sum_map_filter [AddCommMonoid ν] (f : α → ν) (p : α → Bool) {l : List α}
    (h : ∀ a ∈ l, p a = false → f a = 0) : ((l.filter p).map f).sum = (l.map f).sum := by
  induction l with
  | nil => rfl
  | cons a l ih =>
    have ih := ih fun b hb => h b (List.mem_cons_of_mem a hb)
    by_cases hp : p a = true
    · rw [List.filter_cons_of_pos hp, List.map_cons, List.sum_cons, ih, List.map_cons,
        List.sum_cons]
    · rw [List.filter_cons_of_neg hp, ih, List.map_cons, List.sum_cons,
        h a List.mem_cons_self (by simpa using hp), zero_add]

variable [AddCommMonoid ν] (key : α → κ) (share : α → ν)

/-- `m.set(key(a), (m.get(key(a)) ?? 0) + share(a))` for each element. -/
def tally (l : List α) : OrderedMap κ ν := collect key (fun o a => o.getD 0 + share a) l

theorem foldl_share (l : List α) (v : ν) :
    l.foldl (fun (o : Option ν) a => some (o.getD 0 + share a)) (some v) =
      some (v + (l.map share).sum) := by
  induction l generalizing v with
  | nil => simp
  | cons a l ih => simp [ih, add_assoc]

theorem mem_keys_tally {l : List α} {k : κ} : k ∈ (tally key share l).keys ↔ ∃ a ∈ l, key a = k :=
  mem_keys_collect key _ l k

/-- **A key has the sum of its elements' shares.** -/
theorem get?_tally (l : List α) (k : κ) :
    (tally key share l).get? k =
      if ∃ a ∈ l, key a = k then some (((l.filter (fun a => decide (key a = k))).map share).sum)
      else none := by
  split
  · rename_i h
    obtain ⟨a, ha, hk⟩ := h
    rw [tally, get?_collect]
    cases hown : l.filter (fun a => decide (key a = k)) with
    | nil => exact absurd hk (by simpa using List.filter_eq_nil_iff.mp hown a ha)
    | cons b own => simp [foldl_share]
  · rename_i h
    exact (get?_eq_none_iff _ k).mpr fun hmem => h ((mem_keys_tally key share).mp hmem)

theorem get?_tally_perm {l l' : List α} (h : l.Perm l') (k : κ) :
    (tally key share l).get? k = (tally key share l').get? k := by
  rw [get?_tally, get?_tally, ((h.filter _).map share).sum_eq]
  simp only [h.mem_iff]

end Tally

end OrderedMap
