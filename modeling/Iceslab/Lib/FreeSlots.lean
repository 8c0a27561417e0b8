import Mathlib.Data.List.Nodup
import Mathlib.Data.List.Perm.Basic

/-!
# The free ones of numbered slots

Slots `0, 1, …` with names of their own, some of them taken.

* `take_free_of_le` — the first `n` free ones lie among as many slots as are taken and `n` more, so a
  scan may stop there.
* `free_below` — the first free ones leave no free one out below them.
* `length_free_add` — how many are free, told from how many names are taken.
-/

set_option autoImplicit false

namespace FreeSlots

variable {α : Type*} {name : Nat → α} {taken : List α} {k l n i j : Nat} {x : α}

/-- No two of the first `k` slots have one name. -/
def Apart (name : Nat → α) (k : Nat) : Prop := ∀ i j, i < k → j < k → name i = name j → i = j

theorem Apart.mono (h : Apart name l) (hkl : k ≤ l) : Apart name k :=
  fun i j hi hj => h i j (by omega) (by omega)

theorem nodup_names (h : Apart name k) : ((List.range k).map name).Nodup := by
  refine List.Nodup.map_on ?_ List.nodup_range
  intro i hi j hj
  exact h i j (by simpa using hi) (by simpa using hj)

variable [DecidableEq α]

/-- The free ones of the first `k` slots, in order. -/
def free (name : Nat → α) (taken : List α) (k : Nat) : List α :=
  ((List.range k).map name).filter fun x => decide (x ∉ taken)

theorem mem_free : x ∈ free name taken k ↔ (∃ i < k, name i = x) ∧ x ∉ taken := by
  simp [free]

theorem free_add (k l : Nat) : free name taken (k + l) =
    free name taken k ++ ((List.range' k l).map name).filter fun x => decide (x ∉ taken) := by
  unfold free
  rw [List.range_add, List.map_append, List.filter_append, List.range'_eq_map_range]

/-- The taken slots are no more than the names taken. -/
theorem length_le_free_add (h : Apart name k) : k ≤ (free name taken k).length + taken.length := by
  have hsplit := List.length_eq_length_filter_add (l := (List.range k).map name)
    fun x => decide (x ∉ taken)
  have htaken : (((List.range k).map name).filter fun x => !decide (x ∉ taken)).length ≤
      taken.length := by
    refine (List.subperm_of_subset ((nodup_names h).filter _) ?_).length_le
    intro x hx
    simpa using (List.mem_filter.mp hx).2
  simp only [List.length_map, List.length_range] at hsplit
  unfold free
  omega

/-- **A scan of as many slots as are taken and `n` more finds the first `n` free ones.** -/
theorem take_free_of_le (h : Apart name l) (hk : taken.length + n ≤ k) (hkl : k ≤ l) :
    (free name taken k).take n = (free name taken l).take n := by
  obtain ⟨m, rfl⟩ := Nat.exists_eq_add_of_le hkl
  have hlen : k ≤ (free name taken k).length + taken.length := length_le_free_add (h.mono hkl)
  rw [free_add, List.take_append_of_le_length (by omega)]

/-- **The first free ones leave no free one out below them.** -/
theorem free_below (h : Apart name k) (hx : name i ∈ (free name taken k).take n) (hi : i < k)
    (hj : j < i) (hfree : name j ∉ taken) : name j ∈ (free name taken k).take n := by
  obtain ⟨m, rfl⟩ := Nat.exists_eq_add_of_le (Nat.le_of_lt hi)
  rw [free_add] at hx ⊢
  have hbelow : name j ∈ free name taken i := mem_free.mpr ⟨⟨j, hj, rfl⟩, hfree⟩
  by_cases hn : n ≤ (free name taken i).length
  · rw [List.take_append_of_le_length hn] at hx
    obtain ⟨⟨i', hi', heq⟩, -⟩ := mem_free.mp (List.mem_of_mem_take hx)
    have := h i' i (by omega) hi heq
    omega
  · rw [List.take_append, List.take_of_length_le (by omega)]
    exact List.mem_append_left _ hbelow

/-- The names taken that no slot has. -/
def outside (name : Nat → α) (taken : List α) (k : Nat) : List α :=
  taken.filter fun x => decide (x ∉ (List.range k).map name)

/-- **The names taken fill the slots that are not free, but for those outside.** -/
theorem length_free_add (h : Apart name k) (ht : taken.Nodup) :
    (free name taken k).length + taken.length = k + (outside name taken k).length := by
  have hslots := List.length_eq_length_filter_add (l := (List.range k).map name)
    fun x => decide (x ∉ taken)
  have htaken := List.length_eq_length_filter_add (l := taken)
    fun x => decide (x ∉ (List.range k).map name)
  have hperm : (((List.range k).map name).filter fun x => !decide (x ∉ taken)).Perm
      (taken.filter fun x => !decide (x ∉ (List.range k).map name)) := by
    refine (List.perm_ext_iff_of_nodup ((nodup_names h).filter _) (ht.filter _)).mpr ?_
    intro x
    simp only [List.mem_filter, decide_not, Bool.not_not, decide_eq_true_eq]
    exact and_comm
  have := hperm.length_eq
  simp only [List.length_map, List.length_range] at hslots
  unfold free outside
  omega

end FreeSlots
