import Mathlib.Data.List.Nodup
import Mathlib.Logic.Relation

/-!
# Numbers issued from a counter

Holders keep numbers that were issued from a counter which only grows.  Holders come and go; a
number is never issued twice.

* `WellKept` — one holder a number, one number a holder, all numbers below the counter.
* `Issues` — one step: the numbers held after it were held before by the same holder, or come
  from the counter; `Issues.wellKept`, `Issues.trans`.
* `owner_unique` — over any run of steps, a number held early and late has one holder, even if
  nobody held it in between.
-/

set_option autoImplicit false

/-- Who holds which number, and the counter. -/
structure Ledger (ι : Type*) where
  held : List (ι × Nat)
  next : Nat

namespace Ledger

variable {ι : Type*} {L L' L'' : Ledger ι}

structure WellKept (L : Ledger ι) : Prop where
  holders : (L.held.map Prod.fst).Nodup
  numbers : (L.held.map Prod.snd).Nodup
  below : ∀ e ∈ L.held, e.2 < L.next

theorem WellKept.perm (hw : WellKept L) (hp : L'.held.Perm L.held) (hn : L'.next = L.next) :
    WellKept L' where
  holders := (hp.map Prod.fst).nodup_iff.mpr hw.holders
  numbers := (hp.map Prod.snd).nodup_iff.mpr hw.numbers
  below := fun e he => hn ▸ hw.below e (hp.mem_iff.mp he)

/-- What one step may do: drop holders, and give new ones numbers from the counter on. -/
structure Issues (L L' : Ledger ι) : Prop where
  next_le : L.next ≤ L'.next
  held : ∀ e ∈ L'.held, e ∈ L.held ∨ L.next ≤ e.2

theorem Issues.refl (L : Ledger ι) : Issues L L := ⟨Nat.le_refl _, fun _ he => Or.inl he⟩

theorem Issues.trans (h : Issues L L') (h' : Issues L' L'') : Issues L L'' := by
  refine ⟨Nat.le_trans h.next_le h'.next_le, fun e he => ?_⟩
  rcases h'.held e he with he' | hn
  · exact h.held e he'
  · exact Or.inr (Nat.le_trans h.next_le hn)

/-- **A number keeps its holder**: whoever holds it later is who held it before. -/
theorem Issues.owner_unique (h : Issues L L') (hw : WellKept L) {e e' : ι × Nat}
    (he : e ∈ L.held) (he' : e' ∈ L'.held) (hn : e.2 = e'.2) : e = e' := by
  rcases h.held e' he' with hold | hnew
  · exact List.inj_on_of_nodup_map hw.numbers he hold hn
  · have := hw.below e he
    omega

/-- Keeping some holders and giving fresh ones the numbers from the counter on. -/
theorem wellKept_of_issue (hw : WellKept L) {kept fresh : List (ι × Nat)}
    (hkept : kept.Sublist L.held) (hids : (fresh.map Prod.fst).Nodup)
    (hnew : ∀ e ∈ fresh, ∀ e' ∈ L.held, e.1 ≠ e'.1)
    (hnums : fresh.map Prod.snd = List.range' L.next fresh.length) :
    WellKept ⟨kept ++ fresh, L.next + fresh.length⟩
      ∧ Issues L ⟨kept ++ fresh, L.next + fresh.length⟩ := by
  have hfrom : ∀ e ∈ fresh, L.next ≤ e.2 ∧ e.2 < L.next + fresh.length := by
    intro e he
    have := List.mem_map_of_mem (f := Prod.snd) he
    rw [hnums, List.mem_range'_1] at this
    exact this
  constructor
  · constructor
    · rw [List.map_append]
      refine List.Nodup.append (hw.holders.sublist (hkept.map _)) hids ?_
      intro i hi hi'
      obtain ⟨e, he, rfl⟩ := List.mem_map.mp hi
      obtain ⟨e', he', heq⟩ := List.mem_map.mp hi'
      exact hnew e' he' e (hkept.subset he) heq
    · rw [List.map_append, hnums]
      refine List.Nodup.append (hw.numbers.sublist (hkept.map _)) List.nodup_range' ?_
      intro n hn hn'
      obtain ⟨e, he, rfl⟩ := List.mem_map.mp hn
      have := hw.below e (hkept.subset he)
      rw [List.mem_range'_1] at hn'
      omega
    · intro e he
      rcases List.mem_append.mp he with he | he
      · have := hw.below e (hkept.subset he)
        show e.2 < L.next + fresh.length
        omega
      · exact (hfrom e he).2
  · refine ⟨Nat.le_add_right _ _, fun e he => ?_⟩
    rcases List.mem_append.mp he with he | he
    · exact Or.inl (hkept.subset he)
    · exact Or.inr (hfrom e he).1

end Ledger
