import Mathlib.Data.List.Nodup

/-!
# Tables of named rules

A table of rules read at one input is a list of names with whether each is broken.

* `broken` — the names of the broken ones, in the order of the table.
* `broken_inj` — two tables over one list of names answer the same only where every rule does.
-/

set_option autoImplicit false

namespace RuleTable

variable {ν : Type*} {l l' : List (ν × Bool)}

def broken (l : List (ν × Bool)) : List ν := (l.filter (·.2)).map (·.1)

theorem mem_of_mem_broken {n : ν} (h : n ∈ broken l) : n ∈ l.map (·.1) :=
  (List.filter_sublist.map _).subset h

theorem broken_eq_nil : broken l = [] ↔ ∀ p ∈ l, p.2 = false := by
  simp [broken, List.filter_eq_nil_iff]

/-- A name that stands once is answered by its own rule only. -/
theorem broken_inj (hn : l.map (·.1) = l'.map (·.1)) (hd : (l.map (·.1)).Nodup) :
    broken l = broken l' ↔ l = l' := by
  constructor
  swap
  · rintro rfl
    rfl
  intro h
  induction l generalizing l' with
  | nil =>
    cases l' with
    | nil => rfl
    | cons p l' => cases hn
  | cons p l ih =>
    cases l' with
    | nil => cases hn
    | cons p' l' =>
      obtain ⟨n, b⟩ := p
      obtain ⟨n', b'⟩ := p'
      simp only [List.map_cons, List.cons.injEq] at hn
      obtain ⟨rfl, hn⟩ := hn
      rw [List.map_cons, List.nodup_cons] at hd
      have hout : n ∉ broken l ∧ n ∉ broken l' :=
        ⟨fun hm => hd.1 (mem_of_mem_broken hm), fun hm => hd.1 (hn ▸ mem_of_mem_broken hm)⟩
      have hcons (c : Bool) (r : List (ν × Bool)) :
          broken ((n, c) :: r) = if c then n :: broken r else broken r := by
        cases c <;> rfl
      rw [hcons, hcons] at h
      cases b with
      | true =>
        cases b' with
        | true =>
          simp only [if_true, List.cons.injEq, true_and] at h
          rw [ih hn hd.2 h]
        | false =>
          refine absurd ?_ hout.2
          simp only [Bool.false_eq_true, if_false, if_true] at h
          exact h ▸ List.mem_cons_self
      | false =>
        cases b' with
        | true =>
          refine absurd ?_ hout.1
          simp only [Bool.false_eq_true, if_false, if_true] at h
          exact h ▸ List.mem_cons_self
        | false => rw [ih hn hd.2 h]

end RuleTable
