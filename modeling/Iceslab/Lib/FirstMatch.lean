import Mathlib.Data.List.Basic

/-!
# First match wins

A rule list decides an input by its first rule that matches.  `verdict` is the action of that
rule, `none` when no rule matches.

* `verdict_append` — reading a list in pieces.
* `verdict_const` — rules of one action: only whether one of them matches is left.
* `verdict_flatMap` — a rule may be replaced, where it stands, by several rules that together
  match what it should match: the list then decides by the new condition.
-/

set_option autoImplicit false

namespace FirstMatch

variable {R S A : Type*} {l : List R}

/-- The action of the first rule that matches. -/
def verdict (m : R → Bool) (act : R → A) (l : List R) : Option A := (l.find? m).map act

section Reading

variable (m : R → Bool) (act : R → A)

@[simp] theorem verdict_nil : verdict m act [] = none := rfl

theorem verdict_cons (r : R) (l : List R) :
    verdict m act (r :: l) = if m r then some (act r) else verdict m act l := by
  cases h : m r <;> simp [verdict, h]

theorem verdict_append (l₁ l₂ : List R) :
    verdict m act (l₁ ++ l₂) = (verdict m act l₁).or (verdict m act l₂) := by
  simp only [verdict, List.find?_append]
  cases l₁.find? m <;> rfl

end Reading

theorem verdict_congr {m m' : R → Bool} {act act' : R → A}
    (hm : ∀ r ∈ l, m r = m' r) (ha : ∀ r ∈ l, act r = act' r) :
    verdict m act l = verdict m' act' l := by
  induction l with
  | nil => rfl
  | cons r l ih =>
    rw [verdict_cons, verdict_cons, hm r List.mem_cons_self, ha r List.mem_cons_self,
      ih (fun x hx => hm x (List.mem_cons_of_mem r hx))
        (fun x hx => ha x (List.mem_cons_of_mem r hx))]

/-- Rules of one action decide by whether one of them matches. -/
theorem verdict_const {m : R → Bool} {act : R → A} {a : A}
    (h : ∀ r ∈ l, act r = a) : verdict m act l = if l.any m then some a else none := by
  induction l with
  | nil => rfl
  | cons r l ih =>
    rw [verdict_cons, ih (fun x hx => h x (List.mem_cons_of_mem r hx)), h r List.mem_cons_self]
    cases hr : m r <;> simp [hr]

/-- **Splitting rules in place.** -/
theorem verdict_flatMap {m : S → Bool} {act : S → A} {q : R → Bool} {act' : R → A}
    {split : R → List S}
    (h : ∀ r ∈ l, verdict m act (split r) = if q r then some (act' r) else none) :
    verdict m act (l.flatMap split) = verdict q act' l := by
  induction l with
  | nil => rfl
  | cons r l ih =>
    rw [List.flatMap_cons, verdict_append, verdict_cons, h r List.mem_cons_self,
      ih (fun x hx => h x (List.mem_cons_of_mem r hx))]
    cases q r <;> rfl

theorem verdict_filter (m p : R → Bool) (act : R → A) (l : List R) :
    verdict m act (l.filter p) = verdict (fun r => p r && m r) act l := by
  induction l with
  | nil => rfl
  | cons r l ih =>
    cases hp : p r <;> simp [hp, verdict_cons, ih]

end FirstMatch
