import Mathlib.Data.List.Basic

/-!
# Rules that run in order

A rule list run over a state: a rule lets the run go on, in the same state or in another, or ends
it with a decision.

* `run_append` — a list is run in pieces.
* `run_agree` — rules that change no state: all that speak say the same.
* `run_keeps` — what every rule keeps, a whole run keeps.
-/

set_option autoImplicit false

namespace RuleRun

variable {R σ A : Type*}

/-- What a rule, or a run of rules, comes to. -/
inductive Outcome (σ A : Type*) where
  | next (s : σ)
  | done (a : A)

def run (f : R → σ → Outcome σ A) : List R → σ → Outcome σ A
  | [], s => .next s
  | r :: rs, s =>
    match f r s with
    | .next s' => run f rs s'
    | .done a => .done a

variable {f : R → σ → Outcome σ A} {l l₁ l₂ rs : List R} {s s' : σ} {a : A}

theorem run_cons_next {r : R} (h : f r s = .next s') : run f (r :: rs) s = run f rs s' := by
  simp only [run, h]

theorem run_cons_done {r : R} (h : f r s = .done a) : run f (r :: rs) s = .done a := by
  simp only [run, h]

theorem run_append (l₁ l₂ : List R) (s : σ) :
    run f (l₁ ++ l₂) s = match run f l₁ s with
      | .next s' => run f l₂ s'
      | .done a => .done a := by
  induction l₁ generalizing s with
  | nil => rfl
  | cons r l ih =>
    cases h : f r s with
    | next s' => rw [List.cons_append, run_cons_next h, run_cons_next h, ih]
    | done a => rw [List.cons_append, run_cons_done h, run_cons_done h]

theorem run_append_next (h : run f l₁ s = .next s') : run f (l₁ ++ l₂) s = run f l₂ s' := by
  rw [run_append, h]

theorem run_append_done (h : run f l₁ s = .done a) : run f (l₁ ++ l₂) s = .done a := by
  rw [run_append, h]

/-- Rules that pass or all say the same: some rule speaking is enough. -/
theorem run_agree (h : ∀ r ∈ l, f r s = .next s ∨ f r s = .done a)
    (hsome : ∃ r ∈ l, f r s = .done a) : run f l s = .done a := by
  induction l with
  | nil => obtain ⟨r, hr, -⟩ := hsome; cases hr
  | cons r l ih =>
    rcases h r List.mem_cons_self with hr | hr
    · rw [run_cons_next hr]
      refine ih (fun r' hr' => h r' (List.mem_cons_of_mem r hr')) ?_
      obtain ⟨r', hr', hd⟩ := hsome
      rcases List.mem_cons.mp hr' with rfl | hr'
      · rw [hr] at hd
        cases hd
      · exact ⟨r', hr', hd⟩
    · exact run_cons_done hr

/-- **What every rule keeps, a run keeps.** -/
theorem run_keeps {P : σ → Prop} (hstep : ∀ r ∈ l, ∀ s s', P s → f r s = .next s' → P s') (hs : P s)
    (h : run f l s = .next s') : P s' := by
  induction l generalizing s with
  | nil => cases h; exact hs
  | cons r l ih =>
    cases hr : f r s with
    | next s₁ =>
      rw [run_cons_next hr] at h
      exact ih (fun r' hr' => hstep r' (List.mem_cons_of_mem r hr'))
        (hstep r List.mem_cons_self s s₁ hs hr) h
    | done a =>
      rw [run_cons_done hr] at h
      cases h

/-- A decision is some rule's, made in a state the run had kept. -/
theorem run_done {P : σ → Prop} (hstep : ∀ r ∈ l, ∀ s s', P s → f r s = .next s' → P s') (hs : P s)
    (h : run f l s = .done a) : ∃ r ∈ l, ∃ s', P s' ∧ f r s' = .done a := by
  induction l generalizing s with
  | nil => cases h
  | cons r l ih =>
    cases hr : f r s with
    | next s₁ =>
      rw [run_cons_next hr] at h
      obtain ⟨r', hr', s', hs', hd⟩ := ih (fun r' hr' => hstep r' (List.mem_cons_of_mem r hr'))
        (hstep r List.mem_cons_self s s₁ hs hr) h
      exact ⟨r', List.mem_cons_of_mem r hr', s', hs', hd⟩
    | done b =>
      rw [run_cons_done hr] at h
      cases h
      exact ⟨r, List.mem_cons_self, s, hs, hr⟩

end RuleRun
