import Iceslab.Lib.Machine

/-!
# Components that keep what they are pushed

A component is pushed values, holds the last one it took and compares the next push with it.  It
keeps its word when a push it accepts is in force and a push it refuses for what it says leaves it
alone.

* `Pushed.Honest` — one push, from one state.
* `Pushed.HonestWhen` — every push of every run whose pushes meet a condition.
* `Pushed.honestWhen_of_inv` — the rule: an invariant that each push keeps.
-/

set_option autoImplicit false

/-- A component over its states and the pushes it is given. -/
structure Pushed (σ ε : Type*) where
  start : σ → Prop
  step : σ → ε → σ
  accepted : σ → ε → Prop
  /-- refused for what the push itself says -/
  refused : σ → ε → Prop
  /-- what the push asks for is held, and what is held is in force -/
  inForce : ε → σ → Prop
  same : σ → σ → Prop

namespace Pushed

variable {σ ε : Type*}

structure Honest (c : Pushed σ ε) (s : σ) (e : ε) : Prop where
  accepted : c.accepted s e → c.inForce e (c.step s e)
  refused : c.refused s e → c.same s (c.step s e)

def HonestWhen (c : Pushed σ ε) (meets : σ → ε → Prop) : Prop :=
  ∀ s₀ steps s, (Machine.ofFun c.start c.step).Run s₀ steps s → c.start s₀ →
    (∀ st ∈ steps, meets st.1 st.2.1) → ∀ st ∈ steps, c.Honest st.1 st.2.1

variable {c : Pushed σ ε} {meets : σ → ε → Prop}

theorem honestWhen_of_inv {I : σ → Prop} (hstart : ∀ s, c.start s → I s)
    (hkeep : ∀ s e, I s → meets s e → I (c.step s e))
    (hhonest : ∀ s e, I s → meets s e → c.Honest s e) : c.HonestWhen meets := by
  intro s₀ steps s hrun h₀ hmeets st hst
  suffices hinv : ∀ st ∈ steps, I st.1 from hhonest _ _ (hinv st hst) (hmeets st hst)
  clear hst st
  have hI := hstart s₀ h₀
  clear h₀
  induction hrun with
  | nil => intro st hst; cases hst
  | cons hs _ ih =>
    intro st hst
    rcases List.mem_cons.mp hst with rfl | hst
    · exact hI
    · refine ih (fun st hst => hmeets st (List.mem_cons_of_mem _ hst)) ?_ st hst
      rw [hs]
      exact hkeep _ _ hI (hmeets _ List.mem_cons_self)

/-- A run over a list of pushes gives its word at each of them. -/
theorem HonestWhen.foldl (h : c.HonestWhen meets) {s₀ : σ} (h₀ : c.start s₀) (es : List ε)
    (hmeets : ∀ st ∈ Machine.trace c.step s₀ es, meets st.1 st.2.1) :
    ∀ st ∈ Machine.trace c.step s₀ es, c.Honest st.1 st.2.1 :=
  h s₀ _ _ (Machine.run_trace c.start c.step s₀ es) h₀ hmeets

end Pushed
