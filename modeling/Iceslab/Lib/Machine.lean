import Mathlib.Data.List.Basic

/-!
# Machines and what their runs keep

A machine is a set of starting states and what one event may do to a state.  `Reachable` are the
states some run ends in; `Reachable.invariant` is the one rule every run property goes through:
it holds at the start, and a step from a reachable state keeps it.  `Run` keeps the steps taken as
well: what every step of a run keeps, the run keeps (`Run.keeps`).
-/

set_option autoImplicit false

structure Machine (σ ε : Type*) where
  start : σ → Prop
  step : σ → ε → σ → Prop

namespace Machine

variable {σ ε : Type*}

inductive Reachable (m : Machine σ ε) : σ → Prop
  | start {s : σ} (h : m.start s) : Reachable m s
  | step {s s' : σ} {e : ε} (h : Reachable m s) (hs : m.step s e s') : Reachable m s'

variable {m : Machine σ ε} {s : σ}

theorem Reachable.invariant {I : σ → Prop} (hstart : ∀ s, m.start s → I s)
    (hstep : ∀ s e s', m.Reachable s → I s → m.step s e s' → I s') (h : m.Reachable s) : I s := by
  induction h with
  | start h => exact hstart _ h
  | step h hs ih => exact hstep _ _ _ h ih hs

/-- The machine of a program that does one thing on each event. -/
def ofFun (start : σ → Prop) (f : σ → ε → σ) : Machine σ ε where
  start := start
  step s e s' := s' = f s e

theorem reachable_foldl {start : σ → Prop} {f : σ → ε → σ} (h : (ofFun start f).Reachable s)
    (es : List ε) : (ofFun start f).Reachable (es.foldl f s) := by
  induction es generalizing s with
  | nil => exact h
  | cons e es ih => exact ih (.step h rfl)

/-! ## Runs with their steps -/

/-- A run from one state to another, with every step it takes. -/
inductive Run (m : Machine σ ε) : σ → List (σ × ε × σ) → σ → Prop
  | nil (s : σ) : Run m s [] s
  | cons {s s' s'' : σ} {e : ε} {steps : List (σ × ε × σ)} (hs : m.step s e s')
      (h : Run m s' steps s'') : Run m s ((s, e, s') :: steps) s''

variable {s₀ : σ} {steps : List (σ × ε × σ)}

theorem Run.step_of_mem (h : m.Run s₀ steps s) : ∀ st ∈ steps, m.step st.1 st.2.1 st.2.2 := by
  induction h with
  | nil => intro st hst; cases hst
  | cons hs h ih =>
    intro st hst
    rcases List.mem_cons.mp hst with rfl | hst
    · exact hs
    · exact ih st hst

theorem Run.keeps {P : σ → Prop} (h : m.Run s₀ steps s)
    (hk : ∀ st ∈ steps, P st.1 → P st.2.2) (h₀ : P s₀) : P s := by
  induction h with
  | nil => exact h₀
  | cons hs h ih =>
    exact ih (fun st hst => hk st (List.mem_cons_of_mem _ hst)) (hk _ List.mem_cons_self h₀)

theorem Run.reachable (h : m.Run s₀ steps s) (h₀ : m.Reachable s₀) : m.Reachable s := by
  induction h with
  | nil => exact h₀
  | cons hs h ih => exact ih (.step h₀ hs)

theorem Run.reachable_of_mem (h : m.Run s₀ steps s) (h₀ : m.Reachable s₀) :
    ∀ st ∈ steps, m.Reachable st.1 := by
  induction h with
  | nil => intro st hst; cases hst
  | cons hs h ih =>
    intro st hst
    rcases List.mem_cons.mp hst with rfl | hst
    · exact h₀
    · exact ih (.step h₀ hs) st hst

/-- What every step does not lose, no later state has lost. -/
theorem Run.related {R : σ → σ → Prop} (hrefl : ∀ s, R s s)
    (htrans : ∀ s s' s'', R s s' → R s' s'' → R s s'') (h : m.Run s₀ steps s)
    (hk : ∀ st ∈ steps, R st.1 st.2.2) : ∀ st ∈ steps, R s₀ st.1 := by
  induction h with
  | nil => intro st hst; cases hst
  | cons hs h ih =>
    intro st hst
    rcases List.mem_cons.mp hst with rfl | hst
    · exact hrefl _
    · exact htrans _ _ _ (hk _ List.mem_cons_self)
        (ih (fun st hst => hk st (List.mem_cons_of_mem _ hst)) st hst)

theorem Run.pairwise {R : σ → σ → Prop} (hrefl : ∀ s, R s s)
    (htrans : ∀ s s' s'', R s s' → R s' s'' → R s s'') (h : m.Run s₀ steps s)
    (hk : ∀ st ∈ steps, R st.1 st.2.2) : steps.Pairwise fun st st' => R st.2.2 st'.1 := by
  induction h with
  | nil => exact .nil
  | cons hs h ih =>
    have hrest := fun st hst => hk st (List.mem_cons_of_mem _ hst)
    exact .cons (h.related hrefl htrans hrest) (ih hrest)

/-- What a run keeps of its past: each step may look at the steps before it. -/
theorem Run.history {J : List (σ × ε × σ) → σ → Prop} (h : m.Run s₀ steps s)
    (hk : ∀ past s e s', J past s → m.step s e s' → J (past ++ [(s, e, s')]) s')
    (h₀ : J [] s₀) : J steps s := by
  suffices hgen : ∀ past, J past s₀ → J (past ++ steps) s by simpa using hgen [] h₀
  clear h₀
  induction h with
  | nil s =>
    intro past hp
    simpa using hp
  | cons hs h ih =>
    intro past hp
    have := ih _ (hk past _ _ _ hp hs)
    simpa using this

/-- The steps a program takes over a list of events. -/
def trace (f : σ → ε → σ) : σ → List ε → List (σ × ε × σ)
  | _, [] => []
  | s, e :: es => (s, e, f s e) :: trace f (f s e) es

theorem run_trace (start : σ → Prop) (f : σ → ε → σ) (s : σ) (es : List ε) :
    (ofFun start f).Run s (trace f s es) (es.foldl f s) := by
  induction es generalizing s with
  | nil => exact .nil s
  | cons e es ih => exact .cons rfl (ih (f s e))

end Machine
