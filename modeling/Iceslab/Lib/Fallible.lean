import Mathlib.Logic.Basic

/-!
# Programs whose operations fail, or are the last before a crash

A program over a state that outlives it: every operation is done, fails, or is never reached since
the process died.  What becomes of each comes from outside.

* `Fallible.attempt`, `Fallible.op` — an operation whose failure is an answer, or an error.
* `Fallible.onError` — what is done on the way out with an error.
* `Fallible.Ends` — what a program ends in, and the rules to prove it by.
-/

set_option autoImplicit false

/-- What becomes of an operation; `crash` is that the process ends before it. -/
inductive Fate
  | done
  | failed
  | crash
deriving DecidableEq, Repr

inductive Stop (ε : Type)
  | error (e : ε)
  | crashed
deriving DecidableEq, Repr

def Fallible (σ ε α : Type) : Type := σ → Except (Stop ε) α × σ

namespace Fallible

variable {σ ε α β : Type}

protected def bind (p : Fallible σ ε α) (f : α → Fallible σ ε β) : Fallible σ ε β := fun s =>
  match p s with
  | (.ok a, s') => f a s'
  | (.error e, s') => (.error e, s')

instance : Monad (Fallible σ ε) where
  pure a s := (.ok a, s)
  bind := Fallible.bind

def throw (e : ε) : Fallible σ ε α := fun s => (.error (.error e), s)

def state : Fallible σ ε σ := fun s => (.ok s, s)

def update (effect : σ → σ) : Fallible σ ε Unit := fun s => (.ok (), effect s)

/-- An operation whose failure is an answer. -/
def attempt (fate : Fate) (effect : σ → σ) : Fallible σ ε Bool := fun s =>
  match fate with
  | .done => (.ok true, effect s)
  | .failed => (.ok false, s)
  | .crash => (.error .crashed, s)

/-- An operation whose failure ends the program. -/
def op (fate : Fate) (e : ε) (effect : σ → σ) : Fallible σ ε Unit := fun s =>
  match fate with
  | .done => (.ok (), effect s)
  | .failed => (.error (.error e), s)
  | .crash => (.error .crashed, s)

def require (cond : Bool) (e : ε) : Fallible σ ε Unit := if cond then pure () else throw e

/-- Cleans up on the way out with an error; a crash leaves no time for it. -/
def onError (p : Fallible σ ε α) (fate : Fate) (cleanup : σ → σ) : Fallible σ ε α := fun s =>
  match p s with
  | (.error (.error e), s') =>
    match fate with
    | .done => (.error (.error e), cleanup s')
    | .failed => (.error (.error e), s')
    | .crash => (.error .crashed, s')
  | r => r

/-! ## What a program ends in -/

def Ends (p : Fallible σ ε α) (s : σ) (post : Except (Stop ε) α → σ → Prop) : Prop :=
  post (p s).1 (p s).2

/-- A program that is over with an error goes on to the end with it. -/
def Then (next : α → σ → Prop) (stopped : Stop ε → σ → Prop) :
    Except (Stop ε) α → σ → Prop
  | .ok a, s => next a s
  | .error e, s => stopped e s

section Rules

variable {p : Fallible σ ε α} {f : α → Fallible σ ε β} {s : σ} {e : ε} {fate : Fate}
variable {effect : σ → σ} {post : Except (Stop ε) α → σ → Prop}
variable {post' : Except (Stop ε) β → σ → Prop} {stopped : Stop ε → σ → Prop}

theorem ends_pure {a : α} (h : post (.ok a) s) : Ends (pure a : Fallible σ ε α) s post := h

theorem ends_op {post : Except (Stop ε) Unit → σ → Prop}
    (hdone : fate = .done → post (.ok ()) (effect s))
    (hfailed : fate = .failed → post (.error (.error e)) s) (hcrash : post (.error .crashed) s) :
    Ends (op fate e effect : Fallible σ ε Unit) s post := by
  cases fate with
  | done => exact hdone rfl
  | failed => exact hfailed rfl
  | crash => exact hcrash

theorem ends_require {post : Except (Stop ε) Unit → σ → Prop} {cond : Bool}
    (htrue : cond = true → post (.ok ()) s) (hfalse : post (.error (.error e)) s) :
    Ends (require cond e : Fallible σ ε Unit) s post := by
  cases cond with
  | true => exact htrue rfl
  | false => exact hfalse

/-- One after the other: what the first stops with is what both stop with. -/
theorem Ends.bind {next : α → σ → Prop}
    (h : Ends p s (Then next stopped)) (hok : ∀ a s', next a s' → Ends (f a) s' post')
    (hstop : ∀ e s', stopped e s' → post' (.error e) s') : Ends (p >>= f) s post' := by
  unfold Ends at h ⊢
  change post' (Fallible.bind p f s).1 (Fallible.bind p f s).2
  unfold Fallible.bind
  rcases hp : p s with ⟨r, s'⟩
  rw [hp] at h
  cases r with
  | ok a => exact hok a s' h
  | error e => exact hstop e s' h

theorem ends_state_bind {f : σ → Fallible σ ε β} (h : Ends (f s) s post') :
    Ends (state >>= f) s post' := h

theorem ends_update_bind {f : Unit → Fallible σ ε β} (h : Ends (f ()) (effect s) post') :
    Ends (update effect >>= f) s post' := h

theorem ends_attempt_bind {f : Bool → Fallible σ ε β}
    (hdone : fate = .done → Ends (f true) (effect s) post')
    (hfailed : fate = .failed → Ends (f false) s post') (hcrash : post' (.error .crashed) s) :
    Ends (attempt fate effect >>= f) s post' := by
  cases fate with
  | done => exact hdone rfl
  | failed => exact hfailed rfl
  | crash => exact hcrash

theorem ends_op_bind {f : Unit → Fallible σ ε β}
    (hdone : fate = .done → Ends (f ()) (effect s) post')
    (hfailed : fate = .failed → post' (.error (.error e)) s) (hcrash : post' (.error .crashed) s) :
    Ends (op fate e effect >>= f) s post' := by
  cases fate with
  | done => exact hdone rfl
  | failed => exact hfailed rfl
  | crash => exact hcrash

theorem ends_require_bind {f : Unit → Fallible σ ε β} {cond : Bool}
    (htrue : cond = true → Ends (f ()) s post') (hfalse : post' (.error (.error e)) s) :
    Ends (require cond e >>= f) s post' := by
  cases cond with
  | true => exact htrue rfl
  | false => exact hfalse

theorem Ends.mono {post₂ : Except (Stop ε) α → σ → Prop} (h : Ends p s post)
    (hpost : ∀ r s', post r s' → post₂ r s') : Ends p s post₂ := hpost _ _ h

/-- On the way out with an error the clean-up is done, or fails, or is never reached. -/
theorem Ends.onError {next : α → σ → Prop} (h : Ends p s (Then next stopped))
    (hclean : ∀ e s', stopped (.error e) s' → stopped (.error e) (effect s'))
    (hcrash : ∀ e s', stopped e s' → stopped .crashed s') :
    Ends (onError p fate effect) s (Then next stopped) := by
  unfold Ends at h ⊢
  unfold Fallible.onError
  rcases hp : p s with ⟨r, s'⟩
  rw [hp] at h
  cases r with
  | ok a => exact h
  | error stop =>
    cases stop with
    | crashed => exact h
    | error e =>
      cases fate with
      | done => exact hclean e s' h
      | failed => exact h
      | crash => exact hcrash _ s' h

end Rules

end Fallible
