import Iceslab.Lib.Machine

/-!
# Programs that await, and what they do to a state together

A program of an event loop runs until it awaits something; then others run, and it goes on with the
answer.  `Async` is such a program, `Host` says what a call does to the state the programs share,
and `Host.machine` runs any number of them turn by turn.

* `Async.Obeys` — what a program may call, given the facts it has learned from its answers.
* `Host.obeys_of_reachable` — programs that obey the rules when they are started obey them in every
  run, and what each has learned is true of the state.
* `Host.step_cases` — what one step may do to the shared state.
-/

set_option autoImplicit false

/-- A program that awaits: it is done, or waits for the answer of a call. -/
inductive Async (Op : Type → Type) (α : Type) : Type 1
  | done (a : α)
  | call {β : Type} (op : Op β) (rest : β → Async Op α)

/-- Which calls are allowed to a program that knows some facts, and what it learns from an answer.
A fact is one that stays true, as `inv` does of every state. -/
structure Rules (σ : Type) (Op : Type → Type) (φ : Type) where
  inv : σ → Prop
  holds : φ → σ → Prop
  allowed : {β : Type} → (φ → Prop) → Op β → Prop
  learn : {β : Type} → (φ → Prop) → Op β → β → φ → Prop

namespace Async

variable {Op : Type → Type} {α β : Type}

protected def bind : Async Op α → (α → Async Op β) → Async Op β
  | .done a, f => f a
  | .call op rest, f => .call op fun b => (rest b).bind f

instance : Monad (Async Op) where
  pure := .done
  bind := Async.bind

/-- Wait for one call. -/
def await (op : Op α) : Async Op α := .call op .done

/-! ## What a program calls -/

section Obeys

variable {σ φ : Type} {R : Rules σ Op φ}

/-- Whatever the answers, the program makes allowed calls only, and ends as `post` says. -/
def Obeys (R : Rules σ Op φ) (known : φ → Prop) (post : (φ → Prop) → α → Prop) :
    Async Op α → Prop
  | .done a => post known a
  | .call op rest =>
    R.allowed known op ∧ ∀ b, (rest b).Obeys R (fun f => known f ∨ R.learn known op b f) post

variable {known : φ → Prop} {post : (φ → Prop) → α → Prop} {post' : (φ → Prop) → β → Prop}

/-- What is known stays known. -/
theorem Obeys.bind {p : Async Op α} {f : α → Async Op β} (hp : p.Obeys R known post)
    (hf : ∀ learned a, (∀ fact, known fact → learned fact) → post learned a →
      (f a).Obeys R learned post') : (p >>= f).Obeys R known post' := by
  induction p generalizing known with
  | done a => exact hf known a (fun _ h => h) hp
  | call op rest ih =>
    refine ⟨hp.1, fun b => ih b (hp.2 b) fun learned a hle ha => ?_⟩
    exact hf learned a (fun fact h => hle fact (.inl h)) ha

end Obeys

/-! ## Programs that may throw -/

section Throws

variable {σ φ ε : Type} {R : Rules σ Op φ} {known : φ → Prop}
variable {post : (φ → Prop) → α → Prop} {post' : (φ → Prop) → β → Prop}

/-- The same of a program that may throw; `post` is about what it returns. -/
def Throws (R : Rules σ Op φ) (known : φ → Prop) (post : (φ → Prop) → α → Prop)
    (p : ExceptT ε (Async Op) α) : Prop :=
  Obeys R known (fun learned r => ∀ a, r = .ok a → post learned a) p.run

theorem throws_pure {a : α} (h : post known a) :
    Throws R known post (pure a : ExceptT ε (Async Op) α) := by
  rintro _ ⟨⟩
  exact h

theorem throws_throw (e : ε) : Throws R known post (throw e : ExceptT ε (Async Op) α) := nofun

theorem Throws.bind {p : ExceptT ε (Async Op) α} {f : α → ExceptT ε (Async Op) β}
    (hp : Throws R known post p)
    (hf : ∀ learned a, (∀ fact, known fact → learned fact) → post learned a →
      Throws R learned post' (f a)) : Throws R known post' (p >>= f) := by
  refine Obeys.bind hp fun learned r hle hr => ?_
  cases r with
  | error e => exact nofun
  | ok a => exact hf learned a hle (hr a rfl)

theorem Throws.map {p : ExceptT ε (Async Op) α} (hp : Throws R known post p) (f : α → β)
    (h : ∀ learned a, post learned a → post' learned (f a)) : Throws R known post' (f <$> p) :=
  hp.bind fun learned a _ ha => throws_pure (h learned a ha)

end Throws

end Async

/-! ## Programs side by side -/

/-- The programs under way and the state they share. -/
structure Pool (σ : Type) (Op : Type → Type) (α : Type) : Type 1 where
  shared : σ
  procs : List (Async Op α)

inductive PoolEvent (ρ χ ε : Type)
  | start (request : ρ)
  /-- the call that program `i` waits for is made; `choice` is what the program has no say in -/
  | turn (i : Nat) (choice : χ)
  | world (event : ε)

/-- What a request starts, what a call does and answers, and what happens besides.  A call that
cannot be made yet gives `none`, and its program goes on waiting. -/
structure Host (σ : Type) (Op : Type → Type) (α ρ χ ε : Type) : Type 1 where
  spawn : ρ → σ → List (Async Op α)
  exec : {β : Type} → Nat → Op β → χ → σ → Option (β × σ)
  world : ε → σ → σ

namespace Host

variable {σ φ : Type} {Op : Type → Type} {α ρ χ ε : Type} (host : Host σ Op α ρ χ ε)

def turn (i : Nat) (choice : χ) (pool : Pool σ Op α) : Pool σ Op α :=
  match pool.procs[i]? with
  | some (.call op rest) =>
    match host.exec i op choice pool.shared with
    | some (b, shared) => ⟨shared, pool.procs.set i (rest b)⟩
    | none => pool
  | _ => pool

def step (pool : Pool σ Op α) : PoolEvent ρ χ ε → Pool σ Op α
  | .start request => { pool with procs := pool.procs ++ host.spawn request pool.shared }
  | .turn i choice => host.turn i choice pool
  | .world event => { pool with shared := host.world event pool.shared }

/-- The programs start with none under way. -/
def machine (start : σ → Prop) : Machine (Pool σ Op α) (PoolEvent ρ χ ε) :=
  .ofFun (fun pool => start pool.shared ∧ pool.procs = []) host.step

/-- What one turn comes to. -/
structure Turned (i : Nat) (choice : χ) (pool pool' : Pool σ Op α) {β : Type} (op : Op β)
    (rest : β → Async Op α) (b : β) : Prop where
  asked : pool.procs[i]? = some (.call op rest)
  made : host.exec i op choice pool.shared = some (b, pool'.shared)
  procs : pool'.procs = pool.procs.set i (rest b)

theorem turn_cases (i : Nat) (choice : χ) (pool : Pool σ Op α) :
    host.turn i choice pool = pool ∨ ∃ (β : Type) (op : Op β) (rest : β → Async Op α) (b : β),
      host.Turned i choice pool (host.turn i choice pool) op rest b := by
  unfold turn
  split
  · rename_i op rest hproc
    split
    · rename_i b shared hexec
      exact .inr ⟨_, op, rest, b, hproc, hexec, rfl⟩
    · exact .inl rfl
  · exact .inl rfl

/-- The facts of the rules stay true, and what a program learns is true. -/
structure Keeps (R : Rules σ Op φ) : Prop where
  world : ∀ e s, R.inv s → R.inv (host.world e s) ∧ ∀ f, R.holds f s → R.holds f (host.world e s)
  exec : ∀ {β : Type} (known : φ → Prop) (i : Nat) (op : Op β) (c : χ) (s : σ) (r : β × σ),
    host.exec i op c s = some r → R.inv s → (∀ f, known f → R.holds f s) → R.allowed known op →
    R.inv r.2 ∧ ∀ f, R.holds f s ∨ R.learn known op r.1 f → R.holds f r.2

/-- The programs under way obey the rules, with true facts. -/
structure Obeying (R : Rules σ Op φ) (post : (φ → Prop) → α → Prop) (pool : Pool σ Op α) :
    Prop where
  inv : R.inv pool.shared
  procs : ∀ p ∈ pool.procs, ∃ known : φ → Prop, (∀ f, known f → R.holds f pool.shared) ∧
    p.Obeys R known post

section Runs

variable {host} {start : σ → Prop} {pool pool' : Pool σ Op α} {R : Rules σ Op φ}
variable {post : (φ → Prop) → α → Prop}

theorem Obeying.step (hkeeps : host.Keeps R)
    (hspawn : ∀ r s, ∀ p ∈ host.spawn r s, p.Obeys R (fun f => R.holds f s) post)
    (h : Obeying R post pool) (e : PoolEvent ρ χ ε) : Obeying R post (host.step pool e) := by
  cases e with
  | start r =>
    refine ⟨h.inv, fun p hp => ?_⟩
    rcases List.mem_append.mp hp with hp | hp
    · exact h.procs p hp
    · exact ⟨_, fun f hf => hf, hspawn r _ p hp⟩
  | world e =>
    obtain ⟨hinv, hfacts⟩ := hkeeps.world e _ h.inv
    refine ⟨hinv, fun p hp => ?_⟩
    obtain ⟨known, hknown, hobeys⟩ := h.procs p hp
    exact ⟨known, fun f hf => hfacts f (hknown f hf), hobeys⟩
  | turn i choice =>
    rcases host.turn_cases i choice pool with heq | ⟨β, op, rest, b, hturn⟩
    · simp only [Host.step, heq]
      exact h
    · obtain ⟨mine, hmine, hown⟩ := h.procs _ (List.mem_of_getElem? hturn.asked)
      obtain ⟨hinv, hfacts⟩ := hkeeps.exec mine i op choice _ _ hturn.made h.inv hmine hown.1
      refine ⟨hinv, fun p hp => ?_⟩
      simp only [Host.step, hturn.procs] at hp
      rcases List.mem_or_eq_of_mem_set hp with hp | rfl
      · obtain ⟨known, hknown, hobeys⟩ := h.procs p hp
        exact ⟨known, fun f hf => hfacts f (.inl (hknown f hf)), hobeys⟩
      · exact ⟨_, fun f hf => hfacts f (hf.imp_left (hmine f)), hown.2 b⟩

/-- **Programs that obey the rules when they are started obey them in every run.** -/
theorem obeys_of_reachable (hstart : ∀ s, start s → R.inv s) (hkeeps : host.Keeps R)
    (hspawn : ∀ r s, ∀ p ∈ host.spawn r s, p.Obeys R (fun f => R.holds f s) post)
    (h : (host.machine start).Reachable pool) : Obeying R post pool := by
  refine h.invariant ?_ ?_
  · rintro pool ⟨hshared, hnil⟩
    refine ⟨hstart _ hshared, fun p hp => ?_⟩
    rw [hnil] at hp
    cases hp
  · rintro pool e pool' - hobeys rfl
    exact hobeys.step hkeeps hspawn e

/-- What one step of a run may do to the shared state. -/
theorem step_cases (h : Obeying R post pool) (e : PoolEvent ρ χ ε) :
    (host.step pool e).shared = pool.shared ∨
      (∃ w, e = .world w ∧ (host.step pool e).shared = host.world w pool.shared) ∨
      ∃ (i : Nat) (choice : χ) (β : Type) (op : Op β) (rest : β → Async Op α) (b : β)
        (known : φ → Prop), e = .turn i choice ∧ (∀ f, known f → R.holds f pool.shared) ∧
        R.allowed known op ∧ host.Turned i choice pool (host.step pool e) op rest b := by
  cases e with
  | start r => exact .inl rfl
  | world w => exact .inr (.inl ⟨w, rfl, rfl⟩)
  | turn i choice =>
    rcases host.turn_cases i choice pool with heq | ⟨β, op, rest, b, hturn⟩
    · exact .inl (congrArg Pool.shared heq)
    · obtain ⟨known, hknown, hobeys⟩ := h.procs _ (List.mem_of_getElem? hturn.asked)
      exact .inr (.inr ⟨i, choice, β, op, rest, b, known, rfl, hknown, hobeys.1, hturn⟩)

/-- What a program that is done returned. -/
theorem Obeying.done (h : Obeying R post pool) {i : Nat} {a : α}
    (hdone : pool.procs[i]? = some (.done a)) :
    ∃ known : φ → Prop, (∀ f, known f → R.holds f pool.shared) ∧ post known a :=
  h.procs _ (List.mem_of_getElem? hdone)

end Runs

end Host
