import Mathlib.Data.List.Basic

/-!
# Checks that refuse

Programs in `Except` read as the facts they have established once they return: `bind_eq_ok`
takes a sequence apart, `require_eq_ok` a single check, `forEach_eq_ok` a loop of checks,
`gather_eq_flatMap` a loop that gathers.  `Lockstep.bind` runs two of them side by side.
-/

set_option autoImplicit false

namespace Checked

variable {ε α β : Type} {x : Except ε α} {R : α → β → Prop} {bad : β → Prop} {l : List α}

theorem bind_eq_ok {f : α → Except ε β} {b : β} :
    x >>= f = .ok b ↔ ∃ a, x = .ok a ∧ f a = .ok b := by
  cases x with
  | error e => simp [bind, Except.bind]
  | ok a => simp [bind, Except.bind]

theorem pure_eq_ok {a b : α} : (pure a : Except ε α) = .ok b ↔ a = b := by
  simp [pure, Except.pure]

theorem exists_ok_of_isSome (h : x.toOption.isSome = true) : ∃ a, x = .ok a := by
  cases x with
  | error e => cases h
  | ok a => exact ⟨a, rfl⟩

theorem exists_ok_of_any {p : α → Bool} (h : x.toOption.any p = true) :
    ∃ a, x = .ok a ∧ p a = true := by
  cases x with
  | error e => cases h
  | ok a => exact ⟨a, rfl, h⟩

theorem exists_ok_of_decide {x : Except ε (α × β)} {P : α → Prop} [DecidablePred P]
    (h : x.toOption.any (fun r => decide (P r.1)) = true) : ∃ a b, x = .ok (a, b) ∧ P a := by
  obtain ⟨r, hr, hp⟩ := exists_ok_of_any h
  exact ⟨r.1, r.2, hr, of_decide_eq_true hp⟩

/-- Refuse with `e` unless the condition holds. -/
def require (cond : Bool) (e : ε) : Except ε Unit := if cond then .ok () else .error e

@[simp] theorem require_eq_ok {cond : Bool} {e : ε} {u : Unit} :
    require cond e = .ok u ↔ cond = true := by
  cases cond <;> simp [require]

/-- `for (const a of l) check(a)` -/
def forEach (check : α → Except ε Unit) : List α → Except ε Unit
  | [] => .ok ()
  | a :: l => check a >>= fun _ => forEach check l

theorem forEach_eq_ok {check : α → Except ε Unit} {u : Unit} :
    forEach check l = .ok u ↔ ∀ a ∈ l, check a = .ok () := by
  induction l with
  | nil => simp [forEach]
  | cons a l ih =>
    simp only [forEach, bind_eq_ok, ih, List.mem_cons, forall_eq_or_imp]
    constructor
    · rintro ⟨_, ha, hl⟩
      exact ⟨ha, hl⟩
    · rintro ⟨ha, hl⟩
      exact ⟨(), ha, hl⟩

/-- `for (const a of l) out.push(...f(a))` -/
def gather (f : α → Except ε (List β)) : List α → Except ε (List β)
  | [] => .ok []
  | a :: l => do
    let bs ← f a
    let rest ← gather f l
    pure (bs ++ rest)

theorem gather_isOk {f : α → Except ε (List β)} :
    (∃ r, gather f l = .ok r) ↔ ∀ a ∈ l, ∃ bs, f a = .ok bs := by
  induction l with
  | nil => simp [gather]
  | cons a l ih =>
    rw [List.forall_mem_cons, ← ih]
    constructor
    · rintro ⟨r, h⟩
      simp only [gather, bind_eq_ok] at h
      obtain ⟨bs, hbs, rest, hrest, -⟩ := h
      exact ⟨⟨bs, hbs⟩, rest, hrest⟩
    · rintro ⟨⟨bs, hbs⟩, rest, hrest⟩
      refine ⟨bs ++ rest, ?_⟩
      simp only [gather, bind_eq_ok, pure_eq_ok]
      exact ⟨bs, hbs, rest, hrest, rfl⟩

theorem gather_eq_flatMap {f : α → Except ε (List β)} {g : α → List β} {r : List β}
    (h : gather f l = .ok r) (hg : ∀ a ∈ l, ∀ bs, f a = .ok bs → bs = g a) : r = l.flatMap g := by
  induction l generalizing r with
  | nil => simpa [gather] using h.symm
  | cons a l ih =>
    simp only [gather, bind_eq_ok, pure_eq_ok] at h
    obtain ⟨bs, hbs, rest, hrest, rfl⟩ := h
    rw [List.flatMap_cons, hg a List.mem_cons_self bs hbs,
      ih hrest (fun a' ha' => hg a' (List.mem_cons_of_mem a ha'))]

/-! ## Two programs side by side -/

/-- Two programs go on together, as `R`, or stop together; where the first stops alone, the second
went on to something `bad`. -/
def Lockstep {ε' : Type} (R : α → β → Prop) (bad : β → Prop) :
    Except ε α → Except ε' β → Prop
  | .ok a, .ok b => R a b
  | .error _, .ok b => bad b
  | .error _, .error _ => True
  | .ok _, .error _ => False

theorem Lockstep.bind {ε' α' β' : Type} {R' : α' → β' → Prop} {bad' : β' → Prop} {y : Except ε' β}
    {f : α → Except ε α'} {g : β → Except ε' β'} (h : Lockstep R bad x y)
    (hgo : ∀ a b, y = .ok b → R a b → Lockstep R' bad' (f a) (g b))
    (hbad : ∀ b b', bad b → g b = .ok b' → bad' b') : Lockstep R' bad' (x.bind f) (y.bind g) := by
  cases x with
  | ok a =>
    cases y with
    | ok b => exact hgo a b rfl h
    | error e => exact h.elim
  | error e =>
    cases y with
    | ok b =>
      simp only [Except.bind]
      cases hg : g b with
      | ok b' => exact hbad b b' h hg
      | error e' => trivial
    | error e' => trivial

theorem Lockstep.of_ok {ε' : Type}
    {y : Except ε' β} {a : α} (h : Lockstep R bad x y) (hx : x = .ok a) :
    ∃ b, y = .ok b ∧ R a b := by
  subst hx
  cases y with
  | ok b => exact ⟨b, rfl, h⟩
  | error e => exact h.elim

theorem Lockstep.ok_of {ε' : Type}
    {y : Except ε' β} {b : β} (h : Lockstep R bad x y) (hy : y = .ok b) (hgood : ¬ bad b) :
    ∃ a, x = .ok a ∧ R a b := by
  subst hy
  cases x with
  | ok a => exact ⟨a, rfl, h⟩
  | error e => exact absurd h hgood

end Checked
