import Iceslab.AuthCalls

/-!
# The second factor is spent once

What runs of the requests keep of the row's second factor.

* `StillChecked`, `Fresh` — **when the row is still as the check left it**: the write of a request
  finds the row as the request's check asks for it.
* `FactorKept`, `factor_kept` — **what a run of such writes keeps.**
* `code_taken_twice` — two sign-ins with one code.
-/

set_option autoImplicit false

namespace Iceslab.Auth

open Async

/-! ## What is asked of a run -/

/-- A request takes a code. -/
def Spends (pool : AuthPool) (e : AuthEvent) (spent : Spent) : Prop :=
  ∃ data, Writes pool e data (.code spent)

/-- The last step does not go back. -/
def Forward (last last' : Option Nat) : Prop := ∀ l ∈ last, ∃ l' ∈ last', l ≤ l'

/-- What the steps of a run do to the second factor. -/
structure FactorKept (crypto : Crypto) (steps : List (AuthPool × AuthEvent × AuthPool)) : Prop where
  verified : ∀ st ∈ steps, ∀ spent, Spends st.1 st.2.1 spent → spent.Verified crypto
  once : steps.Pairwise fun st st' =>
    ∀ spent, Spends st.1 st.2.1 spent → ¬ Spends st'.1 st'.2.1 spent
  forward : ∀ st ∈ steps,
    Forward st.1.shared.row.totpLastUsedStep st.2.2.shared.row.totpLastUsedStep
  /-- the second factor goes off with a code of the secret in force, as `disableTotp` writes it -/
  turnedOff : ∀ st ∈ steps, st.1.shared.row.totpEnabled = true →
    st.2.2.shared.row.totpEnabled = false → ∃ spent, Writes st.1 st.2.1 (disableData spent.step)
      (.code spent) ∧ st.1.shared.row.totpSecret = some spent.secret
  /-- and comes on with the very secret the code was one of -/
  turnedOn : ∀ st ∈ steps, st.1.shared.row.totpEnabled = false →
    st.2.2.shared.row.totpEnabled = true → ∃ spent, Writes st.1 st.2.1 (enableData spent.step)
      (.code spent) ∧ st.2.2.shared.row.totpSecret = some spent.secret

/-- The row is one the check of the request would let the write through for. -/
structure StillChecked (data : AdminUpdate) (why : Why) (row : AdminRow) : Prop where
  /-- a setup finds the second factor off -/
  setup : why = .setup → row.totpEnabled = false
  /-- the step of a code is past the last one -/
  past : ∀ spent, why = .code spent → Past row.totpLastUsedStep spent.step
  /-- a code that turns it on or off is one of the secret in the row -/
  secret : ∀ spent on, why = .code spent → data.totpEnabled = some on → row.totpEnabled ≠ on →
    row.totpSecret = some spent.secret

/-- **When the row is still as the check left it.** -/
def Fresh (pool : AuthPool) (e : AuthEvent) : Prop :=
  ∀ data why, Writes pool e data why → StillChecked data why pool.shared.row

/-- The write an event makes, if it makes one. -/
def writeOf (pool : AuthPool) : AuthEvent → Option (AdminUpdate × Why)
  | .turn i c =>
    match pool.procs[i]? with
    | some (.call (.updateAdmin data why) _) => if c.applies then some (data, why) else none
    | _ => none
  | _ => none

theorem writes_iff {pool : AuthPool} {e : AuthEvent} {data : AdminUpdate} {why : Why} :
    Writes pool e data why ↔ writeOf pool e = some (data, why) := by
  constructor
  · rintro ⟨i, c, rest, rfl, happ, hproc⟩
    simp only [writeOf, hproc, happ, if_true]
  · intro h
    unfold writeOf at h
    split at h
    · rename_i i c
      split at h
      · rename_i data' why' rest hproc
        split at h
        · rename_i happ
          cases h
          exact ⟨i, c, rest, rfl, happ, hproc⟩
        · cases h
      · cases h
    · cases h

instance (data : AdminUpdate) (why : Why) (row : AdminRow) :
    Decidable (StillChecked data why row) :=
  match why with
  | .setup => decidable_of_iff (row.totpEnabled = false)
      ⟨fun h => ⟨fun _ => h, nofun, nofun⟩, fun h => h.setup rfl⟩
  | .change _ _ => .isTrue ⟨nofun, nofun, nofun⟩
  | .code spent => decidable_of_iff (Past row.totpLastUsedStep spent.step ∧
      ∀ on ∈ data.totpEnabled, row.totpEnabled ≠ on → row.totpSecret = some spent.secret) (by
    constructor
    · rintro ⟨hpast, hsecret⟩
      refine ⟨nofun, ?_, ?_⟩
      · rintro _ ⟨⟩
        exact hpast
      · rintro _ on ⟨⟩ hon
        exact hsecret on hon
    · intro h
      exact ⟨h.past spent rfl, fun on hon => h.secret spent on rfl hon⟩)

instance (pool : AuthPool) (e : AuthEvent) : Decidable (Fresh pool e) :=
  decidable_of_iff (∀ w ∈ writeOf pool e, StillChecked w.1 w.2 pool.shared.row) (by
    constructor
    · intro h data why hw
      exact h (data, why) (writes_iff.mp hw)
    · intro h w hw
      exact h w.1 w.2 (writes_iff.mpr hw))

/-! ## One step -/

section Step

variable {cfg : AuthConfig} {crypto : Crypto} {adminId : String} {pool : AuthPool} {e : AuthEvent}

theorem Forward.refl (last : Option Nat) : Forward last last := fun l hl => ⟨l, hl, le_rfl⟩

theorem Forward.trans {a b c : Option Nat} (h : Forward a b) (h' : Forward b c) : Forward a c := by
  intro l hl
  obtain ⟨l', hl', hle⟩ := h l hl
  obtain ⟨l'', hl'', hle'⟩ := h' l' hl'
  exact ⟨l'', hl'', hle.trans hle'⟩

theorem Past.forward {last : Option Nat} {step : Nat} (h : Past last step) :
    Forward last (some step) := fun l hl => ⟨step, rfl, (h l hl).le⟩

/-- A fresh step does not take the last step back. -/
theorem forward_step (h : (authMachine cfg crypto adminId).Reachable pool) (hfresh : Fresh pool e) :
    Forward pool.shared.row.totpLastUsedStep
      ((authHost cfg crypto adminId).step pool e).shared.row.totpLastUsedStep := by
  by_cases hw : ∃ data why, Writes pool e data why
  · obtain ⟨data, why, hw⟩ := hw
    obtain ⟨known, -, hwritten⟩ := written_of_writes h hw
    rw [row_of_writes hw]
    have hchecked := hfresh data why hw
    cases hwritten with
    | setup secret => exact .refl _
    | step spent _ => exact (hchecked.past spent rfl).forward
    | enable spent _ => exact (hchecked.past spent rfl).forward
    | disable spent _ => exact (hchecked.past spent rfl).forward
    | password hash mark newPassword _ _ _ => exact .refl _
  · rw [row_of_no_write fun data why hw' => hw ⟨data, why, hw'⟩]
    exact .refl _

theorem turned_step (h : (authMachine cfg crypto adminId).Reachable pool) (hfresh : Fresh pool e)
    (hne : ((authHost cfg crypto adminId).step pool e).shared.row.totpEnabled ≠
      pool.shared.row.totpEnabled) :
    ∃ spent, pool.shared.row.totpSecret = some spent.secret ∧
      ((pool.shared.row.totpEnabled = true ∧
          Writes pool e (disableData spent.step) (.code spent)) ∨
        pool.shared.row.totpEnabled = false ∧ Writes pool e (enableData spent.step) (.code spent) ∧
          ((authHost cfg crypto adminId).step pool e).shared.row.totpSecret =
            pool.shared.row.totpSecret) := by
  by_cases hw : ∃ data why, Writes pool e data why
  · obtain ⟨data, why, hw⟩ := hw
    obtain ⟨known, -, hwritten⟩ := written_of_writes h hw
    have hchecked := hfresh data why hw
    rw [row_of_writes hw] at hne ⊢
    cases hwritten with
    | setup secret => exact absurd (hchecked.setup rfl).symm hne
    | step spent _ => exact absurd rfl hne
    | enable spent _ =>
      have hoff : pool.shared.row.totpEnabled = false := by
        rw [← Bool.not_eq_true]
        exact fun hon => hne hon.symm
      refine ⟨spent, hchecked.secret spent true rfl rfl ?_, .inr ⟨hoff, hw, rfl⟩⟩
      rw [hoff]
      decide
    | disable spent _ =>
      have hon : pool.shared.row.totpEnabled = true := by
        rw [← Bool.not_eq_false]
        exact fun hoff => hne hoff.symm
      refine ⟨spent, hchecked.secret spent false rfl rfl ?_, .inl ⟨hon, hw⟩⟩
      rw [hon]
      decide
    | password hash mark newPassword _ _ _ => exact absurd rfl hne
  · exact absurd (congrArg AdminRow.totpEnabled
      (row_of_no_write fun data why hw' => hw ⟨data, why, hw'⟩)) hne

/-- The step of a code that is taken is the last one after it. -/
theorem last_of_spends {spent : Spent} (h : (authMachine cfg crypto adminId).Reachable pool)
    (hs : Spends pool e spent) :
    ((authHost cfg crypto adminId).step pool e).shared.row.totpLastUsedStep = some spent.step := by
  obtain ⟨data, hw⟩ := hs
  obtain ⟨known, -, hwritten⟩ := written_of_writes h hw
  rw [row_of_writes hw]
  cases hwritten <;> rfl

end Step

/-! ## Runs -/

/-- **What a run of fresh writes keeps of the second factor.** -/
theorem factor_kept {cfg : AuthConfig} {crypto : Crypto} {adminId : String} {pool₀ pool : AuthPool}
    {steps : List (AuthPool × AuthEvent × AuthPool)}
    (h : (authMachine cfg crypto adminId).Run pool₀ steps pool)
    (h₀ : (authMachine cfg crypto adminId).start pool₀)
    (hfresh : ∀ st ∈ steps, Fresh st.1 st.2.1) : FactorKept crypto steps := by
  have hreach := h.reachable_of_mem (.start h₀)
  have hstep : ∀ st ∈ steps, st.2.2 = (authHost cfg crypto adminId).step st.1 st.2.1 :=
    h.step_of_mem
  have hforward : ∀ st ∈ steps,
      Forward st.1.shared.row.totpLastUsedStep st.2.2.shared.row.totpLastUsedStep := by
    intro st hst
    rw [hstep st hst]
    exact forward_step (hreach st hst) (hfresh st hst)
  have hlater := h.pairwise
    (R := fun p p' => Forward p.shared.row.totpLastUsedStep p'.shared.row.totpLastUsedStep)
    (fun _ => .refl _) (fun _ _ _ => .trans) hforward
  refine ⟨fun st hst spent hs => ?_, ?_, hforward, fun st hst hon hoff => ?_,
    fun st hst hoff hon => ?_⟩
  · obtain ⟨data, hw⟩ := hs
    obtain ⟨known, -, hwritten⟩ := written_of_writes (hreach st hst) hw
    cases hwritten <;> assumption
  · refine hlater.imp_of_mem fun {st st'} hst hst' hle spent hs hs' => ?_
    -- the later taking finds the step already the last
    have hlast := last_of_spends (hreach st hst) hs
    rw [← hstep st hst] at hlast
    obtain ⟨l, hl, hstepLe⟩ := hle spent.step hlast
    obtain ⟨data, hw⟩ := hs'
    have hpast := (hfresh st' hst' _ _ hw).past spent rfl l hl
    omega
  · rw [hstep st hst] at hoff
    obtain ⟨spent, hsecret, ⟨-, hw⟩ | ⟨hoff', -⟩⟩ :=
      turned_step (hreach st hst) (hfresh st hst) (by rw [hoff, hon]; decide)
    · exact ⟨spent, hw, hsecret⟩
    · rw [hon] at hoff'
      cases hoff'
  · rw [hstep st hst] at hon ⊢
    obtain ⟨spent, hsecret, ⟨hon', -⟩ | ⟨-, hw, hsame⟩⟩ :=
      turned_step (hreach st hst) (hfresh st hst) (by rw [hoff, hon]; decide)
    · rw [hoff] at hon'
      cases hon'
    · exact ⟨spent, hw, hsame.trans hsecret⟩

/-! ## Two sign-ins with one code -/

/-- An admin with the second factor on. -/
def enrolled : AuthPool where
  shared := ⟨60000, ⟨"admin", "pw", some "A", true, none, false, 0⟩, .empty, [], [], []⟩
  procs := []

theorem enrolled_start : (authMachine plainConfig zeroCrypto "id").start enrolled :=
  ⟨⟨rfl, rfl, rfl⟩, rfl⟩

def signIn : AuthEvent := .start (.login ⟨"admin", "pw", some "000000"⟩ "127.0.0.1")

/-- One sign-in, up to its write. -/
def oneSignIn : List AuthEvent := signIn :: List.replicate 5 (turnOf 0)

/-- Two at once: the second checks its code before the first has written the step. -/
def twoSignIns : List AuthEvent :=
  [signIn, signIn] ++ List.replicate 4 (turnOf 0) ++ List.replicate 4 (turnOf 1) ++
    [turnOf 0, turnOf 1]

theorem factor_kept_oneSignIn : FactorKept zeroCrypto (authTrace enrolled oneSignIn) :=
  factor_kept (Machine.run_trace _ _ enrolled oneSignIn) enrolled_start (by decide +kernel)

/-- **Two sign-ins take one code.** -/
theorem code_taken_twice : ∃ pool,
    (authMachine plainConfig zeroCrypto "id").Run enrolled (authTrace enrolled twoSignIns) pool ∧
    (authMachine plainConfig zeroCrypto "id").start enrolled ∧
    ¬ FactorKept zeroCrypto (authTrace enrolled twoSignIns) := by
  refine ⟨_, Machine.run_trace _ _ enrolled twoSignIns, enrolled_start, fun h => ?_⟩
  have htwice := List.pairwise_iff_getElem.mp h.once 10 11 (by decide) (by decide) (by decide)
  have hfirst : Spends ((authTrace enrolled twoSignIns).get ⟨10, by decide⟩).1
      ((authTrace enrolled twoSignIns).get ⟨10, by decide⟩).2.1 ⟨"A", 1⟩ :=
    ⟨{ totpLastUsedStep := some 1 }, writes_iff.mpr (by decide +kernel)⟩
  have hsecond : Spends ((authTrace enrolled twoSignIns).get ⟨11, by decide⟩).1
      ((authTrace enrolled twoSignIns).get ⟨11, by decide⟩).2.1 ⟨"A", 1⟩ :=
    ⟨{ totpLastUsedStep := some 1 }, writes_iff.mpr (by decide +kernel)⟩
  exact htwice ⟨"A", 1⟩ hfirst hsecond

end Iceslab.Auth
