import Mathlib.Data.List.Basic

/-!
# A supervised process

`internal/core/subprocess/subprocess.go`, as the chain process is run: no memory ceiling, crashes
respawned after a backoff within a restart budget.

* `Subprocess.exits`, `Subprocess.backoffOver` — what the watcher does on an exit and when the
  backoff is over.
* `Subprocess.stop` — the start of `Stop`, which then waits until the process has exited.
* `Subprocess.Gone` — not alive and never coming back; nothing but a new `Start` undoes it.
-/

set_option autoImplicit false

namespace Iceslab.Agent

structure Subprocess where
  /-- `cmd` points at the spawned process -/
  tracked : Bool
  /-- the spawned process has not exited -/
  alive : Bool
  stopping : Bool
  restartCount : Nat
  /-- the watcher waits to respawn -/
  backingOff : Bool
  /-- how the last process ended, and its last words -/
  lastExit : Option String
  deriving DecidableEq, Repr

namespace Subprocess

def defaultMaxRestarts : Nat := 5

/-- A fresh process after `Start`. -/
def started : Subprocess := ⟨true, true, false, 0, false, none⟩

/-- `Running` -/
def running (p : Subprocess) : Bool := p.tracked && p.alive

/-- The crashes that count against the budget; a run longer than the reset window, `stable`, clears
them. -/
def crashes (p : Subprocess) (stable : Bool) : Nat := if stable then 0 else p.restartCount

/-- `watch`, up to the backoff. -/
def exits (reason : String) (stable : Bool) (p : Subprocess) : Subprocess :=
  if !p.alive then p
  else
    let down := { p with alive := false, tracked := false, lastExit := some reason }
    if p.tracked ∧ !p.stopping then
      if p.crashes stable < defaultMaxRestarts then
        { down with restartCount := p.crashes stable + 1, backingOff := true }
      else { down with restartCount := p.crashes stable }
    else down

/-- `watch`, after the backoff: a lifetime that is over, a `Stop` or another process wins. -/
def backoffOver (cancelled spawnFails : Bool) (p : Subprocess) : Subprocess :=
  if !p.backingOff then p
  else
    let p := { p with backingOff := false }
    if cancelled ∨ p.stopping ∨ p.tracked then p
    else if spawnFails then p
    else { p with tracked := true, alive := true }

/-- `Stop` up to its wait: the watcher will not respawn, and the process is signalled. -/
def stop (p : Subprocess) : Subprocess := { p with stopping := true, tracked := false }

/-! ## What is gone stays gone -/

def Gone (p : Subprocess) : Prop := p.alive = false ∧ (p.stopping = true ∨ p.backingOff = false)

variable {p : Subprocess}

theorem Gone.exits (h : p.Gone) (reason : String) (stable : Bool) :
    (p.exits reason stable).Gone := by
  unfold Subprocess.exits
  rw [if_pos (by simp [h.1])]
  exact h

theorem Gone.backoffOver (h : p.Gone) (cancelled spawnFails : Bool) :
    (p.backoffOver cancelled spawnFails).Gone := by
  unfold Subprocess.backoffOver
  split
  · exact h
  · rename_i hb
    have hs : p.stopping = true := by
      rcases h.2 with hs | hs
      · exact hs
      · simp [hs] at hb
    simp [hs, Gone, h.1]

@[simp] theorem stopping_exits (p : Subprocess) (reason : String) (stable : Bool) :
    (p.exits reason stable).stopping = p.stopping := by
  unfold Subprocess.exits
  split
  · rfl
  · dsimp only
    split
    · split <;> rfl
    · rfl

@[simp] theorem stopping_backoffOver (p : Subprocess) (cancelled spawnFails : Bool) :
    (p.backoffOver cancelled spawnFails).stopping = p.stopping := by
  unfold Subprocess.backoffOver
  split
  · rfl
  · dsimp only
    split
    · rfl
    · split <;> rfl

theorem gone_of_stopped (hs : p.stopping = true) (ha : p.alive = false) :
    p.Gone := ⟨ha, .inl hs⟩

end Subprocess

end Iceslab.Agent
