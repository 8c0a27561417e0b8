import Iceslab.Agent.SupervisorRestarts
import Iceslab.Agent.Subprocess

/-!
# The chain's process, as the chain manager sees it

`chain.go` `Start`s a fresh subprocess once and keeps no memory ceiling on it, so its manager is
modelled over the small `Subprocess`, which has no clock and one watcher.

* `Simulates` — a supervisor's state and the small one that stands for it.
* `chain_process_simulated` — **every run of the supervisor after that `Start` is a run of the
  small model.**
-/

set_option autoImplicit false

namespace Iceslab.Agent.Supervisor

variable {s s' : State} {sub : Subprocess} {p : Nat} {pr : Process}

/-- The policy `chain.go` runs its process under. -/
def chainConfig : Config := ⟨Subprocess.defaultMaxRestarts, 2 * second, 0⟩

/-- What the chain manager's model lets happen to its process. -/
inductive Op
  | exits (reason : String) (stable : Bool)
  | backoffOver (cancelled spawnFails : Bool)
  | stop
  deriving DecidableEq, Repr

def Op.apply (sub : Subprocess) : Op → Subprocess
  | .exits reason stable => sub.exits reason stable
  | .backoffOver cancelled spawnFails => sub.backoffOver cancelled spawnFails
  | .stop => sub.stop

/-- `ExitReason`, before the last words are put after it. -/
def exitText : Option String → String
  | none => "exited cleanly"
  | some err => err

/-- Every process but the last is over for good, and the last is as the small model has it. -/
structure Simulates (s : State) (sub : Subprocess) : Prop where
  procs : ∃ old last, s.procs = old ++ [last] ∧ (∀ pr ∈ old, pr.watcher = .returned) ∧
    sub.alive = decide (last.watcher = .waiting) ∧ sub.backingOff = last.watcher.backs
  unarmed : ∀ pr ∈ s.procs, pr.watchdog = .returned
  memKill : s.memKill = false
  tracked : sub.tracked = s.cmd.isSome
  stopping : sub.stopping = s.stopping
  restartCount : sub.restartCount = s.restartCount
  lastExit : sub.lastExit = s.lastExit.map exitText

/-- A process whose watcher has not returned is the last. -/
theorem last_of_active {old : List Process} {last pr : Process}
    (hold : ∀ pr ∈ old, pr.watcher = .returned) (hp : (old ++ [last])[p]? = some pr)
    (hw : pr.watcher ≠ .returned) : p = old.length ∧ pr = last := by
  rw [List.getElem?_append] at hp
  split at hp
  · exact absurd (hold pr (List.mem_of_getElem? hp)) hw
  · rename_i hlt
    rcases hd : p - old.length with _ | d
    · rw [hd] at hp
      exact ⟨by omega, (Option.some.inj hp).symm⟩
    · rw [hd] at hp
      cases hp

theorem modify_last (old : List Process) (last : Process) (f : Process → Process) :
    (old ++ [last]).modify old.length f = old ++ [f last] := by
  induction old with
  | nil => rfl
  | cons pr old ih => rw [List.cons_append, List.length_cons, List.modify_succ_cons, ih]; rfl

theorem Simulates.stop (h : Simulates s sub) : Simulates (stop s) sub.stop where
  procs := h.procs
  unarmed := h.unarmed
  memKill := h.memKill
  tracked := rfl
  stopping := rfl
  restartCount := h.restartCount
  lastExit := h.lastExit

/-- A process that exits is not yet seen to. -/
theorem Simulates.exits (h : Simulates s sub) (hk : Kept chainConfig s)
    (err : Option String) (hp : s.procs[p]? = some pr) (hr : pr.exited = none) :
    Simulates { s with procs := s.procs.modify p fun pr => { pr with exited := some err } }
      sub := by
  obtain ⟨old, last, hprocs, hold, halive, hback⟩ := h.procs
  have hw : pr.watcher = .waiting := (hk.sound pr (List.mem_of_getElem? hp)).watched hr
  rw [hprocs] at hp
  obtain ⟨rfl, rfl⟩ := last_of_active hold hp (by simp [hw])
  have hmodify : s.procs.modify old.length (fun pr => { pr with exited := some err }) =
      old ++ [{ pr with exited := some err }] := by
    rw [hprocs]
    exact modify_last _ _ _
  refine ⟨⟨old, _, hmodify, hold, halive, hback⟩, ?_, h.memKill, h.tracked, h.stopping,
    h.restartCount, h.lastExit⟩
  intro x hx
  rcases mem_modify hx with hx | ⟨b, hb, rfl⟩
  · exact h.unarmed x hx
  · exact h.unarmed b (List.mem_of_getElem? hb)

theorem unarmed_watcherTo (h : ∀ pr ∈ s.procs, pr.watchdog = .returned) (p : Nat) (w : Watcher) :
    ∀ pr ∈ (s.watcherTo p w).procs, pr.watchdog = .returned := by
  intro x hx
  rcases mem_modify hx with hx | ⟨b, hb, rfl⟩
  · exact h x hx
  · exact h b (List.mem_of_getElem? hb)

/-- An exit seen: the small model's, with how long the process was up. -/
theorem Simulates.watch (h : Simulates s sub) (hk : Kept chainConfig s)
    (err : Option String) (hp : s.procs[p]? = some pr) (hw : pr.watcher = .waiting) :
    Simulates (watch chainConfig p err s)
      (sub.exits (exitText err) (decide (restartResetWindow < s.now - s.lastSpawnAt))) := by
  obtain ⟨old, last, hprocs, hold, halive, hback⟩ := h.procs
  have hp' := hp
  rw [hprocs] at hp'
  obtain ⟨rfl, rfl⟩ := last_of_active hold hp' (by simp [hw])
  -- what is tracked is the one process whose watcher still waits
  have hcur : s.cmd ≠ none → s.cmd = some old.length := by
    intro hne
    obtain ⟨q, hq⟩ := Option.ne_none_iff_exists'.mp hne
    have hseen := hk.current q hq
    unfold State.seen at hseen
    obtain ⟨x, hx, hxw⟩ := Option.map_eq_some_iff.mp hseen
    rw [hprocs] at hx
    injection hxw with _ hxw
    rw [hq, (last_of_active hold hx (by simp [hxw])).1]
  have hlive : sub.alive = true := by simp [halive, hw]
  have hcrash : sub.crashes (decide (restartResetWindow < s.now - s.lastSpawnAt)) = crashes s := by
    simp [Subprocess.crashes, crashes, h.restartCount]
  have hmodify : ∀ w, s.procs.modify old.length (fun pr => { pr with watcher := w }) =
      old ++ [{ pr with watcher := w }] := by
    intro w
    rw [hprocs]
    exact modify_last _ _ _
  have hun := fun w => unarmed_watcherTo h.unarmed old.length w
  unfold Supervisor.watch Subprocess.exits
  simp only [hlive, Bool.not_true, Bool.false_eq_true, if_false, hcrash]
  by_cases hc : s.cmd = none
  · -- a `Stop` took the process away
    have htr : sub.tracked = false := by simp [h.tracked, hc]
    rw [if_neg (by simp [hc]), if_neg (by simp [htr])]
    exact ⟨⟨old, _, hmodify _, hold, rfl, hback.trans (by simp [hw, Watcher.backs])⟩, hun _, rfl,
      by simp [State.watcherTo, reaped, hc], h.stopping, h.restartCount, rfl⟩
  · have hc := hcur hc
    have htr : sub.tracked = true := by simp [h.tracked, hc]
    by_cases hstop : s.stopping = true
    · rw [if_neg (by simp [hstop]), if_neg (by simp [h.stopping, hstop])]
      exact ⟨⟨old, _, hmodify _, hold, rfl, hback.trans (by simp [hw, Watcher.backs])⟩, hun _, rfl,
        by simp [State.watcherTo, reaped, hc], h.stopping, h.restartCount, rfl⟩
    · have hstop : s.stopping = false := by simpa using hstop
      have hmem : ¬s.memKill = true := by simp [h.memKill]
      have hboth : sub.tracked = true ∧ (!sub.stopping) = true := by simp [htr, h.stopping, hstop]
      rw [if_pos ⟨hc, hstop, by decide⟩, if_neg hmem, if_pos hboth]
      by_cases hlt : crashes s < Subprocess.defaultMaxRestarts
      · have hlt' : crashes s < chainConfig.maxRestarts := hlt
        rw [if_pos hlt', if_pos hlt]
        exact ⟨⟨old, _, hmodify _, hold, rfl, rfl⟩, hun _, rfl,
          by simp [State.watcherTo, decideRestart, reaped, hc], h.stopping, rfl, rfl⟩
      · have hlt' : ¬crashes s < chainConfig.maxRestarts := hlt
        rw [if_neg hlt', if_neg hlt]
        exact ⟨⟨old, _, hmodify _, hold, rfl, hback.trans (by simp [hw, Watcher.backs])⟩, hun _,
          rfl, by simp [State.watcherTo, reaped, hc], h.stopping, rfl, rfl⟩

/-- The small model does not tell an announcement from the backoff after it. -/
theorem Simulates.announce (h : Simulates s sub) {ev : RestartEvent}
    (hp : s.procs[p]? = some pr) (hw : pr.watcher = .announcing ev) :
    Simulates (announce chainConfig p ev s) sub := by
  obtain ⟨old, last, hprocs, hold, halive, hback⟩ := h.procs
  rw [hprocs] at hp
  obtain ⟨rfl, rfl⟩ := last_of_active hold hp (by simp [hw])
  have hmodify : ∀ w, s.procs.modify old.length (fun pr => { pr with watcher := w }) =
      old ++ [{ pr with watcher := w }] := by
    intro w
    rw [hprocs]
    exact modify_last _ _ _
  exact ⟨⟨old, _, hmodify _, hold, by simp [halive, hw], by simp [hback, hw, Watcher.backs]⟩,
    unarmed_watcherTo h.unarmed _ _, h.memKill, h.tracked, h.stopping, h.restartCount, h.lastExit⟩

theorem Simulates.backoffOver (h : Simulates s sub) {due : Nat}
    (hp : s.procs[p]? = some pr) (hw : pr.watcher = .backingOff due) (cancelled execs : Bool) :
    Simulates (backoffOver chainConfig p cancelled execs s)
      (sub.backoffOver cancelled (!execs)) := by
  obtain ⟨old, last, hprocs, hold, halive, hback⟩ := h.procs
  have hp' := hp
  rw [hprocs] at hp'
  obtain ⟨rfl, rfl⟩ := last_of_active hold hp' (by simp [hw])
  have hbacks : sub.backingOff = true := by simp [hback, hw, Watcher.backs]
  have hdead : sub.alive = false := by simp [halive, hw]
  have hmodify : s.procs.modify old.length (fun pr => { pr with watcher := .returned }) =
      old ++ [{ pr with watcher := .returned }] := by
    rw [hprocs]
    exact modify_last _ _ _
  have hdone : Simulates (s.watcherTo old.length .returned) { sub with backingOff := false } :=
    ⟨⟨old, _, hmodify, hold, by simp [hdead], rfl⟩, unarmed_watcherTo h.unarmed _ _, h.memKill,
      h.tracked, h.stopping, h.restartCount, h.lastExit⟩
  have hcond : (cancelled = true ∨ sub.stopping = true ∨ sub.tracked = true) ↔
      (0 < chainConfig.restartBackoff ∧ cancelled = true) ∨ s.stopping = true ∨ s.cmd ≠ none := by
    have hpos : 0 < chainConfig.restartBackoff := by decide
    rw [h.stopping, h.tracked, Option.isSome_iff_ne_none]
    simp [hpos]
  unfold Supervisor.backoffOver Subprocess.backoffOver
  simp only [hbacks, Bool.not_true, Bool.false_eq_true, if_false, hcond]
  by_cases hcan : 0 < chainConfig.restartBackoff ∧ cancelled = true
  · rw [if_pos hcan, if_pos (.inl hcan)]
    exact hdone
  · rw [if_neg hcan]
    by_cases hbusy : s.stopping = true ∨ s.cmd ≠ none
    · have hbusy' : (s.watcherTo old.length .returned).stopping = true ∨
          (s.watcherTo old.length .returned).cmd ≠ none := hbusy
      have hall : 0 < chainConfig.restartBackoff ∧ cancelled = true ∨
          s.stopping = true ∨ s.cmd ≠ none := .inr hbusy
      rw [if_pos hbusy', if_pos hall]
      exact hdone
    · have hbusy' : ¬((s.watcherTo old.length .returned).stopping = true ∨
          (s.watcherTo old.length .returned).cmd ≠ none) := hbusy
      have hall : ¬(0 < chainConfig.restartBackoff ∧ cancelled = true ∨
          s.stopping = true ∨ s.cmd ≠ none) := not_or.mpr ⟨hcan, hbusy⟩
      rw [if_neg hbusy', if_neg hall]
      cases execs with
      | false => exact hdone
      | true =>
        refine ⟨⟨_, _, rfl, ?_, rfl, rfl⟩, ?_, h.memKill, rfl, h.stopping, h.restartCount,
          h.lastExit⟩
        · show ∀ x ∈ s.procs.modify old.length fun pr => { pr with watcher := .returned },
            x.watcher = .returned
          rw [hmodify]
          intro x hx
          rcases List.mem_append.mp hx with hx | hx
          · exact hold x hx
          · rw [List.mem_singleton.mp hx]
        · intro x hx
          rcases List.mem_append.mp hx with hx | hx
          · exact hdone.unarmed x hx
          · rw [List.mem_singleton.mp hx]
            rfl

/-- One step of the supervisor is an operation of the small model or none. -/
theorem Simulates.step (h : Simulates s sub) (hk : Kept chainConfig s) {e : Event}
    (hs : Step chainConfig s e s') (he : e.isStart = false) :
    ∃ ops : List Op, Simulates s' (ops.foldl Op.apply sub) := by
  cases hs with
  | tick d =>
    exact ⟨[], h.procs, h.unarmed, h.memKill, h.tracked, h.stopping, h.restartCount, h.lastExit⟩
  | start execs => cases he
  | stop => exact ⟨[.stop], h.stop⟩
  | stopReturns p pr hp hw =>
    exact ⟨[], h.procs, h.unarmed, h.memKill, h.tracked, h.stopping, h.restartCount, h.lastExit⟩
  | exits p pr err hp hr => exact ⟨[], h.exits hk err hp hr⟩
  | watch p pr err hp hr hw => exact ⟨[.exits _ _], h.watch hk err hp hw⟩
  | announce p pr ev hp hw => exact ⟨[], h.announce hp hw⟩
  | backoffOver p due pr cancelled execs hp hw hd =>
    exact ⟨[.backoffOver _ _], h.backoffOver hp hw cancelled execs⟩
  | sample p breaches pr reading hp hw =>
    rw [h.unarmed pr (List.mem_of_getElem? hp)] at hw
    cases hw
  | recheck p spawnedAt pr hp hw =>
    rw [h.unarmed pr (List.mem_of_getElem? hp)] at hw
    cases hw

/-- `Running` answers what the small model says. -/
theorem Simulates.running (h : Simulates s sub) (hk : Kept chainConfig s) :
    sub.running = s.running := by
  obtain ⟨old, last, hprocs, hold, halive, -⟩ := h.procs
  unfold Subprocess.running State.running
  rw [h.tracked]
  rcases hc : s.cmd with _ | q
  · rfl
  · have hseen := hk.current q hc
    unfold State.seen at hseen
    obtain ⟨x, hx, hxw⟩ := Option.map_eq_some_iff.mp hseen
    injection hxw with _ hxw
    rw [hprocs] at hx
    obtain ⟨-, rfl⟩ := last_of_active hold hx (by simp [hxw])
    simp [hprocs, hx, halive, hxw]

theorem Simulates.started : Simulates (start chainConfig true .new) .started where
  procs := ⟨[], _, rfl, by simp, rfl, rfl⟩
  unarmed := by decide
  memKill := rfl
  tracked := rfl
  stopping := rfl
  restartCount := rfl
  lastExit := rfl

/-- **The chain manager's model of its process is sound**: whatever the supervisor does after the
one `Start` of `chain.go`, some run of the small model ends in a state that stands for it; what
`Running` answers is the same. -/
theorem chain_process_simulated {steps : List (State × Event × State)}
    (h : (machine chainConfig).Run (start chainConfig true .new) steps s)
    (hno : ∀ st ∈ steps, st.2.1.isStart = false) :
    ∃ ops : List Op, Simulates s (ops.foldl Op.apply .started) ∧
      (ops.foldl Op.apply .started).running = s.running := by
  have hstarted : Kept chainConfig (start chainConfig true .new) := (Kept.new _).start true
  have hinv : Kept chainConfig s ∧ ∃ ops : List Op, Simulates s (ops.foldl Op.apply .started) := by
    refine h.keeps (P := fun s => Kept chainConfig s ∧
      ∃ ops : List Op, Simulates s (ops.foldl Op.apply .started)) ?_
      ⟨hstarted, [], Simulates.started⟩
    rintro st hst ⟨hk, ops, hsim⟩
    have hstep := h.step_of_mem st hst
    obtain ⟨ops', hsim'⟩ := hsim.step hk hstep (hno st hst)
    exact ⟨hk.step hstep, ops ++ ops', by rw [List.foldl_append]; exact hsim'⟩
  obtain ⟨hk, ops, hsim⟩ := hinv
  exact ⟨ops, hsim, hsim.running hk⟩

theorem chain_process_simulated_crash :
    ∃ steps s, (machine chainConfig).Run (start chainConfig true .new) steps s ∧
      s.restartCount = 1 ∧ s.running = false ∧
      ∃ ops : List Op, Simulates s (ops.foldl Op.apply .started) ∧
        (ops.foldl Op.apply .started).running = s.running := by
  have hrun := Machine.Run.cons (m := machine chainConfig)
    (.exits (start chainConfig true .new) 0 _ (some "exit status 1") rfl rfl)
    (.cons (.watch _ 0 _ (some "exit status 1") rfl rfl rfl) (.nil _))
  exact ⟨_, _, hrun, rfl, rfl, chain_process_simulated hrun (by simp [Event.isStart])⟩

end Iceslab.Agent.Supervisor
