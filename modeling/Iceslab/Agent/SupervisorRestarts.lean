import Iceslab.Agent.SupervisorKept

/-!
# How a supervisor restarts its core

* `one_alive` — of callers that let a `Stop` return before they `Start` again, as the adapters do,
  at most one process lives.
* `memory_restarts_spaced` — no restart is decided within `memoryMinUptime` before a memory restart.
* `spawns_bounded` — **the restarts cannot storm**: how many processes a run spawns is bounded by
  its `Start`s and the time it takes, however the core behaves.
-/

set_option autoImplicit false

namespace Iceslab.Agent.Supervisor

variable {cfg : Config} {s s' : State} {p q t : Nat} {evs : List RestartEvent} {starts : Nat}
  {pr : Process} {w : Watcher} {a count : Nat} {e : Event}

/-! ## Of callers that wait -/

/-- One `Stop` waits at a time, and nothing is tracked or brought back while it does. -/
structure Serial (s : State) : Prop where
  single : s.stops.length ≤ 1
  stopped : s.stops ≠ [] → s.cmd = none ∧ s.stopping = true

theorem Serial.new : Serial .new := ⟨Nat.zero_le _, fun h => absurd rfl h⟩

theorem Serial.same (h : Serial s) (hstops : s'.stops = s.stops) (hcmd : s'.cmd = s.cmd)
    (hstop : s'.stopping = s.stopping) : Serial s' where
  single := hstops ▸ h.single
  stopped hne := by
    rw [hcmd, hstop]
    exact h.stopped (hstops ▸ hne)

theorem Serial.spawn (h : Serial s) (hs : s.stops = []) (execs : Bool) :
    Serial (spawnLocked cfg execs s) := by
  cases execs with
  | false => exact h
  | true => exact ⟨h.single, fun hne => absurd hs hne⟩

theorem Serial.start (h : Serial s) (hs : s.stops = []) (execs : Bool) :
    Serial (start cfg execs s) := by
  unfold Supervisor.start
  split
  · exact h
  · have hfresh : Serial { s with stopping := false, restartCount := 0 } :=
      ⟨h.single, fun hne => absurd hs hne⟩
    exact hfresh.spawn hs execs

theorem Serial.stop (h : Serial s) : Serial (stop s) where
  single := by
    rcases hc : s.cmd with _ | p
    · simpa [Supervisor.stop, hc] using h.single
    · have hs : s.stops = [] := by
        by_contra hne
        rw [(h.stopped hne).1] at hc
        cases hc
      simp [Supervisor.stop, hc, hs]
  stopped _ := ⟨rfl, rfl⟩

theorem Serial.outcome (h : Serial s) (p count : Nat) (evs : List RestartEvent) (w : Watcher)
    (err : Option String) : Serial (watched p err count evs w s) where
  single := h.single
  stopped hne := by
    obtain ⟨hc, hs⟩ := h.stopped hne
    exact ⟨by simp [watched, State.watcherTo, reaped, hc], hs⟩

theorem Serial.backoffOver (h : Serial s) (p : Nat) (cancelled execs : Bool) :
    Serial (backoffOver cfg p cancelled execs s) := by
  have hdone : Serial (s.watcherTo p .returned) := h.same rfl rfl rfl
  unfold Supervisor.backoffOver
  dsimp only
  split
  · exact hdone
  · split
    · exact hdone
    · rename_i hgo
      refine hdone.spawn ?_ execs
      by_contra hne
      exact hgo (.inl (h.stopped hne).2)

theorem Serial.step (h : Serial s) (hs : Step cfg s e s')
    (hser : e.isStart = true → s.stops = []) : Serial s' := by
  cases hs with
  | start execs => exact h.start (hser rfl) execs
  | stop => exact h.stop
  | stopReturns p pr hp hw =>
    refine ⟨Nat.le_trans List.length_erase_le h.single, fun hne => h.stopped fun hs => hne ?_⟩
    simp [hs]
  | watch p pr err hp hr hw =>
    obtain ⟨count, evs, w, -, heq⟩ := watch_outcome cfg p err s
    rw [heq]
    exact h.outcome p count evs w err
  | backoffOver p due pr cancelled execs hp hw hd => exact h.backoffOver p cancelled execs
  | tick d => exact h.same rfl rfl rfl
  | exits p pr err hp hr => exact h.same rfl rfl rfl
  | announce p pr ev hp hw => exact h.same rfl rfl rfl
  | sample p breaches pr reading hp hw =>
    obtain heq | ⟨rss, w, heq, -⟩ := sample_eq cfg p breaches reading s <;> rw [heq]
    · exact h
    · exact h.same rfl rfl rfl
  | recheck p spawnedAt pr hp hw =>
    obtain ⟨kill, w, heq, -⟩ := recheck_eq p spawnedAt s
    rw [heq]
    exact h.same rfl rfl rfl

theorem reachable_of_serial (h : (serialMachine cfg).Reachable s) : (machine cfg).Reachable s := by
  induction h with
  | start h => exact .start h
  | step h hs ih => exact .step ih hs.1

theorem run_of_serial {steps : List (State × Event × State)}
    (h : (serialMachine cfg).Run s steps s') : (machine cfg).Run s steps s' := by
  induction h with
  | nil s => exact .nil s
  | cons hs h ih => exact .cons hs.1 ih

theorem serial_of_reachable (h : (serialMachine cfg).Reachable s) : Serial s := by
  refine h.invariant ?_ fun s e s' _ hi hs => ?_
  · rintro s rfl
    exact Serial.new
  · exact hi.step hs.1 hs.2

theorem alive_unique (h : (serialMachine cfg).Reachable s) {pr qr : Process}
    (hp : s.procs[p]? = some pr) (hq : s.procs[q]? = some qr) (hpa : pr.exited = none)
    (hqa : qr.exited = none) : p = q := by
  have hk : Kept cfg s := kept_of_reachable (reachable_of_serial h)
  have hs : Serial s := serial_of_reachable h
  by_cases hstops : s.stops = []
  · have hcur : ∀ {r : Nat} {x : Process}, s.procs[r]? = some x → x.exited = none →
        s.cmd = some r := by
      intro r x hr hx
      rcases hk.alive hr hx with hc | hc
      · exact hc
      · rw [hstops] at hc
        cases hc
    have := (hcur hp hpa).symm.trans (hcur hq hqa)
    exact Option.some.inj this
  · have hcur : ∀ {r : Nat} {x : Process}, s.procs[r]? = some x → x.exited = none →
        r ∈ s.stops := by
      intro r x hr hx
      rcases hk.alive hr hx with hc | hc
      · rw [(hs.stopped hstops).1] at hc
        cases hc
      · exact hc
    obtain ⟨r, hr⟩ := List.length_eq_one_iff.mp
      (Nat.le_antisymm hs.single (List.length_pos_iff.mpr hstops))
    have hp' := hcur hp hpa
    have hq' := hcur hq hqa
    rw [hr, List.mem_singleton] at hp' hq'
    exact hp'.trans hq'.symm

theorem countP_le_one {α : Type*} {P : α → Bool} {l : List α}
    (h : ∀ (i j : Nat) (a b : α), l[i]? = some a → l[j]? = some b → P a = true → P b = true →
      i = j) : l.countP P ≤ 1 := by
  induction l with
  | nil => exact Nat.zero_le _
  | cons a l ih =>
    rw [List.countP_cons]
    by_cases ha : P a = true
    · have htail : l.countP P = 0 := by
        refine List.countP_eq_zero.mpr fun b hb hPb => ?_
        obtain ⟨j, hj⟩ := List.mem_iff_getElem?.mp hb
        have := h 0 (j + 1) a b rfl hj ha hPb
        omega
      simp [ha, htail]
    · have htail : l.countP P ≤ 1 := by
        refine ih fun i j x y hi hj hx hy => ?_
        have := h (i + 1) (j + 1) x y hi hj hx hy
        omega
      simpa [ha] using htail

/-- **Of callers that wait, no two processes live at once**, through crashes, memory kills, stops
and starts. -/
theorem one_alive (h : (serialMachine cfg).Reachable s) :
    s.procs.countP (fun pr => decide (pr.exited = none)) ≤ 1 := by
  refine countP_le_one fun i j a b hi hj ha hb => ?_
  exact alive_unique h hi hj (by simpa using ha) (by simpa using hb)

def countStarts (steps : List (State × Event × State)) : Nat :=
  steps.countP fun st => st.2.1.isStart

/-- A core that crashed once, and whose next process the watchdog kills. -/
theorem grown_run : ∃ steps s, (serialMachine ⟨5, 0, 100⟩).Run .new steps s ∧
    s.procs.length = 2 ∧ s.decided.map (·.reason) = [.crash, .memory] ∧ countStarts steps = 1 := by
  have hno : ∀ {e : Event} {l : List Nat}, e.isStart = false → e.isStart = true → l = [] := by
    intro e l h h'
    rw [h] at h'
    cases h'
  refine ⟨_, _, .cons ⟨.start _ true, fun _ => rfl⟩
    (.cons ⟨.exits _ 0 _ none rfl rfl, hno rfl⟩
    (.cons ⟨.watch _ 0 _ none rfl rfl rfl, hno rfl⟩
    (.cons ⟨.announce _ 0 _ _ rfl rfl, hno rfl⟩
    (.cons ⟨.backoffOver _ 0 0 _ false true rfl rfl (.inr (by decide)), hno rfl⟩
    (.cons ⟨.tick _ memoryMinUptime, hno rfl⟩
    (.cons ⟨.sample _ 1 0 _ (some 200) rfl rfl, hno rfl⟩
    (.cons ⟨.sample _ 1 1 _ (some 200) rfl rfl, hno rfl⟩
    (.cons ⟨.recheck _ 1 0 _ rfl rfl, hno rfl⟩
    (.cons ⟨.exits _ 1 _ none rfl rfl, hno rfl⟩
    (.cons ⟨.watch _ 1 _ none rfl rfl rfl, hno rfl⟩ (.nil _))))))))))), ?_, ?_, ?_⟩
  · rfl
  · rfl
  · rfl

theorem one_alive_grown : ∃ s, (serialMachine ⟨5, 0, 100⟩).Reachable s ∧ s.procs.length = 2 ∧
    s.procs.countP (fun pr => decide (pr.exited = none)) ≤ 1 := by
  obtain ⟨steps, s, h, hlen, -, -⟩ := grown_run
  exact ⟨s, h.reachable (.start rfl), hlen, one_alive (h.reachable (.start rfl))⟩

/-! ## When the watchdog restarts -/

/-- A process marked for the watchdog's kill is old, and so is every restart decided before. -/
structure Spaced (s : State) : Prop where
  marked : s.memKill = true → ∀ e ∈ s.decided, e.when + memoryMinUptime ≤ s.now
  spaced : s.decided.Pairwise fun a b => b.reason = .memory → a.when + memoryMinUptime ≤ b.when

theorem Spaced.same (h : Spaced s) (hm : s'.memKill = s.memKill) (hd : s'.decided = s.decided)
    (hn : s.now ≤ s'.now) : Spaced s' where
  marked hk e he := Nat.le_trans (h.marked (hm ▸ hk) e (hd ▸ he)) hn
  spaced := hd ▸ h.spaced

theorem Spaced.spawn (h : Spaced s) (execs : Bool) : Spaced (spawnLocked cfg execs s) := by
  cases execs with
  | false => exact h
  | true => exact h.same rfl rfl (Nat.le_refl _)

theorem Spaced.outcome (h : Spaced s) (hout : Outcome cfg p s count evs w) (err : Option String) :
    Spaced (watched p err count evs w s) where
  marked hm := by cases hm
  spaced := by
    refine List.pairwise_append.mpr ⟨h.spaced, ?_, fun a ha b hb hmem => ?_⟩
    · cases hout <;> simp
    · cases hout with
      | left => cases hb
      | crash hc hlt ev hev =>
        rw [List.mem_singleton.mp hb, hev] at hmem
        cases hmem
      | memory hc hm ev hev =>
        rw [List.mem_singleton.mp hb, hev]
        exact h.marked hm a ha

theorem Spaced.recheck (h : Spaced s) (hk : Kept cfg s)
    (hp : s.procs[p]? = some pr) (hw : pr.watchdog = .deciding a) : Spaced (recheck p a s) := by
  obtain ⟨kill, w, heq, -, hkill⟩ := recheck_eq p a s
  rw [heq]
  refine ⟨fun hm e he => ?_, h.spaced⟩
  have hm : kill = true := hm
  rcases hkill with hkill | ⟨hc, hage⟩
  · exact h.marked (hkill ▸ hm) e he
  · have hlast := hk.spawn_of_deciding hp hw hc
    have hpast : e.when ≤ s.lastSpawnAt := (hk.past e he).2 (by simp [hc])
    show e.when + memoryMinUptime ≤ s.now
    omega

theorem Spaced.step (h : Spaced s) (hk : Kept cfg s) (hs : Step cfg s e s') : Spaced s' := by
  cases hs with
  | tick d => exact h.same rfl rfl (Nat.le_add_right _ _)
  | start execs =>
    unfold start
    split
    · exact h
    · have hfresh : Spaced { s with stopping := false, restartCount := 0 } :=
        h.same rfl rfl (Nat.le_refl _)
      exact hfresh.spawn execs
  | watch p pr err hp hr hw =>
    obtain ⟨count, evs, w, hout, heq⟩ := watch_outcome cfg p err s
    rw [heq]
    exact h.outcome hout err
  | backoffOver p due pr cancelled execs hp hw hd =>
    have hdone : Spaced (s.watcherTo p .returned) := h.same rfl rfl (Nat.le_refl _)
    unfold backoffOver
    dsimp only
    split
    · exact hdone
    · split
      · exact hdone
      · exact hdone.spawn execs
  | sample p breaches pr reading hp hw =>
    obtain heq | ⟨rss, w, heq, -⟩ := sample_eq cfg p breaches reading s <;> rw [heq]
    · exact h
    · exact h.same rfl rfl (Nat.le_refl _)
  | recheck p spawnedAt pr hp hw => exact h.recheck hk hp hw
  | stop => exact h.same rfl rfl (Nat.le_refl _)
  | stopReturns p pr hp hw => exact h.same rfl rfl (Nat.le_refl _)
  | exits p pr err hp hr => exact h.same rfl rfl (Nat.le_refl _)
  | announce p pr ev hp hw => exact h.same rfl rfl (Nat.le_refl _)

/-- **A memory restart is decided at least `memoryMinUptime` after every restart before it.** -/
theorem memory_restarts_spaced (h : (machine cfg).Reachable s) :
    s.decided.Pairwise fun a b => b.reason = .memory → a.when + memoryMinUptime ≤ b.when := by
  have hinv : Spaced s := by
    refine h.invariant ?_ fun s e s' hr hi hs => hi.step (kept_of_reachable hr) hs
    rintro s rfl
    exact ⟨fun hm => (by cases hm), .nil⟩
  exact hinv.spaced

theorem memory_restarts_spaced_grown : ∃ s, (machine ⟨5, 0, 100⟩).Reachable s ∧
    s.decided.map (·.reason) = [.crash, .memory] ∧
    s.decided.Pairwise fun a b => b.reason = .memory → a.when + memoryMinUptime ≤ b.when := by
  obtain ⟨steps, s, h, -, hevs, -⟩ := grown_run
  have hr := reachable_of_serial (h.reachable (.start rfl))
  exact ⟨s, hr, hevs, memory_restarts_spaced hr⟩

/-! ## How many processes a run spawns -/

/-- The watcher may spawn again. -/
def Watcher.backs : Watcher → Bool
  | .announcing _ => true
  | .backingOff _ => true
  | _ => false

def Process.backs (pr : Process) : Bool := pr.watcher.backs

theorem countP_modify {α : Type*} {P : α → Bool} {f : α → α} {l : List α} {a : α}
    (h : l[p]? = some a) :
    (l.modify p f).countP P + (if P a then 1 else 0) =
      l.countP P + (if P (f a) then 1 else 0) := by
  induction l generalizing p with
  | nil => cases h
  | cons b l ih =>
    cases p with
    | zero =>
      injection h with h
      subst h
      rw [List.modify_zero_cons, List.countP_cons, List.countP_cons]
      omega
    | succ p =>
      have := ih (p := p) h
      rw [List.modify_succ_cons, List.countP_cons, List.countP_cons]
      omega

theorem backs_modify {f : Process → Process} {l : List Process}
    (hf : ∀ pr, l[p]? = some pr → (f pr).backs = pr.backs) :
    (l.modify p f).countP Process.backs = l.countP Process.backs := by
  rcases hp : l[p]? with _ | pr
  · rw [List.modify_eq_self (List.getElem?_eq_none_iff.mp hp)]
  · have h := countP_modify (P := Process.backs) (f := f) hp
    rw [hf pr hp] at h
    omega

/-- The time no process tracked now has used. -/
def State.clock (s : State) : Nat := if s.cmd = none then s.now else s.lastSpawnAt

theorem clock_le_now (h : Kept cfg s) : s.clock ≤ s.now := by
  unfold State.clock
  split
  · exact Nat.le_refl _
  · exact h.lastSpawn

/-- What has been decided after so many `Start`s: every fresh budget but the first of a `Start` was
earned by a stretch of `restartResetWindow`, of which there were `k`; a mark stands for one more. -/
structure Earned (cfg : Config) (starts : Nat) (s : State) (k : Nat) : Prop where
  clock : k * restartResetWindow ≤ s.clock
  marked : s.memKill = true → (k + 1) * restartResetWindow ≤ s.now
  count : s.decided = [] ∨ s.decided.length + cfg.maxRestarts ≤
    (cfg.maxRestarts + 1) * k + cfg.maxRestarts * starts + s.restartCount

structure Spent (cfg : Config) (starts : Nat) (s : State) : Prop where
  spawned : s.procs.length + s.procs.countP Process.backs ≤ starts + s.decided.length
  restarted : ∃ k, Earned cfg starts s k

theorem Spent.same (h : Spent cfg starts s) (hlen : s'.procs.length = s.procs.length)
    (hb : s'.procs.countP Process.backs = s.procs.countP Process.backs)
    (hd : s'.decided = s.decided) (hc : s'.restartCount = s.restartCount)
    (hm : s'.memKill = s.memKill) (hclock : s.clock ≤ s'.clock) (hn : s.now ≤ s'.now) :
    Spent cfg starts s' where
  spawned := by
    rw [hlen, hb, hd]
    exact h.spawned
  restarted := by
    obtain ⟨k, hk⟩ := h.restarted
    refine ⟨k, Nat.le_trans hk.clock hclock, fun hkill => ?_, ?_⟩
    · exact Nat.le_trans (hk.marked (hm ▸ hkill)) hn
    · rw [hd, hc]
      exact hk.count

theorem Spent.modify (h : Spent cfg starts s) {f : Process → Process}
    (hf : ∀ pr, s.procs[p]? = some pr → (f pr).backs = pr.backs) :
    Spent cfg starts { s with procs := s.procs.modify p f } :=
  h.same (by simp) (backs_modify hf) rfl rfl rfl (Nat.le_refl _) (Nat.le_refl _)

theorem Spent.spawn (h : Spent cfg starts s) (hc : s.cmd = none)
    (hroom : s.procs.length + s.procs.countP Process.backs < starts + s.decided.length)
    (execs : Bool) : Spent cfg starts (spawnLocked cfg execs s) := by
  cases execs with
  | false => exact h
  | true =>
    refine ⟨?_, ?_⟩
    · have hnew : (spawnLocked cfg true s).procs.countP Process.backs =
          s.procs.countP Process.backs := by
        simp [spawnLocked, Process.backs, Watcher.backs]
      rw [hnew]
      simp only [spawnLocked, Bool.not_true, Bool.false_eq_true, if_false, List.length_append,
        List.length_singleton]
      omega
    · obtain ⟨k, hk, hmark, hcount⟩ := h.restarted
      rw [State.clock, if_pos hc] at hk
      exact ⟨k, by simpa [State.clock, spawnLocked] using hk, hmark, hcount⟩

theorem Spent.start (h : Spent cfg starts s) (hb : s.restartCount ≤ cfg.maxRestarts)
    (execs : Bool) : Spent cfg (starts + 1) (start cfg execs s) := by
  obtain ⟨k, hk, hmark, hcount⟩ := h.restarted
  have hsp := h.spawned
  have hmul : cfg.maxRestarts * (starts + 1) = cfg.maxRestarts * starts + cfg.maxRestarts :=
    Nat.mul_succ _ _
  unfold Supervisor.start
  split
  · exact ⟨by omega, k, hk, hmark, hcount.imp id fun hcount => by omega⟩
  · rename_i hc
    have hfresh : Spent cfg (starts + 1) { s with stopping := false, restartCount := 0 } := by
      refine ⟨?_, k, hk, hmark, hcount.imp id fun hcount => ?_⟩
      · show s.procs.length + s.procs.countP Process.backs ≤ starts + 1 + s.decided.length
        omega
      · show s.decided.length + cfg.maxRestarts ≤
          (cfg.maxRestarts + 1) * k + cfg.maxRestarts * (starts + 1) + 0
        omega
    refine hfresh.spawn (not_not.mp hc) ?_ execs
    show s.procs.length + s.procs.countP Process.backs < starts + 1 + s.decided.length
    omega

theorem backs_watched (err : Option String) (hp : s.procs[p]? = some pr)
    (hw : pr.watcher = .waiting) :
    (watched p err count evs w s).procs.countP Process.backs =
      s.procs.countP Process.backs + if w.backs then 1 else 0 := by
  have h := countP_modify (P := Process.backs) (f := fun pr => { pr with watcher := w }) hp
  have hpr : pr.backs = false := by simp [Process.backs, hw, Watcher.backs]
  rw [hpr, if_neg Bool.false_ne_true] at h
  exact h

/-- What an exit leaves of the budget, and what the time since the spawn has earned. -/
theorem Earned.outcome {starts count k : Nat}
    (h : Earned cfg starts s k) (hk : Kept cfg s) (hout : Outcome cfg p s count evs w)
    (err : Option String) (hstarts : s.decided = [] → 0 < starts) :
    ∃ k, Earned cfg starts (watched p err count evs w s) k := by
  obtain ⟨hclock, hmark, hcount⟩ := h
  have hb := hk.budget
  have hmul : (cfg.maxRestarts + 1) * (k + 1) =
      (cfg.maxRestarts + 1) * k + cfg.maxRestarts + 1 := by
    rw [Nat.mul_succ]
    omega
  have hwin : (k + 1) * restartResetWindow = k * restartResetWindow + restartResetWindow :=
    Nat.succ_mul _ _
  have hspawn : s.cmd = some p → s.clock = s.lastSpawnAt := by
    intro hc
    simp [State.clock, hc]
  have hfree : s.cmd = some p → (watched p err count evs w s).clock = s.now := by
    intro hc
    simp [State.clock, watched, State.watcherTo, reaped, hc]
  have hunmark : ∀ n, (watched p err count evs w s).memKill = true → n ≤ s.now := by
    intro n hm
    cases hm
  cases hout with
  | left =>
    refine ⟨k, ?_, hunmark _, by simpa [watched, State.watcherTo, reaped] using hcount⟩
    by_cases hc : s.cmd = some p
    · rw [hfree hc]
      exact Nat.le_trans hclock (clock_le_now hk)
    · refine Nat.le_trans hclock (Nat.le_of_eq ?_)
      simp [State.clock, watched, State.watcherTo, reaped, hc]
  | memory hc hm ev hev =>
    refine ⟨k + 1, by rw [hfree hc]; exact hmark hm, hunmark _, .inr ?_⟩
    show (s.decided ++ _).length + cfg.maxRestarts ≤ _ + _ + 0
    rw [List.length_append, List.length_singleton]
    rcases hcount with hnil | hcount
    · rw [hnil, List.length_nil]
      omega
    · omega
  | crash hc hlt ev hev =>
    rw [hspawn hc] at hclock
    by_cases hstable : restartResetWindow < s.now - s.lastSpawnAt
    · -- a stable run has earned a budget
      have hcr : crashes s = 0 := by
        unfold crashes
        rw [if_pos hstable]
      refine ⟨k + 1, by rw [hfree hc]; omega, hunmark _, .inr ?_⟩
      show (s.decided ++ _).length + cfg.maxRestarts ≤ _ + _ + (crashes s + 1)
      rw [List.length_append, List.length_singleton, hcr]
      rcases hcount with hnil | hcount
      · rw [hnil, List.length_nil]
        omega
      · omega
    · have hcr : crashes s = s.restartCount := by
        unfold crashes
        rw [if_neg hstable]
      have hnow := hk.lastSpawn
      refine ⟨k, by rw [hfree hc]; omega, hunmark _, .inr ?_⟩
      show (s.decided ++ _).length + cfg.maxRestarts ≤ _ + _ + (crashes s + 1)
      rw [List.length_append, List.length_singleton, hcr]
      rcases hcount with hnil | hcount
      · -- the first decision about a process that some `Start` spawned
        have hstart : cfg.maxRestarts ≤ cfg.maxRestarts * starts :=
          Nat.le_mul_of_pos_right _ (hstarts hnil)
        rw [hnil, List.length_nil]
        omega
      · omega

theorem Spent.outcome
    (h : Spent cfg starts s) (hk : Kept cfg s) (hout : Outcome cfg p s count evs w)
    (err : Option String) (hp : s.procs[p]? = some pr)
    (hw : pr.watcher = .waiting) : Spent cfg starts (watched p err count evs w s) := by
  have hsp := h.spawned
  have hpos : 0 < s.procs.length := by
    obtain ⟨hlt, -⟩ := List.getElem?_eq_some_iff.mp hp
    omega
  obtain ⟨k, hearned⟩ := h.restarted
  refine ⟨?_, hearned.outcome hk hout err fun hnil => ?_⟩
  · rw [backs_watched err hp hw]
    have hlen : (watched p err count evs w s).procs.length = s.procs.length := by
      simp [watched, State.watcherTo, reaped]
    have hevs : (watched p err count evs w s).decided.length = s.decided.length + evs.length :=
      List.length_append
    rw [hlen, hevs]
    cases hout <;> simp [Watcher.backs] <;> omega
  · rw [hnil, List.length_nil] at hsp
    omega

theorem Spent.backoffOver {starts due : Nat} (h : Spent cfg starts s)
    (hp : s.procs[p]? = some pr) (hw : pr.watcher = .backingOff due) (cancelled execs : Bool) :
    Spent cfg starts (backoffOver cfg p cancelled execs s) := by
  have hsp := h.spawned
  have hbacks := countP_modify (P := Process.backs) (f := fun pr => { pr with watcher := .returned })
    hp
  have hret : (s.watcherTo p .returned).procs.countP Process.backs + 1 =
      s.procs.countP Process.backs := by
    simpa [State.watcherTo, Process.backs, hw, Watcher.backs] using hbacks
  have hlen : (s.watcherTo p .returned).procs.length = s.procs.length := by simp [State.watcherTo]
  have hrest : (s.watcherTo p .returned).decided = s.decided := rfl
  have hdone : Spent cfg starts (s.watcherTo p .returned) := by
    obtain ⟨k, hk, hmark, hcount⟩ := h.restarted
    exact ⟨by rw [hlen, hrest]; omega, k, hk, hmark, hcount⟩
  unfold Supervisor.backoffOver
  dsimp only
  split
  · exact hdone
  · split
    · exact hdone
    · rename_i hgo
      rw [not_or] at hgo
      exact hdone.spawn (not_not.mp hgo.2) (by rw [hlen, hrest]; omega) execs

/-- A mark stands for the time its process has been up. -/
theorem Spent.recheck (h : Spent cfg starts s) (hk : Kept cfg s)
    (hp : s.procs[p]? = some pr) (hw : pr.watchdog = .deciding a) :
    Spent cfg starts (recheck p a s) := by
  obtain ⟨kill, w, heq, -, hkill⟩ := recheck_eq p a s
  obtain ⟨k, hearned, hmark, hcount⟩ := h.restarted
  have hmarked : Spent cfg starts { s with memKill := kill } := by
    refine ⟨h.spawned, k, hearned, fun hm => ?_, hcount⟩
    rcases hkill with hkill | ⟨hc, hage⟩
    · exact hmark (hkill ▸ hm)
    · have hlast := hk.spawn_of_deciding hp hw hc
      have hwide : restartResetWindow ≤ memoryMinUptime := by decide
      have hwin : (k + 1) * restartResetWindow = k * restartResetWindow + restartResetWindow :=
        Nat.succ_mul _ _
      rw [State.clock, if_neg (by simp [hc])] at hearned
      show (k + 1) * restartResetWindow ≤ s.now
      omega
  rw [heq]
  exact hmarked.modify fun _ _ => rfl

theorem Spent.step (h : Spent cfg starts s) (hk : Kept cfg s)
    (hstep : Step cfg s e s') : Spent cfg (starts + if e.isStart then 1 else 0) s' := by
  cases hstep with
  | tick d =>
    refine h.same rfl rfl rfl rfl rfl ?_ (Nat.le_add_right _ _)
    unfold State.clock
    split
    · exact Nat.le_add_right _ _
    · exact Nat.le_refl _
  | start execs => exact h.start hk.budget execs
  | stop => exact h.same rfl rfl rfl rfl rfl (clock_le_now hk) (Nat.le_refl _)
  | stopReturns p pr hp hw => exact h.same rfl rfl rfl rfl rfl (Nat.le_refl _) (Nat.le_refl _)
  | exits p pr err hp hr => exact h.modify fun _ _ => rfl
  | watch p pr err hp hr hw =>
    obtain ⟨count, evs, w, hout, heq⟩ := watch_outcome cfg p err s
    rw [heq]
    exact h.outcome hk hout err hp hw
  | announce p pr ev hp hw =>
    have htold : Spent cfg starts { s with restarts := s.restarts ++ [{ ev with when := s.now }] } :=
      h.same rfl rfl rfl rfl rfl (Nat.le_refl _) (Nat.le_refl _)
    refine htold.modify fun pr' hp' => ?_
    have hsame : pr' = pr := Option.some.inj (hp'.symm.trans hp)
    simp [hsame, Process.backs, hw, Watcher.backs]
  | backoffOver p due pr cancelled execs hp hw hd => exact h.backoffOver hp hw cancelled execs
  | sample p breaches pr reading hp hw =>
    obtain heq | ⟨rss, w, heq, -⟩ := sample_eq cfg p breaches reading s <;> rw [heq]
    · exact h
    · have hread : Spent cfg starts { s with memRSS := rss } :=
        h.same rfl rfl rfl rfl rfl (Nat.le_refl _) (Nat.le_refl _)
      exact hread.modify fun _ _ => rfl
  | recheck p spawnedAt pr hp hw => exact h.recheck hk hp hw

/-- **The restarts cannot storm.**  However the core crashes or grows, and whatever its callers do,
a run spawns no more processes than one and the budget of restarts for every `Start` and every
`restartResetWindow` of its time. -/
theorem spawns_bounded {steps : List (State × Event × State)} (h : (machine cfg).Run .new steps s) :
    s.procs.length ≤
      (cfg.maxRestarts + 1) * (countStarts steps + s.now / restartResetWindow) := by
  have hinv : Kept cfg s ∧ Spent cfg (countStarts steps) s := by
    refine h.history (J := fun past s => Kept cfg s ∧ Spent cfg (countStarts past) s) ?_
      ⟨Kept.new cfg, by simp [State.new, countStarts], 0, by simp, by simp [State.new], .inl rfl⟩
    rintro past s e s' ⟨hk, hsp⟩ hstep
    refine ⟨hk.step hstep, ?_⟩
    have := hsp.step hk hstep
    simpa [countStarts, List.countP_append] using this
  obtain ⟨hk, hsp, k, hclock, -, hcount⟩ := hinv
  have hb := hk.budget
  have hkle : k ≤ s.now / restartResetWindow :=
    (Nat.le_div_iff_mul_le (by decide)).mpr (Nat.le_trans hclock (clock_le_now hk))
  have hexp : (cfg.maxRestarts + 1) * countStarts steps =
      cfg.maxRestarts * countStarts steps + countStarts steps := Nat.succ_mul _ _
  have htime := Nat.mul_le_mul_left (cfg.maxRestarts + 1) hkle
  rw [Nat.mul_add]
  rcases hcount with hnil | hcount
  · rw [hnil, List.length_nil] at hsp
    omega
  · omega

theorem spawns_bounded_grown : ∃ steps s, (machine ⟨5, 0, 100⟩).Run .new steps s ∧
    countStarts steps = 1 ∧
    s.procs.length ≤ 6 * (countStarts steps + s.now / restartResetWindow) := by
  obtain ⟨steps, s, h, -, -, hstarts⟩ := grown_run
  exact ⟨steps, s, run_of_serial h, hstarts, spawns_bounded (run_of_serial h)⟩

end Iceslab.Agent.Supervisor
