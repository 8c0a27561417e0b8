import Iceslab.Agent.Supervisor

/-!
# What the supervisor keeps

* `Kept` — in every interleaving: the process tracked is unreaped, one that is unreaped is tracked
  or waited for, a stopped supervisor tracks none, the budget holds.
* `stop_wins` — **after a `Stop` nothing is spawned and no restart decided until the next `Start`**,
  whatever watcher is in its backoff.
-/

set_option autoImplicit false

namespace Iceslab.Agent.Supervisor

variable {cfg : Config} {s s' : State} {p q t : Nat} {s₀ : State} {w : Watcher}
  {evs : List RestartEvent} {pr : Process} {count : Nat}

/-! ## Reading a state -/

/-- When a process was spawned, and where its watcher is. -/
def State.seen (s : State) (p : Nat) : Option (Nat × Watcher) :=
  s.procs[p]?.map fun pr => (pr.spawnedAt, pr.watcher)

/-- What keeps the spawn time and the watcher of a process is not seen. -/
theorem seen_modify {f : Process → Process} (s : State) (p q : Nat)
    (hf : ∀ pr, (f pr).spawnedAt = pr.spawnedAt ∧ (f pr).watcher = pr.watcher) :
    State.seen { s with procs := s.procs.modify p f } q = s.seen q := by
  unfold State.seen
  rw [List.getElem?_modify]
  rcases s.procs[q]? with _ | pr
  · rfl
  · by_cases h : p = q
    · simp [h, hf pr]
    · simp [h]

@[simp] theorem seen_watchdogTo (s : State) (p q : Nat) (w : Watchdog) :
    (s.watchdogTo p w).seen q = s.seen q := seen_modify s p q fun _ => ⟨rfl, rfl⟩

theorem seen_watcherTo (s : State) (p q : Nat) (w : Watcher) :
    (s.watcherTo p w).seen q = (s.seen q).map fun k => if p = q then (k.1, w) else k := by
  unfold State.seen State.watcherTo
  rw [List.getElem?_modify]
  cases s.procs[q]? <;> simp
  split <;> rfl

/-- A watcher that has gone on leaves the others waiting. -/
theorem seen_waiting_watcherTo (hw : w ≠ .waiting) :
    (s.watcherTo p w).seen q = some (t, .waiting) ↔ s.seen q = some (t, .waiting) ∧ q ≠ p := by
  rw [seen_watcherTo]
  rcases hq : s.seen q with _ | k
  · simp
  · by_cases h : p = q
    · simp [h, hw]
    · simp [h, Ne.symm h]

theorem seen_spawnLocked (s : State) (q : Nat) :
    (spawnLocked cfg true s).seen q =
      if q = s.procs.length then some (s.now, .waiting) else s.seen q := by
  unfold State.seen spawnLocked
  simp only [Bool.not_true, Bool.false_eq_true, if_false]
  by_cases h : q = s.procs.length
  · simp [h]
  · rw [if_neg h, List.getElem?_append]
    by_cases hlt : q < s.procs.length
    · rw [if_pos hlt]
    · rw [if_neg hlt, List.getElem?_eq_none (l := s.procs) (by omega),
        List.getElem?_eq_none (by simp; omega)]

/-- What `watch` makes of an exit: the count, the restart it decides, where its watcher goes. -/
inductive Outcome (cfg : Config) (p : Nat) (s : State) :
    Nat → List RestartEvent → Watcher → Prop
  | left : Outcome cfg p s s.restartCount [] .returned
  | memory (hc : s.cmd = some p) (hm : s.memKill = true) (ev : RestartEvent)
      (hev : ev = ⟨.memory, 0, cfg.maxRestarts, s.memRSS, cfg.memoryLimitBytes, s.now⟩) :
      Outcome cfg p s 0 [ev] (.announcing ev)
  | crash (hc : s.cmd = some p) (hlt : crashes s < cfg.maxRestarts) (ev : RestartEvent)
      (hev : ev = ⟨.crash, crashes s + 1, cfg.maxRestarts, 0, 0, s.now⟩) :
      Outcome cfg p s (crashes s + 1) [ev] (.announcing ev)

/-- The state after `watch`, with its outcome in place. -/
def watched (p : Nat) (err : Option String) (count : Nat) (evs : List RestartEvent) (w : Watcher)
    (s : State) : State :=
  State.watcherTo { reaped p err s with restartCount := count, decided := s.decided ++ evs } p w

theorem watch_outcome (cfg : Config) (p : Nat) (err : Option String) (s : State) :
    ∃ count evs w, Outcome cfg p s count evs w ∧ watch cfg p err s = watched p err count evs w s := by
  unfold watch
  split
  · rename_i h
    obtain ⟨hc, -, hpos⟩ := h
    split
    · rename_i hm
      exact ⟨_, _, _, .memory hc hm _ rfl, rfl⟩
    · split
      · rename_i hlt
        exact ⟨_, _, _, .crash hc hlt _ rfl, rfl⟩
      · rename_i hlt
        -- a spent budget is not one a stable run has just cleared
        have hcount : crashes s = s.restartCount := by
          unfold crashes at hlt ⊢
          split at hlt
          · omega
          · rename_i hwin
            rw [if_neg hwin]
        refine ⟨_, _, _, .left, ?_⟩
        simp [watched, reaped, hcount]
  · refine ⟨_, _, _, .left, ?_⟩
    simp [watched, reaped]

theorem Outcome.not_waiting (h : Outcome cfg p s count evs w) : w ≠ .waiting := by
  cases h <;> simp

theorem Outcome.count_le (h : Outcome cfg p s count evs w) (hb : s.restartCount ≤ cfg.maxRestarts) :
    count ≤ cfg.maxRestarts := by
  cases h with
  | left => exact hb
  | memory hc hm ev hev => exact Nat.zero_le _
  | crash hc hlt ev hev => exact hlt

theorem Outcome.event (h : Outcome cfg p s count evs w) :
    ∀ e ∈ evs, e.when = s.now ∧ s.cmd = some p := by
  cases h with
  | left =>
    intro e he
    cases he
  | memory hc hm ev hev =>
    intro e he
    rw [List.mem_singleton.mp he, hev]
    exact ⟨rfl, hc⟩
  | crash hc hlt ev hev =>
    intro e he
    rw [List.mem_singleton.mp he, hev]
    exact ⟨rfl, hc⟩

theorem mem_modify {α : Type*} {l : List α} {f : α → α} {a : α} (h : a ∈ l.modify p f) :
    a ∈ l ∨ ∃ b, l[p]? = some b ∧ a = f b := by
  obtain ⟨i, hi⟩ := List.mem_iff_getElem?.mp h
  rw [List.getElem?_modify] at hi
  rcases hb : l[i]? with _ | b
  · simp [hb] at hi
  · by_cases hpi : p = i
    · rw [hb] at hi
      exact .inr ⟨b, by rw [hpi, hb], by simpa [hpi] using hi.symm⟩
    · rw [hb] at hi
      have hab : b = a := by simpa [hpi] using hi
      exact .inl (hab ▸ List.mem_of_getElem? hb)

/-- A tick of the watchdog reads, and moves it; it decides over the process it finds tracked. -/
theorem sample_eq (cfg : Config) (p breaches : Nat) (reading : Option Nat) (s : State) :
    sample cfg p breaches reading s = s ∨
      ∃ rss w, sample cfg p breaches reading s = State.watchdogTo { s with memRSS := rss } p w ∧
        ∀ a, w = .deciding a → s.cmd = some p ∧ a = s.lastSpawnAt := by
  cases reading with
  | none => exact .inl rfl
  | some rss =>
    refine .inr ⟨rss, ?_⟩
    unfold sample
    dsimp only
    split
    · exact ⟨_, rfl, by simp⟩
    · split
      · exact ⟨_, rfl, by simp⟩
      · split
        · exact ⟨_, rfl, by simp⟩
        · rename_i hc _ _
          refine ⟨_, rfl, fun a ha => ⟨not_not.mp hc, ?_⟩⟩
          injection ha with ha
          exact ha.symm

/-- The second look marks the process tracked, when it is old enough, or does nothing but move. -/
theorem recheck_eq (p a : Nat) (s : State) : ∃ kill w,
    recheck p a s = State.watchdogTo { s with memKill := kill } p w ∧ (∀ a', w ≠ .deciding a') ∧
      (kill = s.memKill ∨ s.cmd = some p ∧ a + memoryMinUptime ≤ s.now) := by
  unfold recheck
  split
  · exact ⟨s.memKill, _, rfl, by simp, .inl rfl⟩
  · rename_i hage
    split
    · exact ⟨s.memKill, _, rfl, by simp, .inl rfl⟩
    · rename_i hmine
      rw [not_or, not_not] at hmine
      have hpos : 0 < memoryMinUptime := by decide
      exact ⟨true, _, rfl, by simp, .inr ⟨hmine.2, by omega⟩⟩

/-! ## In every interleaving -/

/-- A process that runs is watched, and a watchdog decides by its own process's spawn time. -/
structure Process.Sound (pr : Process) : Prop where
  watched : pr.exited = none → pr.watcher = .waiting
  deciding : ∀ a, pr.watchdog = .deciding a → a = pr.spawnedAt

structure Kept (cfg : Config) (s : State) : Prop where
  current : ∀ p, s.cmd = some p → s.seen p = some (s.lastSpawnAt, .waiting)
  unreaped : ∀ p t, s.seen p = some (t, .waiting) → s.cmd = some p ∨ p ∈ s.stops
  stopped : s.stopping = true → s.cmd = none
  budget : s.restartCount ≤ cfg.maxRestarts
  lastSpawn : s.lastSpawnAt ≤ s.now
  past : ∀ e ∈ s.decided, e.when ≤ s.now ∧ (s.cmd ≠ none → e.when ≤ s.lastSpawnAt)
  sound : ∀ pr ∈ s.procs, pr.Sound

theorem Kept.new (cfg : Config) : Kept cfg .new where
  current p h := by cases h
  unreaped p t h := by cases h
  stopped h := by cases h
  budget := Nat.zero_le _
  lastSpawn := Nat.le_refl _
  past e h := by cases h
  sound pr h := by cases h

/-- A step that only tells the time, or works on what no watcher reads. -/
structure Quiet (s s' : State) : Prop where
  seen : ∀ p, s'.seen p = s.seen p
  cmd : s'.cmd = s.cmd
  stopping : s'.stopping = s.stopping
  count : s'.restartCount = s.restartCount
  spawn : s'.lastSpawnAt = s.lastSpawnAt
  stops : s'.stops = s.stops
  decided : s'.decided = s.decided
  length : s'.procs.length = s.procs.length
  now : s.now ≤ s'.now

theorem Kept.quiet (h : Kept cfg s) (hq : Quiet s s') (hsound : ∀ pr ∈ s'.procs, pr.Sound) :
    Kept cfg s' where
  current p hp := by
    rw [hq.seen, hq.spawn]
    exact h.current p (hq.cmd ▸ hp)
  unreaped p t hp := by
    rw [hq.cmd, hq.stops]
    exact h.unreaped p t (hq.seen p ▸ hp)
  stopped hs := by
    rw [hq.cmd]
    exact h.stopped (hq.stopping ▸ hs)
  budget := by
    rw [hq.count]
    exact h.budget
  lastSpawn := by
    rw [hq.spawn]
    exact Nat.le_trans h.lastSpawn hq.now
  past e he := by
    rw [hq.cmd, hq.spawn]
    obtain ⟨hnow, hcur⟩ := h.past e (hq.decided ▸ he)
    exact ⟨Nat.le_trans hnow hq.now, hcur⟩
  sound := hsound

theorem Kept.spawn (h : Kept cfg s) (hc : s.cmd = none) (hs : s.stopping = false)
    (execs : Bool) : Kept cfg (spawnLocked cfg execs s) := by
  cases execs with
  | false => exact h
  | true =>
    have hnow : (spawnLocked cfg true s).lastSpawnAt = s.now := rfl
    constructor
    · intro p hp
      have hp : p = s.procs.length := (Option.some.inj hp).symm
      rw [seen_spawnLocked, if_pos hp, hnow]
    · intro p t hp
      rw [seen_spawnLocked] at hp
      by_cases hlen : p = s.procs.length
      · exact .inl (hlen ▸ rfl)
      · rw [if_neg hlen] at hp
        rcases h.unreaped p t hp with hcur | hstop
        · rw [hc] at hcur
          cases hcur
        · exact .inr hstop
    · intro hstop
      exact absurd (show s.stopping = true from hstop) (by simp [hs])
    · exact h.budget
    · exact Nat.le_refl _
    · intro e he
      exact ⟨(h.past e he).1, fun _ => (h.past e he).1⟩
    · intro pr hpr
      rcases List.mem_append.mp hpr with hpr | hpr
      · exact h.sound pr hpr
      · rw [List.mem_singleton.mp hpr]
        refine ⟨fun _ => rfl, fun a ha => ?_⟩
        dsimp only at ha
        split at ha <;> cases ha

theorem Kept.start (h : Kept cfg s) (execs : Bool) : Kept cfg (start cfg execs s) := by
  unfold Supervisor.start
  split
  · exact h
  · rename_i hc
    have hc : s.cmd = none := not_not.mp hc
    have hfresh : Kept cfg { s with stopping := false, restartCount := 0 } :=
      ⟨h.current, h.unreaped, fun hs => (by cases hs), Nat.zero_le _, h.lastSpawn, h.past,
        h.sound⟩
    exact hfresh.spawn hc rfl execs

theorem Kept.stop (h : Kept cfg s) : Kept cfg (stop s) where
  current p hp := by cases hp
  unreaped p t hp := by
    rcases h.unreaped p t hp with hcur | hstop
    · exact .inr (by simp [Supervisor.stop, hcur])
    · exact .inr (List.mem_append_right _ hstop)
  stopped _ := rfl
  budget := h.budget
  lastSpawn := h.lastSpawn
  past e he := ⟨(h.past e he).1, fun hc => absurd rfl hc⟩
  sound := h.sound

theorem Kept.stopReturns (h : Kept cfg s) (hp : s.seen p = some (t, w))
    (hw : w ≠ .waiting) : Kept cfg { s with stops := s.stops.erase p } where
  current := h.current
  unreaped q t' hq := by
    refine (h.unreaped q t' hq).imp id fun hstop => ?_
    refine (List.mem_erase_of_ne ?_).mpr hstop
    rintro rfl
    rw [show s.seen q = some (t', .waiting) from hq] at hp
    injection hp with hp
    injection hp with _ hp
    exact hw hp.symm
  stopped := h.stopped
  budget := h.budget
  lastSpawn := h.lastSpawn
  past := h.past
  sound := h.sound

theorem sound_watcherTo (h : ∀ pr ∈ s.procs, pr.Sound)
    (hgone : ∀ pr, s.procs[p]? = some pr → pr.exited ≠ none) :
    ∀ pr ∈ (s.watcherTo p w).procs, pr.Sound := by
  intro pr hpr
  rcases mem_modify hpr with hpr | ⟨b, hb, rfl⟩
  · exact h pr hpr
  · refine ⟨fun hx => absurd hx (hgone b hb), ?_⟩
    exact (h b (List.mem_of_getElem? hb)).deciding

theorem Kept.outcome (h : Kept cfg s) (hout : Outcome cfg p s count evs w) (err : Option String)
    (hgone : ∀ pr, s.procs[p]? = some pr → pr.exited ≠ none) :
    Kept cfg (watched p err count evs w s) := by
  -- the process tracked is the one before, unless that was `p`
  have hcmd : ∀ q, (watched p err count evs w s).cmd = some q ↔ s.cmd = some q ∧ q ≠ p := by
    intro q
    show (if s.cmd = some p then none else s.cmd) = some q ↔ _
    split
    · rename_i hc
      simp [hc, eq_comm]
    · rename_i hc
      refine ⟨fun hq => ⟨hq, ?_⟩, And.left⟩
      rintro rfl
      exact hc hq
  have hseen : ∀ q t, (watched p err count evs w s).seen q = some (t, .waiting) ↔
      s.seen q = some (t, .waiting) ∧ q ≠ p := fun q t =>
    seen_waiting_watcherTo hout.not_waiting
  have hnone : (watched p err count evs w s).cmd ≠ none → s.cmd ≠ none ∧ s.cmd ≠ some p := by
    intro hne
    obtain ⟨q, hq⟩ := Option.ne_none_iff_exists'.mp hne
    obtain ⟨hq, hqp⟩ := (hcmd q).mp hq
    simp [hq, hqp]
  constructor
  · intro q hq
    obtain ⟨hq, hqp⟩ := (hcmd q).mp hq
    exact (hseen q _).mpr ⟨h.current q hq, hqp⟩
  · intro q t hq
    obtain ⟨hq, hqp⟩ := (hseen q t).mp hq
    exact (h.unreaped q t hq).imp (fun hc => (hcmd q).mpr ⟨hc, hqp⟩) id
  · intro hs
    have hc : s.cmd = none := h.stopped hs
    show (if s.cmd = some p then none else s.cmd) = none
    simp [hc]
  · exact hout.count_le h.budget
  · exact h.lastSpawn
  · intro e he
    rcases List.mem_append.mp he with he | he
    · obtain ⟨hnow, hcur⟩ := h.past e he
      exact ⟨hnow, fun hne => hcur (hnone hne).1⟩
    · obtain ⟨hnow, hc⟩ := hout.event e he
      exact ⟨Nat.le_of_eq hnow, fun hne => absurd hc (hnone hne).2⟩
  · refine sound_watcherTo ?_ hgone
    exact h.sound

theorem Kept.watcherTo (h : Kept cfg s) (hp : s.procs[p]? = some pr)
    (hw : pr.watcher ≠ .waiting) (hw' : w ≠ .waiting) : Kept cfg (s.watcherTo p w) := by
  -- it is not the watcher of a process unreaped
  have hseen : s.seen p = some (pr.spawnedAt, pr.watcher) := by simp [State.seen, hp]
  have hne : ∀ q t, s.seen q = some (t, .waiting) → q ≠ p := by
    rintro q t hq rfl
    rw [hseen] at hq
    injection hq with hq
    injection hq with _ hq
    exact hw hq
  refine ⟨?_, ?_, h.stopped, h.budget, h.lastSpawn, h.past, ?_⟩
  · intro q hq
    exact (seen_waiting_watcherTo hw').mpr ⟨h.current q hq, hne q _ (h.current q hq)⟩
  · intro q t hq
    exact h.unreaped q t ((seen_waiting_watcherTo hw').mp hq).1
  · refine sound_watcherTo h.sound ?_
    intro pr' hp' hx
    rw [hp] at hp'
    injection hp' with hp'
    subst hp'
    exact hw ((h.sound pr (List.mem_of_getElem? hp)).watched hx)

theorem Kept.announce (h : Kept cfg s) (hp : s.procs[p]? = some pr)
    {ev : RestartEvent} (hw : pr.watcher = .announcing ev) : Kept cfg (announce cfg p ev s) := by
  have htold : Kept cfg { s with restarts := s.restarts ++ [{ ev with when := s.now }] } :=
    ⟨h.current, h.unreaped, h.stopped, h.budget, h.lastSpawn, h.past, h.sound⟩
  exact htold.watcherTo hp (by simp [hw]) (by simp)

theorem Kept.backoffOver (h : Kept cfg s) (hp : s.procs[p]? = some pr)
    (hw : pr.watcher ≠ .waiting) (cancelled execs : Bool) :
    Kept cfg (backoffOver cfg p cancelled execs s) := by
  have hdone : Kept cfg (s.watcherTo p .returned) := h.watcherTo hp hw (by simp)
  unfold Supervisor.backoffOver
  dsimp only
  split
  · exact hdone
  · split
    · exact hdone
    · rename_i hgo
      rw [not_or] at hgo
      exact hdone.spawn (not_not.mp hgo.2) (by simpa using hgo.1) execs

theorem quiet_watchdogTo (s : State) (p : Nat) (w : Watchdog) : Quiet s (s.watchdogTo p w) :=
  ⟨fun q => seen_watchdogTo s p q w, rfl, rfl, rfl, rfl, rfl, rfl, by simp [State.watchdogTo],
    Nat.le_refl _⟩

theorem sound_watchdogTo (h : ∀ pr ∈ s.procs, pr.Sound) {w : Watchdog}
    (hw : ∀ a, w = .deciding a → ∀ pr, s.procs[p]? = some pr → a = pr.spawnedAt) :
    ∀ pr ∈ (s.watchdogTo p w).procs, pr.Sound := by
  intro pr hpr
  rcases mem_modify hpr with hpr | ⟨b, hb, rfl⟩
  · exact h pr hpr
  · exact ⟨(h b (List.mem_of_getElem? hb)).watched, fun a ha => hw a ha b hb⟩

theorem Kept.watchdogTo (h : Kept cfg s) {w : Watchdog}
    (hw : ∀ a, w = .deciding a → ∀ pr, s.procs[p]? = some pr → a = pr.spawnedAt) :
    Kept cfg (s.watchdogTo p w) :=
  h.quiet (quiet_watchdogTo s p w) (sound_watchdogTo h.sound hw)

theorem Kept.sample (h : Kept cfg s) (p breaches : Nat) (reading : Option Nat) :
    Kept cfg (sample cfg p breaches reading s) := by
  obtain heq | ⟨rss, w, heq, hw⟩ := sample_eq cfg p breaches reading s
  · rw [heq]
    exact h
  · have hread : Kept cfg { s with memRSS := rss } :=
      ⟨h.current, h.unreaped, h.stopped, h.budget, h.lastSpawn, h.past, h.sound⟩
    rw [heq]
    refine hread.watchdogTo fun a ha pr hpr => ?_
    obtain ⟨hc, rfl⟩ := hw a ha
    have hcur := h.current p hc
    rw [State.seen, show s.procs[p]? = some pr from hpr] at hcur
    injection hcur with hcur
    injection hcur with hcur _
    exact hcur.symm

theorem Kept.recheck (h : Kept cfg s) (p spawnedAt : Nat) : Kept cfg (recheck p spawnedAt s) := by
  obtain ⟨kill, w, heq, hw, -⟩ := recheck_eq p spawnedAt s
  have hmark : Kept cfg { s with memKill := kill } :=
    ⟨h.current, h.unreaped, h.stopped, h.budget, h.lastSpawn, h.past, h.sound⟩
  rw [heq]
  exact hmark.watchdogTo fun a ha => absurd ha (hw a)

theorem Kept.step (h : Kept cfg s) {e : Event} (hs : Step cfg s e s') : Kept cfg s' := by
  cases hs with
  | tick d =>
    refine h.quiet ⟨fun _ => rfl, rfl, rfl, rfl, rfl, rfl, rfl, rfl, ?_⟩ h.sound
    exact Nat.le_add_right _ _
  | start execs => exact h.start execs
  | stop => exact h.stop
  | stopReturns p pr hp hw =>
    exact h.stopReturns (t := pr.spawnedAt) (w := pr.watcher) (by simp [State.seen, hp]) hw
  | exits p pr err hp hr =>
    refine h.quiet ?_ ?_
    · refine ⟨fun q => seen_modify s p q fun _ => ⟨rfl, rfl⟩, rfl, rfl, rfl, rfl, rfl, rfl, ?_,
        Nat.le_refl _⟩
      simp
    · intro pr' hpr'
      rcases mem_modify hpr' with hpr' | ⟨b, hb, rfl⟩
      · exact h.sound pr' hpr'
      · refine ⟨fun hx => (by cases hx), ?_⟩
        exact (h.sound b (List.mem_of_getElem? hb)).deciding
  | watch p pr err hp hr hw =>
    obtain ⟨count, evs, w, hout, heq⟩ := watch_outcome cfg p err s
    rw [heq]
    refine h.outcome hout err ?_
    intro pr' hp'
    rw [hp] at hp'
    injection hp' with hp'
    rw [← hp', hr]
    simp
  | announce p pr ev hp hw => exact h.announce hp hw
  | backoffOver p due pr cancelled execs hp hw hd =>
    exact h.backoffOver hp (by simp [hw]) cancelled execs
  | sample p breaches pr reading hp hw => exact h.sample p breaches reading
  | recheck p spawnedAt pr hp hw => exact h.recheck p spawnedAt

theorem kept_of_reachable (h : (machine cfg).Reachable s) : Kept cfg s := by
  refine h.invariant ?_ fun _ _ _ _ hk hs => hk.step hs
  rintro s rfl
  exact Kept.new cfg

/-- A process that runs is the one tracked, or a `Stop` waits for it. -/
theorem Kept.alive (h : Kept cfg s) (hp : s.procs[p]? = some pr)
    (hr : pr.exited = none) : s.cmd = some p ∨ p ∈ s.stops := by
  have hw : pr.watcher = .waiting := (h.sound pr (List.mem_of_getElem? hp)).watched hr
  exact h.unreaped p pr.spawnedAt (by simp [State.seen, hp, hw])

/-- A watchdog decides by the spawn time of the process tracked, when that is its own. -/
theorem Kept.spawn_of_deciding (h : Kept cfg s) {a : Nat}
    (hp : s.procs[p]? = some pr) (hw : pr.watchdog = .deciding a) (hc : s.cmd = some p) :
    a = s.lastSpawnAt := by
  have hcur := h.current p hc
  rw [State.seen, hp] at hcur
  injection hcur with hcur
  injection hcur with hcur _
  exact ((h.sound pr (List.mem_of_getElem? hp)).deciding a hw).trans hcur

/-! ## A stop wins -/

/-- A restart that is decided and not yet announced. -/
def State.pending (s : State) (ev : RestartEvent) : Prop :=
  ∃ pr ∈ s.procs, pr.watcher = .announcing ev

/-- What has been announced since an earlier state was pending in it. -/
def Told (s₀ s : State) : Prop :=
  ∃ told, s.restarts = s₀.restarts ++ told ∧
    ∀ e ∈ told, ∃ ev, s₀.pending ev ∧ e = { ev with when := e.when }

/-- Stopped, with the processes and the decisions of an earlier state. -/
structure Held (s₀ s : State) : Prop where
  cmd : s.cmd = none
  stopping : s.stopping = true
  length : s.procs.length = s₀.procs.length
  decided : s.decided = s₀.decided
  pending : ∀ ev, s.pending ev → s₀.pending ev
  told : Told s₀ s

/-- A process of a held state is worked on; no restart is decided for it. -/
theorem Held.modify (h : Held s₀ s) {f : Process → Process}
    (hf : ∀ pr ev, (f pr).watcher = .announcing ev → pr.watcher = .announcing ev) :
    Held s₀ { s with procs := s.procs.modify p f } := by
  refine ⟨h.cmd, h.stopping, by simpa using h.length, h.decided, ?_, h.told⟩
  rintro ev ⟨pr, hpr, hev⟩
  rcases mem_modify hpr with hpr | ⟨b, hb, rfl⟩
  · exact h.pending ev ⟨pr, hpr, hev⟩
  · exact h.pending ev ⟨b, List.mem_of_getElem? hb, hf b ev hev⟩

theorem Held.watchdogTo (h : Held s₀ s) (p : Nat) (w : Watchdog) : Held s₀ (s.watchdogTo p w) :=
  h.modify fun _ _ => id

theorem Held.watcherTo (h : Held s₀ s) (p : Nat)
    (hw : ∀ ev, w ≠ .announcing ev) : Held s₀ (s.watcherTo p w) :=
  h.modify fun _ ev hev => absurd hev (hw ev)

theorem Held.watch (h : Held s₀ s) (p : Nat) (err : Option String) :
    Held s₀ (watch cfg p err s) := by
  unfold Supervisor.watch
  rw [if_neg (by simp [h.cmd])]
  have hreaped : Held s₀ (reaped p err s) :=
    ⟨by simp [reaped, h.cmd], h.stopping, h.length, h.decided, h.pending, h.told⟩
  exact hreaped.watcherTo p (by simp)

/-- A watcher that had decided before tells of it now. -/
theorem Held.announce (h : Held s₀ s) {ev : RestartEvent} (hev : s.pending ev)
    (p : Nat) : Held s₀ (announce cfg p ev s) := by
  obtain ⟨told, htold, hall⟩ := h.told
  have hsaid : Held s₀ { s with restarts := s.restarts ++ [{ ev with when := s.now }] } := by
    refine ⟨h.cmd, h.stopping, h.length, h.decided, h.pending,
      told ++ [{ ev with when := s.now }], by simp [htold], fun e he => ?_⟩
    rcases List.mem_append.mp he with he | he
    · exact hall e he
    · rw [List.mem_singleton.mp he]
      exact ⟨ev, h.pending ev hev, rfl⟩
  exact hsaid.watcherTo p (by simp)

theorem Held.backoffOver (h : Held s₀ s) (p : Nat) (cancelled execs : Bool) :
    Held s₀ (backoffOver cfg p cancelled execs s) := by
  have hdone : Held s₀ (s.watcherTo p .returned) := h.watcherTo p (by simp)
  unfold Supervisor.backoffOver
  dsimp only
  split
  · exact hdone
  · rw [if_pos (.inl hdone.stopping)]
    exact hdone

theorem Held.sample (h : Held s₀ s) (p breaches : Nat) (reading : Option Nat) :
    Held s₀ (sample cfg p breaches reading s) := by
  obtain heq | ⟨rss, w, heq, -⟩ := sample_eq cfg p breaches reading s
  · rw [heq]
    exact h
  · have hread : Held s₀ { s with memRSS := rss } :=
      ⟨h.cmd, h.stopping, h.length, h.decided, h.pending, h.told⟩
    exact heq ▸ hread.watchdogTo p w

theorem Held.recheck (h : Held s₀ s) (p spawnedAt : Nat) : Held s₀ (recheck p spawnedAt s) := by
  obtain ⟨kill, w, heq, -⟩ := recheck_eq p spawnedAt s
  have hmark : Held s₀ { s with memKill := kill } :=
    ⟨h.cmd, h.stopping, h.length, h.decided, h.pending, h.told⟩
  exact heq ▸ hmark.watchdogTo p w

theorem Held.step (h : Held s₀ s) {e : Event} (hs : Step cfg s e s')
    (he : e.isStart = false) : Held s₀ s' := by
  cases hs with
  | tick d => exact ⟨h.cmd, h.stopping, h.length, h.decided, h.pending, h.told⟩
  | start execs => cases he
  | stop => exact ⟨rfl, rfl, h.length, h.decided, h.pending, h.told⟩
  | stopReturns p pr hp hw =>
    exact ⟨h.cmd, h.stopping, h.length, h.decided, h.pending, h.told⟩
  | exits p pr err hp hr => exact h.modify fun _ _ => id
  | watch p pr err hp hr hw => exact h.watch p err
  | announce p pr ev hp hw => exact h.announce ⟨pr, List.mem_of_getElem? hp, hw⟩ p
  | backoffOver p due pr cancelled execs hp hw hd => exact h.backoffOver p cancelled execs
  | sample p breaches pr reading hp hw => exact h.sample p breaches reading
  | recheck p spawnedAt pr hp hw => exact h.recheck p spawnedAt

/-- **A `Stop` wins over every watcher.**  Whatever happens after it short of a `Start`, no process
is spawned, no restart is decided, none is announced but those that were pending, and no process is
running; and when the calls of `Stop` have returned, every process is gone. -/
theorem stop_wins {steps : List (State × Event × State)} (hs : (machine cfg).Reachable s)
    (h : (machine cfg).Run (stop s) steps s') (hno : ∀ st ∈ steps, st.2.1.isStart = false) :
    s'.procs.length = s.procs.length ∧ s'.decided = s.decided ∧ Told s s' ∧ s'.running = false ∧
      (s'.stops = [] → ∀ pr ∈ s'.procs, pr.exited ≠ none) := by
  have hheld : Held s s' := by
    refine h.keeps (fun st hst hheld => ?_) ⟨rfl, rfl, rfl, rfl, fun _ => id, [], ?_, ?_⟩
    · exact hheld.step (h.step_of_mem st hst) (hno st hst)
    · exact (List.append_nil _).symm
    · simp
  have hkept : Kept cfg s' := kept_of_reachable (h.reachable (.step hs (.stop s)))
  refine ⟨hheld.length, hheld.decided, hheld.told, by simp [State.running, hheld.cmd], ?_⟩
  intro hstops pr hpr hrun
  obtain ⟨p, hp⟩ := List.mem_iff_getElem?.mp hpr
  rcases hkept.alive hp hrun with hc | hc
  · rw [hheld.cmd] at hc
    cases hc
  · rw [hstops] at hc
    cases hc

/-- A process that crashed as it started, its restart decided and not yet announced. -/
def crashed : State :=
  watch ⟨5, 2 * second, 0⟩ 0 none
    { start ⟨5, 2 * second, 0⟩ true .new with procs := [⟨0, some none, .waiting, .returned⟩] }

theorem reachable_crashed : (machine ⟨5, 2 * second, 0⟩).Reachable crashed :=
  .step (.step (.step (.start rfl) (.start _ true)) (.exits _ 0 _ none rfl rfl))
    (.watch _ 0 _ none rfl rfl rfl)

/-- The `Stop` comes before the announcement, which is made, and nothing is spawned after it. -/
theorem stop_wins_backoff : ∃ steps s', (machine ⟨5, 2 * second, 0⟩).Run (stop crashed) steps s' ∧
    s'.restarts.map (·.reason) = [.crash] ∧ s'.now = 3 * second ∧
    s'.procs.length = crashed.procs.length ∧ s'.decided = crashed.decided ∧ s'.running = false := by
  have hrun := Machine.Run.cons (m := machine ⟨5, 2 * second, 0⟩) (.announce (stop crashed) 0 _ _ rfl rfl)
    (.cons (.tick _ (3 * second))
      (.cons (.backoffOver _ 0 (2 * second) _ false true rfl rfl (.inr (by decide))) (.nil _)))
  obtain ⟨hlen, hdec, -, hdown, -⟩ := stop_wins reachable_crashed hrun (by simp [Event.isStart])
  exact ⟨_, _, hrun, rfl, rfl, hlen, hdec, hdown⟩

end Iceslab.Agent.Supervisor
