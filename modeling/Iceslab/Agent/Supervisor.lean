import Iceslab.Lib.Machine

/-!
# The supervisor of a core

`internal/core/subprocess/subprocess.go` as its goroutines run it: callers that `Start` and `Stop`,
a `watch` for every process spawned, a `watchMemory` where a ceiling is set.  Everything is under
one mutex, so a run interleaves critical sections; between them the clock runs and processes exit.

* `spawnLocked`, `start`, `stop` — the callers' sections.
* `watch`, `announce`, `backoffOver` — the watcher's: what it decides about an exit, what it tells
  once it has let go of the mutex, and the respawn after the backoff.
* `sample`, `recheck` — the watchdog's: a reading, and the second look before it kills.
* `Step` — one section, exit or stretch of time; `machine` and, for callers that let a `Stop` return
  before they `Start` again, `serialMachine`.
-/

set_option autoImplicit false

namespace Iceslab.Agent.Supervisor

/-- A `time.Second`, in nanoseconds. -/
def second : Nat := 1000000000

def restartResetWindow : Nat := 60 * second

def memoryBreachesToRestart : Nat := 2

def memoryMinUptime : Nat := 5 * 60 * second

inductive RestartReason
  | crash
  | memory
  deriving DecidableEq, Repr

structure RestartEvent where
  reason : RestartReason
  attempt : Nat
  max : Nat
  rssBytes : Nat
  limitBytes : Nat
  when : Nat
  deriving DecidableEq, Repr

/-- Of `Config`, what the restart policy reads.  A `MaxRestarts` below zero is as zero. -/
structure Config where
  maxRestarts : Nat
  restartBackoff : Nat
  memoryLimitBytes : Nat
  deriving DecidableEq, Repr

/-- Where a process's `watch` is: in `cmd.Wait()`, past the mutex with a restart decided, in the
backoff, or returned. -/
inductive Watcher
  | waiting
  | announcing (ev : RestartEvent)
  | backingOff (due : Nat)
  | returned
  deriving DecidableEq, Repr

/-- Where a process's `watchMemory` is: between readings, before the second lock with the spawn time
it read, or returned.  One whose context or process is over may stay where it is for good. -/
inductive Watchdog
  | sampling (breaches : Nat)
  | deciding (spawnedAt : Nat)
  | returned
  deriving DecidableEq, Repr

structure Process where
  spawnedAt : Nat
  /-- what `cmd.Wait()` answers, once the process is gone -/
  exited : Option (Option String)
  watcher : Watcher
  watchdog : Watchdog
  deriving DecidableEq, Repr

structure State where
  now : Nat
  /-- every process spawned; its place stands for the `*exec.Cmd` -/
  procs : List Process
  cmd : Option Nat
  stopping : Bool
  restartCount : Nat
  lastSpawnAt : Nat
  memKill : Bool
  memRSS : Nat
  lastExit : Option (Option String)
  /-- the calls of `Stop` that wait, by the process they wait for -/
  stops : List Nat
  /-- the restarts decided, each with the time it was decided -/
  decided : List RestartEvent
  /-- what `OnRestart` was handed -/
  restarts : List RestartEvent
  deriving DecidableEq, Repr

/-- `New` -/
def State.new : State := ⟨0, [], none, false, 0, 0, false, 0, none, [], [], []⟩

variable (cfg : Config)

/-- The watchdog is armed with a ceiling and a policy that brings the process back. -/
def armed : Bool := 0 < cfg.memoryLimitBytes && 0 < cfg.maxRestarts

/-- `spawnLocked`; `execs`: the binary could be run. -/
def spawnLocked (execs : Bool) (s : State) : State :=
  if !execs then s
  else
    { s with
      procs := s.procs ++ [⟨s.now, none, .waiting, if armed cfg then .sampling 0 else .returned⟩]
      cmd := some s.procs.length
      lastSpawnAt := s.now }

/-- `Start`; with a process tracked it is an error and nothing more. -/
def start (execs : Bool) (s : State) : State :=
  if s.cmd ≠ none then s
  else spawnLocked cfg execs { s with stopping := false, restartCount := 0 }

/-- `Stop`, up to its wait. -/
def stop (s : State) : State :=
  { s with stopping := true, cmd := none, stops := s.cmd.toList ++ s.stops }

/-- The watcher of `p` goes on to a given place. -/
def State.watcherTo (s : State) (p : Nat) (w : Watcher) : State :=
  { s with procs := s.procs.modify p fun pr => { pr with watcher := w } }

def State.watchdogTo (s : State) (p : Nat) (w : Watchdog) : State :=
  { s with procs := s.procs.modify p fun pr => { pr with watchdog := w } }

/-- The crashes that count against the budget: a stable run has a fresh one. -/
def crashes (s : State) : Nat :=
  if restartResetWindow < s.now - s.lastSpawnAt then 0 else s.restartCount

/-- The exit of `p` is recorded, and `p` given up where it is the process tracked. -/
def reaped (p : Nat) (err : Option String) (s : State) : State :=
  { s with
    lastExit := some err
    memKill := false
    cmd := if s.cmd = some p then none else s.cmd }

/-- A restart is decided. -/
def decideRestart (p count : Nat) (ev : RestartEvent) (s : State) : State :=
  State.watcherTo { s with restartCount := count, decided := s.decided ++ [ev] } p (.announcing ev)

/-- `watch` after `cmd.Wait()` answered `err`, under the mutex. -/
def watch (p : Nat) (err : Option String) (s : State) : State :=
  if s.cmd = some p ∧ s.stopping = false ∧ 0 < cfg.maxRestarts then
    if s.memKill = true then
      decideRestart p 0 ⟨.memory, 0, cfg.maxRestarts, s.memRSS, cfg.memoryLimitBytes, s.now⟩
        (reaped p err s)
    else if crashes s < cfg.maxRestarts then
      decideRestart p (crashes s + 1) ⟨.crash, crashes s + 1, cfg.maxRestarts, 0, 0, s.now⟩
        (reaped p err s)
    else { reaped p err s with restartCount := crashes s }.watcherTo p .returned
  else (reaped p err s).watcherTo p .returned

/-- `OnRestart` is told, with the time it is told at, and the watcher waits out the backoff. -/
def announce (p : Nat) (ev : RestartEvent) (s : State) : State :=
  State.watcherTo { s with restarts := s.restarts ++ [{ ev with when := s.now }] } p
    (.backingOff (s.now + cfg.restartBackoff))

/-- `watch` after the backoff, or with the context over during it. -/
def backoffOver (p : Nat) (cancelled execs : Bool) (s : State) : State :=
  let s := s.watcherTo p .returned
  if 0 < cfg.restartBackoff ∧ cancelled = true then s
  else if s.stopping = true ∨ s.cmd ≠ none then s
  else spawnLocked cfg execs s

/-- `watchMemory` on a tick, up to the second lock; no reading is a failed one. -/
def sample (p breaches : Nat) (reading : Option Nat) (s : State) : State :=
  match reading with
  | none => s
  | some rss =>
    let s := { s with memRSS := rss }
    if s.cmd ≠ some p then s.watchdogTo p .returned
    else if rss ≤ cfg.memoryLimitBytes then s.watchdogTo p (.sampling 0)
    else if breaches + 1 < memoryBreachesToRestart then s.watchdogTo p (.sampling (breaches + 1))
    else s.watchdogTo p (.deciding s.lastSpawnAt)

/-- `watchMemory` from the uptime on: it kills only what is old enough and still its own. -/
def recheck (p spawnedAt : Nat) (s : State) : State :=
  if s.now - spawnedAt < memoryMinUptime then s.watchdogTo p (.sampling 0)
  else if s.stopping = true ∨ s.cmd ≠ some p then s.watchdogTo p .returned
  else { s with memKill := true }.watchdogTo p .returned

/-- `Running` -/
def State.running (s : State) : Bool :=
  match s.cmd with
  | none => false
  | some p => (s.procs[p]?.map fun pr => decide (pr.watcher = .waiting)).getD false

/-! ## Runs -/

inductive Event
  | tick (d : Nat)
  | start (execs : Bool)
  | stop
  | stopReturns (p : Nat)
  | exits (p : Nat) (err : Option String)
  | watch (p : Nat)
  | announce (p : Nat)
  | backoffOver (p : Nat) (cancelled execs : Bool)
  | sample (p : Nat) (reading : Option Nat)
  | recheck (p : Nat)
  deriving DecidableEq, Repr

def Event.isStart : Event → Bool
  | .start _ => true
  | _ => false

/-- What one section, one exit or a stretch of time does. -/
inductive Step : State → Event → State → Prop
  | tick (s : State) (d : Nat) : Step s (.tick d) { s with now := s.now + d }
  | start (s : State) (execs : Bool) : Step s (.start execs) (start cfg execs s)
  | stop (s : State) : Step s .stop (stop s)
  -- `exited` is closed by the watcher that reaps the process, once it has let go of the mutex
  | stopReturns (s : State) (p : Nat) (pr : Process) (hp : s.procs[p]? = some pr)
      (hw : pr.watcher ≠ .waiting) : Step s (.stopReturns p) { s with stops := s.stops.erase p }
  | exits (s : State) (p : Nat) (pr : Process) (err : Option String) (hp : s.procs[p]? = some pr)
      (hr : pr.exited = none) : Step s (.exits p err)
        { s with procs := s.procs.modify p fun pr => { pr with exited := some err } }
  | watch (s : State) (p : Nat) (pr : Process) (err : Option String) (hp : s.procs[p]? = some pr)
      (hr : pr.exited = some err) (hw : pr.watcher = .waiting) :
      Step s (.watch p) (watch cfg p err s)
  | announce (s : State) (p : Nat) (pr : Process) (ev : RestartEvent) (hp : s.procs[p]? = some pr)
      (hw : pr.watcher = .announcing ev) : Step s (.announce p) (announce cfg p ev s)
  | backoffOver (s : State) (p due : Nat) (pr : Process) (cancelled execs : Bool)
      (hp : s.procs[p]? = some pr) (hw : pr.watcher = .backingOff due)
      (hd : cancelled = true ∨ due ≤ s.now) :
      Step s (.backoffOver p cancelled execs) (backoffOver cfg p cancelled execs s)
  | sample (s : State) (p breaches : Nat) (pr : Process) (reading : Option Nat)
      (hp : s.procs[p]? = some pr) (hw : pr.watchdog = .sampling breaches) :
      Step s (.sample p reading) (sample cfg p breaches reading s)
  | recheck (s : State) (p spawnedAt : Nat) (pr : Process) (hp : s.procs[p]? = some pr)
      (hw : pr.watchdog = .deciding spawnedAt) : Step s (.recheck p) (recheck p spawnedAt s)

/-- Every interleaving. -/
def machine : Machine State Event where
  start s := s = .new
  step := Step cfg

/-- The interleavings of callers that do not `Start` while a `Stop` of theirs waits. -/
def serialMachine : Machine State Event where
  start s := s = .new
  step s e s' := Step cfg s e s' ∧ (e.isStart = true → s.stops = [])

end Iceslab.Agent.Supervisor
