import Iceslab.Agent.AtomicFile
import Iceslab.Lib.Checked
import Iceslab.Lib.OrderedMap
import Iceslab.Lib.Pushed
import Mathlib.Data.List.Sort

/-!
# The mieru adapter

`config.go` and `adapter.go` of `internal/core/mieru`: every inbound in one config of one `mita`.
What becomes of the write and of the commands comes with the call.

* `renderMulti` — the config file, or why there is none.
* `regenerateAndReload`, `applyIdentifiedInbound`.
* `honest` — an inbound is in force once accepted, where every config that lands is taken by `mita`.
-/

set_option autoImplicit false

namespace Iceslab.Agent.Mieru

open Checked (bind_eq_ok pure_eq_ok forEach)

/-! ## The config file -/

structure User where
  name : String
  password : String
deriving DecidableEq

structure InboundConfig where
  listenPort : Int
  mtu : Int
  loggingLevel : String
deriving DecidableEq

def InboundConfig.withDefaults (c : InboundConfig) : InboundConfig where
  listenPort := if c.listenPort = 0 then 2012 else c.listenPort
  mtu := if c.mtu = 0 then 1400 else c.mtu
  loggingLevel := if c.loggingLevel = "" then "INFO" else c.loggingLevel

inductive RenderRefusal
  | noInbound
  | mtu (n : Int)
  | loggingLevel (level : String)
  | twoOnPort (port : Int)
  | emptyUserName
  | emptyUserPassword
deriving DecidableEq

def InboundConfig.validate (c : InboundConfig) : Except RenderRefusal Unit :=
  if c.mtu ≠ 0 ∧ (c.mtu < 1280 ∨ 1500 < c.mtu) then .error (.mtu c.mtu)
  else if c.loggingLevel ≠ "" ∧ c.loggingLevel ∉ ["DEBUG", "INFO", "WARN", "ERROR"] then
    .error (.loggingLevel c.loggingLevel)
  else .ok ()

inductive Protocol
  | tcp
  | udp
deriving DecidableEq

/-- `serverConfig` -/
structure Conf where
  portBindings : List (Int × Protocol)
  users : List User
  mtu : Int
  loggingLevel : String
deriving DecidableEq

/-- The bindings of the inbounds, after the ports already bound. -/
def bindPorts (seen : List Int) : List InboundConfig → Except RenderRefusal (List (Int × Protocol))
  | [] => .ok []
  | c :: rest =>
    let port := c.withDefaults.listenPort
    if port ∈ seen then .error (.twoOnPort port)
    else do
      let bindings ← bindPorts (port :: seen) rest
      return (port, .tcp) :: (port, .udp) :: bindings

def checkUser (u : User) : Except RenderRefusal Unit :=
  if u.name = "" then .error .emptyUserName
  else if u.password = "" then .error .emptyUserPassword
  else .ok ()

def renderMulti (inbounds : List InboundConfig) (base : InboundConfig) (users : List User) :
    Except RenderRefusal Conf :=
  match inbounds with
  | [] => .error .noInbound
  | first :: _ => do
    forEach InboundConfig.validate inbounds
    base.validate
    let portBindings ← bindPorts [] inbounds
    forEach checkUser users
    return {
      portBindings, users
      mtu := first.withDefaults.mtu
      loggingLevel := base.withDefaults.loggingLevel }

/-! ## The adapter -/

/-- What the agent was started with. -/
structure Install where
  /-- `BinaryPath` and `ConfigPath` are set -/
  binary : Bool
  path : Bool
  inbound : InboundConfig

structure State where
  users : OrderedMap String User
  inbounds : OrderedMap String InboundConfig
  serving : Bool
  waiting : Bool
  unknown : Bool
  /-- a digest stands for the document it is of; none is the zero digest -/
  renderedHash : Option Conf
  config : Option Conf
  /-- the last command: the config file it found, and whether it succeeded -/
  last : Option (Option Conf × Bool)

inductive StopAnswer
  | stopped
  | notRunning
  | failed
deriving DecidableEq

/-- What becomes of the operations a call may come to.  A directory that cannot be made is a write
that failed. -/
structure Answers where
  write : Outcome
  apply : Bool
  reload : Bool
  stop : StopAnswer
  start : Bool
deriving DecidableEq

inductive MieruError
  | parseCfg
  | portTaken (port : Int)
  | mtuDiffers (mtu other : Int)
  | render (e : RenderRefusal)
  | write
  | applyConfig
  | stop
  | start
deriving DecidableEq

/-- `refusedError` -/
def MieruError.refused : MieruError → Bool
  | .render _ | .write | .applyConfig => true
  | _ => false

/-- The inbound does not parse, does not fit beside the others or does not render. -/
def MieruError.invalid : MieruError → Bool
  | .parseCfg | .portTaken _ | .mtuDiffers _ _ | .render _ => true
  | _ => false

abbrev Called := State × Option MieruError

def sortedInbounds (inbounds : OrderedMap String InboundConfig) : List InboundConfig :=
  inbounds.values.insertionSort fun a b => a.listenPort ≤ b.listenPort

def sortedUsers (users : OrderedMap String User) : List User :=
  users.values.insertionSort fun a b => a.name ≤ b.name

section Adapter

variable (inst : Install) (a : Answers)

/-- The config of what is held. -/
def State.render (s : State) : Except RenderRefusal Conf :=
  renderMulti (sortedInbounds s.inbounds) inst.inbound (sortedUsers s.users)

/-- A command of `mita`, as it was answered. -/
def State.command (ok : Bool) (s : State) : State := { s with last := some (s.config, ok) }

def State.setInbounds (s : State) (inbounds : OrderedMap String InboundConfig) : State :=
  { s with inbounds := inbounds }

def writeConfig (doc : Conf) (s : State) : Called :=
  if !inst.path then (s, none)
  else
    ({ s with config := if a.write.lands then some doc else s.config },
      if a.write = .done then none else some .write)

/-- `stopMita` -/
def stopMita (s : State) : Called :=
  (s.command (decide (a.stop ≠ .failed)), if a.stop = .failed then some .stop else none)

/-- No user yet: the config stays in `mita` and its proxy is down. -/
def awaitUser (doc : Conf) (s : State) : Called :=
  match (if s.serving || s.unknown then stopMita a s else (s, none)) with
  | (s, some e) => (s, some e)
  | (s, none) =>
    ({ s with serving := false, waiting := true, unknown := false, renderedHash := some doc }, none)

/-- `mita start` -/
def startMita (doc : Conf) (s : State) : Called :=
  let s := s.command a.start
  if a.start then
    ({ s with serving := true, waiting := false, unknown := false, renderedHash := some doc }, none)
  else (s, some .start)

/-- `mita apply config` and what follows it; a `mita reload` that fails is only logged. -/
def reloadMita (doc : Conf) (s : State) : Called :=
  let s := s.command a.apply
  if !a.apply then (s, some .applyConfig)
  else
    let s := s.command a.reload
    if doc.users = [] then awaitUser a doc s else startMita a doc s

def regenerateAndReload (s : State) : Called :=
  if s.inbounds.entries = [] then (s, none)
  else
    match s.render inst with
    | .error e => (s, some (.render e))
    | .ok doc =>
      match writeConfig inst a doc s with
      | (s, some e) => (s, some e)
      | (s, none) =>
        if !inst.binary then ({ s with serving := true }, none)
        else if (s.serving || s.waiting) ∧ s.renderedHash = some doc then (s, none)
        else reloadMita a doc s

/-- `conflictLocked` -/
def conflictLocked (inbounds : OrderedMap String InboundConfig) (id : String)
    (next : InboundConfig) : Option MieruError :=
  inbounds.entries.findSome? fun other =>
    if other.1 = id then none
    else if other.2.withDefaults.listenPort = next.withDefaults.listenPort then
      some (.portTaken next.withDefaults.listenPort)
    else if other.2.withDefaults.mtu ≠ next.withDefaults.mtu then
      some (.mtuDiffers next.withDefaults.mtu other.2.withDefaults.mtu)
    else none

/-- The inbound a push is held as. -/
def pushedInbound (port mtu : Int) : InboundConfig where
  listenPort := if port = 0 then inst.inbound.listenPort else port
  mtu := if mtu = 0 then inst.inbound.mtu else mtu
  loggingLevel := ""

/-- `ApplyIdentifiedInbound`; the pushed config is its MTU, none where it does not parse. -/
def applyIdentifiedInbound (id : String) (port : Int) (cfg : Option Int) (s : State) : Called :=
  match cfg with
  | none => (s, some .parseCfg)
  | some mtu =>
    let next := pushedInbound inst port mtu
    let prev := s.inbounds.get? id
    if prev = some next ∧ (s.serving || s.waiting) then (s, none)
    else
      match conflictLocked s.inbounds id next with
      | some e => (s, some e)
      | none =>
        match regenerateAndReload inst a (s.setInbounds (s.inbounds.set id next)) with
        | (s, none) => (s, none)
        | (s, some e) =>
          if e.refused then (s.setInbounds (s.inbounds.restore id prev), some e) else (s, some e)

end Adapter

/-! ## What a render leaves -/

section Render

variable {inst : Install} {a : Answers} {s s' : State} {doc : Conf} {err : Option MieruError}

theorem renderMulti_users {inbounds : List InboundConfig} {base : InboundConfig}
    {users : List User} (h : renderMulti inbounds base users = .ok doc) : doc.users = users := by
  unfold renderMulti at h
  split at h
  · cases h
  · simp only [bind_eq_ok, pure_eq_ok] at h
    obtain ⟨_, -, _, -, _, -, _, -, rfl⟩ := h
    rfl

/-- What `mita` is asked in a call, and answers well: the config is taken, and the proxy comes up
where there is a user and goes down where there is none. -/
structure Taken (inst : Install) (s : State) (a : Answers) : Prop where
  path : inst.path = true
  write : a.write ≠ .landed
  apply : inst.binary = true → a.write = .done → a.apply = true
  start : inst.binary = true → a.write = .done → sortedUsers s.users ≠ [] → a.start = true
  stop : inst.binary = true → a.write = .done → sortedUsers s.users = [] →
    (s.serving || s.unknown) = true → a.stop ≠ .failed
  reload : inst.binary = true → a.write = .done → sortedUsers s.users = [] →
    (s.serving || s.unknown) = false → a.reload = true

/-- A document in the file, taken by the last command, with its digest remembered. -/
structure Loaded (inst : Install) (doc : Conf) (s : State) : Prop where
  config : s.config = some doc
  last : inst.binary = true → s.last = some (some doc, true)
  hash : inst.binary = true → s.renderedHash = some doc

/-- The states a render goes through hold the same users and inbounds. -/
structure SameHeld (s s' : State) : Prop where
  users : s'.users = s.users
  inbounds : s'.inbounds = s.inbounds

theorem reloadMita_taken (hbin : inst.binary = true) (ht : Taken inst s a)
    (hdone : a.write = .done) (husers : doc.users = sortedUsers s.users)
    (hconfig : s.config = some doc) (h : reloadMita a doc s = (s', err)) :
    err = none ∧ SameHeld s s' ∧ Loaded inst doc s' := by
  have happly := ht.apply hbin hdone
  unfold reloadMita at h
  simp only [happly, Bool.not_true, Bool.false_eq_true, if_false] at h
  by_cases hnone : doc.users = []
  · rw [if_pos hnone] at h
    rw [husers] at hnone
    unfold awaitUser at h
    cases hup : s.serving || s.unknown with
    | true =>
      simp only [State.command, stopMita, hup, ht.stop hbin hdone hnone hup, if_true, if_false]
        at h
      cases h
      refine ⟨rfl, ⟨rfl, rfl⟩, hconfig, fun _ => ?_, fun _ => rfl⟩
      simp [hconfig, ht.stop hbin hdone hnone hup]
    | false =>
      simp only [State.command, hup, Bool.false_eq_true, if_false] at h
      cases h
      refine ⟨rfl, ⟨rfl, rfl⟩, hconfig, fun _ => ?_, fun _ => rfl⟩
      simp [hconfig, ht.reload hbin hdone hnone hup]
  · rw [if_neg hnone] at h
    rw [husers] at hnone
    simp only [startMita, State.command, ht.start hbin hdone hnone, if_true] at h
    cases h
    exact ⟨rfl, ⟨rfl, rfl⟩, hconfig, fun _ => by simp [hconfig], fun _ => rfl⟩

/-- What is held is in force wherever the adapter says it serves or waits. -/
def Settled (inst : Install) (s : State) : Prop :=
  (s.serving || s.waiting) = true → ∃ doc, s.render inst = .ok doc ∧ Loaded inst doc s

/-- A render that finds an inbound and is not refused puts what is held in force. -/
theorem regenerateAndReload_taken (hheld : s.inbounds.entries ≠ []) (ht : Taken inst s a)
    (hloaded : (s.serving || s.waiting) = true → ∃ doc, Loaded inst doc s)
    (h : regenerateAndReload inst a s = (s', err)) :
    SameHeld s s' ∧
      ((err = none ∧ ∃ doc, s.render inst = .ok doc ∧ Loaded inst doc s') ∨
        ∃ e, err = some e ∧ e.refused = true ∧ s' = s) := by
  unfold regenerateAndReload at h
  rw [if_neg hheld] at h
  split at h
  · rename_i e he
    cases h
    exact ⟨⟨rfl, rfl⟩, Or.inr ⟨_, rfl, rfl, rfl⟩⟩
  · rename_i doc hdoc
    have husers := renderMulti_users hdoc
    have hw : writeConfig inst a doc s =
        ({ s with config := if a.write.lands then some doc else s.config },
          if a.write = .done then none else some .write) := by
      unfold writeConfig
      rw [ht.path]
      rfl
    rw [hw] at h
    by_cases hdone : a.write = .done
    · simp only [hdone, Outcome.lands, if_true, ne_eq, reduceCtorEq, not_false_eq_true,
        decide_true] at h
      cases hbin : inst.binary with
      | false =>
        simp only [hbin, Bool.not_false, if_true] at h
        cases h
        refine ⟨⟨rfl, rfl⟩, Or.inl ⟨rfl, doc, hdoc, rfl, ?_, ?_⟩⟩ <;> simp [hbin]
      | true =>
        simp only [hbin, Bool.not_true, Bool.false_eq_true, if_false] at h
        by_cases hsame : (s.serving || s.waiting) = true ∧ s.renderedHash = some doc
        · rw [if_pos hsame] at h
          cases h
          obtain ⟨doc₀, h₀⟩ := hloaded hsame.1
          have : doc₀ = doc := by
            have := h₀.hash hbin
            rw [hsame.2] at this
            exact (Option.some.inj this).symm
          subst this
          exact ⟨⟨rfl, rfl⟩, Or.inl ⟨rfl, doc₀, hdoc, rfl, h₀.last, h₀.hash⟩⟩
        · rw [if_neg hsame] at h
          have ht' : Taken inst { s with config := some doc } a :=
            ⟨ht.path, ht.write, ht.apply, ht.start, ht.stop, ht.reload⟩
          obtain ⟨rfl, hheld, hl⟩ := reloadMita_taken hbin ht' hdone husers rfl h
          exact ⟨⟨hheld.users, hheld.inbounds⟩, Or.inl ⟨rfl, doc, hdoc, hl⟩⟩
    · have hfailed : a.write = .failed := by
        cases hc : a.write with
        | done => exact absurd hc hdone
        | failed => rfl
        | landed => exact absurd hc ht.write
      simp only [hfailed, Outcome.lands, ne_eq, not_true_eq_false, decide_false,
        Bool.false_eq_true, if_false, reduceCtorEq] at h
      cases h
      exact ⟨⟨rfl, rfl⟩, Or.inr ⟨_, rfl, rfl, rfl⟩⟩

end Render

/-! ## Inbounds one after another -/

section Pushes

/-- An inbound of a push, and what becomes of its operations. -/
structure Turn where
  id : String
  port : Int
  cfg : Option Int
  answers : Answers
deriving DecidableEq

def State.call (inst : Install) (s : State) (t : Turn) : Called :=
  applyIdentifiedInbound inst t.answers t.id t.port t.cfg s

/-- The inbound is held, the file is the render of everything held, and `mita` took it. -/
structure InForce (inst : Install) (t : Turn) (s : State) : Prop where
  held : ∃ mtu, t.cfg = some mtu ∧ s.inbounds.get? t.id = some (pushedInbound inst t.port mtu)
  config : ∃ doc, s.render inst = .ok doc ∧ s.config = some doc ∧
    (inst.binary = true → s.last = some (some doc, true))

/-- An adapter no push has reached, with any users and over any file. -/
def IsNew (s : State) : Prop := s.inbounds = .empty ∧ s.serving = false ∧ s.waiting = false

def pushed (inst : Install) : Pushed State Turn where
  start := IsNew
  step s t := (s.call inst t).1
  accepted s t := (s.call inst t).2 = none
  refused s t := ∃ e, (s.call inst t).2 = some e ∧ e.invalid = true
  inForce := InForce inst
  same s s' := s' = s

variable {inst : Install} {t : Turn} {s : State}

/-- What a call leaves, from a state where what is held is in force. -/
structure Kept (inst : Install) (t : Turn) (s : State) (r : Called) : Prop where
  settled : Settled inst r.1
  accepted : r.2 = none → InForce inst t r.1
  refused : ∀ e, r.2 = some e → e.invalid = true → r.1 = s

theorem call_kept (hs : Settled inst s) (ht : Taken inst s t.answers) :
    Kept inst t s (s.call inst t) := by
  unfold State.call applyIdentifiedInbound
  split
  · exact ⟨hs, (fun h => by cases h), fun _ _ _ => rfl⟩
  · rename_i mtu hcfg
    dsimp only
    split
    · rename_i hsame
      refine ⟨hs, fun _ => ⟨⟨mtu, hcfg, hsame.1⟩, ?_⟩, fun _ h => by cases h⟩
      obtain ⟨doc, hdoc, hl⟩ := hs hsame.2
      exact ⟨doc, hdoc, hl.config, hl.last⟩
    · split
      · exact ⟨hs, (fun h => by cases h), fun _ _ _ => rfl⟩
      · have hstored : (s.inbounds.set t.id (pushedInbound inst t.port mtu)).get? t.id =
            some (pushedInbound inst t.port mtu) := by
          rw [OrderedMap.get?_set, if_pos rfl]
        have ht' : Taken inst
            (s.setInbounds (s.inbounds.set t.id (pushedInbound inst t.port mtu))) t.answers :=
          ⟨ht.path, ht.write, ht.apply, ht.start, ht.stop, ht.reload⟩
        have hl : (s.serving || s.waiting) = true → ∃ doc, Loaded inst doc
            (s.setInbounds (s.inbounds.set t.id (pushedInbound inst t.port mtu))) := by
          intro hup
          obtain ⟨doc, -, hl⟩ := hs hup
          exact ⟨doc, hl.config, hl.last, hl.hash⟩
        split
        · rename_i s' hreg
          obtain ⟨hheld, ⟨-, doc, hdoc, hl⟩ | ⟨e, he, -⟩⟩ :=
            regenerateAndReload_taken (OrderedMap.entries_ne_nil_of_get? hstored) ht' hl hreg
          · have hrender : s'.render inst = .ok doc := by
              unfold State.render
              rw [hheld.inbounds, hheld.users]
              exact hdoc
            refine ⟨fun _ => ⟨doc, hrender, hl⟩, fun _ => ⟨⟨mtu, hcfg, ?_⟩, ?_⟩,
              fun _ h => by cases h⟩
            · rw [hheld.inbounds]
              exact hstored
            · exact ⟨doc, hrender, hl.config, hl.last⟩
          · cases he
        · rename_i s' e hreg
          obtain ⟨-, ⟨he, -⟩ | ⟨e', he, hrefused, hsame⟩⟩ :=
            regenerateAndReload_taken (OrderedMap.entries_ne_nil_of_get? hstored) ht' hl hreg
          · cases he
          · cases he
            have hback : s'.setInbounds (s'.inbounds.restore t.id (s.inbounds.get? t.id)) = s := by
              rw [hsame]
              show s.setInbounds ((s.inbounds.set t.id _).restore t.id _) = s
              rw [OrderedMap.restore_set]
              rfl
            rw [if_pos hrefused, hback]
            exact ⟨hs, (fun h => by cases h), fun _ _ _ => rfl⟩

/-- Every inbound of a run is in force once accepted, and changes nothing when refused for what it
says, where every config that lands is taken by `mita`. -/
theorem honest : (pushed inst).HonestWhen fun s t => Taken inst s t.answers := by
  refine Pushed.honestWhen_of_inv (I := Settled inst) ?_ ?_ ?_
  · rintro s ⟨-, hserving, hwaiting⟩ hup
    simp [hserving, hwaiting] at hup
  · intro s t hs ht
    exact (call_kept hs ht).settled
  · intro s t hs ht
    have hkept := call_kept hs ht
    refine ⟨hkept.accepted, ?_⟩
    rintro ⟨e, he, hinvalid⟩
    exact hkept.refused e he hinvalid

end Pushes

end Iceslab.Agent.Mieru
