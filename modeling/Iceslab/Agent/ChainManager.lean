import Iceslab.Agent.LegTunnel
import Iceslab.Agent.Subprocess
import Iceslab.Lib.Machine

/-!
# The chain manager

`internal/chain/chain.go`: one process per node that owns the cascade.  `Apply` puts a pushed block
into force or takes the chain out of service; it runs one at a time, and gives its lock up around
the engine check, the config write, the old process's stop, the tunnels and the start.  The machine
below takes one of these pieces at a step, and the chain processes exit and are respawned between
any two of them.

* `ChainNode.step` — one piece of an `Apply`, an exit, or the end of a backoff.
* `Manager.status`, `Manager.reservedPorts` — what the agent reports.
-/

set_option autoImplicit false

namespace Iceslab.Agent

/-! ## What the agent reports -/

def portOwner : String := "chain-socks"

def portOwnerTProxy : String := "chain-tproxy"

structure ReservedPort where
  owner : String
  port : Int
  transport : String
  deriving DecidableEq, Repr

/-- `tproxyPortOf`: the two interfaces share one listener. -/
def tproxyPortOf (block : NodeChain) : Int :=
  match block.userCore with
  | none => 0
  | some u =>
    match [u.tproxy, u.tproxy3].filterMap (fun t => t.filter fun t => decide (0 < t.port)) with
    | [] => 0
    | t :: _ => t.port

/-- `reservedPortsLocked` -/
def reservedPortsOf (socks : List ChainSocks) (tproxyPort : Int) : List ReservedPort :=
  (socks.filter fun s => decide (0 < s.port)).map (fun s => ⟨portOwner, s.port, "tcp"⟩)
    ++ if 0 < tproxyPort then
        ["tcp", "udp"].map (fun tr => ⟨portOwnerTProxy, tproxyPort, tr⟩)
      else []

/-- Why the engine check refuses. -/
inductive CheckFailure where
  | tempDir (err : String)
  | candidate (err : String)
  | rejected (err out : String)
  deriving DecidableEq, Repr

/-- Why the chain is not running. -/
inductive ChainError where
  | engine (name : String)
  | noConfig
  | tunnel (r : TunnelRefusal)
  | noBinary
  | check (f : CheckFailure)
  | write (err : String)
  | tunnels (f : TunnelFailure)
  | start (err : String)
  deriving DecidableEq, Repr

def CheckFailure.text : CheckFailure → String
  | .tempDir err => "temp dir for the config check: " ++ err
  | .candidate err => "write candidate config: " ++ err
  | .rejected err out =>
    "the chain engine rejected the config: " ++ err ++ " (" ++ GoText.trimSpace out ++ ")"

def ChainError.text (quote : String → String) : ChainError → String
  | .engine name =>
    "chain engine " ++ quote name ++ " is not one this agent can run (it knows "
      ++ quote chainEngine ++ ")"
  | .noConfig => "chain block carries no config"
  | .tunnel r => r.text quote
  | .noBinary =>
    "no " ++ chainEngine ++ " binary on this node, so the chain cannot be drawn: run "
      ++ "bootstrap-singbox.sh on it and restart iceslab-node"
  | .check f => f.text
  | .write err => err
  | .tunnels f => "raise the leg tunnels: " ++ f.text
  | .start err => "start the chain process: " ++ err

structure Manager where
  /-- the running engine, none when no chain was ever started or it was withdrawn -/
  proc : Option Nat
  socks : List ChainSocks
  tproxyPort : Int
  accepted : Option NodeChain
  held : Bool
  lastErr : Option ChainError
  version : String
  deriving DecidableEq

namespace Manager

def new : Manager := ⟨none, [], 0, none, false, none, ""⟩

def reservedPorts (m : Manager) : List ReservedPort := reservedPortsOf m.socks m.tproxyPort

/-- `fail`: the block stays held. -/
def fail (m : Manager) (e : ChainError) : Manager := { m with held := true, lastErr := some e }

/-- The config of `b` is on disk and names these listeners. -/
def accept (m : Manager) (b : NodeChain) : Manager :=
  { m with
    accepted := some b, socks := b.socks.toList, tproxyPort := tproxyPortOf b
    held := true, lastErr := none }

/-- `stop`, up to the process. -/
def withdraw (m : Manager) : Manager := { new with version := m.version }

end Manager

inductive StatusError where
  | failed (e : ChainError)
  | exited (reason : String)
  | noReason
  deriving DecidableEq, Repr

def StatusError.text (quote : String → String) : StatusError → String
  | .failed e => e.text quote
  | .exited reason => reason
  | .noReason => "the chain process is not running and left no reason"

structure ChainStatus where
  running : Bool
  version : String
  error : Option StatusError
  reservedPorts : List ReservedPort
  deriving DecidableEq

/-- `Status`, none when this node holds no chain; `proc` is the manager's process. -/
def Manager.status (m : Manager) (proc : Option Subprocess) : Option ChainStatus :=
  if !m.held then none
  else
    let running := proc.any (·.running)
    let error :=
      if running then none
      else
        match m.lastErr, proc.bind (·.lastExit) with
        | some e, _ => some (.failed e)
        | none, some reason => some (.exited reason)
        | none, none => some .noReason
    some ⟨running, m.version, error, m.reservedPorts⟩

/-! ## The same block -/

/-- The characters the encoder escapes inside a raw message. -/
def htmlEscapeChar (c : Char) : List Char :=
  if c = '<' then "\\u003c".toList
  else if c = '>' then "\\u003e".toList
  else if c = '&' then "\\u0026".toList
  else if c.toNat = 0x2028 then "\\u2028".toList
  else if c.toNat = 0x2029 then "\\u2029".toList
  else [c]

/-- A raw message as the encoder writes it. -/
def RawMessage.marshal (b : RawMessage) : Option String :=
  if b.isEmpty then some "null"
  else (JsonScan.compact b.text).map fun t => String.ofList (t.toList.flatMap htmlEscapeChar)

/-- An optional field: left out when empty. -/
def Slice.omitEmpty {α : Type} (s : Slice α) : Slice α := if s.toList = [] then none else s

structure MarshalledUserCore where
  engine : String
  fragments : Option String
  socks : Option ChainUserCoreSocks
  tproxy : Option ChainUserCoreTProxy
  tproxy3 : Option ChainUserCoreTProxy
  deriving DecidableEq

/-- What `json.Marshal` makes of a block, field by field: two of these are equal when the two texts
are. -/
structure MarshalledBlock where
  engine : String
  config : String
  socks : Slice ChainSocks
  socksPassword : String
  userCore : Option MarshalledUserCore
  tunnels : Slice ChainTunnel
  linkIngress : Slice ChainLinkIngress
  deriving DecidableEq

/-- A `userCore` whose fragments cannot be encoded fails the whole block. -/
def ChainUserCore.marshal (u : ChainUserCore) : Option MarshalledUserCore :=
  if u.fragments.isEmpty then some ⟨u.engine, none, u.socks, u.tproxy, u.tproxy3⟩
  else u.fragments.marshal.map fun f => ⟨u.engine, some f, u.socks, u.tproxy, u.tproxy3⟩

def marshalUserCore : Option ChainUserCore → Option (Option MarshalledUserCore)
  | none => some none
  | some u => u.marshal.map some

def NodeChain.marshal (b : NodeChain) : Option MarshalledBlock :=
  match b.config.marshal, marshalUserCore b.userCore with
  | some config, some userCore =>
    some ⟨b.engine, config, b.socks, b.socksPassword, userCore, b.tunnels.omitEmpty,
      b.linkIngress.omitEmpty⟩
  | _, _ => none

/-- A raw message without the white space the panel did not mean. -/
def RawMessage.compacted (b : RawMessage) : RawMessage :=
  match h : JsonScan.compact b.text with
  | some t => ⟨t, .inr (by rw [JsonScan.compact_compact h]; rfl)⟩
  | none => b

def compactBlock (b : NodeChain) : NodeChain := { b with config := b.config.compacted }

/-- `unchanged`: the block is the one in force once compacted, and its process is running. -/
def unchanged (m : Manager) (proc : Option Subprocess) (b : NodeChain) : Bool :=
  match m.accepted with
  | none => false
  | some a =>
    proc.any (·.running) &&
      match (compactBlock a).marshal, (compactBlock b).marshal with
      | some x, some y => decide (x = y)
      | _, _ => false

/-! ## The machine -/

structure ManagerConfig where
  binaryPath : String
  configPath : String
  deriving DecidableEq, Repr

/-- Where an `Apply` stands between two pieces. -/
inductive ApplyPhase where
  | idle
  | checking (b : NodeChain)
  | writing (b : NodeChain)
  /-- the config is written and not recorded yet -/
  | written (b : NodeChain)
  | stoppingOld (b : NodeChain) (old : Nat)
  | tunnels (b : NodeChain)
  | starting (b : NodeChain)
  | started (b : NodeChain) (i : Nat)
  | readingVersion
  | withdrawing (proc : Option Nat)
  | sweeping
  deriving DecidableEq

/-- The manager with the machine it runs on: every chain process it ever started, the config file
and the tunnels. -/
structure ChainNode where
  mgr : Manager
  phase : ApplyPhase
  procs : List Subprocess
  file : Option String
  host : TunnelHost

namespace ChainNode

/-- The manager's process. -/
def procOf (s : ChainNode) : Option Subprocess := s.mgr.proc.bind fun i => s.procs[i]?

def status (s : ChainNode) : Option ChainStatus := s.mgr.status s.procOf

/-- An `Apply` that ends here with an error. -/
def refuse (s : ChainNode) (e : ChainError) : ChainNode :=
  { s with phase := .idle, mgr := s.mgr.fail e }

end ChainNode

/-- What the machine answers to one piece of an `Apply`. -/
structure PieceAnswers where
  check : Option CheckFailure
  mkdirErr : Option String
  write : WriteOutcome
  tunnels : TunnelAnswers
  startErr : Option String
  /-- what `sing-box version` prints, none where it fails -/
  version : Option String

/-- `writeConfig` -/
def writeConfig (cfg : ManagerConfig) (a : PieceAnswers) : WriteOutcome :=
  if cfg.configPath = "" then .failed "no chain config path configured"
  else
    match a.mkdirErr with
    | some e => .failed e
    | none => a.write

/-- The version word of `sing-box version 1.13.14`. -/
def versionOf (out : String) : Option String :=
  let firstLine := String.ofList ((GoText.trimSpace out).toList.takeWhile (· ≠ '\n'))
  match GoText.fields firstLine with
  | _ :: w :: v :: _ => if w = "version" then some v else none
  | _ => none

/-- `readVersion` asks once and caches. -/
def Manager.readVersion (m : Manager) (out : Option String) : Manager :=
  if m.version ≠ "" then m
  else
    match out.bind versionOf with
    | some v => { m with version := v }
    | none => m

inductive ChainEvent where
  /-- `Apply` is called; a call made while another runs waits for it -/
  | apply (block : Option NodeChain)
  /-- the `Apply` under way takes its next piece -/
  | next (a : PieceAnswers)
  | exits (i : Nat) (reason : String) (stable : Bool)
  | backoffOver (i : Nat) (cancelled spawnFails : Bool)

namespace ChainNode

/-- `Apply` up to the engine check. -/
def applyBlock (cfg : ManagerConfig) (s : ChainNode) (b : NodeChain) : ChainNode :=
  if b.engine ≠ chainEngine then s.refuse (.engine b.engine)
  else if b.config.isEmpty then s.refuse .noConfig
  else
    match firstRefusal b.tunnels.toList with
    | some r => s.refuse (.tunnel r)
    | none =>
      if unchanged s.mgr s.procOf b then s
      else if cfg.binaryPath = "" then s.refuse .noBinary
      else { s with phase := .checking b }

/-- The piece of `stop` before the process has gone. -/
def applyNil (s : ChainNode) : ChainNode :=
  { s with
    mgr := s.mgr.withdraw, phase := .withdrawing s.mgr.proc
    procs := match s.mgr.proc with
      | some i => s.procs.modify i Subprocess.stop
      | none => s.procs }

def isAlive (s : ChainNode) (i : Nat) : Bool := (s.procs[i]?).any (·.alive)

/-- The next piece of the `Apply` under way. -/
def next (cfg : ManagerConfig) (s : ChainNode) (a : PieceAnswers) : ChainNode :=
  match s.phase with
  | .idle => s
  | .checking b =>
    match a.check with
    | some f => s.refuse (.check f)
    | none => { s with phase := .writing b }
  | .writing b =>
    let w := writeConfig cfg a
    let s := if w.replaces then { s with file := some b.config.text } else s
    match w.err with
    | some e => s.refuse (.write e)
    | none => { s with phase := .written b }
  | .written b =>
    let s := { s with mgr := s.mgr.accept b }
    match s.mgr.proc with
    | some old =>
      { s with phase := .stoppingOld b old, procs := s.procs.modify old Subprocess.stop }
    | none => { s with phase := .tunnels b }
  | .stoppingOld b old => if s.isAlive old then s else { s with phase := .tunnels b }
  | .tunnels b =>
    match applyTunnels a.tunnels b.tunnels.toList s.host with
    | (host, some f) => { s with host }.refuse (.tunnels f)
    | (host, none) => { s with host, phase := .starting b }
  | .starting b =>
    match a.startErr with
    | some e => s.refuse (.start e)
    | none =>
      { s with phase := .started b s.procs.length, procs := s.procs ++ [Subprocess.started] }
  | .started _ i => { s with phase := .readingVersion, mgr := { s.mgr with proc := some i } }
  | .readingVersion => { s with phase := .idle, mgr := s.mgr.readVersion a.version }
  | .withdrawing none => { s with phase := .sweeping }
  | .withdrawing (some p) => if s.isAlive p then s else { s with phase := .sweeping }
  | .sweeping => { s with phase := .idle, host := (sweepTunnels a.tunnels [] s.host).1 }

def step (cfg : ManagerConfig) (s : ChainNode) : ChainEvent → ChainNode
  | .apply block =>
    match s.phase, block with
    | .idle, none => s.applyNil
    | .idle, some b => s.applyBlock cfg b
    | _, _ => s
  | .next a => s.next cfg a
  | .exits i reason stable => { s with procs := s.procs.modify i (·.exits reason stable) }
  | .backoffOver i cancelled spawnFails =>
    { s with procs := s.procs.modify i (·.backoffOver cancelled spawnFails) }

/-- A manager just built, on a machine in any state. -/
def Fresh (s : ChainNode) : Prop := s.mgr = .new ∧ s.phase = .idle ∧ s.procs = []

end ChainNode

/-- The runs whose every step is allowed. -/
def chainMachine (cfg : ManagerConfig) (allowed : ChainNode → ChainEvent → Prop) :
    Machine ChainNode ChainEvent where
  start := ChainNode.Fresh
  step s e s' := allowed s e ∧ s' = s.step cfg e

end Iceslab.Agent
