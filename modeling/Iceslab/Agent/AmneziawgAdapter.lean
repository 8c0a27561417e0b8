import Iceslab.Agent.Amneziawg
import Iceslab.Agent.AtomicFile
import Iceslab.Lib.Machine

/-!
# The AmneziaWG adapter

`adapter.go` and `state.go` of `internal/core/amneziawg`: two interfaces, the 1.x one and the 3.1
one, each with its inbound, its peers, its config file and the state file an agent restart starts
from.  The system under the adapter is `Env`: what a command does, which links the kernel has and
what becomes of a write.

* `Session` — one interface in one call, with the commands it issued.
* `restartInterfaceFrom`, `syncFromSnapshot` — a config file into force.
* `applyInboundOne`, `applyCascadeOne`, `idleOne`, `addPeer`, `removeOne` — a call on one interface.
* `State.call` — a call on the adapter.
-/

set_option autoImplicit false

namespace Iceslab.Agent.Amneziawg

/-! ## The interface in memory and on disk -/

abbrev Peers := OrderedMap String Peer

/-- `sortedPeers`, peers of one address in the order they were added. -/
def sortedPeers (peers : Peers) : List Peer :=
  peers.values.insertionSort fun p q => p.allowedIP ≤ q.allowedIP

def ensureCIDR (ip : String) : String := if '/' ∈ ip.toList then ip else ip ++ "/32"

inductive PeerRefusal
  | publicKey
  | allowedIP
deriving DecidableEq

/-- `validatePeer` -/
def validatePeer (p : Peer) : Except PeerRefusal Unit :=
  if validateWGKey p.publicKey = false then .error .publicKey
  else if validateAllowedIP p.allowedIP = false then .error .allowedIP
  else .ok ()

structure SavedState where
  inbound : InboundConfig
  inboundID : String
  peers : Peers

structure Iface where
  inbound : InboundConfig
  inboundID : String
  peers : Peers
  started : Bool
  /-- the config file and the state file beside it -/
  conf : Option Conf
  saved : Option SavedState

/-- What `saveState` writes. -/
def Iface.state (i : Iface) : SavedState := ⟨i.inbound, i.inboundID, i.peers⟩

/-- The two interfaces of a node. -/
inductive Gen
  | one
  | three
deriving DecidableEq

def v3Interface : String := "awg3"

/-- What the agent was started with. -/
structure Install where
  /-- `AwgQuickBin` is set; without it only files are written -/
  managed : Bool
  /-- `SystemctlBin` is set -/
  systemctl : Bool
  one : InboundConfig
  interface : one.interface ≠ v3Interface

def Install.inbound (inst : Install) : Gen → InboundConfig
  | .one => inst.one
  | .three => ⟨v3Interface, 0, "", "", .zero, [], [], none, none⟩

/-- The peers of a file that `addPeer` would take. -/
def validPeers (peers : Peers) : Peers where
  entries := peers.entries.filter fun e => decide (validatePeer e.2 = .ok ())
  nodup := peers.nodup.sublist (List.filter_sublist.map Prod.fst)

/-- `loadState` over what the adapter was started with. -/
def loadState (install : InboundConfig) : Option SavedState → SavedState
  | none => ⟨install, "", .empty⟩
  | some st =>
    if st.inbound.interface ≠ install.interface then ⟨install, "", .empty⟩
    else
      { inbound := { st.inbound with
          postUp := install.postUp, postDown := install.postDown
          listenPort :=
            if st.inbound.listenPort = 0 then install.listenPort else st.inbound.listenPort }
        inboundID := st.inboundID
        peers := validPeers st.peers }

/-- `newOne` over the files of an interface. -/
def newOne (install : InboundConfig) (conf : Option Conf) (saved : Option SavedState) : Iface :=
  let st := loadState install saved
  ⟨st.inbound, st.inboundID, st.peers, false, conf, saved⟩

/-! ## The system -/

/-- A command the adapter issues, with the config file it reads. -/
inductive Cmd
  | up (interface : String) (file : Option Conf)
  | down (interface : String) (file : Option Conf)
  | strip (file : Option Conf)
  | syncconf (interface : String) (file : Option Conf)
  | systemctlRestart (interface : String) (file : Option Conf)
  | add (interface : String) (rule : ChainRule)
  | del (interface : String) (rule : ChainRule)
deriving DecidableEq

structure Answer where
  ok : Bool
  /-- the output says "already exists" -/
  alreadyExists : Bool

structure Env (κ : Type) where
  run : κ → Cmd → κ × Answer
  interfaceExists : κ → String → Bool
  writeConf : κ → Gen → κ × Outcome
  writeState : κ → Gen → κ × Outcome

inductive AwgError
  | parseCfg
  | inbound (e : InboundRefusal)
  | subnetChange (peers : Nat)
  | render (e : RenderRefusal)
  | write
  | sweep (interface : String) (rule : ChainRule)
  | chain (e : ChainRefusal)
  | up (interface : String)
  | noSystemctl
  | systemctl (interface : String)
  | parseCascade
  | chain3 (e : ChainRefusal)
  | sameMark (mark : Nat)
  | emptyHandOff
  | hook (rule : ChainRule)
  | swap (e : AwgError)
  | addUser (userID : String) (e : PeerRefusal)
deriving DecidableEq

/-- Go on where nothing failed. -/
def andThen {σ : Type} (r : σ × Option AwgError) (f : σ → σ × Option AwgError) :
    σ × Option AwgError :=
  match r.2 with
  | some e => (r.1, some e)
  | none => f r.1

/-- One interface in one call, with the commands issued so far. -/
structure Session (κ : Type) where
  iface : Iface
  kernel : κ
  issued : List Cmd

abbrev Result (κ : Type) := Session κ × Option AwgError

section OneInterface

variable {κ : Type}

def Session.setStarted (s : Session κ) (v : Bool) : Session κ :=
  { s with iface := { s.iface with started := v } }

def Session.setInbound (s : Session κ) (inbound : InboundConfig) : Session κ :=
  { s with iface := { s.iface with inbound := inbound } }

def Session.setPeers (s : Session κ) (peers : Peers) : Session κ :=
  { s with iface := { s.iface with peers := peers } }

def Session.setInboundID (s : Session κ) (id : String) : Session κ :=
  { s with iface := { s.iface with inboundID := id } }

variable (env : Env κ) (inst : Install) (g : Gen)

def Session.command (s : Session κ) (c : Cmd) : Session κ :=
  { s with kernel := (env.run s.kernel c).1, issued := s.issued ++ [c] }

def Session.answer (s : Session κ) (c : Cmd) : Answer := (env.run s.kernel c).2

/-! ## Files -/

/-- `saveState`: a failure is only logged. -/
def saveState (s : Session κ) : Session κ :=
  let w := env.writeState s.kernel g
  { s with
    kernel := w.1
    iface := { s.iface with saved := if w.2.lands then some s.iface.state else s.iface.saved } }

def writeConfig (conf : Conf) (s : Session κ) : Result κ :=
  let w := env.writeConf s.kernel g
  ({ s with
      kernel := w.1
      iface := { s.iface with conf := if w.2.lands then some conf else s.iface.conf } },
    if w.2 = .done then none else some .write)

/-- A config file written, and the state saved beside it. -/
def writeAndSave (conf : Conf) (s : Session κ) : Result κ :=
  andThen (writeConfig env g conf s) fun s => (saveState env g s, none)

/-- `writeConfigSnapshot` -/
def writeConfigSnapshot (inbound : InboundConfig) (peers : List Peer) (s : Session κ) : Result κ :=
  match renderConfig inbound peers with
  | .error e => (s, some (.render e))
  | .ok conf => writeAndSave env g conf s

/-! ## Sweeping -/

def sweepMaxRepeats : Nat := 64

/-- One line of `sweepChainTProxy`: run until it fails, an error if it never does. -/
def sweepLine (interface : String) (rule : ChainRule) : Nat → Session κ → Result κ
  | 0, s => (s, some (.sweep interface rule))
  | n + 1, s =>
    if (s.answer env (.del interface rule)).ok then
      sweepLine interface rule n (s.command env (.del interface rule))
    else (s.command env (.del interface rule), none)

/-- `sweepLines` -/
def sweepLines (interface : String) : List ChainRule → Session κ → Result κ
  | [], s => (s, none)
  | rule :: rules, s =>
    andThen (sweepLine env interface rule sweepMaxRepeats s) (sweepLines interface rules)

/-- `sweepChain` -/
def sweepChain (interface : String) (t : Option ChainTProxy) (s : Session κ) : Result κ :=
  if !inst.managed then (s, none)
  else
    match hookLines t with
    | .error e => (s, some (.chain e))
    | .ok h => sweepLines env interface h.down s

/-! ## A config into force -/

/-- `awg-quick up`, and started where it succeeds. -/
def bringUp (interface : String) (s : Session κ) : Result κ :=
  let c := Cmd.up interface s.iface.conf
  if (s.answer env c).ok then ((s.command env c).setStarted true, none)
  else (s.command env c, some (.up interface))

/-- `restartInterfaceFrom`: down before the write, since down runs the hooks of the file on disk. -/
def restartInterfaceFrom (inbound : InboundConfig) (peers : List Peer) (also : Option ChainTProxy)
    (s : Session κ) : Result κ :=
  match renderConfig inbound peers with
  | .error e => (s, some (.render e))
  | .ok conf =>
    if !inst.managed then
      andThen (writeAndSave env g conf s) fun s => (s.setStarted true, none)
    else
      andThen
        (writeAndSave env g conf (s.command env (.down inbound.interface s.iface.conf))) fun s =>
      andThen (sweepChain env inst inbound.interface also s) fun s =>
      andThen (sweepChain env inst inbound.interface inbound.chain s) fun s =>
      bringUp env inbound.interface s

/-- `restartViaSystemctl` -/
def restartViaSystemctl (interface : String) (s : Session κ) : Result κ :=
  if !inst.systemctl then (s, some .noSystemctl)
  else
    let c := Cmd.systemctlRestart interface s.iface.conf
    if (s.answer env c).ok then ((s.command env c).setStarted true, none)
    else (s.command env c, some (.systemctl interface))

/-- `syncconf` over `awg-quick strip`, and the restart it falls back to.  A temporary file that
cannot be written is a `strip` that fails. -/
def syncInterface (interface : String) (s : Session κ) : Result κ :=
  let strip := Cmd.strip s.iface.conf
  if (s.answer env strip).ok then
    let s := s.command env strip
    let sync := Cmd.syncconf interface s.iface.conf
    if (s.answer env sync).ok then ((s.command env sync).setStarted true, none)
    else restartViaSystemctl env inst interface (s.command env sync)
  else restartViaSystemctl env inst interface (s.command env strip)

/-- `syncFromSnapshot` -/
def syncFromSnapshot (inbound : InboundConfig) (peers : List Peer) (s : Session κ) : Result κ :=
  andThen (writeConfigSnapshot env g inbound peers s) fun s =>
    if !inst.managed then (s, none) else syncInterface env inst inbound.interface s

/-- `syncConfigState` -/
def syncConfigState (s : Session κ) : Result κ :=
  syncFromSnapshot env inst g s.iface.inbound (sortedPeers s.iface.peers) s

/-! ## Calls on one interface -/

/-- Before an up that will run the hooks; an interface still up runs none, so its lines are left
where they are. -/
def sweepBeforeStart (interface : String) (t : Option ChainTProxy) (s : Session κ) : Result κ :=
  if env.interfaceExists s.kernel interface then (s, none) else sweepChain env inst interface t s

/-- `awg-quick up` at the start, where an interface that is up already is fine. -/
def startUp (interface : String) (s : Session κ) : Result κ :=
  let c := Cmd.up interface s.iface.conf
  if (s.answer env c).ok ∨ (s.answer env c).alreadyExists then
    ((s.command env c).setStarted true, none)
  else (s.command env c, some (.up interface))

/-- `startOne` -/
def startOne (s : Session κ) : Result κ :=
  let inbound := s.iface.inbound
  if inbound.privateKey = "" then (s, none)
  else
    andThen (writeConfigSnapshot env g inbound (sortedPeers s.iface.peers) s) fun s =>
    if !inst.managed then (s.setStarted true, none)
    else
      andThen (sweepBeforeStart env inst inbound.interface inbound.chain s) fun s =>
      startUp env inbound.interface s

/-- `idleOne`: the key is forgotten and saved so, and the interface goes down. -/
def idleOne (s : Session κ) : Session κ :=
  if s.iface.inbound.privateKey = "" ∧ s.iface.started = false then s
  else
    let s := (s.setInbound { s.iface.inbound with privateKey := "" }).setStarted false
    let s := saveState env g s
    if !inst.managed then s else s.command env (.down s.iface.inbound.interface s.iface.conf)

/-- One interface of `RetainInbounds`. -/
def retainOne (keep : List String) (s : Session κ) : Session κ :=
  if s.iface.inboundID = "" ∨ s.iface.inboundID ∈ keep then s
  else idleOne env inst g (s.setInboundID "")

/-- `core.User`, as far as the adapter reads it. -/
structure User where
  userID : String
  amneziaWGPublicKey : String
  amneziaWGAllowedIP : String
  amneziaWGAllowedIP3 : String
deriving DecidableEq

/-- The peer a user is on an interface. -/
def User.peer (user : User) : Peer := ⟨user.amneziaWGPublicKey, ensureCIDR user.amneziaWGAllowedIP⟩

/-- The 3.1 interface has no file yet to write a peer into. -/
def remembered (s : Session κ) : Bool := decide (g = .three ∧ s.iface.inbound.privateKey = "")

def addPeer (user : User) (s : Session κ) : Result κ :=
  if user.amneziaWGPublicKey = "" ∨ user.amneziaWGAllowedIP = "" then (s, none)
  else
    match validatePeer user.peer with
    | .error e => (s, some (.addUser user.userID e))
    | .ok () =>
      if s.iface.peers.get? user.userID = some user.peer then (s, none)
      else
        let s := s.setPeers (s.iface.peers.set user.userID user.peer)
        if remembered g s then (s, none) else syncConfigState env inst g s

def removeOne (userID : String) (s : Session κ) : Result κ :=
  if s.iface.peers.get? userID = none then (s, none)
  else
    let s := s.setPeers (s.iface.peers.filter (· ≠ userID))
    if remembered g s then (s, none) else syncConfigState env inst g s

/-- The inbound a push makes of the held one. -/
def pushedInbound (held : InboundConfig) (port : Int) (wire : InboundCfgWire) :
    Except InboundRefusal InboundConfig :=
  match wire.toInboundConfig held.interface (if port = 0 then held.listenPort else port) with
  | .error e => .error e
  | .ok new =>
    .ok { new with postUp := held.postUp, postDown := held.postDown, chain := held.chain }

/-- `ApplyInbound` on the interface of its generation: the id is taken before the inbound is
compared, and the inbound before it is rendered. -/
def applyInboundOne (port : Int) (wire : InboundCfgWire) (s : Session κ) : Result κ :=
  match pushedInbound s.iface.inbound port wire with
  | .error e => (s, some (.inbound e))
  | .ok new =>
    let s := if wire.inboundId ≠ "" then s.setInboundID wire.inboundId else s
    match classifyDiff s.iface.inbound new with
    | .none => (s, none)
    | .subnet =>
      if 0 < s.iface.peers.size ∧ s.iface.inbound.address ≠ "" then
        (s, some (.subnetChange s.iface.peers.size))
      else restartInterfaceFrom env inst g new (sortedPeers s.iface.peers) none (s.setInbound new)
    | .restart =>
      restartInterfaceFrom env inst g new (sortedPeers s.iface.peers) none (s.setInbound new)

/-- `without` -/
def without (rules other : List ChainRule) : List ChainRule := rules.filter (· ∉ other)

/-- Run the `PostUp` lines until one fails. -/
def addLines (interface : String) : List ChainRule → Session κ → Result κ
  | [], s => (s, none)
  | rule :: rules, s =>
    if (s.answer env (.add interface rule)).ok then
      addLines interface rules (s.command env (.add interface rule))
    else (s.command env (.add interface rule), some (.hook rule))

/-- `swapChainLive` -/
def swapChainLive (interface : String) (prev next : Option ChainTProxy) (s : Session κ) :
    Result κ :=
  match hookLines prev with
  | .error e => (s, some (.chain e))
  | .ok p =>
    match hookLines next with
    | .error e => (s, some (.chain e))
    | .ok n =>
      andThen (sweepLines env interface (without n.down p.down) s) fun s =>
      andThen (addLines env interface (without n.up p.up) s) fun s =>
      sweepLines env interface (without p.down n.down) s

/-- `undoSwap`: a failure is only logged. -/
def undoSwap (interface : String) (prev next : Option ChainTProxy) (s : Session κ) : Session κ :=
  match hookLines prev, hookLines next with
  | .ok p, .ok n => (sweepLines env interface (without n.down p.down) s).1
  | _, _ => s

/-- A running interface takes the new hand-off in place, or keeps the one it had. -/
def applyCascadeLive (inbound : InboundConfig) (conf : Conf) (prev : Option ChainTProxy)
    (s : Session κ) : Result κ :=
  match swapChainLive env inbound.interface prev inbound.chain s with
  | (s, some e) =>
    let s := undoSwap env inbound.interface prev inbound.chain s
    (s.setInbound { s.iface.inbound with chain := prev }, some (.swap e))
  | (s, none) => writeAndSave env g conf s

def applyCascadeOne (next : Option ChainTProxy) (s : Session κ) : Result κ :=
  let prev := s.iface.inbound.chain
  if prev = next then (s, none)
  else
    let inbound := { s.iface.inbound with chain := next }
    let peers := sortedPeers s.iface.peers
    if s.iface.inbound.privateKey = "" then (s.setInbound inbound, none)
    else
      match renderConfig inbound peers with
      | .error e => (s, some (.render e))
      | .ok conf =>
        let s := s.setInbound inbound
        if inst.managed ∧ env.interfaceExists s.kernel inbound.interface then
          applyCascadeLive env g inbound conf prev s
        else restartInterfaceFrom env inst g inbound peers prev s

end OneInterface

/-! ## The adapter -/

structure State (κ : Type) where
  one : Iface
  three : Iface
  kernel : κ
  /-- the commands of the last call -/
  issued : List Cmd

/-- `userCore.tproxy`, with the hand-off of the 3.1 interface beside it. -/
structure CascadeWire where
  port : Int
  mark : Nat
  tproxy3 : Option ChainTProxy
deriving DecidableEq

/-- The hand-off of each interface. -/
structure HandOffs where
  one : Option ChainTProxy
  three : Option ChainTProxy
deriving DecidableEq

def HandOffs.on (h : HandOffs) : Gen → Option ChainTProxy
  | .one => h.one
  | .three => h.three

/-- The checks of `ApplyCascade`, before either hand-off is applied; `none` is a nil payload and
`some none` one that does not parse. -/
def readCascade : Option (Option CascadeWire) → Except AwgError HandOffs
  | none => .ok ⟨none, none⟩
  | some none => .error .parseCascade
  | some (some wire) => do
    let next1 ←
      if wire.port ≠ 0 ∨ wire.mark ≠ 0 then
        match ChainTProxy.validate ⟨wire.port, wire.mark⟩ with
        | .error e => .error (.chain e)
        | .ok () => .ok (some ⟨wire.port, wire.mark⟩)
      else .ok none
    match wire.tproxy3 with
    | none => if next1 = none then .error .emptyHandOff else .ok ⟨next1, none⟩
    | some t =>
      match t.validate with
      | .error e => .error (.chain3 e)
      | .ok () =>
        if next1.map ChainTProxy.mark = some t.mark then .error (.sameMark t.mark)
        else .ok ⟨next1, some t⟩

/-- The calls, and the start of the agent and of its successor over the files it leaves.  `cfg` is
none where the pushed config does not parse. -/
inductive Event
  | applyInbound (port : Int) (cfg : Option InboundCfgWire)
  | applyCascade (raw : Option (Option CascadeWire))
  | retainInbounds (keep : List String)
  | idle
  | addUser (user : User)
  | addUserOn (user : User) (inboundIDs : List String)
  | removeUser (userID : String)
  | start
  | restart
deriving DecidableEq

section Adapter

variable {κ : Type}

def State.iface (s : State κ) : Gen → Iface
  | .one => s.one
  | .three => s.three

def State.setIface (s : State κ) (g : Gen) (i : Iface) : State κ :=
  match g with
  | .one => { s with one := i }
  | .three => { s with three := i }

abbrev Called (κ : Type) := State κ × Option AwgError

def State.session (s : State κ) (g : Gen) : Session κ := ⟨s.iface g, s.kernel, s.issued⟩

/-- A call on one of the interfaces. -/
def State.on (s : State κ) (g : Gen) (f : Session κ → Result κ) : Called κ :=
  let r := f (s.session g)
  ({ s.setIface g r.1.iface with kernel := r.1.kernel, issued := r.1.issued }, r.2)

variable (env : Env κ) (inst : Install)

/-- The interface a generation lands on. -/
def genOf (wire : InboundCfgWire) : Gen := if wire.awgProtocol = 3 then .three else .one

/-- `ApplyInbound` -/
def applyInbound (port : Int) (cfg : Option InboundCfgWire) (s : State κ) : Called κ :=
  match cfg with
  | none => (s, some .parseCfg)
  | some wire => s.on (genOf wire) (applyInboundOne env inst (genOf wire) port wire)

/-- `ApplyCascade` -/
def applyCascade (raw : Option (Option CascadeWire)) (s : State κ) : Called κ :=
  match readCascade raw with
  | .error e => (s, some e)
  | .ok next =>
    andThen (s.on .one (applyCascadeOne env inst .one next.one)) fun s =>
    s.on .three (applyCascadeOne env inst .three next.three)

/-- `RetainInbounds` -/
def retainInbounds (keep : List String) (s : State κ) : Called κ :=
  andThen (s.on .one fun s => (retainOne env inst .one keep s, none)) fun s =>
  s.on .three fun s => (retainOne env inst .three keep s, none)

/-- `Idle` -/
def idle (s : State κ) : Called κ :=
  andThen (s.on .one fun s => (idleOne env inst .one s, none)) fun s =>
  s.on .three fun s => (idleOne env inst .three s, none)

/-- The user as the 3.1 interface has them. -/
def User.on3 (user : User) : User :=
  { user with amneziaWGAllowedIP := user.amneziaWGAllowedIP3, amneziaWGAllowedIP3 := "" }

/-- `AddUser` on the 3.1 interface: the same key, at the user's 3.1 address. -/
def addUser3 (user : User) (s : State κ) : Called κ :=
  if user.amneziaWGPublicKey = "" ∨ user.amneziaWGAllowedIP3 = "" then
    s.on .three (removeOne env inst .three user.userID)
  else s.on .three (addPeer env inst .three user.on3)

/-- `AddUser` -/
def addUser (user : User) (s : State κ) : Called κ :=
  andThen (s.on .one (addPeer env inst .one user)) (addUser3 env inst user)

/-- The user without the addresses of the interfaces that are not named. -/
def User.scoped (user : User) (inboundIDs : List String) (id1 id3 : String) : User :=
  { user with
    amneziaWGAllowedIP := if id1 ∈ inboundIDs then user.amneziaWGAllowedIP else ""
    amneziaWGAllowedIP3 := if id3 ∈ inboundIDs then user.amneziaWGAllowedIP3 else "" }

/-- `AddUserOn` -/
def addUserOn (user : User) (inboundIDs : List String) (s : State κ) : Called κ :=
  let id1 := s.one.inboundID
  andThen
    (if id1 ∈ inboundIDs then (s, none) else s.on .one (removeOne env inst .one user.userID))
    fun s => addUser env inst (user.scoped inboundIDs id1 s.three.inboundID) s

/-- `RemoveUser` -/
def removeUser (userID : String) (s : State κ) : Called κ :=
  andThen (s.on .three (removeOne env inst .three userID)) fun s =>
  s.on .one (removeOne env inst .one userID)

/-- `Start` -/
def start (s : State κ) : Called κ :=
  andThen (s.on .one (startOne env inst .one)) fun s =>
  s.on .three (startOne env inst .three)

/-- A new adapter over the files of the last one. -/
def renew (s : State κ) : State κ :=
  { s with
    one := newOne (inst.inbound .one) s.one.conf s.one.saved
    three := newOne (inst.inbound .three) s.three.conf s.three.saved }

def State.call (s : State κ) (e : Event) : Called κ :=
  let s := { s with issued := [] }
  match e with
  | .applyInbound port cfg => applyInbound env inst port cfg s
  | .applyCascade raw => applyCascade env inst raw s
  | .retainInbounds keep => retainInbounds env inst keep s
  | .idle => idle env inst s
  | .addUser user => addUser env inst user s
  | .addUserOn user inboundIDs => addUserOn env inst user inboundIDs s
  | .removeUser userID => removeUser env inst userID s
  | .start => start env inst s
  | .restart => (renew inst s, none)

def State.step (s : State κ) (e : Event) : State κ := (s.call env inst e).1

/-- An adapter started over any files, on a system in any state. -/
def IsNew (s : State κ) : Prop :=
  s.one = newOne (inst.inbound .one) s.one.conf s.one.saved ∧
    s.three = newOne (inst.inbound .three) s.three.conf s.three.saved ∧ s.issued = []

end Adapter

end Iceslab.Agent.Amneziawg
