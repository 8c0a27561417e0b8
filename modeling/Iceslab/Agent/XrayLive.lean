import Iceslab.Agent.AtomicFile
import Iceslab.Agent.XrayRender

/-!
# The restarts of xray

`regenerateAndRestart` of `adapter.go`, with `routing_live.go` and `selfsteal.go` of
`internal/core/xray`: a change of the memory rendered, and handed to the running core as routing or
by a restart.

* `selfStealSites`, `reconcileSelfSteal` — the local TLS fallback and the sites it serves.
* `routingOnlyChange`, `applyRoutingLive` — a change of nothing but the routing.
* `regenerateAndRestart`, `liveUpdateUser` — the two ways a change reaches the core.
* `xrayNode` — changes of the memory, renders, the supervisor and the geo files, in any order.
-/

set_option autoImplicit false

namespace Iceslab.Agent.Xray

/-! ## The local TLS fallback -/

structure SelfStealSite where
  names : List String
  upstream : String
deriving DecidableEq

def selfStealKey (sites : List SelfStealSite) : String :=
  String.join (sites.map fun s => String.intercalate "," s.names ++ "|" ++ s.upstream ++ ";")

def selfStealSites (inbounds : List InboundConfig) : List SelfStealSite :=
  (inbounds.filter fun c =>
    decide (c.realityMode = selfStealModeValue ∧ c.realityServerNames ≠ [])).map
      fun c => ⟨c.realityServerNames, c.realityFallbackUpstream⟩

/-- A running fallback: the sites it was started with, which its key names. -/
structure SelfStealServer where
  sites : List SelfStealSite
deriving DecidableEq

def SelfStealServer.key (s : SelfStealServer) : String := selfStealKey s.sites

/-- `reconcileSelfSteal`; `starts` is whether a fallback that is started comes up. -/
def reconcileSelfSteal (starts : Bool) (inbounds : List InboundConfig)
    (cur : Option SelfStealServer) : Option SelfStealServer :=
  let sites := selfStealSites inbounds
  let fresh := if sites ≠ [] ∧ starts = true then some ⟨sites⟩ else none
  match cur with
  | none => if sites = [] then none else fresh
  | some server => if sites ≠ [] ∧ server.key = selfStealKey sites then some server else fresh

/-! ## The state -/

/-- What the adapter holds of the panel's pushes: the users as `sortedClients` puts them, the
install-time inbound, and the pushed ones in the order of their ids. -/
structure Memory where
  users : List Client
  inbound : InboundConfig
  inbounds : List InboundConfig
  cascade : Option CascadeFragments
  policy : List NodePolicyRule
  dns : Option DnsCfg
  geo : String
  /-- every pushed inbound carries the install-time port -/
  apiPort_eq : ∀ ib ∈ inbounds, ib.apiPort = inbound.apiPort

/-- The inbounds a render serves. -/
def Memory.pushed (m : Memory) : List InboundConfig :=
  if m.inbounds = [] ∧ m.inbound.realityPrivateKey ≠ "" then [m.inbound] else m.inbounds

def Memory.render (host : Host) (m : Memory) : Except RenderError (Document × PolicyDrawn) :=
  renderMultiConfigInto host m.pushed m.users m.cascade m.inbound.withDefaults.apiPort m.policy
    m.dns

/-- The core as it runs: the document it holds, and the geo files it read when it started. -/
structure Process where
  up : Bool
  runs : Document
  geo : String

structure State where
  memory : Memory
  /-- the config on disk -/
  file : Option Document
  proc : Option Process
  selfSteal : Option SelfStealServer
  geoRunning : String
  policyDrawn : Option PolicyDrawn
  /-- the geo files on disk -/
  disk : String
  /-- the host and the memory the config on disk was rendered from -/
  written : Option (Host × Memory)
  /-- the inbounds of the last restart -/
  restarted : List InboundConfig
  /-- the last restart could not start the fallback it wanted -/
  bare : Bool

/-- `BinaryPath` and `ConfigPath` are set. -/
structure Paths where
  binary : Bool
  config : Bool

/-- What the machine answers to one `regenerateAndRestart`. -/
structure Answers where
  /-- `xray -test` takes the config -/
  tested : Bool
  /-- the config on disk is read -/
  readable : Bool
  /-- the temporary file of `adrules` is written -/
  tmp : Bool
  /-- `adrules` is taken, or the routing it leaves behind -/
  adrules : Option Routing
  liveWrite : Outcome
  write : Outcome
  /-- a fallback that is started comes up -/
  fallback : Bool
  /-- the process starts -/
  started : Bool

inductive Failure
  /-- nothing was touched -/
  | refused
  | failed
deriving DecidableEq

/-! ## A change of the routing alone -/

/-- `routingOnlyChange`; the sections that are the same in every document are left out. -/
def routingOnlyChange (was next : Document) : Option Routing :=
  if was.inbounds = next.inbounds ∧ was.outbounds = next.outbounds ∧ was.dns = next.dns ∧
      was.observatory = next.observatory ∧ was.routing ≠ next.routing ∧
      was.routing.domainStrategy = next.routing.domainStrategy
  then some next.routing
  else none

/-- A rule as `keepsAPIRule` decodes it: its inbound tags and its outbound; none where it does
not decode. -/
def Rule.decoded : Rule → Option (List String × String)
  | .field rule => some (rule.inboundTag, rule.outboundTag)
  | .fragment (.other text) => if text = "null" then some ([], "") else none
  | .fragment (.object fields) => do
    let outbound ← fields.foldl (decodeString "outboundtag") (some "")
    let inbound ← fields.foldl decodeTags (some [])
    return (inbound, outbound)
where
  decodeTags : Option (List String) → String × FragmentValue → Option (List String)
    | none, _ => none
    | some tags, (key, value) =>
      if key.toLower = "inboundtag" then
        match value with
        | .null => some []
        | .strings items => some (items.map fun item => item.getD "")
        | _ => none
      else some tags

/-- `keepsAPIRule` -/
def keepsAPIRule (routing : Routing) : Bool :=
  match routing.rules.mapM Rule.decoded with
  | none => false
  | some rules => rules.any fun r => decide (r.2 = "api" ∧ "api-in" ∈ r.1)

inductive Live
  | applied
  | restart
  | refused
deriving DecidableEq

/-- The core with the routing replaced; the domain strategy is not reloaded. -/
def Process.routed (p : Process) (routing : Routing) : Process :=
  { p with runs := { p.runs with
    routing := { routing with domainStrategy := p.runs.routing.domainStrategy } } }

variable (paths : Paths) (ans : Answers)

/-- `applyRoutingLive` -/
def applyRoutingLive (host : Host) (doc : Document) (s : State) : Live × State :=
  match s.proc with
  | none => (.restart, s)
  | some p =>
    if !paths.config || !paths.binary || !p.up || s.memory.geo ≠ s.geoRunning then (.restart, s)
    else
      match (if ans.readable then s.file else none).bind fun was => routingOnlyChange was doc with
      | none => (.restart, s)
      | some routing =>
        if keepsAPIRule routing = false then (.refused, s)
        else if ans.tmp = false then (.restart, s)
        else
          match ans.adrules with
          | some left => (.restart, { s with proc := some (p.routed left) })
          | none =>
            let s := { s with proc := some (p.routed routing) }
            if ans.liveWrite.lands then
              (if ans.liveWrite = .done then .applied else .restart,
                { s with file := some doc, written := some (host, s.memory) })
            else (.restart, s)

/-! ## A restart -/

/-- The rest of `regenerateAndRestart`: the config written, the fallback brought in line, the
process replaced. -/
def restart (host : Host) (doc : Document) (s : State) : Except Failure Unit × State :=
  let pushed := s.memory.pushed
  let s := if paths.config && ans.write.lands
    then { s with file := some doc, written := some (host, s.memory) } else s
  if paths.config = true ∧ ans.write ≠ .done then (.error .failed, s)
  else if paths.binary = false then (.ok (), { s with geoRunning := s.memory.geo })
  else if pushed = [] ∧ s.memory.cascade = none then
    (.ok (), { s with proc := none, selfSteal := none, restarted := pushed, bare := false })
  else
    let selfSteal := reconcileSelfSteal ans.fallback pushed s.selfSteal
    let s := { s with
      selfSteal := selfSteal
      restarted := pushed
      bare := decide (selfStealSites pushed ≠ [] ∧ selfSteal = none) }
    if ans.started then
      (.ok (), { s with proc := some ⟨true, doc, s.disk⟩, geoRunning := s.memory.geo })
    else (.error .failed, { s with proc := none })

/-- What is done with a document that was rendered and taken by `xray -test`. -/
def apply (host : Host) (doc : Document) (s : State) : Except Failure Unit × State :=
  match applyRoutingLive paths ans host doc s with
  | (.applied, s') => (.ok (), s')
  | (.refused, s') => (.error .refused, s')
  | (.restart, s') => restart paths ans host doc s'

/-- `regenerateAndRestart` -/
def regenerateAndRestart (host : Host) (s : State) : Except Failure Unit × State :=
  match s.memory.render host with
  | .error _ => (.error .refused, s)
  | .ok (doc, report) =>
    if paths.binary = true ∧ ans.tested = false then (.error .refused, s)
    else
      match apply paths ans host doc s with
      | (.ok (), s') => (.ok (), { s' with policyDrawn := some report })
      | (.error e, s') => (.error e, s')

/-- `servedInboundsLocked` -/
def Memory.served (m : Memory) : List InboundConfig :=
  if m.inbounds = [] then [m.inbound] else m.inbounds

/-- `dormantLocked`: no user has an inbound to be added to. -/
def Memory.dormant (m : Memory) : Bool :=
  decide (m.inbounds = [] ∧ m.inbound.realityPrivateKey = "")

/-- `liveUpdateUser`: the core comes to hold the users that are rendered, and the config follows; a
call that fails on the way leaves the core with the inbounds of `left`, and the config as it was.
It is not called of a dormant node. -/
def liveUpdateUser (host : Host) (left : Option (List Inbound)) (s : State) : State :=
  if s.memory.dormant then s else
  match s.proc, s.memory.served with
  | some p, first :: _ =>
    match renderMultiConfigInto host s.memory.served s.memory.users s.memory.cascade
        first.withDefaults.apiPort s.memory.policy s.memory.dns with
    | .error _ => s
    | .ok (doc, _) =>
      if paths.binary && p.up then
        match left with
        | some inbounds => { s with proc := some { p with runs := { p.runs with inbounds } } }
        | none =>
          { s with
            proc := some { p with runs := { p.runs with inbounds := doc.inbounds } }
            file := if paths.config then some doc else s.file
            written := if paths.config then some (host, s.memory) else s.written }
      else s
  | _, _ => s

/-! ## The machine -/

inductive Event
  /-- any change of what is held, of everything at once -/
  | change (memory : Memory)
  | regenerate (host : Host) (ans : Answers)
  | usersLive (host : Host) (left : Option (List Inbound))
  /-- the supervisor starts the process again, from the config on disk -/
  | supervised
  /-- the process is gone -/
  | down
  /-- the geo files on disk are replaced -/
  | laid (disk : String)
  /-- `Stop` -/
  | stop

def after (s : State) : Event → State
  | .change memory => { s with memory := memory }
  | .regenerate host ans => (regenerateAndRestart paths ans host s).2
  | .usersLive host left => liveUpdateUser paths host left s
  | .supervised => { s with proc := s.proc.map fun p => ⟨true, s.file.getD p.runs, s.disk⟩ }
  | .down => { s with proc := s.proc.map fun p => { p with up := false } }
  | .laid disk => { s with disk := disk }
  | .stop => { s with proc := none, selfSteal := none, restarted := [], bare := false }

/-- An adapter as `New` builds it: nothing runs. -/
def fresh (memory : Memory) (file : Option Document) (disk : String) : State where
  memory := memory
  file := file
  proc := none
  selfSteal := none
  geoRunning := ""
  policyDrawn := none
  disk := disk
  written := none
  restarted := []
  bare := false

/-- One adapter, whatever happens to it. -/
def xrayNode : Machine State Event where
  start s := ∃ memory file disk, s = fresh memory file disk
  step s e s' := s' = after paths s e

end Iceslab.Agent.Xray
