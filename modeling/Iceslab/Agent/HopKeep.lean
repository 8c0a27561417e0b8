import Iceslab.Agent.PushFirewall
import Iceslab.Agent.RestartKept

/-!
# The UDP ports a push keeps off a redirect

`udpPortsOf` of `hopkeep.go`, which names them from the request, against what the node listens at
once `applyPushKept` is done with it.

* `pushRuns` — what each core listens at after a push: what it took, and what it kept.
* `udpPortsOf` — the ports handed to the guard.
* `named_iff` — **when every UDP port the node listens at is among them.**
* `kcp_not_named` — an inbound over kcp never is.
-/

set_option autoImplicit false

namespace Iceslab.Agent

/-! ## What the node listens at -/

/-- One inbound of a chain config. -/
structure ChainListener where
  kind : String
  listen : String
  listenPort : Int
  deriving DecidableEq, Repr

/-- How the cores answer a push beside taking or refusing an inbound. -/
structure CoreAnswers where
  /-- `InboundReconciler`: the core holds several inbounds; any other core holds one -/
  reconciles : Adapter → Bool
  /-- `RetainInbounds` fails -/
  retainFails : Adapter → Bool
  /-- `Idle` does nothing here, or fails -/
  idleLeaves : Adapter → Bool
  /-- the port a core falls back to when the push says 0 -/
  fallbackPort : Adapter → Int

/-- A node: its agent, and what each core listens at, by the inbound it stands for. -/
structure HopNode where
  agent : AgentState
  runs : Adapter → String → Option (Int × RawMessage)

section Node

variable (cfg : AgentConfig) (ans : PushAnswers) (ca : CoreAnswers)

/-- Where a core holds the inbound of an id: a core that holds one has one place. -/
def slotOf (a : Adapter) (id : String) : String := if ca.reconciles a then id else ""

def heardPort (a : Adapter) (ib : InboundDto) : Int :=
  if ib.port = 0 then ca.fallbackPort a else ib.port

/-- The core is handed a cascade drawing that is not empty. -/
def drawsCascade (s : AgentState) (req : ApplyInboundsRequest) (a : Adapter) : Bool :=
  let chain := chainStep cfg ans s req.chain
  match handoffOf (cfg.chainManager && chain.held) chain.handoffBlock req.cascade with
  | .error _ => false
  | .ok d => a.cascadeReceiver && (mineOf d a).isSome

/-- The push names the core: an inbound goes to it, or it draws the cascade. -/
def namedBy (s : AgentState) (req : ApplyInboundsRequest) (a : Adapter) : Bool :=
  drawsCascade cfg ans s req a || req.inbounds.any fun ib => decide (adapterFor cfg ib = some a)

/-- `idleUnnamed` stops the core. -/
def idled (s : AgentState) (req : ApplyInboundsRequest) (a : Adapter) : Bool :=
  let chain := chainStep cfg ans s req.chain
  let handoff := handoffOf (cfg.chainManager && chain.held) chain.handoffBlock req.cascade
  chain.refusal.isNone && (match handoff with | .error _ => false | .ok _ => true)
    && !namedBy cfg ans s req a && !a.absent && !ca.idleLeaves a

/-- One inbound at its core. -/
def runInbound (a : Adapter) (runs : String → Option (Int × RawMessage)) (ib : InboundDto) :
    String → Option (Int × RawMessage) :=
  if Takes cfg ans a ib then fun slot =>
    if slot = slotOf ca a ib.id then some (heardPort ca a ib, ib.config) else runs slot
  else runs

/-- What a core listens at after a push. -/
def pushRuns (s : HopNode) (req : ApplyInboundsRequest) (a : Adapter) :
    String → Option (Int × RawMessage) :=
  let stopped := if idled cfg ans ca s.agent req a then fun _ => none else s.runs a
  let applied := req.inbounds.foldl (runInbound cfg ans ca a) stopped
  if ca.reconciles a && !ca.retainFails a then fun id =>
    if id ∈ keepOf req.inbounds a then applied id else none
  else applied

/-- `applyPushOutcome` -/
def HopNode.push (s : HopNode) (req : ApplyInboundsRequest) : HopNode where
  agent := (applyPushKept cfg ans s.agent req (fun _ => req.policy) fun _ => req.dns).1
  runs := pushRuns cfg ans ca s req

end Node

/-! ## `udpPortsOf` -/

section Ports

variable (listenersOf : RawMessage → Option (List ChainListener))

/-- The inbounds a chain config names; none where it does not decode. -/
def listenersIn (b : NodeChain) : List ChainListener := (listenersOf b.config).getD []

def ChainListener.loopback (l : ChainListener) : Bool :=
  decide (l.listen = "127.0.0.1") || decide (l.listen = "::1")

def udpPortsOf (req : ApplyInboundsRequest) : List Int :=
  (req.inbounds.flatMap fun ib =>
    (protoForInbound ib.protocol).filterMap fun proto =>
      if proto = "udp" ∧ 0 < ib.port then some ib.port else none)
    ++ match req.chain with
      | none => []
      | some c =>
        (listenersIn listenersOf c).filterMap (fun l =>
            if 0 < l.listenPort ∧ l.loopback = false then some l.listenPort else none)
          ++ c.tunnels.toList.filterMap fun t =>
            if 0 < t.listenPort then some t.listenPort else none

end Ports

/-! ## What is to be kept off -/

section Listens

variable (env : FwEnv) (listenersOf : RawMessage → Option (List ChainListener))
  (cfg : AgentConfig)

/-- `transportsOf` of what a core listens at. -/
def transportsAt (a : Adapter) (config : RawMessage) : List String :=
  transportsOf env ⟨"", "", a.name, a.engine, 0, config⟩

/-- The leg protocols that listen on UDP. -/
def legOverUdp (kind : String) : Bool :=
  decide (kind = "hysteria2") || decide (kind = "tuic") || decide (kind = "shadowsocks")

/-- The UDP ports a chain block listens at from outside. -/
inductive BlockListens (b : NodeChain) : Int → Prop
  | leg {l : ChainListener} (hl : l ∈ listenersIn listenersOf b) (hudp : legOverUdp l.kind = true)
      (hout : l.loopback = false) (hpos : 0 < l.listenPort) : BlockListens b l.listenPort
  | tunnel {t : ChainTunnel} (ht : t ∈ b.tunnels.toList) (hpos : 0 < t.listenPort) :
      BlockListens b t.listenPort

/-- The UDP ports a node listens at from outside. -/
inductive ListensUdp (n : HopNode) : Int → Prop
  | inbound {a : Adapter} {slot : String} {port : Int} {config : RawMessage}
      (ha : a ∈ cfg.adapters) (hruns : n.runs a slot = some (port, config))
      (hudp : "udp" ∈ transportsAt env a config) (hpos : 0 < port) : ListensUdp n port
  | chain {b : NodeChain} {port : Int} (hb : n.agent.accepted = some b)
      (hport : BlockListens listenersOf b port) : ListensUdp n port

end Listens

/-! ## What a push leaves running -/

section Left

variable (cfg : AgentConfig) (ans : PushAnswers) (ca : CoreAnswers) (a : Adapter)

/-- The inbound of the push a core holds in one place: the last it took there. -/
def lastTaken (inbounds : List InboundDto) (slot : String) : Option InboundDto :=
  (inbounds.filter fun ib => decide (Takes cfg ans a ib ∧ slotOf ca a ib.id = slot)).getLast?

theorem takes_of_lastTaken {inbounds : List InboundDto} {slot : String} {ib : InboundDto}
    (h : lastTaken cfg ans ca a inbounds slot = some ib) :
    ib ∈ inbounds ∧ Takes cfg ans a ib ∧ slotOf ca a ib.id = slot := by
  obtain ⟨hmem, htakes⟩ := List.mem_filter.mp (List.mem_of_getLast? h)
  exact ⟨hmem, of_decide_eq_true htakes⟩

theorem foldl_runInbound (runs : String → Option (Int × RawMessage)) (inbounds : List InboundDto)
    (slot : String) :
    inbounds.foldl (runInbound cfg ans ca a) runs slot =
      match lastTaken cfg ans ca a inbounds slot with
      | some ib => some (heardPort ca a ib, ib.config)
      | none => runs slot := by
  induction inbounds using List.reverseRecOn with
  | nil => rfl
  | append_singleton inbounds ib ih =>
    rw [List.foldl_append, List.foldl_cons, List.foldl_nil, lastTaken, List.filter_append,
      List.getLast?_append]
    rw [lastTaken] at ih
    by_cases htakes : Takes cfg ans a ib
    · by_cases hslot : slotOf ca a ib.id = slot
      · simp [runInbound, htakes, hslot]
      · simp [runInbound, htakes, hslot, Ne.symm hslot, ih]
    · simp [runInbound, htakes, ih]

/-- The core does not drop what it holds in this place. -/
def Retains (req : ApplyInboundsRequest) (slot : String) : Prop :=
  ca.reconciles a = false ∨ ca.retainFails a = true ∨ slot ∈ keepOf req.inbounds a

theorem retains_of_lastTaken {req : ApplyInboundsRequest} {slot : String} {ib : InboundDto}
    (h : lastTaken cfg ans ca a req.inbounds slot = some ib) : Retains ca a req slot := by
  obtain ⟨hmem, ⟨hadapter, -⟩, hslot⟩ := takes_of_lastTaken cfg ans ca a h
  obtain ⟨-, -, hname, hengine⟩ := adapterFor_some cfg hadapter
  cases hr : ca.reconciles a with
  | false => exact .inl hr
  | true =>
    rw [slotOf, if_pos hr] at hslot
    exact .inr (.inr (mem_keepOf.mpr ⟨ib, hmem, hslot, hname.symm, hengine.symm⟩))

/-- The core still holds in this place what it held before the push. -/
def Keeps (s : AgentState) (req : ApplyInboundsRequest) (slot : String) : Prop :=
  idled cfg ans ca s req a = false ∧ lastTaken cfg ans ca a req.inbounds slot = none ∧
    Retains ca a req slot

theorem pushRuns_slot (s : HopNode) (req : ApplyInboundsRequest) (slot : String)
    (held : Int × RawMessage) :
    pushRuns cfg ans ca s req a slot = some held ↔ Retains ca a req slot ∧
      req.inbounds.foldl (runInbound cfg ans ca a)
        (if idled cfg ans ca s.agent req a then fun _ => none else s.runs a) slot = some held := by
  rw [pushRuns]
  cases hr : ca.reconciles a with
  | false => simp [Retains, hr]
  | true =>
    cases hf : ca.retainFails a with
    | true => simp [Retains, hf]
    | false =>
      by_cases hkeep : slot ∈ keepOf req.inbounds a
      · simp [Retains, hkeep]
      · simp [Retains, hr, hf, hkeep]

theorem pushRuns_iff (s : HopNode) (req : ApplyInboundsRequest) (slot : String)
    (held : Int × RawMessage) :
    pushRuns cfg ans ca s req a slot = some held ↔
      (∃ ib, lastTaken cfg ans ca a req.inbounds slot = some ib ∧
        held = (heardPort ca a ib, ib.config)) ∨
      Keeps cfg ans ca a s.agent req slot ∧ s.runs a slot = some held := by
  rw [pushRuns_slot, foldl_runInbound]
  cases hlast : lastTaken cfg ans ca a req.inbounds slot with
  | some ib =>
    have hret := retains_of_lastTaken cfg ans ca a hlast
    simp only [Keeps, hlast, hret, Option.some.injEq, reduceCtorEq, true_and, false_and, and_false,
      or_false, exists_eq_left']
    exact eq_comm
  | none =>
    cases hidled : idled cfg ans ca s.agent req a with
    | true => simp [Keeps, hidled]
    | false => simp [Keeps, hidled, hlast]

end Left

/-! ## When a push names them all -/

section Named

variable (listenersOf : RawMessage → Option (List ChainListener)) (req : ApplyInboundsRequest)

/-- The ports a push tells to listen on UDP, by the protocol of an inbound or in its chain. -/
inductive PushNames : Int → Prop
  | inbound {ib : InboundDto} (hib : ib ∈ req.inbounds)
      (hudp : "udp" ∈ protoForInbound ib.protocol) (hpos : 0 < ib.port) : PushNames ib.port
  | listener {c : NodeChain} {l : ChainListener} (hc : req.chain = some c)
      (hl : l ∈ listenersIn listenersOf c) (hout : l.loopback = false) (hpos : 0 < l.listenPort) :
      PushNames l.listenPort
  | tunnel {c : NodeChain} {t : ChainTunnel} (hc : req.chain = some c)
      (ht : t ∈ c.tunnels.toList) (hpos : 0 < t.listenPort) : PushNames t.listenPort

theorem mem_udpPortsOf (port : Int) :
    port ∈ udpPortsOf listenersOf req ↔ PushNames listenersOf req port := by
  rw [udpPortsOf, List.mem_append, List.mem_flatMap]
  constructor
  · rintro (⟨ib, hib, hport⟩ | hport)
    · obtain ⟨proto, hproto, hsome⟩ := List.mem_filterMap.mp hport
      by_cases hnames : proto = "udp" ∧ 0 < ib.port
      · rw [if_pos hnames] at hsome
        cases hsome
        exact .inbound hib (hnames.1 ▸ hproto) hnames.2
      · rw [if_neg hnames] at hsome
        cases hsome
    · cases hc : req.chain with
      | none => simp [hc] at hport
      | some c =>
        simp only [hc, List.mem_append, List.mem_filterMap, Option.ite_none_right_eq_some,
          Option.some.injEq] at hport
        rcases hport with ⟨l, hl, ⟨hpos, hout⟩, rfl⟩ | ⟨t, ht, hpos, rfl⟩
        · exact .listener hc hl hout hpos
        · exact .tunnel hc ht hpos
  · rintro (⟨hib, hudp, hpos⟩ | ⟨hc, hl, hout, hpos⟩ | ⟨hc, ht, hpos⟩)
    · exact .inl ⟨_, hib, List.mem_filterMap.mpr ⟨"udp", hudp, if_pos ⟨rfl, hpos⟩⟩⟩
    · right
      simp only [hc, List.mem_append, List.mem_filterMap]
      exact .inl ⟨_, hl, if_pos ⟨hpos, hout⟩⟩
    · right
      simp only [hc, List.mem_append, List.mem_filterMap]
      exact .inr ⟨_, ht, if_pos hpos⟩

end Named

section Condition

variable (env : FwEnv) (listenersOf : RawMessage → Option (List ChainListener))
  (cfg : AgentConfig) (ans : PushAnswers) (ca : CoreAnswers) (s : HopNode)
  (req : ApplyInboundsRequest)

/-- `transportsOf` of an inbound is that of what its core listens at. -/
theorem transportsAt_of_adapterFor {a : Adapter} {ib : InboundDto}
    (h : adapterFor cfg ib = some a) : transportsAt env a ib.config = transportsOf env ib := by
  obtain ⟨-, -, hname, -⟩ := adapterFor_some cfg h
  unfold transportsAt transportsOf
  rw [hname]

/-- The chain manager still runs on the block it accepted before the push. -/
def ChainKeeps : Prop :=
  cfg.chainManager = false ∨ req.chain ≠ none ∧ ∃ err, ans.chain = .refuses err

/-- An inbound the table of `udpPortsOf` does not name at the port its core takes. -/
def Unnamed (ib : InboundDto) : Prop :=
  (ib.protocol = "xray" ∧ env.networkOf ib.config = some "kcp") ∨ ib.port = 0

/-- The listeners of a push that it does not name by itself are named beside it. -/
structure HopNamed : Prop where
  /-- an inbound over kcp, or on the port its core falls back to -/
  taken {a : Adapter} {slot : String} {ib : InboundDto} (ha : a ∈ cfg.adapters)
    (hlast : lastTaken cfg ans ca a req.inbounds slot = some ib) (hun : Unnamed env ib)
    (hudp : "udp" ∈ transportsOf env ib) (hpos : 0 < heardPort ca a ib) :
    PushNames listenersOf req (heardPort ca a ib)
  /-- a listener from before that the core still holds -/
  kept {a : Adapter} {slot : String} {port : Int} {config : RawMessage} (ha : a ∈ cfg.adapters)
    (hkeeps : Keeps cfg ans ca a s.agent req slot) (hruns : s.runs a slot = some (port, config))
    (hudp : "udp" ∈ transportsAt env a config) (hpos : 0 < port) : PushNames listenersOf req port
  /-- the block the chain runs on after refusing another -/
  block {b : NodeChain} {port : Int} (hrefused : ChainKeeps cfg ans req)
    (hb : s.agent.accepted = some b) (hport : BlockListens listenersOf b port) :
    PushNames listenersOf req port

variable {env listenersOf cfg ans ca s req} {b : NodeChain}

theorem heard_of_not_unnamed {a : Adapter} {ib : InboundDto} (hun : ¬ Unnamed env ib)
    (hudp : "udp" ∈ transportsOf env ib) :
    heardPort ca a ib = ib.port ∧ "udp" ∈ protoForInbound ib.protocol := by
  obtain ⟨hkcp, hport⟩ := not_or.mp hun
  refine ⟨if_neg hport, ?_⟩
  unfold transportsOf at hudp
  rwa [if_neg fun h => hkcp ⟨h.1, h.2.2⟩] at hudp

theorem chainStep_accepted (h : (chainStep cfg ans s.agent req.chain).accepted = some b) :
    req.chain = some b ∨ ChainKeeps cfg ans req ∧ s.agent.accepted = some b := by
  cases hm : cfg.chainManager with
  | false => exact .inr ⟨.inl hm, by simpa [chainStep, hm] using h⟩
  | true =>
    cases hc : req.chain with
    | none => simp [chainStep, hm, hc] at h
    | some c =>
      cases ha : ans.chain with
      | takes => exact .inl (by simpa [chainStep, hm, hc, ha] using h)
      | takesWith err => exact .inl (by simpa [chainStep, hm, hc, ha] using h)
      | refuses err =>
        have hkeeps : ChainKeeps cfg ans req := .inr ⟨by simp [hc], err, ha⟩
        cases hb : s.agent.accepted with
        | none => simp [chainStep, hm, hc, ha, hb] at h
        | some old => exact .inr ⟨hkeeps, by simpa [chainStep, hm, hc, ha, hb] using h⟩

theorem accepted_of_chainKeeps (h : ChainKeeps cfg ans req)
    (hb : s.agent.accepted = some b) : (chainStep cfg ans s.agent req.chain).accepted = some b := by
  rcases h with hm | ⟨hc, err, ha⟩
  · simp [chainStep, hm, hb]
  · obtain ⟨c, hc⟩ := Option.ne_none_iff_exists'.mp hc
    cases hm : cfg.chainManager with
    | false => simp [chainStep, hm, hb]
    | true => simp [chainStep, hm, hc, ha, hb]

theorem pushNames_of_blockListens {port : Int} (hc : req.chain = some b)
    (h : BlockListens listenersOf b port) : PushNames listenersOf req port := by
  cases h with
  | leg hl _ hout hpos => exact .listener hc hl hout hpos
  | tunnel ht hpos => exact .tunnel hc ht hpos

theorem hopNamed_of_all
    (h : ∀ port, ListensUdp env listenersOf cfg (s.push cfg ans ca req) port →
      port ∈ udpPortsOf listenersOf req) :
    HopNamed env listenersOf cfg ans ca s req where
  taken := by
    intro a slot ib ha hlast _ hudp hpos
    have hadapter := (takes_of_lastTaken cfg ans ca a hlast).2.1.1
    have hruns := (pushRuns_iff cfg ans ca a s req slot _).mpr (.inl ⟨ib, hlast, rfl⟩)
    rw [← transportsAt_of_adapterFor env cfg hadapter] at hudp
    exact (mem_udpPortsOf listenersOf req _).mp (h _ (.inbound ha hruns hudp hpos))
  kept := by
    intro a slot port config ha hkeeps hruns hudp hpos
    have hruns := (pushRuns_iff cfg ans ca a s req slot _).mpr (.inr ⟨hkeeps, hruns⟩)
    exact (mem_udpPortsOf listenersOf req _).mp (h _ (.inbound ha hruns hudp hpos))
  block := by
    intro b port hrefused hb hport
    exact (mem_udpPortsOf listenersOf req _).mp
      (h _ (.chain (accepted_of_chainKeeps hrefused hb) hport))

theorem all_of_hopNamed (h : HopNamed env listenersOf cfg ans ca s req) {port : Int}
    (hport : ListensUdp env listenersOf cfg (s.push cfg ans ca req) port) :
    PushNames listenersOf req port := by
  cases hport with
  | inbound ha hruns hudp hpos =>
    rename_i a slot config
    rcases (pushRuns_iff cfg ans ca a s req slot _).mp hruns with ⟨ib, hlast, heq⟩ | ⟨hkeeps, hruns⟩
    · cases heq
      obtain ⟨hmem, ⟨hadapter, -⟩, -⟩ := takes_of_lastTaken cfg ans ca a hlast
      rw [transportsAt_of_adapterFor env cfg hadapter] at hudp
      by_cases hun : Unnamed env ib
      · exact h.taken ha hlast hun hudp hpos
      · have hheard : heardPort ca a ib = ib.port := (heard_of_not_unnamed hun hudp).1
        have hproto : "udp" ∈ protoForInbound ib.protocol :=
          (@heard_of_not_unnamed _ ca a _ hun hudp).2
        rw [hheard] at hpos ⊢
        exact .inbound hmem hproto hpos
    · exact h.kept ha hkeeps hruns hudp hpos
  | chain hb hlistens =>
    rcases chainStep_accepted hb with hc | ⟨hkeeps, hold⟩
    · exact pushNames_of_blockListens hc hlistens
    · exact h.block hkeeps hold hlistens

end Condition

/-- Every UDP port a node listens at after a push is among those kept off a redirect exactly when
what the push does not name by itself is named beside it. -/
theorem named_iff (env : FwEnv) (listenersOf : RawMessage → Option (List ChainListener))
    (cfg : AgentConfig) (ans : PushAnswers) (ca : CoreAnswers) (s : HopNode)
    (req : ApplyInboundsRequest) :
    (∀ port, ListensUdp env listenersOf cfg (s.push cfg ans ca req) port →
      port ∈ udpPortsOf listenersOf req) ↔ HopNamed env listenersOf cfg ans ca s req := by
  constructor
  · exact hopNamed_of_all
  · intro h port hport
    exact (mem_udpPortsOf listenersOf req port).mpr (all_of_hopNamed h hport)

/-! ## An inbound over kcp -/

def kcpConfig : RawMessage := ⟨"\x7b\"network\":\"kcp\"\x7d", .inr (by decide)⟩

def kcpPush : ApplyInboundsRequest where
  inbounds := [⟨"b-1", "kcp", "xray", "xray", 20500, kcpConfig⟩]
  policy := .empty
  dns := .empty
  chain := none
  cascade := none

def xrayNode : AgentConfig where
  adapters := [⟨"xray", "xray", false, true, true, true⟩]
  keys := by decide
  chainManager := true

def kcpEnv : FwEnv where
  net := ⟨fun _ => false, fun _ => false, rfl, rfl⟩
  networkOf b := if b = kcpConfig then some "kcp" else none
  cascadeOf _ := none
  agentPort := some 8443

def xrayCores : CoreAnswers := ⟨fun _ => true, fun _ => false, fun _ => false, fun _ => 443⟩

/-- A push every core takes: xray listens on UDP 20500, and nothing keeps a redirect off it. -/
theorem kcp_not_named :
    ListensUdp kcpEnv (fun _ => none) xrayNode
        (HopNode.push xrayNode takesAll xrayCores ⟨.fresh none, fun _ _ => none⟩ kcpPush) 20500
      ∧ 20500 ∉ udpPortsOf (fun _ => none) kcpPush := by
  refine ⟨?_, by decide⟩
  refine @ListensUdp.inbound _ _ _ _ ⟨"xray", "xray", false, true, true, true⟩ "b-1" _ kcpConfig
    (by decide) (by decide) ?_ (by decide)
  simp [transportsAt, transportsOf, kcpEnv, kcpConfig, RawMessage.isEmpty]

end Iceslab.Agent
