import Iceslab.Agent.FirewallWriters
import Iceslab.Agent.RestartKept

/-!
# The firewall follows what runs

The rules of a host against the store over whole runs of pushes and starts.

* `FirewallFollows` — the stored inbounds and the link ports of the block in force are open, and
  what the agent has open beyond them is nobody's.
* `PushFollows`, `StartFollows`, `RestoreFollows` — the steps no writer undoes for another.
* `firewall_follows` — **every state of a run of such steps follows**.
* `moved_port_closed` — a port that goes from an inbound to a leg in one push is closed.
-/

set_option autoImplicit false

namespace Iceslab.Agent

/-- The stored inbounds. -/
def NodeState.stored (s : NodeState) : List InboundDto := s.agent.stored.req.inbounds

/-- The block in force, as it is stored. -/
def NodeState.block (s : NodeState) : Option NodeChain := s.agent.stored.req.chain

section Follows

variable (env : FwEnv) (base : Finset FwRule)

/-- **The firewall follows what runs.**  `base` is what was open before the agent. -/
structure FirewallFollows (s : NodeState) : Prop where
  /-- every transport of every stored inbound is allowed -/
  inbounds : ∀ ib ∈ s.stored, ∀ proto ∈ transportsOf env ib, ⟨ib.port, proto, ""⟩ ∈ s.fws.fw
  /-- a link port with a source is allowed from every source that resolved, or from anyone -/
  ingress : ∀ i e, (linkIngressOf s.block)[i]? = some e → e.allowFrom.toList ≠ [] →
    ∀ proto ∈ e.transports.toList,
      (∀ src, SourceOf env.net (s.names i) e.allowFrom.toList src →
        ⟨e.port, proto, src⟩ ∈ s.fws.fw) ∧
      ((∀ src, ¬ SourceOf env.net (s.names i) e.allowFrom.toList src) →
        ⟨e.port, proto, ""⟩ ∈ s.fws.fw)
  /-- a rule for one source is for one the block names now -/
  sources : ∀ r ∈ s.fws.fw, r ∉ base → r.src ≠ "" →
    ∃ i e, (linkIngressOf s.block)[i]? = some e ∧ r.port = e.port ∧ r.proto ∈ e.transports.toList ∧
      SourceOf env.net (s.names i) e.allowFrom.toList r.src
  /-- a port the agent has open is served by a stored inbound or by the chain, or never closed -/
  dropped : ∀ r ∈ s.fws.fw, r ∉ base →
    keepsPort env r.port = true ∨
      (∃ ib ∈ s.stored, r.port = ib.port ∧ r.proto ∈ transportsOf env ib) ∨
      (∃ e ∈ linkIngressOf s.block, r.port = e.port ∧ r.proto ∈ e.transports.toList) ∨
      ∃ t ∈ tunnelsOf s.block, r.port = t.listenPort ∧ r.proto = "udp"

/-- Somebody asks for the rule: it is of a port that is never closed, an inbound serves at it, or the
chain receives at it. -/
def Asked (names : Nat → Lookup) (inbounds : List InboundDto) (block : Option NodeChain)
    (r : FwRule) : Prop :=
  keepsPort env r.port = true ∧ r.src = "" ∨ ServesAt env inbounds r ∨ LinkRule env names block r ∨
    TunnelRule block r

/-- What every step keeps. -/
structure Following (s : NodeState) : Prop where
  ports : ∀ ib ∈ s.stored, InRange ib.port
  known : KnownIngress s.block
  file : ∀ r, r ∈ s.fws.chainFw ↔ LinkRule env s.names s.block r
  linked : ∀ r, LinkRule env s.names s.block r → r ∈ s.fws.fw
  served : ∀ r, ServesAt env s.stored r → r ∈ s.fws.fw
  asked : ∀ r ∈ s.fws.fw, r ∈ base ∨ Asked env s.names s.stored s.block r

variable {env base}

theorem Following.follows {s : NodeState} (h : Following env base s) :
    FirewallFollows env base s where
  inbounds ib hib proto hproto := h.served _ ⟨ib, hib, proto, hproto, rfl⟩
  ingress i e he hnamed proto hproto := by
    have hknown := (h.known e (List.mem_of_getElem? he) hnamed).2 proto hproto
    constructor
    · intro src hsrc
      exact h.linked _ ⟨i, e, he, hnamed, rfl, hproto, hknown, .inl hsrc⟩
    · intro hno
      exact h.linked _ ⟨i, e, he, hnamed, rfl, hproto, hknown, .inr ⟨rfl, hno⟩⟩
  sources r hr hbase hsrc := by
    rcases (h.asked r hr).resolve_left hbase with ⟨-, hs⟩ | hs | hl | ⟨t, -, rfl⟩
    · exact absurd hs hsrc
    · exact absurd hs.src hsrc
    · obtain ⟨i, e, he, hl⟩ := hl
      rcases hl.src with hs | ⟨hs, -⟩
      · exact ⟨i, e, he, hl.port, hl.proto, hs⟩
      · exact absurd hs hsrc
    · exact absurd rfl hsrc
  dropped r hr hbase := by
    rcases (h.asked r hr).resolve_left hbase with ⟨hk, -⟩ | hs | hl | ⟨t, ht, rfl⟩
    · exact .inl hk
    · obtain ⟨ib, hib, proto, hproto, rfl⟩ := hs
      exact .inr (.inl ⟨ib, hib, rfl, hproto⟩)
    · obtain ⟨i, e, he, hl⟩ := hl
      exact .inr (.inr (.inl ⟨e, List.mem_of_getElem? he, hl.port, hl.proto⟩))
    · exact .inr (.inr (.inr ⟨t, ht, rfl, rfl⟩))

theorem Following.fileOk {s : NodeState} (h : Following env base s) :
    ∀ r ∈ s.fws.chainFw, okRule env.net r = true :=
  fun r hr => ((h.file r).mp hr).okRule h.known

theorem LinkRule.congr {names : Nat → Lookup} {block block' : Option NodeChain} {r : FwRule}
    (h : linkIngressOf block = linkIngressOf block') :
    LinkRule env names block r ↔ LinkRule env names block' r := by
  unfold LinkRule
  rw [h]

theorem TunnelRule.congr {block block' : Option NodeChain} {r : FwRule}
    (h : tunnelsOf block = tunnelsOf block') : TunnelRule block r ↔ TunnelRule block' r := by
  unfold TunnelRule
  rw [h]

end Follows

/-! ## The firewall half of a push -/

section Push

variable {env : FwEnv} {cfg : AgentConfig} {ans : PushAnswers} {fa : FwAnswers} {s : AgentState}
  {req : ApplyInboundsRequest} {w : FwState} {r : FwRule}

/-- The block in force after a push. -/
def forcedBlock (cfg : AgentConfig) (ans : PushAnswers) (s : AgentState)
    (req : ApplyInboundsRequest) : Option NodeChain :=
  (chainStep cfg ans s req.chain).handoffBlock

theorem raisedTunnels_forced (hm : cfg.chainManager = true) {t : ChainTunnel}
    (h : t ∈ raisedTunnels ans fa req.chain) : t ∈ tunnelsOf (forcedBlock cfg ans s req) := by
  unfold raisedTunnels at h
  unfold forcedBlock chainStep
  rw [if_pos hm]
  cases hb : req.chain with
  | none => simp [hb] at h
  | some b =>
    rw [hb] at h
    cases hc : ans.chain with
    | takes =>
      rw [hc] at h
      exact List.mem_of_mem_take h
    | takesWith err =>
      rw [hc] at h
      exact List.mem_of_mem_take h
    | refuses err => simp [hc] at h

/-- The rules with the tunnels of the push open. -/
def raisedOn (ans : PushAnswers) (fa : FwAnswers) (req : ApplyInboundsRequest) (w : FwState) :
    FwState :=
  { w with fw := (raisedTunnels ans fa req.chain).foldl openTunnel w.fw }

/-- What is open after the firewall half of a push was asked for in the push, or was open and is not
an earlier block's. -/
theorem of_mem_applyPushFirewall (hm : cfg.chainManager = true)
    (hk : KnownIngress (forcedBlock cfg ans s req)) (hw : ∀ r ∈ w.chainFw, okRule env.net r = true)
    (h : r ∈ (applyPushFirewall env cfg ans fa s req w).fw) :
    LinkRule env fa.names (forcedBlock cfg ans s req) r ∨ (r ∈ w.fw ∧ r ∉ w.chainFw) ∨
      TunnelRule (forcedBlock cfg ans s req) r ∨
      ServesAt env (req.inbounds.filter (inboundTaken cfg ans)) r ∨
      CarriedByTaken env cfg ans fa 0 req.inbounds r ∨ r = acmeRule := by
  unfold applyPushFirewall at h
  simp only [if_pos hm] at h
  rcases mem_openInbounds h with h | h | h | h
  · rcases (mem_ensureChainFirewall (raisedOn ans fa req w) hk hw).mp h with h | ⟨h, hf⟩
    · exact .inl h
    · rcases mem_openTunnels h with h | ⟨t, ht, rfl⟩
      · exact .inr (.inl ⟨h, hf⟩)
      · exact .inr (.inr (.inl ⟨t, raisedTunnels_forced hm ht, rfl⟩))
  · exact .inr (.inr (.inr (.inl h)))
  · exact .inr (.inr (.inr (.inr (.inl h))))
  · exact .inr (.inr (.inr (.inr (.inr h))))

theorem linked_applyPushFirewall (hm : cfg.chainManager = true)
    (hk : KnownIngress (forcedBlock cfg ans s req)) (hw : ∀ r ∈ w.chainFw, okRule env.net r = true)
    (h : LinkRule env fa.names (forcedBlock cfg ans s req) r) :
    r ∈ (applyPushFirewall env cfg ans fa s req w).fw := by
  unfold applyPushFirewall
  simp only [if_pos hm]
  exact mem_openInbounds_of_mem ((mem_ensureChainFirewall (raisedOn ans fa req w) hk hw).mpr (.inl h))

theorem kept_applyPushFirewall (hm : cfg.chainManager = true)
    (hk : KnownIngress (forcedBlock cfg ans s req))
    (hw : ∀ r ∈ w.chainFw, okRule env.net r = true) (h : r ∈ w.fw) (hf : r ∉ w.chainFw) :
    r ∈ (applyPushFirewall env cfg ans fa s req w).fw := by
  unfold applyPushFirewall
  simp only [if_pos hm]
  exact mem_openInbounds_of_mem
    ((mem_ensureChainFirewall (raisedOn ans fa req w) hk hw).mpr (.inr ⟨mem_openTunnels_of_mem h, hf⟩))

theorem taken_applyPushFirewall (h : ServesAt env (req.inbounds.filter (inboundTaken cfg ans)) r)
    (hv : validSpec r.port r.proto = true) : r ∈ (applyPushFirewall env cfg ans fa s req w).fw := by
  unfold applyPushFirewall
  exact mem_openInbounds_of_serves h hv

theorem chainFw_applyPushFirewall (hm : cfg.chainManager = true) (h : fa.chainFile = none) :
    r ∈ (applyPushFirewall env cfg ans fa s req w).chainFw ↔
      LinkRule env fa.names (forcedBlock cfg ans s req) r := by
  unfold applyPushFirewall
  simp only [if_pos hm]
  exact chainFw_ensureChainFirewall h

end Push

/-! ## What a push leaves in the store -/

section Stored

variable {cfg : AgentConfig} {ans : PushAnswers} {s : AgentState} {p : PanelPush}

/-- The inbounds a push leaves in the store: those applied, and the stored version of each refused
one. -/
def leftInbounds (cfg : AgentConfig) (ans : PushAnswers) (s : AgentState) (p : PanelPush) :
    List InboundDto :=
  acceptedInbounds s.stored.req.inbounds
    (fun id => p.req.inbounds.any fun ib => decide (ib.id = id) && inboundRefused cfg ans ib)
    p.req.inbounds

theorem stored_push (hw : ans.store = none) :
    (handleApplyInbounds cfg ans s p).stored = persisted cfg ans s p := by
  simp [handleApplyInbounds, hw, AgentState.stored, persisted, pushed]

theorem taken_left {ib : InboundDto} (h : ib ∈ p.req.inbounds.filter (inboundTaken cfg ans)) :
    ib ∈ leftInbounds cfg ans s p := by
  obtain ⟨hib, ht⟩ := List.mem_filter.mp h
  unfold leftInbounds acceptedInbounds
  refine List.mem_filterMap.mpr ⟨ib, hib, ?_⟩
  have hr : inboundRefused cfg ans ib = false := by
    unfold inboundTaken at ht
    unfold inboundRefused
    rw [Bool.and_eq_true, Option.isNone_iff_eq_none] at ht
    simp [ht.2]
  simp only [refused_of_mem p.ids hib, hr]
  rfl

/-- The stored block is the one in force, but for what the cores are handed. -/
theorem persisted_chain_runs :
    (persisted cfg ans s p).req.chain.map (fun c => { c with userCore := none }) =
      (forcedBlock cfg ans s p.req).map fun c => { c with userCore := none } := by
  unfold forcedBlock
  cases hr : (chainStep cfg ans s p.req.chain).refusal with
  | some r => rw [persisted_chain_of_refusal hr]
  | none =>
    rw [chainStep_handoffBlock _ hr]
    cases hd : pushedHandoff cfg ans s p.req with
    | ok d => rw [persisted_chain_of_ok hr hd]
    | error e =>
      rw [persisted_chain_of_error hr hd]
      cases p.req.chain <;> rfl

theorem linkIngressOf_runs (block : Option NodeChain) :
    linkIngressOf (block.map fun c => { c with userCore := none }) = linkIngressOf block := by
  cases block <;> rfl

theorem tunnelsOf_runs (block : Option NodeChain) :
    tunnelsOf (block.map fun c => { c with userCore := none }) = tunnelsOf block := by
  cases block <;> rfl

theorem linkIngressOf_persisted :
    linkIngressOf (persisted cfg ans s p).req.chain =
      linkIngressOf (forcedBlock cfg ans s p.req) := by
  rw [← linkIngressOf_runs, persisted_chain_runs, linkIngressOf_runs]

theorem tunnelsOf_persisted :
    tunnelsOf (persisted cfg ans s p).req.chain = tunnelsOf (forcedBlock cfg ans s p.req) := by
  rw [← tunnelsOf_runs, persisted_chain_runs, tunnelsOf_runs]

end Stored

/-! ## The steps -/

section Steps

variable (env : FwEnv) (base : Finset FwRule) (cfg : AgentConfig) (ans : PushAnswers)
  (fa : FwAnswers) (s : NodeState)

/-- **The condition on a push.** -/
structure PushFollows (p : PanelPush) : Prop where
  /-- the store and the file of the link ports are written -/
  written : ans.store = none ∧ fa.chainFile = none
  /-- the inbounds it leaves are on ports -/
  ports : ∀ ib ∈ leftInbounds cfg ans s.agent p, InRange ib.port
  /-- so are the link ports of the block in force, on transports `ufw` knows -/
  known : KnownIngress (forcedBlock cfg ans s.agent p.req)
  /-- an inbound it leaves and no core takes now is open already, by no rule of an earlier block -/
  untaken : ∀ r, ServesAt env (leftInbounds cfg ans s.agent p) r →
    ServesAt env (p.req.inbounds.filter (inboundTaken cfg ans)) r ∨
      LinkRule env fa.names (forcedBlock cfg ans s.agent p.req) r ∨
      r ∈ s.fws.fw ∧ ¬ LinkRule env s.names s.block r
  /-- no port an inbound leaves is a link port open to anyone -/
  moved : ∀ r, LinkRule env fa.names (forcedBlock cfg ans s.agent p.req) r →
    ServesAt env s.stored r →
      keepsPort env r.port = true ∨ ServesAt env (leftInbounds cfg ans s.agent p) r
  /-- a link port that an xray config carries is asked for by somebody else too -/
  carried : ∀ r, CarriedByTaken env cfg ans fa 0 p.req.inbounds r →
    r ∈ base ∨ Asked env fa.names (leftInbounds cfg ans s.agent p)
      (forcedBlock cfg ans s.agent p.req) r
  /-- so is the port of a tunnel that goes, unless it is closed as another's -/
  tunnels : ∀ r ∈ s.fws.fw, TunnelRule s.block r → ¬ LinkRule env s.names s.block r →
    ¬ ServesAt env s.stored r →
      r ∈ base ∨ Asked env fa.names (leftInbounds cfg ans s.agent p)
        (forcedBlock cfg ans s.agent p.req) r

/-- The condition on a start. -/
structure StartFollows : Prop where
  written : fa.chainFile = none
  /-- no stored inbound serves at a link port that was open to anyone and is not now -/
  moved : ∀ r, ServesAt env s.stored r → LinkRule env s.names s.block r →
    LinkRule env fa.names s.block r
  carried : ∀ r, CarriedBy env fa 0 s.stored r →
    r ∈ base ∨ Asked env fa.names s.stored s.block r

/-- The condition on bringing the cores up. -/
structure RestoreFollows : Prop where
  written : fa.chainFile = none
  untaken : ∀ r, ServesAt env s.stored r →
    ServesAt env (s.stored.filter (inboundTaken cfg ans)) r ∨
      LinkRule env fa.names s.block r ∨ ¬ LinkRule env s.names s.block r
  carried : ∀ r, CarriedByTaken env cfg ans fa 0 s.stored r →
    r ∈ base ∨ Asked env fa.names s.stored s.block r

variable {env base cfg ans fa s}

theorem Following.congr {s' : NodeState} (h : Following env base s)
    (hstored : s'.agent.stored = s.agent.stored) (hnames : s'.names = s.names)
    (hfile : s'.fws.chainFw = s.fws.chainFw) (hrule : ∀ r, r ∈ s'.fws.fw ↔ r ∈ s.fws.fw) :
    Following env base s' := by
  have hinbounds : s'.stored = s.stored := by
    unfold NodeState.stored
    rw [hstored]
  have hblock : s'.block = s.block := by
    unfold NodeState.block
    rw [hstored]
  refine ⟨?_, ?_, ?_, ?_, ?_, ?_⟩
  · rw [hinbounds]
    exact h.ports
  · rw [hblock]
    exact h.known
  · rw [hfile, hnames, hblock]
    exact h.file
  · simp only [hnames, hblock, hrule]
    exact h.linked
  · simp only [hinbounds, hrule]
    exact h.served
  · simp only [hnames, hinbounds, hblock, hrule]
    exact h.asked

/-! ### A push -/

section OnePush

variable {p : PanelPush} {r : FwRule}

theorem stored_pushNode (hp : PushFollows env base cfg ans fa s p) :
    (pushNode env cfg ans fa s p).agent.stored = persisted cfg ans s.agent p :=
  stored_push hp.written.1

theorem inbounds_pushNode (hp : PushFollows env base cfg ans fa s p) :
    (pushNode env cfg ans fa s p).stored = leftInbounds cfg ans s.agent p := by
  unfold NodeState.stored
  rw [stored_pushNode hp]
  rfl

theorem linkIngress_pushNode (hp : PushFollows env base cfg ans fa s p) :
    linkIngressOf (pushNode env cfg ans fa s p).block =
      linkIngressOf (forcedBlock cfg ans s.agent p.req) := by
  unfold NodeState.block
  rw [stored_pushNode hp, linkIngressOf_persisted]

theorem tunnels_pushNode (hp : PushFollows env base cfg ans fa s p) :
    tunnelsOf (pushNode env cfg ans fa s p).block =
      tunnelsOf (forcedBlock cfg ans s.agent p.req) := by
  unfold NodeState.block
  rw [stored_pushNode hp, tunnelsOf_persisted]

theorem mem_pushNode (h : Following env base s) (hp : PushFollows env base cfg ans fa s p) :
    r ∈ (pushNode env cfg ans fa s p).fws.fw ↔
      r ∈ (applyPushFirewall env cfg ans fa s.agent p.req s.fws).fw ∧
        ¬(ServesAt env s.stored r ∧ keepsPort env r.port = false ∧
          ¬ ServesAt env (leftInbounds cfg ans s.agent p) r) := by
  rw [← inbounds_pushNode hp, ← mem_closeDroppedPorts h.ports]
  unfold pushNode
  simp only [hp.written.1]
  rfl

theorem chainFw_pushNode (hm : cfg.chainManager = true) (hp : PushFollows env base cfg ans fa s p) :
    r ∈ (pushNode env cfg ans fa s p).fws.chainFw ↔
      LinkRule env fa.names (forcedBlock cfg ans s.agent p.req) r := by
  refine Iff.trans ?_ (chainFw_applyPushFirewall (w := s.fws) hm hp.written.2)
  unfold pushNode
  simp only [hp.written.1]

/-- What was open before a push and is open after it is asked for: whoever asked for it still does,
or it has been closed. -/
theorem asked_of_open (h : Following env base s) (hp : PushFollows env base cfg ans fa s p)
    (hopen : r ∈ s.fws.fw) (hf : r ∉ s.fws.chainFw)
    (hnot : ¬(ServesAt env s.stored r ∧ keepsPort env r.port = false ∧
      ¬ ServesAt env (leftInbounds cfg ans s.agent p) r)) :
    r ∈ base ∨ Asked env fa.names (leftInbounds cfg ans s.agent p)
      (forcedBlock cfg ans s.agent p.req) r := by
  have hnl : ¬ LinkRule env s.names s.block r := fun hl => hf ((h.file r).mpr hl)
  by_cases hserved : ServesAt env s.stored r
  · by_cases hkeep : keepsPort env r.port = true
    · exact .inr (.inl ⟨hkeep, hserved.src⟩)
    · refine .inr (.inr (.inl ?_))
      by_contra hno
      exact hnot ⟨hserved, by simpa using hkeep, hno⟩
  · rcases h.asked r hopen with hb | ⟨hk, hs⟩ | hs | hl | ht
    · exact .inl hb
    · exact .inr (.inl ⟨hk, hs⟩)
    · exact absurd hs hserved
    · exact absurd hl hnl
    · exact hp.tunnels r hopen ht hnl hserved

theorem asked_acme (names : Nat → Lookup) (inbounds : List InboundDto) (block : Option NodeChain) :
    Asked env names inbounds block acmeRule := by
  refine .inl ⟨?_, rfl⟩
  simp [acmeRule, keepsPort]

/-- **One push.** -/
theorem Following.push (hm : cfg.chainManager = true) (h : Following env base s)
    (hp : PushFollows env base cfg ans fa s p) :
    Following env base (pushNode env cfg ans fa s p) := by
  have hnames : (pushNode env cfg ans fa s p).names = fa.names := rfl
  refine ⟨?_, ?_, ?_, ?_, ?_, ?_⟩
  · rw [inbounds_pushNode hp]
    exact hp.ports
  · unfold KnownIngress
    rw [linkIngress_pushNode hp]
    exact hp.known
  · intro r
    rw [chainFw_pushNode hm hp, hnames, LinkRule.congr (linkIngress_pushNode hp)]
  · intro r hr
    rw [hnames, LinkRule.congr (linkIngress_pushNode hp)] at hr
    rw [mem_pushNode h hp]
    refine ⟨linked_applyPushFirewall hm hp.known h.fileOk hr, ?_⟩
    rintro ⟨hb, hkeep, hno⟩
    rcases hp.moved r hr hb with hk | hl
    · rw [hk] at hkeep
      cases hkeep
    · exact hno hl
  · intro r hr
    rw [inbounds_pushNode hp] at hr
    rw [mem_pushNode h hp]
    refine ⟨?_, fun hc => hc.2.2 hr⟩
    rcases hp.untaken r hr with ht | hl | ⟨hopen, hno⟩
    · refine taken_applyPushFirewall ht (ht.validSpec ?_)
      intro ib hib
      exact hp.ports ib (taken_left hib)
    · exact linked_applyPushFirewall hm hp.known h.fileOk hl
    · exact kept_applyPushFirewall hm hp.known h.fileOk hopen fun hf => hno ((h.file r).mp hf)
  · intro r hr
    rw [hnames, inbounds_pushNode hp]
    unfold Asked
    rw [LinkRule.congr (linkIngress_pushNode hp), TunnelRule.congr (tunnels_pushNode hp)]
    obtain ⟨hr, hnot⟩ := (mem_pushNode h hp).mp hr
    rcases of_mem_applyPushFirewall hm hp.known h.fileOk hr with
      hl | ⟨hopen, hf⟩ | ht | ht | hc | rfl
    · exact .inr (.inr (.inr (.inl hl)))
    · exact asked_of_open h hp hopen hf hnot
    · exact .inr (.inr (.inr (.inr ht)))
    · exact .inr (.inr (.inl (ht.mono env fun ib hib => taken_left hib)))
    · exact hp.carried r hc
    · exact .inr (asked_acme _ _ _)

end OnePush

/-! ### A start -/

theorem stored_of_store {a : AgentState} {f : StoreFile} (h : a.store = some f) : a.stored = f := by
  simp [AgentState.stored, h]

theorem bootNode_stored : (bootNode env fa s).agent.stored = s.agent.stored := rfl

/-- **One start.** -/
theorem Following.boot (h : Following env base s) (hs : StartFollows env base fa s) :
    Following env base (bootNode env fa s) := by
  cases hst : s.agent.store with
  | none =>
    refine h.congr bootNode_stored ?_ ?_ ?_
    · simp [bootNode, hst]
    · simp [bootNode, hst, ensureFirewallFromStore]
    · intro r
      simp [bootNode, hst, ensureFirewallFromStore]
  | some f =>
    have hf := stored_of_store hst
    have hinbounds : (bootNode env fa s).stored = s.stored := rfl
    have hblock : (bootNode env fa s).block = s.block := rfl
    have hnames : (bootNode env fa s).names = fa.names := by simp [bootNode, hst]
    have hfws : (bootNode env fa s).fws = ensureChainFirewall env fa
        ⟨openStored env fa 0 s.fws.fw.forget s.stored, s.fws.chainFw⟩ s.block := by
      simp [bootNode, hst, ensureFirewallFromStore, NodeState.stored, NodeState.block, hf]
    have hrule : ∀ r, r ∈ (bootNode env fa s).fws.fw ↔ LinkRule env fa.names s.block r ∨
        r ∈ openStored env fa 0 s.fws.fw.forget s.stored ∧ r ∉ s.fws.chainFw := by
      intro r
      rw [hfws]
      exact mem_ensureChainFirewall _ h.known h.fileOk
    refine ⟨h.ports, h.known, ?_, ?_, ?_, ?_⟩
    · intro r
      rw [hfws, hnames, hblock]
      exact chainFw_ensureChainFirewall hs.written
    · intro r hr
      rw [hnames, hblock] at hr
      exact (hrule r).mpr (.inl hr)
    · intro r hr
      rw [hinbounds] at hr
      rw [hrule]
      by_cases hl : LinkRule env s.names s.block r
      · exact .inl (hs.moved r hr hl)
      · exact .inr ⟨mem_openStored_of_serves hr (hr.validSpec h.ports),
          fun hfile => hl ((h.file r).mp hfile)⟩
    · intro r hr
      rw [hnames, hinbounds, hblock]
      rcases (hrule r).mp hr with hl | ⟨hopen, hfile⟩
      · exact .inr (.inr (.inr (.inl hl)))
      · rcases mem_openStored hopen with hopen | hserves | hc
        · rcases h.asked r hopen with hb | hk | hserves | hl | ht
          · exact .inl hb
          · exact .inr (.inl hk)
          · exact .inr (.inr (.inl hserves))
          · exact absurd ((h.file r).mpr hl) hfile
          · exact .inr (.inr (.inr (.inr ht)))
        · exact .inr (.inr (.inl hserves))
        · exact hs.carried r hc

theorem restoreNode_stored : (restoreNode env cfg ans fa s).agent.stored = s.agent.stored := by
  have hstore : (restoreNode env cfg ans fa s).agent = restoreFromStore cfg ans s.agent.store := by
    unfold restoreNode
    cases s.agent.store with
    | none => rfl
    | some f =>
      dsimp only
      split <;> rfl
  rw [hstore]
  simp [AgentState.stored, restoreFromStore_store]

/-- Nothing is brought up from a store without inbounds. -/
theorem restoreNode_idle (env : FwEnv) (cfg : AgentConfig) (ans : PushAnswers) (fa : FwAnswers)
    (h : s.stored = []) :
    (restoreNode env cfg ans fa s).fws = s.fws ∧ (restoreNode env cfg ans fa s).names = s.names := by
  unfold restoreNode
  cases hst : s.agent.store with
  | none => exact ⟨rfl, rfl⟩
  | some f =>
    have hnil : f.req.inbounds = [] := by rwa [NodeState.stored, stored_of_store hst] at h
    simp [hnil]

theorem restoreNode_serving (env : FwEnv) (cfg : AgentConfig) (ans : PushAnswers) (fa : FwAnswers)
    (h : s.stored ≠ []) :
    (restoreNode env cfg ans fa s).fws =
      applyPushFirewall env cfg ans fa (.fresh s.agent.store) s.agent.stored.req s.fws ∧
      (restoreNode env cfg ans fa s).names = fa.names := by
  unfold restoreNode
  cases hst : s.agent.store with
  | none =>
    refine absurd ?_ h
    simp [NodeState.stored, AgentState.stored, hst, StoreFile.blank]
  | some f =>
    rw [NodeState.stored, stored_of_store hst] at h
    simp [h, stored_of_store hst]

theorem Following.restore (hm : cfg.chainManager = true) (h : Following env base s)
    (hs : RestoreFollows env base cfg ans fa s) :
    Following env base (restoreNode env cfg ans fa s) := by
  by_cases hnil : s.stored = []
  · obtain ⟨hfws, hnames⟩ := restoreNode_idle env cfg ans fa hnil
    refine h.congr restoreNode_stored hnames (by rw [hfws]) ?_
    intro r
    rw [hfws]
  · obtain ⟨hfws, hnames⟩ := restoreNode_serving env cfg ans fa hnil
    have hinbounds : (restoreNode env cfg ans fa s).stored = s.stored := by
      unfold NodeState.stored
      rw [restoreNode_stored]
    have hblock : (restoreNode env cfg ans fa s).block = s.block := by
      unfold NodeState.block
      rw [restoreNode_stored]
    have hforced : forcedBlock cfg ans (.fresh s.agent.store) s.agent.stored.req = s.block :=
      chainStep_fresh _ _
    have hk : KnownIngress (forcedBlock cfg ans (.fresh s.agent.store) s.agent.stored.req) := by
      rw [hforced]
      exact h.known
    refine ⟨?_, ?_, ?_, ?_, ?_, ?_⟩
    · rw [hinbounds]
      exact h.ports
    · rw [hblock]
      exact h.known
    · intro r
      rw [hfws, hnames, hblock, chainFw_applyPushFirewall hm hs.written, hforced]
    · intro r hr
      rw [hnames, hblock, ← hforced] at hr
      rw [hfws]
      exact linked_applyPushFirewall hm hk h.fileOk hr
    · intro r hr
      rw [hinbounds] at hr
      rw [hfws]
      rcases hs.untaken r hr with ht | hl | hno
      · refine taken_applyPushFirewall ht (ht.validSpec ?_)
        intro ib hib
        exact h.ports ib (List.mem_filter.mp hib).1
      · exact linked_applyPushFirewall hm hk h.fileOk (hforced ▸ hl)
      · exact kept_applyPushFirewall hm hk h.fileOk (h.served r hr) fun hf => hno ((h.file r).mp hf)
    · intro r hr
      rw [hfws] at hr
      rw [hnames, hinbounds, hblock]
      have hcases := of_mem_applyPushFirewall hm hk h.fileOk hr
      rw [hforced] at hcases
      rcases hcases with hl | ⟨hopen, hfile⟩ | ht | ht | hc | rfl
      · exact .inr (.inr (.inr (.inl hl)))
      · rcases h.asked r hopen with hb | hkeep | hserves | hl | ht
        · exact .inl hb
        · exact .inr (.inl hkeep)
        · exact .inr (.inr (.inl hserves))
        · exact absurd ((h.file r).mpr hl) hfile
        · exact .inr (.inr (.inr (.inr ht)))
      · exact .inr (.inr (.inr (.inr ht)))
      · exact .inr (.inr (.inl (ht.mono env fun ib hib => (List.mem_filter.mp hib).1)))
      · exact hs.carried r hc
      · exact .inr (asked_acme _ _ _)

end Steps

/-! ## Whole runs -/

inductive NodeEvent where
  | push (ans : PushAnswers) (fa : FwAnswers) (p : PanelPush)
  | boot (fa : FwAnswers)
  | restore (ans : PushAnswers) (fa : FwAnswers)

/-- A node over pushes and starts that each meet their condition; a start reads the rules from the
store first and brings the cores up next. -/
def nodeMachine (cfg : AgentConfig) (env : FwEnv) (base : Finset FwRule) :
    Machine NodeState NodeEvent where
  start s := s.agent = .fresh none ∧ s.fws = ⟨.ofMembers base, []⟩ ∧ s.starting = false
  step s e s' :=
    match e with
    | .push ans fa p => s.starting = false ∧ PushFollows env base cfg ans fa s p ∧
        s' = pushNode env cfg ans fa s p
    | .boot fa => StartFollows env base fa s ∧ s' = bootNode env fa s
    | .restore ans fa => s.starting = true ∧ RestoreFollows env base cfg ans fa s ∧
        s' = restoreNode env cfg ans fa s

theorem following_start {env : FwEnv} {base : Finset FwRule} {s : NodeState}
    (hagent : s.agent = .fresh none) (hfws : s.fws = ⟨.ofMembers base, []⟩) :
    Following env base s := by
  have hstored : s.stored = [] := by simp [NodeState.stored, hagent, AgentState.stored,
    AgentState.fresh, StoreFile.blank]
  have hblock : s.block = none := by simp [NodeState.block, hagent, AgentState.stored,
    AgentState.fresh, StoreFile.blank]
  have hlink : ∀ r, ¬ LinkRule env s.names s.block r := by
    rintro r ⟨i, e, he, -⟩
    rw [hblock] at he
    cases he
  refine ⟨?_, ?_, ?_, ?_, ?_, ?_⟩
  · simp [hstored]
  · intro e he
    rw [hblock] at he
    cases he
  · intro r
    simp [hfws, hlink]
  · intro r hr
    exact absurd hr (hlink r)
  · rintro r ⟨ib, hib, -⟩
    simp [hstored] at hib
  · intro r hr
    rw [hfws] at hr
    exact .inl hr

/-- **The firewall follows what runs.**  On a node with a chain manager, in every run of pushes,
starts and restores that meet their conditions, whatever was open before the agent. -/
theorem firewall_follows (cfg : AgentConfig) (env : FwEnv) (base : Finset FwRule)
    (hm : cfg.chainManager = true) (s : NodeState) (h : (nodeMachine cfg env base).Reachable s) :
    FirewallFollows env base s := by
  have hkept : Following env base s := by
    refine h.invariant ?_ ?_
    · rintro s ⟨hagent, hfws, -⟩
      exact following_start hagent hfws
    · intro s e s' _ hf hstep
      cases e with
      | push ans fa p =>
        obtain ⟨-, hp, rfl⟩ := hstep
        exact hf.push hm hp
      | boot fa =>
        obtain ⟨hs, rfl⟩ := hstep
        exact hf.boot hs
      | restore ans fa =>
        obtain ⟨-, hs, rfl⟩ := hstep
        exact hf.restore hm hs
  exact hkept.follows

/-! ## A port that moves -/

section Example

/-- A push whose inbounds are all taken leaves just these. -/
theorem left_of_taken {cfg : AgentConfig} {ans : PushAnswers} {s : AgentState} {p : PanelPush}
    (h : ∀ ib ∈ p.req.inbounds, inboundTaken cfg ans ib = true) {ib : InboundDto}
    (hib : ib ∈ leftInbounds cfg ans s p) : ib ∈ p.req.inbounds := by
  obtain ⟨x, hx, hkept⟩ := List.mem_filterMap.mp hib
  have hr : inboundRefused cfg ans x = false := by
    have ht := h x hx
    unfold inboundTaken at ht
    rw [Bool.and_eq_true, Option.isNone_iff_eq_none] at ht
    simp [inboundRefused, ht.2]
  simp only [refused_of_mem p.ids hx, hr] at hkept
  cases hkept
  exact hx

theorem pushFollows_first {env : FwEnv} {cfg : AgentConfig} {ans : PushAnswers} {fa : FwAnswers}
    {names : Nat → Lookup} {p : PanelPush} (hw : ans.store = none ∧ fa.chainFile = none)
    (htaken : ∀ ib ∈ p.req.inbounds, inboundTaken cfg ans ib = true)
    (hport : ∀ ib ∈ p.req.inbounds, InRange ib.port)
    (hcarried : ∀ ib ∈ p.req.inbounds, carriedLink env ib = none)
    (hk : KnownIngress (forcedBlock cfg ans (.fresh none) p.req)) :
    PushFollows env ∅ cfg ans fa ⟨.fresh none, ⟨.ofMembers ∅, []⟩, names, false⟩ p where
  written := hw
  ports ib hib := hport ib (left_of_taken htaken hib)
  known := hk
  untaken r hr := by
    refine .inl (hr.mono env fun ib hib => ?_)
    have hmem := left_of_taken htaken hib
    exact List.mem_filter.mpr ⟨hmem, htaken ib hmem⟩
  moved r _ hserves := by
    obtain ⟨ib, hib, -⟩ := hserves
    cases hib
  carried r hc := by
    obtain ⟨i, ib, hib, -, link, hlink, -⟩ := hc
    rw [hcarried ib (List.mem_of_getElem? hib)] at hlink
    cases hlink
  tunnels r hr := by
    have hr' : r ∈ (∅ : Finset FwRule) := hr
    simp at hr'

def hysteriaCore : Adapter where
  name := "hysteria"
  engine := "hysteria"
  absent := false
  policyReceiver := false
  dnsReceiver := false
  cascadeReceiver := true

def hysteriaNode : AgentConfig := ⟨[hysteriaCore], by decide, true⟩

/-- One address is an address. -/
def oneAddress : AddressParse where
  isIP s := decide (s = "203.0.113.5")
  isCIDR _ := false
  isIP_empty := by decide
  isCIDR_empty := rfl

def hysteriaEnv : FwEnv := ⟨oneAddress, fun _ => none, fun _ => none, some 62050⟩

/-- Every name resolves to this, or none does. -/
def namesAre (ips : Option (List String)) : FwAnswers where
  raised := 0
  names _ _ _ := ips
  linkNames _ _ _ _ := none
  usesACME _ := false
  chainFile := none

/-- The chain receives a leg on 8443/udp from a hop named by its host. -/
def receivingChain : NodeChain :=
  ⟨"singbox", transitChain.config, some [], "", none, none,
    some [⟨8443, some ["udp"], some ["hop.example"]⟩]⟩

def hysteriaInbound (id : String) (port : Int) : InboundDto :=
  ⟨id, "hysteria", "hysteria", "", port, .empty⟩

def hysteriaPush (port : Int) (chain : Option NodeChain) : PanelPush where
  req := ⟨[hysteriaInbound "b1" port], .empty, .empty, none, chain⟩
  ids := List.nodup_singleton _
  named ib hib := by
    rw [List.mem_singleton.mp hib]
    simp [hysteriaInbound]

def newNode : NodeState := ⟨.fresh none, ⟨.ofMembers ∅, []⟩, fun _ _ _ => none, false⟩

/-- A hysteria inbound on 443, and the leg on 8443 from a hop that resolves. -/
def legNode : NodeState :=
  pushNode hysteriaEnv hysteriaNode takesAll (namesAre (some ["203.0.113.5"])) newNode
    (hysteriaPush 443 (some receivingChain))

theorem legNode_reachable : (nodeMachine hysteriaNode hysteriaEnv ∅).Reachable legNode := by
  refine .step (e := .push takesAll (namesAre (some ["203.0.113.5"]))
    (hysteriaPush 443 (some receivingChain))) (.start ⟨rfl, rfl, rfl⟩) ⟨rfl, ?_, rfl⟩
  refine pushFollows_first ⟨rfl, rfl⟩ (by decide) (by decide) (by decide) ?_
  intro e he _
  have hone : e = ⟨8443, some ["udp"], some ["hop.example"]⟩ := List.mem_singleton.mp he
  subst hone
  exact ⟨by decide, by decide⟩

theorem firewall_follows_leg :
    FirewallFollows hysteriaEnv ∅ legNode
      ∧ ⟨443, "udp", ""⟩ ∈ legNode.fws.fw ∧ ⟨8443, "udp", "203.0.113.5"⟩ ∈ legNode.fws.fw :=
  ⟨firewall_follows hysteriaNode hysteriaEnv ∅ rfl legNode legNode_reachable,
    by decide, by decide⟩

/-- The inbound on 8443, with no chain. -/
def servedNode : NodeState :=
  pushNode hysteriaEnv hysteriaNode takesAll (namesAre none) newNode (hysteriaPush 8443 none)

theorem servedNode_reachable : (nodeMachine hysteriaNode hysteriaEnv ∅).Reachable servedNode := by
  refine .step (e := .push takesAll (namesAre none) (hysteriaPush 8443 none))
    (.start ⟨rfl, rfl, rfl⟩) ⟨rfl, ?_, rfl⟩
  refine pushFollows_first ⟨rfl, rfl⟩ (by decide) (by decide) (by decide) ?_
  intro e he
  cases he

/-- The same node after a push that moves the inbound to 443 and receives a leg on 8443, from a hop
whose name does not resolve. -/
def movedNode : NodeState :=
  pushNode hysteriaEnv hysteriaNode takesAll (namesAre none) servedNode
    (hysteriaPush 443 (some receivingChain))

/-- A port that goes from an inbound to a leg in one push: everything is taken and written, the link
port is wanted open to anyone, and it is closed. -/
theorem moved_port_closed :
    (nodeMachine hysteriaNode hysteriaEnv ∅).Reachable servedNode
      ∧ movedNode.stored = [hysteriaInbound "b1" 443]
      ∧ movedNode.block = some receivingChain
      ∧ ⟨8443, "udp", ""⟩ ∈ movedNode.fws.chainFw
      ∧ movedNode.fws.fw.members = {⟨443, "udp", ""⟩}
      ∧ ¬ FirewallFollows hysteriaEnv ∅ movedNode := by
  refine ⟨servedNode_reachable, rfl, rfl, by decide, by decide, ?_⟩
  intro h
  have hentry := (h.ingress 0 ⟨8443, some ["udp"], some ["hop.example"]⟩ rfl (by decide) "udp"
    (by decide)).2 ?_
  · exact absurd hentry (by decide)
  · rintro src ⟨n, raw, hraw, hsrc⟩
    have hmem : raw = "hop.example" := List.mem_singleton.mp (List.mem_of_getElem? hraw)
    subst hmem
    have hnil : addressesOf hysteriaEnv.net (movedNode.names 0) n "hop.example" = [] := rfl
    rw [hnil] at hsrc
    cases hsrc

end Example

end Iceslab.Agent
