import Iceslab.NodeInputs

/-!
# Does the listener take the leg?

A leg has a credential of its own, a receiving node has one listener, and the listener is drawn
from the first leg that arrives.  A vless listener lists every arriving leg as a user; the other
cells list the first leg's secret alone.

* `Accepts` — an inbound takes what an outbound dials.
* `OneListener` — when one listener can serve every leg into its node.
* `legs_accepted_iff` — every leg comes up exactly then.
* `pooledEntry_refuses` — two entry nodes, one exit, shadowsocks: one of the two legs is refused.
-/

set_option autoImplicit false

namespace Iceslab

/-! ## Taking a credential -/

/-- The port an outbound dials. -/
def OutboundKind.port : OutboundKind → Option Nat
  | .vless _ port _ _ _ => some port
  | .shadowsocks _ port _ _ => some port
  | .hysteria2 _ port _ _ _ => some port
  | .tuic _ port _ _ _ _ => some port
  | _ => none

section Takes

variable (KeyPair : String → String → Prop)

/-- The REALITY blocks of the two ends fit; `KeyPair` says which public key partners which
private one. -/
def TakesReality (held : Option RealityIn) (dialled : Option RealityOut) : Prop :=
  match held, dialled with
  | none, none => True
  | some a, some b => a.serverName = b.serverName ∧ KeyPair a.privateKey b.publicKey
      ∧ b.shortId ∈ a.shortIds
  | _, _ => False

/-- One cell on both ends, and the dialled secret is one the listener holds. -/
def TakesSecret (held : InboundKind) (dialled : OutboundKind) : Prop :=
  match held, dialled with
  | .vless users tls, .vless _ _ uuid flow tls' =>
    (∃ u ∈ users, u.uuid = uuid ∧ u.flow = flow) ∧ TakesReality KeyPair tls tls'
  | .shadowsocks method password, .shadowsocks _ _ method' password' =>
    method = method' ∧ password = password'
  | .hysteria2 users obfs tls, .hysteria2 _ _ password obfs' tls' =>
    password ∈ users ∧ obfs = obfs' ∧ tls.certificate = tls'.certificate
  | .tuic users _ tls, .tuic _ _ uuid password _ tls' =>
    (uuid, password) ∈ users ∧ tls.certificate = tls'.certificate
  | _, _ => False

def Accepts (i : Inbound) (o : Outbound) : Prop :=
  o.kind.port = some i.listen_port ∧ TakesSecret KeyPair i.kind o.kind

end Takes

/-- The secrets both ends of a leg must share, where the listener holds one of each. -/
def SameSecrets (a b : LinkCred) : Prop :=
  match a, b with
  | .shadowsocks a, .shadowsocks b => a.method = b.method ∧ a.psk = b.psk
  | .hy2 a, .hy2 b => a.authPassword = b.authPassword ∧ a.obfsPassword = b.obfsPassword
      ∧ pemLines a.tls.certPem = pemLines b.tls.certPem
  | .tuic a, .tuic b => a.uuid = b.uuid ∧ a.password = b.password
      ∧ pemLines a.tls.certPem = pemLines b.tls.certPem
  | _, _ => False

theorem SameSecrets.symm {a b : LinkCred} (h : SameSecrets a b) : SameSecrets b a := by
  unfold SameSecrets at h ⊢
  split at h
  · exact ⟨h.1.symm, h.2.symm⟩
  · exact ⟨h.1.symm, h.2.1.symm, h.2.2.symm⟩
  · exact ⟨h.1.symm, h.2.1.symm, h.2.2.symm⟩
  · exact h.elim

theorem SameSecrets.trans {a b c : LinkCred} (h : SameSecrets a b) (h' : SameSecrets b c) :
    SameSecrets a c := by
  cases a <;> cases b <;> try exact h.elim
  all_goals cases c <;> try exact h'.elim
  · exact ⟨h.1.trans h'.1, h.2.trans h'.2⟩
  · exact ⟨h.1.trans h'.1, h.2.1.trans h'.2.1, h.2.2.trans h'.2.2⟩
  · exact ⟨h.1.trans h'.1, h.2.1.trans h'.2.1, h.2.2.trans h'.2.2⟩

/-! ## The drawn listener -/

theorem linkInbounds_ne_nil (leg : ChainLegIn) : linkInbounds leg ≠ [] := by
  unfold linkInbounds listenersAt
  split <;> simp

variable {leg : ChainLegIn} {out : ChainLegOut}

theorem mem_linkInbounds {i : Inbound} (h : i ∈ linkInbounds leg) :
    i.listen_port = leg.cred.port ∧ i.kind = linkInbound leg := by
  obtain ⟨e, -, rfl⟩ := List.mem_map.mp h
  exact ⟨rfl, rfl⟩

theorem renderLegCell_port (out : ChainLegOut) : (renderLegCell out).port = some out.cred.port := by
  obtain ⟨tag, host, cred, via⟩ := out
  cases cred <;> rfl

variable {KeyPair : String → String → Prop}

/-- A listener that is not vless holds the secrets of its one credential. -/
theorem takes_of_not_vless
    (hcell : leg.cred.protocol = out.cred.protocol) (hv : out.cred.protocol ≠ .vless) :
    TakesSecret KeyPair (linkInbound leg) (renderLegCell out) ↔ SameSecrets leg.cred out.cred := by
  obtain ⟨held, clients, listen⟩ := leg
  obtain ⟨tag, host, cred, via⟩ := out
  cases cred with
  | vless c => exact absurd rfl hv
  | shadowsocks c =>
    cases held <;> cases hcell
    rfl
  | hy2 c =>
    cases held <;> cases hcell
    simp only [TakesSecret, linkInbound, renderLegCell, SameSecrets, List.mem_singleton, legTlsIn,
      legTlsOut, @eq_comm _ c.authPassword]
  | tuic c =>
    cases held <;> cases hcell
    rename_i c'
    simp only [TakesSecret, linkInbound, renderLegCell, SameSecrets, List.mem_singleton, legTlsIn,
      legTlsOut, Prod.mk.injEq, and_assoc, @eq_comm _ c.uuid, @eq_comm _ c.password]

theorem mem_shortIdsOf_of_client {client : ChainClient} {s : String}
    (hc : client ∈ leg.clients) (hs : client.shortId = some s) (hne : s ≠ "") :
    s ∈ shortIdsOf leg := by
  unfold shortIdsOf
  rw [List.mem_eraseDups, List.mem_filterMap]
  refine ⟨some s, List.mem_append_left _ (List.mem_map.mpr ⟨client, hc, hs⟩), ?_⟩
  exact truthy_eq_some.mpr ⟨rfl, hne⟩

theorem ne_empty_of_mem_shortIdsOf {s : String} (h : s ∈ shortIdsOf leg) : s ≠ "" := by
  unfold shortIdsOf at h
  rw [List.mem_eraseDups, List.mem_filterMap] at h
  obtain ⟨o, -, ho⟩ := h
  exact (truthy_eq_some.mp ho).2

/-- A vless listener lists every arriving leg: what is left is the key pair and the short id. -/
theorem takes_of_vless {c₀ c : VlessLinkCred}
    {r₀ r : LinkReality} (h₀ : leg.cred = .vless c₀) (hr₀ : c₀.reality = some r₀)
    (hc : out.cred = .vless c) (hr : c.reality = some r) (hname : r₀.serverName = r.serverName)
    (hclient : ∃ client ∈ leg.clients, client.uuid = some c.uuid
      ∧ client.shortId = some r.shortId) :
    TakesSecret KeyPair (linkInbound leg) (renderLegCell out)
      ↔ KeyPair r₀.privateKey r.publicKey ∧ r.shortId ≠ "" := by
  obtain ⟨client, hmem, huuid, hshort⟩ := hclient
  simp only [linkInbound, h₀, vlessInbound, hr₀, renderLegCell, hc, hr, Option.map_some,
    TakesSecret, TakesReality, hname, true_and]
  constructor
  · rintro ⟨-, hpair, hid⟩
    exact ⟨hpair, ne_empty_of_mem_shortIdsOf hid⟩
  · rintro ⟨hpair, hne⟩
    refine ⟨⟨_, List.mem_map_of_mem hmem, ?_, rfl⟩, hpair,
      mem_shortIdsOf_of_client hmem hshort hne⟩
    simp [huuid]

/-! ## One listener for every leg -/

section OwnSecrets

variable (mint : Minting) (existing : String → Option LinkCred)

/-- The short id of a vless leg: the stored one, or a fresh one. -/
def legShortId (p : PlannedLeg) (i : Nat) : String :=
  ((baseCred mint existing p i).reality.map (·.shortId)).getD (mint.shortId i).shortId

/-- The uuid of a vless leg: the stored one, or a fresh one. -/
def legUuid (p : PlannedLeg) (i : Nat) : Option String :=
  match baseCred mint existing p i with
  | .vless c => some c.uuid
  | _ => none

end OwnSecrets

namespace DrawnCascade

variable (K : DrawnCascade) {r : TopologyLinkRow} {p : PlannedLeg} {i : Nat}

theorem legIn_client {n : String} (h : K.read.legIn n = some leg)
    (hr : r ∈ K.read.links) (hto : r.toNodeId = n) : TopologyInput.clientOf r ∈ leg.clients := by
  rw [(K.legIn_eq_some h).2]
  exact List.mem_map_of_mem (List.mem_filter.mpr ⟨hr, decide_eq_true hto⟩)

variable {K}

/-- A vless leg wears the pair of the node it lands on and a short id of its own. -/
theorem RowOf.of_vless (h : K.RowOf p i r)
    (hv : p.protocol = .vless) : ∃ c : VlessLinkCred, r.cred = .vless c
      ∧ legUuid K.mint K.existing p i = some c.uuid ∧ c.reality = some {
          nodeReality K.mint K.existing K.plan p.toNodeId with
          shortId := legShortId K.mint K.existing p i } := by
  have hcell := baseCred_protocol K.mint K.existing p i
  rw [hv] at hcell
  cases hb : baseCred K.mint K.existing p i with
  | vless c =>
    rw [h.cred, legCred_of_vless K.mint K.existing ((K.mem_plan_iff p).mpr h.leg) hb, legShortId,
      legUuid, hb]
    exact ⟨_, rfl, rfl, rfl⟩
  | _ c =>
    rw [hb] at hcell
    cases hcell

theorem RowOf.of_not_vless (h : K.RowOf p i r)
    (hv : p.protocol ≠ .vless) : r.cred = baseCred K.mint K.existing p i := by
  rw [h.cred, legCred_of_not_vless K.mint K.existing hv]

variable (KeyPair : String → String → Prop) (K)

/-- What it takes for the listener holding `held` to serve the planned leg at index `i`. -/
def Served (held : LinkCred) (p : PlannedLeg) (i : Nat) : Prop :=
  if p.protocol = .vless then
    KeyPair (nodeReality K.mint K.existing K.plan p.toNodeId).privateKey
        (nodeReality K.mint K.existing K.plan p.toNodeId).publicKey
      ∧ legShortId K.mint K.existing p i ≠ ""
  else SameSecrets held (baseCred K.mint K.existing p i)

variable {KeyPair K}

theorem accepts_iff_served (hr : r ∈ K.read.links)
    (hp : K.RowOf p i r) (hleg : K.read.legIn r.toNodeId = some leg)
    (hout : out.cred = r.cred) {inb : Inbound} (hinb : inb ∈ linkInbounds leg)
    (selfHost : Option String) (tag : String) :
    Accepts KeyPair inb (renderLeg selfHost tag out) ↔ K.Served KeyPair leg.cred p i := by
  obtain ⟨⟨r₀, hr₀, hto, hheld⟩, -⟩ := K.legIn_eq_some hleg
  obtain ⟨hcell, hport⟩ := K.rows_to_same hr₀ hr hto
  rw [hheld] at hcell hport
  obtain ⟨hip, hik⟩ := mem_linkInbounds hinb
  have hdial : (renderLeg selfHost tag out).kind = renderLegCell out := rfl
  have hsame : (renderLegCell out).port = some inb.listen_port := by
    rw [renderLegCell_port, hip, hport, hout]
  simp only [Accepts, hdial, hsame, hik, true_and]
  rw [Served]
  by_cases hv : p.protocol = .vless
  · rw [if_pos hv]
    obtain ⟨q, j, hq⟩ := K.row_planned hr₀
    have hnode : q.toNodeId = p.toNodeId := by rw [← hq.toNodeId, hto, hp.toNodeId]
    have hqv : q.protocol = .vless := by rw [(K.saved.same_node hq.leg hp.leg hnode).2.1, hv]
    obtain ⟨c₀, hc₀, -, hreal₀⟩ := hq.of_vless hqv
    obtain ⟨c, hc, -, hreal⟩ := hp.of_vless hv
    have hclient := K.legIn_client hleg hr rfl
    have hfields : (TopologyInput.clientOf r).uuid = some c.uuid
        ∧ (TopologyInput.clientOf r).shortId = some (legShortId K.mint K.existing p i) := by
      simp only [TopologyInput.clientOf, hc, hreal, Option.map_some, and_self]
    rw [takes_of_vless (hheld.symm.trans hc₀) hreal₀ (hout.trans hc) hreal (by rw [hnode])
      ⟨_, hclient, hfields⟩, hnode]
  · rw [if_neg hv]
    have hne : out.cred.protocol ≠ .vless := by rwa [hout, hp.protocol]
    rw [takes_of_not_vless (by rw [hout, hcell]) hne, hout, hp.of_not_vless hv]

variable (KeyPair K) (lib : TextLib) (secret : String → String)

/-- The leg of a row comes up: both ends are drawn, and every listener of the node it lands on
takes what is dialled for it. -/
def LegAccepted (r : TopologyLinkRow) : Prop :=
  ∃ near far out tag, K.chainAt lib secret r.fromNodeId = some near
    ∧ K.chainAt lib secret r.toNodeId = some far
    ∧ K.read.legOut r = some out ∧ WayTag out.tag tag
    ∧ renderLeg near.selfHost tag out ∈ (renderChainConfig near).outbounds
    ∧ (renderChainConfig far).inbounds ≠ []
    ∧ ∀ inb ∈ (renderChainConfig far).inbounds, Accepts KeyPair inb (renderLeg near.selfHost tag out)

/-- One listener can serve every leg into its node. -/
structure OneListener : Prop where
  /-- the legs into a node that is not dialled over vless start from the same secrets -/
  secrets : ∀ p i q j, (p, i) ∈ K.plan.zipIdx → (q, j) ∈ K.plan.zipIdx → p.toNodeId = q.toNodeId →
    p.protocol ≠ .vless →
    SameSecrets (baseCred K.mint K.existing p i) (baseCred K.mint K.existing q j)
  /-- the pair a node wears is one -/
  pairs : ∀ p ∈ K.plan, p.protocol = .vless →
    KeyPair (nodeReality K.mint K.existing K.plan p.toNodeId).privateKey
      (nodeReality K.mint K.existing K.plan p.toNodeId).publicKey
  shortIds : ∀ p i, (p, i) ∈ K.plan.zipIdx → p.protocol = .vless →
    legShortId K.mint K.existing p i ≠ ""

variable {KeyPair K lib secret}

theorem HostsKnown.legAccepted_iff (h : K.HostsKnown) (hr : r ∈ K.read.links) (hp : K.RowOf p i r)
    (hleg : K.read.legIn r.toNodeId = some leg) :
    K.LegAccepted KeyPair lib secret r ↔ K.Served KeyPair leg.cred p i := by
  obtain ⟨leg', far, hleg', hfar, hins⟩ := h.chainAt_to lib secret hr
  obtain rfl : leg' = leg := by simpa [hleg'] using hleg
  constructor
  · rintro ⟨near, far', out, tag, -, hfar', hout, -, -, -, hall⟩
    obtain rfl : far = far' := by simpa [hfar] using hfar'
    rw [hins] at hall
    obtain ⟨inb, hinb⟩ := List.exists_mem_of_ne_nil _ (linkInbounds_ne_nil leg')
    exact (accepts_iff_served hr hp hleg (legOut_tag hout).2 hinb _ _).mp (hall inb hinb)
  · intro hserved
    obtain ⟨near, hnear, hnout⟩ := h.chainAt_from lib secret hr
    obtain ⟨out, hout, -, hcred⟩ := h.legOut hr
    have hmem : out ∈ near.out := by
      rw [hnout]
      exact mem_out.mpr ⟨r, hr, rfl, hout⟩
    obtain ⟨tag, htag, hdrawn⟩ := ChainRenderInput.leg_outbound hmem
    refine ⟨near, far, out, tag, hnear, hfar, hout, htag, hdrawn, ?_, ?_⟩
    · rw [hins]
      exact linkInbounds_ne_nil _
    · rw [hins]
      exact fun inb hinb => (accepts_iff_served hr hp hleg hcred hinb _ _).mpr hserved

/-- Two accepted legs into one node start from the same secrets, unless they are vless. -/
theorem HostsKnown.sameSecrets_of_accepted (h : K.HostsKnown) {r r' : TopologyLinkRow}
    (hr : r ∈ K.read.links) (hr' : r' ∈ K.read.links) (hto : r.toNodeId = r'.toNodeId)
    {p q : PlannedLeg} {i j : Nat} (hp : K.RowOf p i r) (hq : K.RowOf q j r')
    (hv : p.protocol ≠ .vless) (ha : K.LegAccepted KeyPair lib secret r)
    (ha' : K.LegAccepted KeyPair lib secret r') :
    SameSecrets (baseCred K.mint K.existing p i) (baseCred K.mint K.existing q j) := by
  obtain ⟨leg, hleg⟩ := K.legIn_isSome ⟨r, hr, rfl⟩
  have hnode : p.toNodeId = q.toNodeId := by rw [← hp.toNodeId, hto, hq.toNodeId]
  have hqv : q.protocol ≠ .vless := by rwa [← (K.saved.same_node hp.leg hq.leg hnode).2.1]
  have hs := (h.legAccepted_iff hr hp hleg).mp ha
  have hs' := (h.legAccepted_iff hr' hq (by rw [← hto]; exact hleg)).mp ha'
  rw [Served, if_neg hv] at hs
  rw [Served, if_neg hqv] at hs'
  exact hs.symm.trans hs'

theorem OneListener.served (hone : K.OneListener KeyPair) (hp : K.RowOf p i r)
    (hleg : K.read.legIn r.toNodeId = some leg) : K.Served KeyPair leg.cred p i := by
  rw [Served]
  by_cases hv : p.protocol = .vless
  · rw [if_pos hv]
    exact ⟨hone.pairs p ((K.mem_plan_iff p).mpr hp.leg) hv, hone.shortIds p i hp.at_index hv⟩
  · rw [if_neg hv]
    -- the listener holds what the first arriving leg started from
    obtain ⟨⟨r₀, hr₀, hto, hheld⟩, -⟩ := K.legIn_eq_some hleg
    obtain ⟨q, j, hq⟩ := K.row_planned hr₀
    have hnode : q.toNodeId = p.toNodeId := by rw [← hq.toNodeId, hto, hp.toNodeId]
    have hqv : q.protocol ≠ .vless := by
      rwa [(K.saved.same_node hq.leg hp.leg hnode).2.1]
    rw [← hheld, hq.of_not_vless hqv]
    exact hone.secrets q j p i hq.at_index hp.at_index hnode hqv

theorem hostsKnown_firstSave (T : SavedTopology) (mint : Minting) {links : List TopologyLink}
    (h : generateTopologyLinks mint (fun _ => none) T.positions T.directions = .ok links) :
    (firstSave T mint h).HostsKnown := by
  intro n _
  show (truthy (some "203.0.113.1")).isSome = true
  decide

/-- The pairs `sampleMinting` draws. -/
def SamplePair (privateKey publicKey : String) : Prop :=
  ∃ k, privateKey = "priv-" ++ k ∧ publicKey = "pub-" ++ k

theorem vlessCascade_cells : ∀ p ∈ vlessCascade.plan, p.protocol = .vless := by
  intro p hp
  obtain rfl := List.mem_singleton.mp hp
  rfl

theorem oneListener_vlessCascade : vlessCascade.OneListener SamplePair := by
  refine ⟨?_, ?_, ?_⟩
  · intro p i q j hp _ _ hv
    exact absurd (vlessCascade_cells p (vlessCascade.mem_plan_of_zipIdx hp)) hv
  · intro p _ _
    rw [nodeReality_of_fresh _ _ (fun _ _ => rfl)]
    exact ⟨"1" ++ p.toNodeId, rfl, rfl⟩
  · intro p i hp hv
    have hfresh : legShortId vlessCascade.mint vlessCascade.existing p i = "1" := by
      simp only [legShortId, baseCred, keptFor, hv]
      rfl
    simp [hfresh]

/-- **Every leg comes up exactly when one listener can serve every leg into its node.** -/
theorem legs_accepted_iff (K : DrawnCascade) (h : K.HostsKnown) (KeyPair : String → String → Prop)
    (lib : TextLib) (secret : String → String) :
    (∀ r ∈ K.read.links, K.LegAccepted KeyPair lib secret r) ↔ K.OneListener KeyPair := by
  constructor
  · intro hall
    have hserved : ∀ p i, (p, i) ∈ K.plan.zipIdx → p.protocol = .vless →
        ∃ held, K.Served KeyPair held p i := by
      intro p i he hv
      obtain ⟨r, hr, hp⟩ := K.row_at he
      obtain ⟨leg, hleg⟩ := K.legIn_isSome ⟨r, hr, rfl⟩
      exact ⟨_, (h.legAccepted_iff hr hp hleg).mp (hall r hr)⟩
    refine ⟨fun p i q j he he' hto hv => ?_, fun p hp hv => ?_, fun p i he hv => ?_⟩
    · obtain ⟨r, hr, hp⟩ := K.row_at he
      obtain ⟨r', hr', hq⟩ := K.row_at he'
      exact h.sameSecrets_of_accepted hr hr' (by rw [hp.toNodeId, hto, hq.toNodeId]) hp hq hv
        (hall r hr) (hall r' hr')
    · obtain ⟨i, hi⟩ := List.mem_iff_getElem?.mp hp
      obtain ⟨held, hs⟩ := hserved p i (List.mk_mem_zipIdx_iff_getElem?.mpr hi) hv
      rw [Served, if_pos hv] at hs
      exact hs.1
    · obtain ⟨held, hs⟩ := hserved p i he hv
      rw [Served, if_pos hv] at hs
      exact hs.2
  · intro hone r hr
    obtain ⟨p, i, hp⟩ := K.row_planned hr
    obtain ⟨leg, hleg⟩ := K.legIn_isSome ⟨r, hr, rfl⟩
    exact (h.legAccepted_iff hr hp hleg).mpr (hone.served hp hleg)

/-- The one leg of `vlessCascade` comes up. -/
theorem legs_accepted_vlessCascade : vlessCascade.read.links.length = 1
    ∧ ∀ r ∈ vlessCascade.read.links,
        vlessCascade.LegAccepted SamplePair asciiText (fun _ => "secret") r :=
  ⟨rfl, (legs_accepted_iff vlessCascade (hostsKnown_firstSave _ _ _) SamplePair asciiText
    (fun _ => "secret")).mpr oneListener_vlessCascade⟩

end DrawnCascade

/-! ## A pool of entries into one exit -/

/-- Two entry nodes, one direction with one node, shadowsocks legs. -/
def pooledPath : SavedTopology where
  sent := [{ nodeIds := [nodeA, nodeC], position := 0, entryProtocol := some "xray",
             linkProtocol := some "shadowsocks" }]
  directions := [⟨1, { nodeIds := [nodeB] }⟩]
  validated :=
    { positions := [{ nodeIds := [nodeA, nodeC], position := 0, entryProtocol := some "xray",
                      linkProtocol := some "shadowsocks" }]
      directions := [{ nodeIds := [nodeB] }]
      linkCount := 2 }
  accepted := by decide
  tags := vlessPath.tags
  tags_range := vlessPath.tags_range
  uuids := by decide

def pooledCascade : DrawnCascade := firstSave pooledPath (sampleMinting "1") rfl

/-- The leg of one of the two entry nodes. -/
def pooledLeg (fromNodeId : String) : PlannedLeg :=
  { fromNodeId, toNodeId := nodeB, directionTag := 1, protocol := .shadowsocks, step := 0,
    congestion := none }

/-- One of the two legs is refused: the exit holds the key of the first and is dialled with the
key of each. -/
theorem pooledCascade_refuses : pooledCascade.HostsKnown
    ∧ ¬ ∀ r ∈ pooledCascade.read.links,
        pooledCascade.LegAccepted (fun _ _ => True) asciiText (fun _ => "secret") r := by
  have hosts : pooledCascade.HostsKnown := DrawnCascade.hostsKnown_firstSave _ _ _
  refine ⟨hosts, fun hall => ?_⟩
  have hplan : pooledCascade.plan = [pooledLeg nodeA, pooledLeg nodeC] := rfl
  obtain ⟨r, hr, hp⟩ := pooledCascade.row_at (p := pooledLeg nodeA) (i := 0) (by simp [hplan])
  obtain ⟨r', hr', hq⟩ := pooledCascade.row_at (p := pooledLeg nodeC) (i := 1) (by simp [hplan])
  have hsame := hosts.sameSecrets_of_accepted hr hr' (by rw [hp.toNodeId, hq.toNodeId]; rfl) hp hq
    (by decide) (hall r hr) (hall r' hr')
  have hpsk : "psk-10" = "psk-11" := hsame.2
  exact absurd hpsk (by decide)

end Iceslab
