import Iceslab.LegAcceptance
import Iceslab.TunnelPool

/-!
# Where a leg arrives: the internet, or a tunnel

`legUnderlay` and `linkInListen` of `cascade-tunnel.ts`, `chainLinkIngressOf` of
`cascade.service.ts`.  Three decisions about one leg: where its sender dials it, where the
receiving node listens, and whether the receiving node's firewall lets its sender in.

* `legUnderlay_planned` — the mark of a planned leg, from the place it leaves and lands on.
* `ingress_iff`, `dialsPublicly_iff` — the firewall goes by the mark, the sender by the mark and
  a tunnel that can be read.
* `legAdmitted_iff` — the two agree on a leg marked for a tunnel only where the tunnel is there.
-/

set_option autoImplicit false

namespace Iceslab

/-! ## What one leg rides on -/

/-- The step a leg takes, by the pools of its two ends. -/
def underlayOfStep (fromNodeId toNodeId : String) : List CascadePosition → LinkUnderlay
  | a :: b :: rest =>
    if fromNodeId ∈ a.nodeIds ∧ toNodeId ∈ b.nodeIds then (underlayOf a.linkParams).getD .direct
    else underlayOfStep fromNodeId toNodeId (b :: rest)
  | _ => .direct

def legUnderlay (positions : List CascadePosition) (directions : List TaggedDirection)
    (fromNodeId toNodeId : String) (tag : Nat) : LinkUnderlay :=
  let ordered := sortPositions positions
  match ordered.getLast?, directions.find? fun d => decide (d.tag = tag) with
  | some last, some d =>
    if fromNodeId ∈ last.nodeIds ∧ toNodeId ∈ d.direction.nodeIds then
      ((underlayOf d.direction.linkParams).or (underlayOf last.linkParams)).getD .direct
    else underlayOfStep fromNodeId toNodeId ordered
  | _, _ => underlayOfStep fromNodeId toNodeId ordered

variable {i : Nat}

theorem underlayOfStep_eq {positions : List CascadePosition} {a b : CascadePosition}
    {f t : String} (ha : positions[i]? = some a) (hb : positions[i + 1]? = some b)
    (hf : f ∈ a.nodeIds) (ht : t ∈ b.nodeIds)
    (hone : ∀ j c, positions[j]? = some c → t ∈ c.nodeIds → j = i + 1) :
    underlayOfStep f t positions = (underlayOf a.linkParams).getD .direct := by
  induction positions generalizing i with
  | nil => simp at ha
  | cons p rest ih =>
    cases rest with
    | nil => simp at hb
    | cons q rest =>
      unfold underlayOfStep
      cases i with
      | zero =>
        obtain rfl : p = a := by simpa using ha
        obtain rfl : q = b := by simpa using hb
        rw [if_pos ⟨hf, ht⟩]
      | succ i =>
        have hq : t ∉ q.nodeIds := by
          intro hq
          have := hone 1 q rfl hq
          omega
        rw [if_neg fun h => hq h.2]
        refine ih (by simpa using ha) (by simpa using hb) fun j c hc htc => ?_
        have := hone (j + 1) c (by simpa using hc) htc
        omega

namespace SavedTopology

variable (T : SavedTopology) {d : TaggedDirection}

theorem find_direction (hd : d ∈ T.directions) :
    (T.directions.find? fun x => decide (x.tag = d.tag)) = some d := by
  cases hf : T.directions.find? fun x => decide (x.tag = d.tag) with
  | none =>
    have := List.find?_eq_none.mp hf d hd
    simp at this
  | some x =>
    have htag : x.tag = d.tag := by simpa using List.find?_some hf
    rw [List.inj_on_of_nodup_map T.tags (List.mem_of_find?_eq_some hf) hd htag]

theorem sortPositions_positions : sortPositions T.positions = T.positions := by
  rw [T.positions_eq, sortPositions_idem]

/-- The mark of a leg between two positions is its position's, of a last leg its direction's. -/
theorem legUnderlay_between {a b : CascadePosition} {f t : String}
    (ha : T.positions[i]? = some a) (hb : T.positions[i + 1]? = some b) (hf : f ∈ a.nodeIds)
    (ht : t ∈ b.nodeIds) (hd : d ∈ T.directions) :
    legUnderlay T.positions T.directions f t d.tag = (underlayOf a.linkParams).getD .direct := by
  have hstep : underlayOfStep f t T.positions = (underlayOf a.linkParams).getD .direct :=
    underlayOfStep_eq ha hb hf ht fun j c hc htc => T.place_unique hc hb htc ht
  have hpool : t ∉ d.direction.nodeIds := T.not_both (List.mem_of_getElem? hb) hd ht
  unfold legUnderlay
  simp only [T.sortPositions_positions, T.find_direction hd]
  split
  · rename_i last e _ he
    cases he
    rw [if_neg fun h => hpool h.2, hstep]
  · exact hstep

theorem legUnderlay_into {last : CascadePosition} {f t : String}
    (hlast : T.positions[i]? = some last) (hi : i + 1 = T.positions.length) (hf : f ∈ last.nodeIds)
    (hd : d ∈ T.directions) (ht : t ∈ d.direction.nodeIds) :
    legUnderlay T.positions T.directions f t d.tag
      = ((underlayOf d.direction.linkParams).or (underlayOf last.linkParams)).getD .direct := by
  have hget : T.positions.getLast? = some last := by
    rw [List.getLast?_eq_getElem?, ← hlast]
    congr 1
    omega
  unfold legUnderlay
  simp only [T.sortPositions_positions, T.find_direction hd, hget, hf, ht, and_self, if_true]

/-- **All legs into one node carry one mark.** -/
theorem legUnderlay_same {p q : PlannedLeg} (hp : Planned T.directions 0 T.positions p)
    (hq : Planned T.directions 0 T.positions q) (h : p.toNodeId = q.toNodeId) :
    legUnderlay T.positions T.directions p.fromNodeId p.toNodeId p.directionTag
      = legUnderlay T.positions T.directions q.fromNodeId q.toNodeId q.directionTag := by
  cases hp with
  | between ha hb hf ht hd =>
    cases hq with
    | between ha' hb' hf' ht' hd' =>
      obtain rfl := h
      obtain rfl := Nat.add_right_cancel (T.place_unique hb hb' ht ht')
      rw [ha] at ha'
      cases ha'
      rw [T.legUnderlay_between ha hb hf ht hd, T.legUnderlay_between ha hb' hf' ht' hd']
    | into _ _ _ hd' ht' =>
      obtain rfl := h
      exact absurd ht' (T.not_both (List.mem_of_getElem? hb) hd' ht)
  | into hlast hi hf hd ht =>
    cases hq with
    | between ha' hb' hf' ht' hd' =>
      obtain rfl := h
      exact absurd ht (T.not_both (List.mem_of_getElem? hb') hd ht')
    | into hlast' hi' hf' hd' ht' =>
      obtain rfl := h
      obtain rfl := T.pool_unique hd hd' ht ht'
      obtain rfl := Nat.add_right_cancel (hi.trans hi'.symm)
      rw [hlast] at hlast'
      cases hlast'
      rw [T.legUnderlay_into hlast hi hf hd ht, T.legUnderlay_into hlast hi hf' hd ht']

end SavedTopology

/-! ## The firewall of the receiving node -/

/-- `TRANSPORTS` -/
inductive Transport where
  | tcp
  | udp
  deriving DecidableEq, Repr

def TRANSPORTS : List Transport := [.tcp, .udp]

def LINK_CELL_TRANSPORTS : LinkCell → List Transport
  | .vless => [.tcp]
  | .shadowsocks => [.tcp, .udp]
  | .hy2 => [.udp]
  | .tuic => [.udp]

structure ChainLinkIngress where
  port : Nat
  transports : List Transport
  allowFrom : List String
  deriving DecidableEq, Repr

variable {l : TopologyLinkRow}

namespace TopologyInput

variable (t : TopologyInput) {host nodeId : String}

/-- The legs into a node that its firewall lets in, each with its sender's host. -/
def ingressLegs (nodeId : String) : List (TopologyLinkRow × String) :=
  t.links.filterMap fun l =>
    if l.toNodeId ≠ nodeId ∨ l.underlay = .awg then none
    else (truthy (t.hosts l.fromNodeId)).map fun host => (l, host)

/-- One entry per port: the sockets of the cells on it and the hops that dial it. -/
def chainLinkIngressOf (nodeId : String) : List ChainLinkIngress :=
  ((OrderedMap.groupBy (fun x : TopologyLinkRow × String => x.1.cred.port)
      (t.ingressLegs nodeId)).entries.insertionSort fun a b => a.1 ≤ b.1).map fun e =>
    { port := e.1
      transports := TRANSPORTS.filter fun x =>
        e.2.any fun l => decide (x ∈ LINK_CELL_TRANSPORTS l.1.cred.protocol)
      allowFrom := (e.2.map Prod.snd).eraseDups.insertionSort (· ≤ ·) }

/-- The firewall lets the leg in from its sender's host, on every socket of its cell. -/
def Ingress (l : TopologyLinkRow) : Prop :=
  ∃ host, truthy (t.hosts l.fromNodeId) = some host ∧ ∃ e ∈ t.chainLinkIngressOf l.toNodeId,
    e.port = l.cred.port ∧ (∀ x ∈ LINK_CELL_TRANSPORTS l.cred.protocol, x ∈ e.transports)
      ∧ host ∈ e.allowFrom

theorem mem_ingressLegs :
    (l, host) ∈ t.ingressLegs nodeId ↔ l ∈ t.links ∧ l.toNodeId = nodeId ∧ l.underlay ≠ .awg
      ∧ truthy (t.hosts l.fromNodeId) = some host := by
  simp only [ingressLegs, List.mem_filterMap]
  constructor
  · rintro ⟨l', hl', h⟩
    split at h
    · cases h
    · rename_i hcond
      obtain ⟨host', hhost, heq⟩ := Option.map_eq_some_iff.mp h
      cases heq
      rw [not_or, not_not] at hcond
      exact ⟨hl', hcond.1, hcond.2, hhost⟩
  · rintro ⟨hl, hto, hmark, hhost⟩
    refine ⟨l, hl, ?_⟩
    rw [if_neg (by simp [hto, hmark]), hhost]
    rfl

/-- A leg over the internet is let in. -/
theorem ingress_of_direct (hl : l ∈ t.links)
    (hmark : l.underlay ≠ .awg) (hhost : truthy (t.hosts l.fromNodeId) = some host) :
    t.Ingress l := by
  have hmem : (l, host) ∈ t.ingressLegs l.toNodeId :=
    t.mem_ingressLegs.mpr ⟨hl, rfl, hmark, hhost⟩
  have hentry := (OrderedMap.mem_entries_groupBy
    (fun x : TopologyLinkRow × String => x.1.cred.port) (t.ingressLegs l.toNodeId) l.cred.port
    _).mpr ⟨⟨_, hmem, rfl⟩, rfl⟩
  have hgroup : (l, host) ∈ (t.ingressLegs l.toNodeId).filter
      fun a => decide (a.1.cred.port = l.cred.port) := List.mem_filter.mpr ⟨hmem, by simp⟩
  refine ⟨host, hhost, _, List.mem_map_of_mem ((List.mem_insertionSort _).mpr hentry), rfl,
    fun x hx => ?_, ?_⟩
  · refine List.mem_filter.mpr ⟨by cases x <;> decide, ?_⟩
    exact List.any_eq_true.mpr ⟨_, hgroup, decide_eq_true hx⟩
  · rw [List.mem_insertionSort, List.mem_eraseDups]
    exact List.mem_map_of_mem hgroup

/-- An entry stands for some leg over the internet. -/
theorem exists_direct_of_ingress {e : ChainLinkIngress} (he : e ∈ t.chainLinkIngressOf nodeId) :
    ∃ l ∈ t.links, l.toNodeId = nodeId ∧ l.underlay ≠ .awg := by
  obtain ⟨⟨port, legs⟩, hmem, -⟩ := List.mem_map.mp he
  rw [List.mem_insertionSort] at hmem
  obtain ⟨⟨⟨l, host⟩, hl, -⟩, -⟩ := (OrderedMap.mem_entries_groupBy _ _ _ _).mp hmem
  obtain ⟨hl, hto, hmark, -⟩ := t.mem_ingressLegs.mp hl
  exact ⟨l, hl, hto, hmark⟩

end TopologyInput

/-! ## The reader's marks and tunnels -/

/-- The stored tunnels as the renderers take them; one that cannot be read is none. -/
def readTunnels (rows : List TunnelRow) : List TopologyTunnel :=
  rows.filterMap fun r =>
    if h : r.index < MAX_LINK_TUNNELS then
      if (parseTunnelCred r.config).isSome then some ⟨r.fromNodeId, r.toNodeId, r.index, h⟩
      else none
    else none

namespace DrawnCascade

variable (K : DrawnCascade)

/-- The cascade read with its legs marked by what they ride on, over a set of stored tunnels. -/
def withTunnels (stored : List TunnelRow) : DrawnCascade :=
  { K with
    read := { K.read with
      links := K.read.links.map fun l =>
        { l with underlay := legUnderlay K.saved.positions K.saved.directions l.fromNodeId
                   l.toNodeId l.directionTag }
      tunnels := readTunnels stored }
    links_read := by
      rw [List.map_map]
      exact K.links_read }

variable {K} {stored : List TunnelRow}

theorem underlay_withTunnels (hl : l ∈ (K.withTunnels stored).read.links) :
    l.underlay = legUnderlay K.saved.positions K.saved.directions l.fromNodeId l.toNodeId
      l.directionTag := by
  obtain ⟨l', -, rfl⟩ := List.mem_map.mp hl
  rfl

/-- Two legs into one node carry one mark. -/
theorem underlay_same {l l' : TopologyLinkRow} (hl : l ∈ (K.withTunnels stored).read.links)
    (hl' : l' ∈ (K.withTunnels stored).read.links) (h : l.toNodeId = l'.toNodeId) :
    l.underlay = l'.underlay := by
  obtain ⟨p, i, hp⟩ := (K.withTunnels stored).row_planned hl
  obtain ⟨q, j, hq⟩ := (K.withTunnels stored).row_planned hl'
  have hsame := K.saved.legUnderlay_same hp.leg hq.leg (by rw [← hp.toNodeId, h, hq.toNodeId])
  rw [underlay_withTunnels hl, underlay_withTunnels hl', hp.fromNodeId, hp.toNodeId,
    hp.directionTag, hq.fromNodeId, hq.toNodeId, hq.directionTag]
  exact hsame

/-- A tunnel under a leg: its pair is stored, and its credential can be read. -/
def HasTunnel (stored : List TunnelRow) (l : TopologyLinkRow) : Prop :=
  ∃ r ∈ stored, r.fromNodeId = l.fromNodeId ∧ r.toNodeId = l.toNodeId ∧ r.index < MAX_LINK_TUNNELS
    ∧ (parseTunnelCred r.config).isSome

theorem tunnelUnder_isSome :
    ((K.withTunnels stored).read.tunnelUnder l).isSome
      ↔ l.underlay = .awg ∧ HasTunnel stored l := by
  unfold TopologyInput.tunnelUnder
  split
  · rename_i hmark
    simp only [hmark, true_and, List.find?_isSome, decide_eq_true_eq]
    constructor
    · rintro ⟨x, hx, hf, ht⟩
      obtain ⟨r, hr, hread⟩ := List.mem_filterMap.mp hx
      split at hread
      · rename_i hlt
        split at hread
        · rename_i hcred
          cases hread
          exact ⟨r, hr, hf, ht, hlt, hcred⟩
        · cases hread
      · cases hread
    · rintro ⟨r, hr, hf, ht, hlt, hcred⟩
      refine ⟨⟨r.fromNodeId, r.toNodeId, r.index, hlt⟩, List.mem_filterMap.mpr ⟨r, hr, ?_⟩, hf, ht⟩
      rw [dif_pos hlt, if_pos hcred]
  · rename_i hmark
    simp [hmark]

/-! ## The three decisions -/

/-- The sender's chain dials the leg at the node's public host, bound to no interface. -/
def DialsPublicly (K : DrawnCascade) (lib : TextLib) (secret : String → String)
    (l : TopologyLinkRow) : Prop :=
  ∃ input leg tag, K.chainAt lib secret l.fromNodeId = some input ∧ K.read.legOut l = some leg
    ∧ renderLeg input.selfHost tag leg ∈ (renderChainConfig input).outbounds
    ∧ leg.via = none ∧ truthy (K.read.hosts l.toNodeId) = some leg.host

/-- The node listens for its legs on inner tunnel addresses only. -/
def ListensInside (K : DrawnCascade) (lib : TextLib) (secret : String → String) (n : String) :
    Prop :=
  ∃ input, K.chainAt lib secret n = some input
    ∧ ∀ b ∈ (renderChainConfig input).inbounds, ∃ x ∈ K.read.tunnels, b.listen = tunnelTo x.index

/-- The leg is dialled at an address the node listens on. -/
def DialsListener (K : DrawnCascade) (lib : TextLib) (secret : String → String)
    (l : TopologyLinkRow) : Prop :=
  ∃ input leg, K.chainAt lib secret l.toNodeId = some input ∧ K.read.legOut l = some leg
    ∧ ∃ b ∈ (renderChainConfig input).inbounds, b.listen = leg.host

/-- The firewall names the leg exactly when it crosses the internet, and a node that listens
inside its tunnels only is dialled there. -/
structure LegAdmitted (K : DrawnCascade) (lib : TextLib) (secret : String → String)
    (l : TopologyLinkRow) : Prop where
  firewall : K.DialsPublicly lib secret l ↔ K.read.Ingress l
  inside : K.ListensInside lib secret l.toNodeId → K.DialsListener lib secret l

/-- The leg out of a row, by the tunnel under it. -/
theorem legOut_cases {K : DrawnCascade} {leg : ChainLegOut} (h : K.read.legOut l = some leg) :
    (K.read.tunnelUnder l = none ∧ leg.via = none
        ∧ truthy (K.read.hosts l.toNodeId) = some leg.host)
      ∨ ∃ x, K.read.tunnelUnder l = some x ∧ leg.via = some (tunnelIface x.index)
          ∧ leg.host = tunnelTo x.index := by
  unfold TopologyInput.legOut at h
  split at h
  · cases h
  · rename_i host hhost
    split at h
    · rename_i x hx
      cases h
      exact Or.inr ⟨x, hx, rfl, rfl⟩
    · rename_i hx
      cases h
      exact Or.inl ⟨hx, rfl, hhost⟩

/-- The sender dials publicly where no tunnel is under the leg. -/
theorem HostsKnown.dialsPublicly_iff {K : DrawnCascade} (h : K.HostsKnown) (lib : TextLib)
    (secret : String → String) (hl : l ∈ K.read.links) :
    K.DialsPublicly lib secret l ↔ K.read.tunnelUnder l = none := by
  obtain ⟨leg, hleg, -, -⟩ := h.legOut hl
  constructor
  · rintro ⟨-, leg', -, -, hleg', -, hvia, -⟩
    rw [hleg] at hleg'
    cases hleg'
    rcases legOut_cases hleg with ⟨hnone, -⟩ | ⟨x, -, hiface, -⟩
    · exact hnone
    · rw [hvia] at hiface
      cases hiface
  · intro hnone
    obtain ⟨input, hat, hout⟩ := h.chainAt_from lib secret hl
    have hmem : leg ∈ input.out := by
      rw [hout]
      exact mem_out.mpr ⟨l, hl, rfl, hleg⟩
    obtain ⟨tag, -, hrender⟩ := ChainRenderInput.leg_outbound hmem
    rcases legOut_cases hleg with ⟨-, hvia, hhost⟩ | ⟨x, hx, -⟩
    · exact ⟨input, leg, tag, hat, hleg, hrender, hvia, hhost⟩
    · rw [hnone] at hx
      cases hx

/-- The firewall goes by the mark of the leg. -/
theorem ingress_iff (h : (K.withTunnels stored).HostsKnown)
    (hl : l ∈ (K.withTunnels stored).read.links) :
    (K.withTunnels stored).read.Ingress l ↔ l.underlay ≠ .awg := by
  constructor
  · rintro ⟨host, -, e, he, -⟩
    obtain ⟨l', hl', hto, hmark⟩ :=
      (K.withTunnels stored).read.exists_direct_of_ingress he
    rw [underlay_same hl hl' hto.symm]
    exact hmark
  · intro hmark
    obtain ⟨i, hat, -⟩ := (K.withTunnels stored).row_ends hl
    obtain ⟨host, hhost⟩ := Option.isSome_iff_exists.mp (h _ (Or.inl ⟨i, hat⟩))
    exact (K.withTunnels stored).read.ingress_of_direct hl hmark hhost

theorem tunnelTo_ne_wildcard (i : Nat) : tunnelTo i ≠ "0.0.0.0" := by
  refine ne_of_char 0 ?_
  simp [tunnelTo, LINK_TUNNEL_NET_PREFIX]

theorem legIn_listen {K : DrawnCascade} {n : String} {leg : ChainLegIn}
    (h : K.read.legIn n = some leg) : leg.listen = K.read.linkInListen (K.read.linksTo n) := by
  unfold TopologyInput.legIn at h
  split at h
  · cases h
  · rename_i l ls hl
    cases h
    rw [hl]

/-- A node that listens inside its tunnels only has one under every leg. -/
theorem HostsKnown.dialsListener {K : DrawnCascade} (h : K.HostsKnown) (lib : TextLib)
    (secret : String → String) (hl : l ∈ K.read.links)
    (hin : K.ListensInside lib secret l.toNodeId) : K.DialsListener lib secret l := by
  obtain ⟨leg, input, hleg, hat, hinb⟩ := h.chainAt_to lib secret hl
  obtain ⟨input', hat', hall⟩ := hin
  rw [hat] at hat'
  cases hat'
  obtain ⟨out, hout, -, -⟩ := h.legOut hl
  refine ⟨input, out, hat, hout, ?_⟩
  rw [hinb] at hall ⊢
  have hlisten := legIn_listen hleg
  unfold TopologyInput.linkInListen at hlisten
  split at hlisten
  · -- the wildcard listener is no inner address
    have hwild : linkInbounds leg = listenersAt leg ["0.0.0.0"] := by
      unfold linkInbounds
      rw [hlisten]
    rw [hwild] at hall
    obtain ⟨x, -, hx⟩ := hall _ (List.mem_map_of_mem (List.mem_cons_self ..))
    exact absurd hx.symm (tunnelTo_ne_wildcard _)
  · rename_i hcond
    rw [not_or] at hcond
    have hto : l ∈ K.read.linksTo l.toNodeId := List.mem_filter.mpr ⟨hl, by simp⟩
    obtain ⟨x, hx⟩ : ∃ x, K.read.tunnelUnder l = some x := by
      cases hx : K.read.tunnelUnder l with
      | some x => exact ⟨x, rfl⟩
      | none => exact absurd (List.any_eq_true.mpr ⟨l, hto, by simp [hx]⟩) hcond.2
    have hhost : out.host = tunnelTo x.index := by
      rcases legOut_cases hout with ⟨hnone, -⟩ | ⟨y, hy, -, hhost⟩
      · rw [hx] at hnone
        cases hnone
      · rw [hx] at hy
        cases hy
        exact hhost
    obtain ⟨addrs, haddrs⟩ : ∃ addrs, addrs = (((K.read.linksTo l.toNodeId).filterMap
        K.read.tunnelUnder).map fun x => tunnelTo x.index).eraseDups := ⟨_, rfl⟩
    rw [← haddrs] at hlisten
    have hmem : tunnelTo x.index ∈ addrs := by
      rw [haddrs, List.mem_eraseDups]
      exact List.mem_map_of_mem (f := fun x : TopologyTunnel => tunnelTo x.index)
        (List.mem_filterMap.mpr ⟨l, hto, hx⟩)
    have hlist : linkInbounds leg = listenersAt leg addrs := by
      unfold linkInbounds
      rw [hlisten]
      cases addrs with
      | nil => cases hmem
      | cons a as => rfl
    obtain ⟨i, hi⟩ := List.mem_iff_getElem?.mp hmem
    rw [hlist, hhost]
    exact ⟨_, List.mem_map_of_mem (List.mk_mem_zipIdx_iff_getElem?.mpr hi), rfl⟩

/-- **The firewall and the sender agree on a leg** when, and only when, a leg marked for a tunnel
has one. -/
theorem legAdmitted_iff (K : DrawnCascade) (stored : List TunnelRow)
    (h : (K.withTunnels stored).HostsKnown) (lib : TextLib) (secret : String → String)
    (l : TopologyLinkRow) (hl : l ∈ (K.withTunnels stored).read.links) :
    (K.withTunnels stored).LegAdmitted lib secret l
      ↔ (l.underlay = .awg → HasTunnel stored l) := by
  have hdial := h.dialsPublicly_iff lib secret hl
  have hnone : (K.withTunnels stored).read.tunnelUnder l = none
      ↔ ¬ (l.underlay = .awg ∧ HasTunnel stored l) := by
    rw [← tunnelUnder_isSome, Option.not_isSome_iff_eq_none]
  have hfire : (K.withTunnels stored).LegAdmitted lib secret l
      ↔ ((K.withTunnels stored).DialsPublicly lib secret l
          ↔ (K.withTunnels stored).read.Ingress l) :=
    ⟨fun ha => ha.firewall, fun hf => ⟨hf, h.dialsListener lib secret hl⟩⟩
  rw [hfire, hdial, hnone, ingress_iff h hl]
  tauto

end DrawnCascade

/-! ## A leg marked for a tunnel -/

/-- One entry and one exit, the leg between them inside a tunnel. -/
def tunnelPath : SavedTopology where
  sent := [{ nodeIds := [nodeA], position := 0, entryProtocol := some "xray",
             linkProtocol := some "vless", linkParams := some { underlay := some .awg } }]
  directions := [⟨1, { nodeIds := [nodeB] }⟩]
  validated :=
    { positions := [{ nodeIds := [nodeA], position := 0, entryProtocol := some "xray",
                      linkProtocol := some "vless", linkParams := some { underlay := some .awg } }]
      directions := [{ nodeIds := [nodeB] }]
      linkCount := 1 }
  accepted := by decide
  tags := vlessPath.tags
  tags_range := vlessPath.tags_range
  uuids := by decide

def tunnelCascade : DrawnCascade := firstSave tunnelPath (sampleMinting "1") rfl

def sampleTunnelCred : TunnelCred where
  dialling := ⟨"priv-from", "pub-from"⟩
  receiving := ⟨"priv-to", "pub-to"⟩
  obfuscation := { jc := 3, jmin := 64, jmax := 128, s1 := 16, s2 := 17, s3 := 8, s4 := 1, h1 := 5,
                   h2 := 6, h3 := 7, h4 := 8 }

/-- The row of the pair's tunnel. -/
def sampleTunnel : TunnelRow where
  id := "t0"
  cascadeId := "c0"
  fromNodeId := nodeA
  toNodeId := nodeB
  index := 0
  port := tunnelPort 0
  config := sampleTunnelCred.json

/-- The leg of `tunnelCascade`. -/
def tunnelLeg : PlannedLeg :=
  { fromNodeId := nodeA, toNodeId := nodeB, directionTag := 1, protocol := .vless, step := 0,
    congestion := none }

theorem tunnelCascade_row (stored : List TunnelRow) :
    ∃ l ∈ (tunnelCascade.withTunnels stored).read.links, l.fromNodeId = nodeA ∧ l.toNodeId = nodeB
      ∧ l.underlay = .awg := by
  have hplan : (tunnelCascade.withTunnels stored).plan = [tunnelLeg] := rfl
  obtain ⟨l, hl, hrow⟩ := (tunnelCascade.withTunnels stored).row_at (p := tunnelLeg) (i := 0)
    (by simp [hplan])
  refine ⟨l, hl, hrow.fromNodeId, hrow.toNodeId, ?_⟩
  rw [DrawnCascade.underlay_withTunnels hl, hrow.fromNodeId, hrow.toNodeId, hrow.directionTag]
  decide

theorem tunnelCascade_hosts (stored : List TunnelRow) :
    (tunnelCascade.withTunnels stored).HostsKnown :=
  DrawnCascade.hostsKnown_firstSave tunnelPath (sampleMinting "1") rfl

/-- With its tunnel stored, the leg is admitted. -/
theorem legAdmitted_tunnelCascade :
    ∃ l ∈ (tunnelCascade.withTunnels [sampleTunnel]).read.links, l.underlay = .awg
      ∧ (tunnelCascade.withTunnels [sampleTunnel]).LegAdmitted asciiText (fun _ => "secret") l := by
  obtain ⟨l, hl, hf, ht, hmark⟩ := tunnelCascade_row [sampleTunnel]
  refine ⟨l, hl, hmark, ?_⟩
  refine (DrawnCascade.legAdmitted_iff tunnelCascade [sampleTunnel] (tunnelCascade_hosts _)
    asciiText (fun _ => "secret") l hl).mpr fun _ => ?_
  refine ⟨sampleTunnel, List.mem_singleton_self _, hf.symm, ht.symm, by decide, ?_⟩
  simp [sampleTunnel, parseTunnelCred_json]

/-- Without it the sender dials the public host, and the firewall has nothing for the leg. -/
theorem tunnelCascade_refuses : (tunnelCascade.withTunnels []).HostsKnown
    ∧ ¬ ∀ l ∈ (tunnelCascade.withTunnels []).read.links,
        (tunnelCascade.withTunnels []).LegAdmitted asciiText (fun _ => "secret") l := by
  have hosts := tunnelCascade_hosts []
  refine ⟨hosts, fun hall => ?_⟩
  obtain ⟨l, hl, -, -, hmark⟩ := tunnelCascade_row []
  have hdial := (hosts.dialsPublicly_iff asciiText (fun _ => "secret") hl).mpr ?_
  · have hin := (hall l hl).firewall.mp hdial
    exact (DrawnCascade.ingress_iff hosts hl).mp hin hmark
  · rw [← Option.not_isSome_iff_eq_none, DrawnCascade.tunnelUnder_isSome]
    rintro ⟨-, r, hr, -⟩
    cases hr

end Iceslab
