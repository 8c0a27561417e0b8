import Iceslab.ChainLoads

/-!
# The input of each node, by its place

A node stands on a position or behind a direction, and its place decides its role and what its
chain is rendered from.

* `row_between`, `row_into` — the rows between two places; `mem_foreignOf` — the named outbounds.
* `chainAt_entry`, `chainAt_transit`, `chainAt_exit` — the input at each place.
* `leg_outbound` — every leg out is one outbound of the config.
-/

set_option autoImplicit false

namespace Iceslab

variable {leg : ChainLegOut}

namespace DrawnCascade

variable (K : DrawnCascade) {r : TopologyLinkRow} {d : TaggedDirection} {i : Nat}

/-- Every node of the cascade has an address: a deleted one draws nothing. -/
def HostsKnown : Prop := ∀ n, (∃ i, K.At i n) ∨ K.InPool n → (truthy (K.read.hosts n)).isSome

/-- The last position. -/
def lastIndex : Nat := K.saved.positions.length - 1

/-! ## Places -/

theorem length_positions_pos : 0 < K.saved.positions.length :=
  List.length_pos_iff.mpr K.saved.admitted.positions_ne

theorem exists_at (hi : i < K.saved.positions.length) : ∃ n, K.At i n := by
  have hp := List.getElem?_eq_getElem hi
  obtain ⟨n, hn⟩ := List.exists_mem_of_ne_nil _
    (K.saved.admitted.pools _ (List.mem_of_getElem? hp))
  exact ⟨n, _, hp, hn⟩

theorem exists_direction : ∃ d, d ∈ K.saved.directions := by
  have hne : K.saved.directions ≠ [] := fun h => K.saved.admitted.directions_ne (by rw [h]; rfl)
  exact List.exists_mem_of_ne_nil _ hne

/-! ## The rows between two places -/

/-- Neighbouring positions are joined by a leg for every direction. -/
theorem row_between {f n : String} (hf : K.At i f)
    (hn : K.At (i + 1) n) (hd : d ∈ K.saved.directions) :
    ∃ r ∈ K.read.links, r.fromNodeId = f ∧ r.toNodeId = n ∧ r.directionTag = d.tag := by
  obtain ⟨a, ha, hfa⟩ := hf
  obtain ⟨b, hb, hnb⟩ := hn
  have hleg : K.Leg _ := Planned.between ha hb hfa hnb hd
  obtain ⟨r, hr, j, hrow⟩ := K.planned_row hleg
  exact ⟨r, hr, hrow.fromNodeId, hrow.toNodeId, hrow.directionTag⟩

/-- The last position reaches every node behind a direction. -/
theorem row_into {f n : String} (hf : K.At K.lastIndex f)
    (hd : d ∈ K.saved.directions) (hn : n ∈ d.direction.nodeIds) :
    ∃ r ∈ K.read.links, r.fromNodeId = f ∧ r.toNodeId = n ∧ r.directionTag = d.tag := by
  obtain ⟨a, ha, hfa⟩ := hf
  have hlen := K.length_positions_pos
  have hlast : K.lastIndex + 1 = K.saved.positions.length := by
    unfold lastIndex
    omega
  have hleg : K.Leg _ := Planned.into ha hlast hfa hd hn
  obtain ⟨r, hr, j, hrow⟩ := K.planned_row hleg
  exact ⟨r, hr, hrow.fromNodeId, hrow.toNodeId, hrow.directionTag⟩

theorem row_ends (hr : r ∈ K.read.links) : ∃ i, K.At i r.fromNodeId ∧ (K.At (i + 1) r.toNodeId
      ∨ i = K.lastIndex ∧ ∃ d ∈ K.saved.directions, d.tag = r.directionTag
          ∧ r.toNodeId ∈ d.direction.nodeIds) := by
  obtain ⟨p, j, hp⟩ := K.row_planned hr
  obtain ⟨i, -, hf, hto⟩ := hp.leg.ends
  refine ⟨i, by rw [hp.fromNodeId]; exact hf, ?_⟩
  rw [hp.toNodeId, hp.directionTag]
  refine hto.imp id fun ⟨hi, h⟩ => ⟨?_, h⟩
  unfold lastIndex
  omega

theorem exists_row_to_at {n : String} (h : K.At (i + 1) n) :
    ∃ r ∈ K.read.links, r.toNodeId = n := by
  obtain ⟨f, hf⟩ := K.exists_at (Nat.lt_of_succ_lt h.lt)
  obtain ⟨d, hd⟩ := K.exists_direction
  obtain ⟨r, hr, -, hto, -⟩ := K.row_between hf h hd
  exact ⟨r, hr, hto⟩

theorem exists_row_to_pool {n : String} (h : K.InPool n) : ∃ r ∈ K.read.links, r.toNodeId = n := by
  have hlen := K.length_positions_pos
  obtain ⟨f, hf⟩ := K.exists_at (i := K.lastIndex) (by unfold lastIndex; omega)
  obtain ⟨d, hd, hn⟩ := h
  obtain ⟨r, hr, -, hto, -⟩ := K.row_into hf hd hn
  exact ⟨r, hr, hto⟩

/-! ## The named outbounds of the last position -/

theorem at_last_iff_read (n : String) :
    K.At K.lastIndex n ↔ ∃ q, K.read.positions.getLast? = some q ∧ n ∈ q.nodeIds := by
  rw [at_iff_read, List.getLast?_eq_getElem?, K.length_read_positions, lastIndex]

/-- The last position dials every named outbound. -/
theorem mem_foreignOf {n : String} {f : ChainForeignOut} :
    f ∈ K.read.foreignOf n ↔ K.At K.lastIndex n
      ∧ ∃ e ∈ K.read.directions, ∃ o, e.outbound = some o ∧ f = ⟨e.tag, o.1, o.2⟩ := by
  rw [at_last_iff_read]
  unfold TopologyInput.foreignOf
  split
  · rename_i hnone
    simp [hnone]
  · rename_i last hlast
    simp only [hlast, Option.some.injEq, exists_eq_left']
    split
    · rename_i hn
      simp only [hn, true_and, List.mem_filterMap, Option.map_eq_some_iff, @eq_comm _ _ f]
    · rename_i hn
      simp [hn]

/-- A direction has a pool, or a named outbound in its place. -/
theorem pool_or_foreign (hd : d ∈ K.saved.directions) :
    (∃ n, n ∈ d.direction.nodeIds)
      ∨ ∃ e ∈ K.read.directions, e.tag = d.tag ∧ e.outbound.isSome := by
  obtain ⟨order, hperm, hrows⟩ := K.directions_read
  obtain ⟨e, he, htag, -, hout⟩ := Paired.exists_right_of_forall₂ hrows (hperm.mem_iff.mpr hd)
  have hshape := K.saved.admitted.shapes _ (List.mem_map_of_mem hd)
  by_cases hnil : d.direction.nodeIds = []
  · exact Or.inr ⟨e, he, htag, hout.mpr (hshape.mpr hnil)⟩
  · exact Or.inl (List.exists_mem_of_ne_nil _ hnil)

/-- The last position reaches every direction, by a leg or by a named outbound. -/
theorem way_at_last {f : String} (hf : K.At K.lastIndex f) (hd : d ∈ K.saved.directions) :
    (∃ r ∈ K.read.links, r.fromNodeId = f ∧ r.directionTag = d.tag)
      ∨ ∃ w ∈ K.read.foreignOf f, w.tag = d.tag := by
  rcases K.pool_or_foreign hd with ⟨n, hn⟩ | ⟨e, he, htag, hsome⟩
  · obtain ⟨r, hr, hfrom, -, hdir⟩ := K.row_into hf hd hn
    exact Or.inl ⟨r, hr, hfrom, hdir⟩
  · obtain ⟨o, ho⟩ := Option.isSome_iff_exists.mp hsome
    exact Or.inr ⟨⟨e.tag, o.1, o.2⟩, K.mem_foreignOf.mpr ⟨hf, e, he, o, ho, rfl⟩, htag⟩

/-- A node on a position has a way out for every direction. -/
theorem way_of {f : String} (hf : K.At i f) (hd : d ∈ K.saved.directions) :
    (∃ r ∈ K.read.links, r.fromNodeId = f ∧ r.directionTag = d.tag)
      ∨ ∃ w ∈ K.read.foreignOf f, w.tag = d.tag := by
  have hlt := hf.lt
  by_cases hi : i + 1 < K.saved.positions.length
  · obtain ⟨n, hn⟩ := K.exists_at hi
    obtain ⟨r, hr, hfrom, -, hdir⟩ := K.row_between hf hn hd
    exact Or.inl ⟨r, hr, hfrom, hdir⟩
  · obtain rfl : i = K.lastIndex := by
      unfold lastIndex
      omega
    exact K.way_at_last hf hd

/-! ## The listening half -/

theorem legIn_isSome {n : String} (h : ∃ r ∈ K.read.links, r.toNodeId = n) :
    ∃ leg, K.read.legIn n = some leg := by
  obtain ⟨r, hr, hto⟩ := h
  have hmem : r ∈ K.read.linksTo n := List.mem_filter.mpr ⟨hr, decide_eq_true hto⟩
  unfold TopologyInput.legIn
  split
  · rename_i hnil
    rw [hnil] at hmem
    cases hmem
  · exact ⟨_, rfl⟩

/-- The listener's credential is the first arriving leg's, its clients are all of them. -/
theorem legIn_eq_some {n : String} {leg : ChainLegIn} (h : K.read.legIn n = some leg) :
    (∃ r ∈ K.read.links, r.toNodeId = n ∧ r.cred = leg.cred)
      ∧ leg.clients = (K.read.linksTo n).map TopologyInput.clientOf := by
  unfold TopologyInput.legIn at h
  split at h
  · cases h
  · rename_i l ls hl
    cases h
    have hmem : l ∈ K.read.linksTo n := by
      rw [hl]
      exact List.mem_cons_self
    obtain ⟨hl', hto⟩ := List.mem_filter.mp hmem
    exact ⟨⟨l, hl', of_decide_eq_true hto, rfl⟩, by rw [hl]⟩

/-! ## The dialling half -/

variable {K}

theorem HostsKnown.legOut (h : K.HostsKnown) (hr : r ∈ K.read.links) :
    ∃ leg, K.read.legOut r = some leg ∧ leg.tag = r.directionTag ∧ leg.cred = r.cred := by
  have hplace : (∃ i, K.At i r.toNodeId) ∨ K.InPool r.toNodeId := by
    obtain ⟨i, -, hto | ⟨-, d, hd, -, hn⟩⟩ := K.row_ends hr
    · exact Or.inl ⟨_, hto⟩
    · exact Or.inr ⟨d, hd, hn⟩
  obtain ⟨host, hhost⟩ := Option.isSome_iff_exists.mp (h _ hplace)
  unfold TopologyInput.legOut
  rw [hhost]
  simp only
  split
  · exact ⟨_, rfl, rfl, rfl⟩
  · exact ⟨_, rfl, rfl, rfl⟩

theorem HostsKnown.length_out (h : K.HostsKnown) (n : String) :
    ((K.read.linksFrom n).filterMap K.read.legOut).length = (K.read.linksFrom n).length := by
  rw [List.filterMap_length_eq_length]
  intro r hr
  obtain ⟨leg, hleg, -⟩ := h.legOut (List.mem_filter.mp hr).1
  rw [hleg]
  rfl

theorem mem_out {n : String} :
    leg ∈ (K.read.linksFrom n).filterMap K.read.legOut
      ↔ ∃ r ∈ K.read.links, r.fromNodeId = n ∧ K.read.legOut r = some leg := by
  simp only [List.mem_filterMap, TopologyInput.linksFrom, List.mem_filter, decide_eq_true_eq,
    and_assoc]

theorem legOut_tag (h : K.read.legOut r = some leg) :
    leg.tag = r.directionTag ∧ leg.cred = r.cred := by
  unfold TopologyInput.legOut at h
  split at h
  · cases h
  · split at h
    · cases h
      exact ⟨rfl, rfl⟩
    · cases h
      exact ⟨rfl, rfl⟩

/-! ## The inputs -/

section Inputs

variable {lib : TextLib} {n secret : String}

/-- The chain input of an entry node. -/
def entryInput (K : DrawnCascade) (lib : TextLib) (n secret : String) : ChainRenderInput :=
  { role := .entry
    socksPassword := secret
    selfHost := truthy (K.read.hosts n)
    directionTags := K.read.directionTags n
    out := (K.read.linksFrom n).filterMap K.read.legOut
    foreign := K.read.foreignOf n
    policies := (chainPoliciesOf lib K.read.policies).policies
    ruleSets := (chainPoliciesOf lib K.read.policies).ruleSets.map fun r => ⟨r.tag, r.path⟩
    tproxy := if K.read.entryProtocol = some "amneziawg" then
        some (K.read.entryPolicyOrdinal.getD 0)
      else none }

/-- The chain input of a transit node. -/
def transitInput (K : DrawnCascade) (n secret : String) (leg : ChainLegIn) : ChainRenderInput :=
  { role := .transit
    socksPassword := secret
    selfHost := truthy (K.read.hosts n)
    legIn := some leg
    out := (K.read.linksFrom n).filterMap K.read.legOut
    foreign := K.read.foreignOf n }

/-- The chain input of an exit node. -/
def exitInput (secret : String) (leg : ChainLegIn) : ChainRenderInput :=
  { role := .exit, socksPassword := secret, legIn := some leg }

theorem HostsKnown.chainInputFor_entry (h : K.HostsKnown) :
    K.read.chainInputFor lib n .entry secret = some (entryInput K lib n secret) := by
  simp only [TopologyInput.chainInputFor, h.length_out, ne_eq, not_true_eq_false, if_false]
  rfl

theorem HostsKnown.chainInputFor_transit (h : K.HostsKnown) {leg : ChainLegIn}
    (hleg : K.read.legIn n = some leg) :
    K.read.chainInputFor lib n .transit secret = some (transitInput K n secret leg) := by
  simp only [TopologyInput.chainInputFor, h.length_out, ne_eq, not_true_eq_false, if_false, hleg]
  rfl

theorem HostsKnown.chainInputFor_exit (h : K.HostsKnown) {leg : ChainLegIn}
    (hleg : K.read.legIn n = some leg) :
    K.read.chainInputFor lib n .exit secret = some (exitInput secret leg) := by
  simp only [TopologyInput.chainInputFor, h.length_out, ne_eq, not_true_eq_false, if_false, hleg]
  rfl

/-- The chain input of a node, by whatever role it plays; `secret` is each node's loopback
password. -/
def chainAt (K : DrawnCascade) (lib : TextLib) (secret : String → String) (n : String) :
    Option ChainRenderInput :=
  (K.read.chainRoleOf n).bind fun role => K.read.chainInputFor lib n role (secret n)

variable (lib : TextLib) (secret : String → String)

theorem HostsKnown.chainAt_entry (h : K.HostsKnown) (hn : K.At 0 n) :
    K.chainAt lib secret n = some (entryInput K lib n (secret n)) := by
  obtain ⟨d, hd⟩ := K.exists_direction
  have hrole : K.read.chainRoleOf n = some .entry := by
    refine K.role_of_entry hn ?_
    rcases K.way_of hn hd with ⟨r, hr, hfrom, -⟩ | ⟨w, hw, -⟩
    · exact Or.inl ⟨r, hr, hfrom⟩
    · exact Or.inr (List.ne_nil_of_mem hw)
  rw [chainAt, hrole]
  exact h.chainInputFor_entry

theorem HostsKnown.chainAt_transit (h : K.HostsKnown) (hn : K.At (i + 1) n) :
    ∃ leg, K.read.legIn n = some leg
      ∧ K.chainAt lib secret n = some (transitInput K n (secret n) leg) := by
  obtain ⟨r, hr, hto⟩ := K.exists_row_to_at hn
  obtain ⟨leg, hleg⟩ := K.legIn_isSome ⟨r, hr, hto⟩
  have hrole := (K.role_of_to ⟨r, hr, hto⟩ fun h0 => absurd (h0.unique hn) (by simp)).2
    hn.not_inPool
  refine ⟨leg, hleg, ?_⟩
  rw [chainAt, hrole]
  exact h.chainInputFor_transit hleg

theorem HostsKnown.chainAt_exit (h : K.HostsKnown) (hn : K.InPool n) :
    ∃ leg, K.read.legIn n = some leg
      ∧ K.chainAt lib secret n = some (exitInput (secret n) leg) := by
  obtain ⟨r, hr, hto⟩ := K.exists_row_to_pool hn
  obtain ⟨leg, hleg⟩ := K.legIn_isSome ⟨r, hr, hto⟩
  have hrole := (K.role_of_to ⟨r, hr, hto⟩ fun h0 => h0.not_inPool hn).1 hn
  refine ⟨leg, hleg, ?_⟩
  rw [chainAt, hrole]
  exact h.chainInputFor_exit hleg

/-- A node a leg lands on listens for it, with its link-in listeners and nothing else. -/
theorem HostsKnown.chainAt_to (h : K.HostsKnown) (hr : r ∈ K.read.links) :
    ∃ leg input, K.read.legIn r.toNodeId = some leg
      ∧ K.chainAt lib secret r.toNodeId = some input
      ∧ (renderChainConfig input).inbounds = linkInbounds leg := by
  obtain ⟨i, -, hto | ⟨-, d, hd, -, hn⟩⟩ := K.row_ends hr
  · obtain ⟨leg, hleg, hat⟩ := h.chainAt_transit lib secret hto
    exact ⟨leg, _, hleg, hat, rfl⟩
  · obtain ⟨leg, hleg, hat⟩ := h.chainAt_exit lib secret ⟨d, hd, hn⟩
    exact ⟨leg, _, hleg, hat, rfl⟩

/-- A node a leg starts from dials the legs of its rows. -/
theorem HostsKnown.chainAt_from (h : K.HostsKnown) (hr : r ∈ K.read.links) :
    ∃ input, K.chainAt lib secret r.fromNodeId = some input
      ∧ input.out = (K.read.linksFrom r.fromNodeId).filterMap K.read.legOut := by
  obtain ⟨i, hfrom, -⟩ := K.row_ends hr
  cases i with
  | zero => exact ⟨_, h.chainAt_entry lib secret hfrom, rfl⟩
  | succ i =>
    obtain ⟨leg, -, hat⟩ := h.chainAt_transit lib secret hfrom
    exact ⟨_, hat, rfl⟩

end Inputs

end DrawnCascade

/-! ## A leg among the outbounds -/

/-- Every leg out is an outbound of its direction: under the direction's tag, or inside its
group. -/
theorem ChainRenderInput.leg_outbound {input : ChainRenderInput}
    (h : leg ∈ input.out) : ∃ tag, WayTag leg.tag tag
      ∧ renderLeg input.selfHost tag leg ∈ input.outbounds := by
  have hentry : (leg.tag, input.out.filter fun l => decide (l.tag = leg.tag))
      ∈ input.sortedDirections := by
    refine (List.perm_insertionSort _ _).mem_iff.mpr ?_
    exact (OrderedMap.mem_entries_groupBy _ _ _ _).mpr ⟨⟨leg, h, rfl⟩, rfl⟩
  have hmem : leg ∈ input.out.filter fun l => decide (l.tag = leg.tag) :=
    List.mem_filter.mpr ⟨h, decide_eq_true rfl⟩
  have hdir : ∃ tag, WayTag leg.tag tag
      ∧ renderLeg input.selfHost tag leg ∈ input.directionOutbounds
          (leg.tag, input.out.filter fun l => decide (l.tag = leg.tag)) := by
    unfold ChainRenderInput.directionOutbounds
    split
    · rename_i l hl
      simp only at hl
      rw [hl, List.mem_singleton] at hmem
      exact ⟨_, Or.inl rfl, by rw [hmem]; exact List.mem_singleton_self _⟩
    · obtain ⟨i, hi⟩ := List.mem_iff_getElem?.mp hmem
      refine ⟨poolLegTag leg.tag i, Or.inr ⟨i, rfl⟩, List.mem_append_left _ ?_⟩
      exact List.mem_map.mpr ⟨(leg, i), List.mk_mem_zipIdx_iff_getElem?.mpr hi, rfl⟩
  obtain ⟨tag, htag, hout⟩ := hdir
  refine ⟨tag, htag, ?_⟩
  unfold ChainRenderInput.outbounds
  simp only [List.mem_append, List.mem_flatMap]
  exact Or.inl (Or.inl (Or.inl ⟨_, hentry, hout⟩))

end Iceslab
