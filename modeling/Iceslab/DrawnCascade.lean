import Iceslab.ChainInput
import Iceslab.LegStability
import Iceslab.Lib.Paired

/-!
# A saved cascade, drawn

A cascade from the save to the drawing: the saved topology, the legs the save generated for it
from whatever was stored before, and the topology as a node's drawing reads it back.

* `DrawnCascade` — the three, tied together.
* `row_planned`, `planned_row` — the rows read back are the planned legs.
* `role_of_from`, `role_of_to` — the roles of the two ends of a leg.
-/

set_option autoImplicit false

namespace Iceslab

open Paired (exists_left_of_forall₂ exists_right_of_forall₂ getElem?_of_forall₂)

/-- The stored leg a row was read from. -/
def TopologyLinkRow.asLink (r : TopologyLinkRow) : TopologyLink :=
  { fromNodeId := r.fromNodeId, toNodeId := r.toNodeId, directionTag := r.directionTag,
    protocol := r.cred.protocol, cred := r.cred }

/-- A direction as it is read back: its pool in any order, an outbound where it stands on one. -/
def ReadsDirection (d : TaggedDirection) (e : TopologyDirection) : Prop :=
  e.tag = d.tag ∧ e.nodeIds.Perm d.direction.nodeIds
    ∧ (e.outbound.isSome ↔ (truthy d.direction.outboundId).isSome)

/-- A cascade that was saved, and is read to be drawn. -/
structure DrawnCascade where
  saved : SavedTopology
  mint : Minting
  /-- the leg credentials stored before the save -/
  existing : String → Option LinkCred
  links : List TopologyLink
  generated : generateTopologyLinks mint existing saved.positions saved.directions = .ok links
  read : TopologyInput
  positions_read : List.Forall₂ (fun p q => q.position = p.position ∧ q.nodeIds.Perm p.nodeIds)
    saved.positions read.positions
  directions_read : ∃ order : List TaggedDirection, order.Perm saved.directions
    ∧ List.Forall₂ ReadsDirection order read.directions
  links_read : (read.links.map TopologyLinkRow.asLink).Perm links
  entry_read : read.entryProtocol = saved.positions.head?.bind (·.entryProtocol)

namespace DrawnCascade

variable (K : DrawnCascade) {p : PlannedLeg} {r : TopologyLinkRow} {n : String} {i : Nat}

/-! ## The legs -/

/-- The legs of the save, planned. -/
def plan : List PlannedLeg :=
  match planLegs K.saved.directions 0 K.saved.positions with
  | .ok plan => plan
  | .error _ => []

theorem planned : planLegs K.saved.directions 0 K.saved.positions = .ok K.plan
    ∧ K.links = K.plan.zipIdx.map (linkOf K.mint K.existing K.plan) := by
  obtain ⟨plan, hplan, hlinks⟩ := generateTopologyLinks_eq_ok.mp K.generated
  obtain rfl : K.plan = plan := by rw [DrawnCascade.plan, hplan]
  exact ⟨hplan, hlinks⟩

/-- The legs the topology implies. -/
def Leg (p : PlannedLeg) : Prop := Planned K.saved.directions 0 K.saved.positions p

theorem mem_plan_iff (p : PlannedLeg) : p ∈ K.plan ↔ K.Leg p :=
  Iceslab.mem_plan_iff K.planned.1 p

/-- A row is the planned leg at some index, with the credential drawn there. -/
structure RowOf (p : PlannedLeg) (i : Nat) (r : TopologyLinkRow) : Prop where
  at_index : (p, i) ∈ K.plan.zipIdx
  leg : K.Leg p
  fromNodeId : r.fromNodeId = p.fromNodeId
  toNodeId : r.toNodeId = p.toNodeId
  directionTag : r.directionTag = p.directionTag
  cred : r.cred = legCred K.mint K.existing K.plan p i

theorem mem_plan_of_zipIdx (h : (p, i) ∈ K.plan.zipIdx) : p ∈ K.plan := by
  have := List.mem_map_of_mem (f := Prod.fst) h
  rwa [List.zipIdx_map_fst] at this

theorem row_planned (hr : r ∈ K.read.links) : ∃ p i, K.RowOf p i r := by
  have hmem := K.links_read.mem_iff.mp (List.mem_map_of_mem hr)
  rw [K.planned.2] at hmem
  obtain ⟨⟨p, i⟩, he, heq⟩ := List.mem_map.mp hmem
  simp only [TopologyLinkRow.asLink, linkOf, TopologyLink.mk.injEq] at heq
  obtain ⟨hf, ht, hd, -, hc⟩ := heq
  exact ⟨p, i, he, (K.mem_plan_iff p).mp (K.mem_plan_of_zipIdx he), hf.symm, ht.symm, hd.symm,
    hc.symm⟩

theorem row_at (he : (p, i) ∈ K.plan.zipIdx) : ∃ r ∈ K.read.links, K.RowOf p i r := by
  have hmem : linkOf K.mint K.existing K.plan (p, i) ∈ K.links := by
    rw [K.planned.2]
    exact List.mem_map_of_mem he
  obtain ⟨r, hr, heq⟩ := List.mem_map.mp (K.links_read.mem_iff.mpr hmem)
  simp only [TopologyLinkRow.asLink, linkOf, TopologyLink.mk.injEq] at heq
  obtain ⟨hf, ht, hd, -, hc⟩ := heq
  exact ⟨r, hr, he, (K.mem_plan_iff p).mp (K.mem_plan_of_zipIdx he), hf, ht, hd, hc⟩

theorem planned_row (hp : K.Leg p) : ∃ r ∈ K.read.links, ∃ i, K.RowOf p i r := by
  obtain ⟨i, hi⟩ := List.mem_iff_getElem?.mp ((K.mem_plan_iff p).mpr hp)
  obtain ⟨r, hr, hrow⟩ := K.row_at (List.mk_mem_zipIdx_iff_getElem?.mpr hi)
  exact ⟨r, hr, i, hrow⟩

variable {K}

theorem RowOf.protocol (h : K.RowOf p i r) : r.cred.protocol = p.protocol := by
  rw [h.cred]
  exact legCred_protocol K.mint K.existing ((K.mem_plan_iff p).mpr h.leg) i

theorem RowOf.port (h : K.RowOf p i r) : r.cred.port = p.port := by
  rw [h.cred]
  exact legCred_port K.mint K.existing ((K.mem_plan_iff p).mpr h.leg) i

/-- The direction a leg carries. -/
theorem Leg.direction (h : K.Leg p) : ∃ d ∈ K.saved.directions, p.directionTag = d.tag := by
  unfold Leg at h
  cases h with
  | between ha hb hf ht hd => exact ⟨_, hd, rfl⟩
  | into hlast hi hf hd ht => exact ⟨_, hd, rfl⟩

variable (K)

theorem rows_to_same {r r' : TopologyLinkRow} (hr : r ∈ K.read.links) (hr' : r' ∈ K.read.links)
    (h : r.toNodeId = r'.toNodeId) :
    r.cred.protocol = r'.cred.protocol ∧ r.cred.port = r'.cred.port := by
  obtain ⟨p, i, hp⟩ := K.row_planned hr
  obtain ⟨q, j, hq⟩ := K.row_planned hr'
  obtain ⟨hs, hc, -⟩ := K.saved.same_node hp.leg hq.leg (by rw [← hp.toNodeId, h, hq.toNodeId])
  exact ⟨by rw [hp.protocol, hq.protocol, hc], by rw [hp.port, hq.port, PlannedLeg.port, hs]; rfl⟩

/-! ## Positions and pools -/

/-- A node stands on a position. -/
def At (i : Nat) (n : String) : Prop := ∃ p, K.saved.positions[i]? = some p ∧ n ∈ p.nodeIds

/-- A node is behind a direction. -/
def InPool (n : String) : Prop := ∃ d ∈ K.saved.directions, n ∈ d.direction.nodeIds

theorem at_iff_read (i : Nat) (n : String) :
    K.At i n ↔ ∃ q, K.read.positions[i]? = some q ∧ n ∈ q.nodeIds := by
  rcases getElem?_of_forall₂ K.positions_read i with ⟨h, h'⟩ | ⟨p, q, hp, hq, -, hperm⟩
  · simp [At, h, h']
  · simp [At, hp, hq, hperm.mem_iff]

theorem length_read_positions : K.read.positions.length = K.saved.positions.length :=
  K.positions_read.length_eq.symm

theorem inPool_iff_read (n : String) : K.InPool n ↔ ∃ d ∈ K.read.directions, n ∈ d.nodeIds := by
  obtain ⟨order, hperm, hrows⟩ := K.directions_read
  constructor
  · rintro ⟨d, hd, hn⟩
    obtain ⟨e, he, -, hpool, -⟩ := exists_right_of_forall₂ hrows (hperm.mem_iff.mpr hd)
    exact ⟨e, he, hpool.mem_iff.mpr hn⟩
  · rintro ⟨e, he, hn⟩
    obtain ⟨d, hd, -, hpool, -⟩ := exists_left_of_forall₂ hrows he
    exact ⟨d, hperm.mem_iff.mp hd, hpool.mem_iff.mp hn⟩

variable {K}

theorem At.unique {i j : Nat} (h : K.At i n) (h' : K.At j n) : i = j := by
  obtain ⟨p, hp, hn⟩ := h
  obtain ⟨q, hq, hn'⟩ := h'
  exact K.saved.place_unique hp hq hn hn'

theorem At.not_inPool (h : K.At i n) : ¬ K.InPool n := by
  obtain ⟨p, hp, hn⟩ := h
  rintro ⟨d, hd, hn'⟩
  exact K.saved.not_both (List.mem_of_getElem? hp) hd hn hn'

theorem At.lt (h : K.At i n) : i < K.saved.positions.length := by
  obtain ⟨p, hp, -⟩ := h
  exact (List.getElem?_eq_some_iff.mp hp).1

/-- The two ends of a leg: one step apart, or from the last position into a pool. -/
theorem Leg.ends (h : K.Leg p) : ∃ i, p.step = i ∧ K.At i p.fromNodeId ∧ (K.At (i + 1) p.toNodeId
      ∨ i + 1 = K.saved.positions.length ∧ ∃ d ∈ K.saved.directions, d.tag = p.directionTag
          ∧ p.toNodeId ∈ d.direction.nodeIds) := by
  unfold Leg at h
  cases h with
  | between ha hb hf ht hd =>
    exact ⟨_, by simp, ⟨_, ha, hf⟩, Or.inl ⟨_, hb, ht⟩⟩
  | into hlast hi hf hd ht =>
    exact ⟨_, by simp, ⟨_, hlast, hf⟩, Or.inr ⟨hi, _, hd, rfl, ht⟩⟩

variable (K)

/-! ## Roles -/

theorem role_of_entry (h : K.At 0 n)
    (hused : (∃ r ∈ K.read.links, r.fromNodeId = n) ∨ K.read.foreignOf n ≠ []) :
    K.read.chainRoleOf n = some .entry := by
  obtain ⟨q, hq, hn⟩ := (K.at_iff_read 0 n).mp h
  rw [← List.head?_eq_getElem?] at hq
  have hout : ((K.read.links.any fun l => decide (l.fromNodeId = n))
      || !(K.read.foreignOf n).isEmpty) = true := by
    rcases hused with ⟨r, hr, hf⟩ | hne
    · simp only [Bool.or_eq_true, List.any_eq_true, decide_eq_true_eq]
      exact Or.inl ⟨r, hr, hf⟩
    · simpa using Or.inr hne
  simp [TopologyInput.chainRoleOf, hout, hq, hn]

theorem role_of_to (hused : ∃ r ∈ K.read.links, r.toNodeId = n) (h0 : ¬ K.At 0 n) :
    (K.InPool n → K.read.chainRoleOf n = some .exit)
      ∧ (¬ K.InPool n → K.read.chainRoleOf n = some .transit) := by
  have hin : (K.read.links.any fun l => decide (l.toNodeId = n)) = true := by
    simpa using hused
  have hentry : (K.read.positions.head?.map fun p => decide (n ∈ p.nodeIds)).getD false = false := by
    rw [at_iff_read, ← List.head?_eq_getElem?] at h0
    cases hq : K.read.positions.head? with
    | none => rfl
    | some q => simpa using fun hn => h0 ⟨q, hq, hn⟩
  constructor
  · intro hp
    have hany : (K.read.directions.any fun d => decide (n ∈ d.nodeIds)) = true := by
      simpa using (K.inPool_iff_read n).mp hp
    simp [TopologyInput.chainRoleOf, hin, hentry, hany]
  · intro hp
    have hany : (K.read.directions.any fun d => decide (n ∈ d.nodeIds)) = false := by
      rw [inPool_iff_read] at hp
      simpa using hp
    simp [TopologyInput.chainRoleOf, hin, hentry, hany]

/-! ## Tags -/

theorem perm_read_tags : (K.read.directions.map (·.tag)).Perm (K.saved.directions.map (·.tag)) := by
  obtain ⟨order, hperm, hrows⟩ := K.directions_read
  have heq : List.Forall₂ Eq (order.map (·.tag)) (K.read.directions.map (·.tag)) := by
    rw [List.forall₂_map_left_iff, List.forall₂_map_right_iff]
    exact hrows.imp fun d e h => h.1.symm
  rw [List.forall₂_eq_eq_eq] at heq
  rw [← heq]
  exact hperm.map _

theorem nodup_read_tags : (K.read.directions.map (·.tag)).Nodup :=
  K.perm_read_tags.nodup_iff.mpr K.saved.tags

theorem read_tag_range {d : TopologyDirection} (hd : d ∈ K.read.directions) :
    1 ≤ d.tag ∧ d.tag ≤ MAX_DIRECTION_TAG := by
  obtain ⟨e, he, htag⟩ := List.mem_map.mp (K.perm_read_tags.mem_iff.mp (List.mem_map_of_mem hd))
  rw [← htag]
  exact K.saved.tags_range e he

theorem row_tag_range (hr : r ∈ K.read.links) :
    1 ≤ r.directionTag ∧ r.directionTag ≤ MAX_DIRECTION_TAG := by
  obtain ⟨p, i, hp⟩ := K.row_planned hr
  obtain ⟨d, hd, htag⟩ := hp.leg.direction
  rw [hp.directionTag, htag]
  exact K.saved.tags_range d hd

end DrawnCascade

/-! ## A first save -/

/-- A leg as the reader selects it. -/
def TopologyLink.row (l : TopologyLink) : TopologyLinkRow :=
  { fromNodeId := l.fromNodeId, toNodeId := l.toNodeId, directionTag := l.directionTag,
    cred := l.cred }

/-- A topology saved for the first time and read back; every node has the same address, every
named outbound is a socks server. -/
def firstSave (T : SavedTopology) (mint : Minting) {links : List TopologyLink}
    (h : generateTopologyLinks mint (fun _ => none) T.positions T.directions = .ok links) :
    DrawnCascade where
  saved := T
  mint
  existing := fun _ => none
  links
  generated := h
  read :=
    { positions := T.positions.map fun p => { position := p.position, nodeIds := p.nodeIds }
      directions := T.directions.map fun d =>
        { tag := d.tag, nodeIds := d.direction.nodeIds
          outbound := (truthy d.direction.outboundId).map fun _ => (.socks, .obj []) }
      links := links.map TopologyLink.row
      hosts := fun _ => some "203.0.113.1"
      entryProtocol := T.positions.head?.bind (·.entryProtocol) }
  positions_read := List.forall₂_map_right_iff.mpr (List.forall₂_same.mpr fun _ _ => ⟨rfl, .refl _⟩)
  directions_read := ⟨_, .refl _, List.forall₂_map_right_iff.mpr
    (List.forall₂_same.mpr fun _ _ => ⟨rfl, .refl _, by simp⟩)⟩
  links_read := by
    obtain ⟨plan, hplan, rfl⟩ := generateTopologyLinks_eq_ok.mp h
    refine .of_eq ?_
    rw [List.map_map]
    refine (List.map_congr_left fun l hl => ?_).trans (List.map_id _)
    obtain ⟨⟨p, i⟩, he, rfl⟩ := List.mem_map.mp hl
    have hp : p ∈ plan := List.mem_of_getElem? (List.mk_mem_zipIdx_iff_getElem?.mp he)
    simp only [Function.comp_apply, TopologyLinkRow.asLink, TopologyLink.row, linkOf,
      legCred_protocol mint (fun _ => none) hp, id]
  entry_read := rfl

/-- `vlessPath` saved for the first time and read back. -/
def vlessCascade : DrawnCascade := firstSave vlessPath (sampleMinting "1") rfl

end Iceslab
