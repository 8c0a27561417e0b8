import Mathlib.Data.List.Flatten
import Iceslab.Lib.Names
import Iceslab.Links

/-!
# A topology as it is saved

What stands in storage after a save: positions that passed the validation, directions with the
tags the writer gave them.  The invariants are fields, so every later module starts from them.

* `SavedTopology.place_unique`, `pool_unique`, `not_both` — a node stands in one place.
* `SavedTopology.same_node` — all legs into one node have one step, one cell and one knob.
* `topologyLinkKey_inj` — the key a leg is stored under names it.
* `SavedTopology.key_unique` — two planned legs of one key are one leg.
-/

set_option autoImplicit false

namespace Iceslab

def MAX_DIRECTION_TAG : Nat := 255

def isHexDigit (c : Char) : Bool := c.isDigit || ('a' ≤ c && c ≤ 'f') || ('A' ≤ c && c ≤ 'F')

/-- The shape `z.uuid()` lets through: groups of 8, 4, 4, 4 and 12 hex digits. -/
def uuidShaped (s : String) : Bool :=
  decide ((s.toList.splitOn '-').map List.length = [8, 4, 4, 4, 12])
    && s.toList.all (fun c => isHexDigit c || c = '-')

/-- A cascade's topology in storage. -/
structure SavedTopology where
  /-- the positions as they were sent -/
  sent : List CascadePosition
  directions : List TaggedDirection
  validated : ValidatedTopology
  accepted : validateCascadeTopology sent (directions.map (·.direction)) = .ok validated
  tags : (directions.map (·.tag)).Nodup
  tags_range : ∀ d ∈ directions, 1 ≤ d.tag ∧ d.tag ≤ MAX_DIRECTION_TAG
  uuids : ∀ n ∈ topologyNodes validated.positions (directions.map (·.direction)),
    uuidShaped n = true

variable {p q : PlannedLeg}

namespace SavedTopology

variable (T : SavedTopology) {d e : TaggedDirection} {n : String}

def positions : List CascadePosition := T.validated.positions

theorem admitted : Admitted T.positions (T.directions.map (·.direction)) := by
  obtain ⟨-, hd, h⟩ := validateCascadeTopology_admitted T.accepted
  rw [hd] at h
  exact h

theorem positions_eq : T.positions = sortPositions T.sent :=
  (validateCascadeTopology_admitted T.accepted).1

/-! ## A node stands in one place -/

theorem nodup_positions : (T.positions.flatMap (·.nodeIds)).Nodup :=
  (List.nodup_append'.mp T.admitted.nodes).1

theorem nodup_pools : (T.directions.flatMap (fun d => d.direction.nodeIds)).Nodup := by
  have h := (List.nodup_append'.mp T.admitted.nodes).2.1
  simpa [List.flatMap_map] using h

theorem not_both {a : CascadePosition} (ha : a ∈ T.positions)
    (hd : d ∈ T.directions) (hn : n ∈ a.nodeIds) : n ∉ d.direction.nodeIds := by
  intro hn'
  have h := (List.nodup_append'.mp T.admitted.nodes).2.2
  refine h (List.mem_flatMap.mpr ⟨a, ha, hn⟩) ?_
  rw [List.flatMap_map]
  exact List.mem_flatMap.mpr ⟨d, hd, hn'⟩

theorem place_unique {i j : Nat} {a b : CascadePosition}
    (ha : T.positions[i]? = some a) (hb : T.positions[j]? = some b) (hn : n ∈ a.nodeIds)
    (hn' : n ∈ b.nodeIds) : i = j := by
  have hp := (List.nodup_flatMap.mp T.nodup_positions).2
  have hdis : ∀ (i j : Nat) (a b : CascadePosition), i < j → T.positions[i]? = some a →
      T.positions[j]? = some b → n ∈ a.nodeIds → n ∉ b.nodeIds := by
    intro i j a b hij ha hb hn hn'
    obtain ⟨hi, rfl⟩ := List.getElem?_eq_some_iff.mp ha
    obtain ⟨hj, rfl⟩ := List.getElem?_eq_some_iff.mp hb
    exact List.pairwise_iff_getElem.mp hp i j hi hj hij hn hn'
  rcases Nat.lt_trichotomy i j with h | h | h
  · exact absurd hn' (hdis i j a b h ha hb hn)
  · exact h
  · exact absurd hn (hdis j i b a h hb ha hn')

theorem pool_unique (hd : d ∈ T.directions)
    (he : e ∈ T.directions) (hn : n ∈ d.direction.nodeIds) (hn' : n ∈ e.direction.nodeIds) :
    d = e := by
  have hp := (List.nodup_flatMap.mp T.nodup_pools).2
  by_contra hne
  obtain ⟨i, hi, rfl⟩ := List.mem_iff_getElem.mp hd
  obtain ⟨j, hj, rfl⟩ := List.mem_iff_getElem.mp he
  have hij : i ≠ j := fun h => hne (by simp [h])
  rcases Nat.lt_or_gt_of_ne hij with h | h
  · exact List.pairwise_iff_getElem.mp hp i j hi hj h hn hn'
  · exact List.pairwise_iff_getElem.mp hp j i hj hi h hn' hn

theorem direction_of_tag (hd : d ∈ T.directions) (he : e ∈ T.directions)
    (h : d.tag = e.tag) : d = e :=
  List.inj_on_of_nodup_map T.tags hd he h

theorem nodeIds_nodup {a : CascadePosition} (ha : a ∈ T.positions) : a.nodeIds.Nodup :=
  (List.nodup_flatMap.mp T.nodup_positions).1 a ha

theorem pool_nodup (hd : d ∈ T.directions) : d.direction.nodeIds.Nodup :=
  (List.nodup_flatMap.mp T.nodup_pools).1 d hd

/-! ## The legs into one node -/

/-- All legs into one node come from one step, over one cell, with one knob. -/
theorem same_node (hp : Planned T.directions 0 T.positions p)
    (hq : Planned T.directions 0 T.positions q) (h : p.toNodeId = q.toNodeId) :
    p.step = q.step ∧ p.protocol = q.protocol ∧ p.congestion = q.congestion := by
  cases hp with
  | between ha hb hf ht hd =>
    cases hq with
    | between ha' hb' hf' ht' hd' =>
      obtain rfl := h
      obtain rfl := Nat.add_right_cancel (T.place_unique hb hb' ht ht')
      rw [ha] at ha'
      cases ha'
      exact ⟨rfl, rfl, rfl⟩
    | into _ _ _ hd' ht' =>
      obtain rfl := h
      exact absurd ht' (T.not_both (List.mem_of_getElem? hb) hd' ht)
  | into hlast hi hf hd ht =>
    cases hq with
    | between ha' hb' hf' ht' hd' =>
      obtain rfl := h
      exact absurd ht (T.not_both (List.mem_of_getElem? hb') hd ht')
    | into hlast' hi' hf' hd' ht' =>
      obtain rfl := h
      obtain rfl := T.pool_unique hd hd' ht ht'
      obtain rfl := Nat.add_right_cancel (hi.trans hi'.symm)
      rw [hlast] at hlast'
      cases hlast'
      exact ⟨rfl, rfl, rfl⟩

theorem leg_unique (hp : Planned T.directions 0 T.positions p)
    (hq : Planned T.directions 0 T.positions q) (hf : p.fromNodeId = q.fromNodeId)
    (ht : p.toNodeId = q.toNodeId) (hd : p.directionTag = q.directionTag) : p = q := by
  obtain ⟨hs, hc, hk⟩ := T.same_node hp hq ht
  cases p
  cases q
  simp_all

theorem from_mem_nodes (hp : Planned T.directions 0 T.positions p) :
    p.fromNodeId ∈ topologyNodes T.positions (T.directions.map (·.direction)) := by
  simp only [topologyNodes, List.mem_append, List.mem_flatMap]
  cases hp with
  | between ha _ hf _ _ => exact Or.inl ⟨_, List.mem_of_getElem? ha, hf⟩
  | into hlast _ hf _ _ => exact Or.inl ⟨_, List.mem_of_getElem? hlast, hf⟩

theorem to_mem_nodes (hp : Planned T.directions 0 T.positions p) :
    p.toNodeId ∈ topologyNodes T.positions (T.directions.map (·.direction)) := by
  simp only [topologyNodes, List.mem_append, List.mem_flatMap]
  cases hp with
  | between _ hb _ ht _ => exact Or.inl ⟨_, List.mem_of_getElem? hb, ht⟩
  | into _ _ _ hd ht => exact Or.inr ⟨_, List.mem_map_of_mem hd, ht⟩

end SavedTopology

/-! ## The key a leg is stored under -/

theorem not_mem_of_uuidShaped {s : String} (h : uuidShaped s = true) : '|' ∉ s.toList ∧ s ≠ "" := by
  simp only [uuidShaped, Bool.and_eq_true, decide_eq_true_eq, List.all_eq_true] at h
  refine ⟨fun hm => ?_, ?_⟩
  · have := h.2 '|' hm
    simp [isHexDigit] at this
  · rintro rfl
    simp at h

theorem topologyLinkKey_inj {f t f' t' : String} {d d' : Nat} (hf : uuidShaped f = true)
    (ht : uuidShaped t = true) (hf' : uuidShaped f' = true) (ht' : uuidShaped t' = true)
    (h : topologyLinkKey f t d = topologyLinkKey f' t' d') : f = f' ∧ t = t' ∧ d = d' := by
  have hkey : ∀ (f t : String) (d : Nat),
      topologyLinkKey f t d = String.intercalate (String.singleton '|') [f, t, toString d] := by
    intro f t d
    rw [← String.toList_inj]
    simp [topologyLinkKey]
  have hplain : ∀ (f t : String) (d : Nat), uuidShaped f = true → uuidShaped t = true →
      ∀ s ∈ [f, t, toString d], '|' ∉ s.toList ∧ s ≠ "" := by
    intro f t d hf ht s hs
    simp only [List.mem_cons, List.not_mem_nil, or_false] at hs
    rcases hs with rfl | rfl | rfl
    · exact not_mem_of_uuidShaped hf
    · exact not_mem_of_uuidShaped ht
    · exact ⟨Names.not_mem_num (by decide) d, Names.num_ne_empty d⟩
  rw [hkey, hkey] at h
  have := Names.intercalate_inj (hplain f t d hf ht) (hplain f' t' d' hf' ht') h
  simp only [List.cons.injEq, and_true] at this
  exact ⟨this.1, this.2.1, Names.num_inj this.2.2⟩

/-- Two planned legs of one key are one leg. -/
theorem SavedTopology.key_unique (T : SavedTopology)
    (hp : Planned T.directions 0 T.positions p) (hq : Planned T.directions 0 T.positions q)
    (h : topologyLinkKey p.fromNodeId p.toNodeId p.directionTag
      = topologyLinkKey q.fromNodeId q.toNodeId q.directionTag) : p = q := by
  obtain ⟨hf, ht, hd⟩ := topologyLinkKey_inj (T.uuids _ (T.from_mem_nodes hp))
    (T.uuids _ (T.to_mem_nodes hp)) (T.uuids _ (T.from_mem_nodes hq))
    (T.uuids _ (T.to_mem_nodes hq)) h
  exact T.leg_unique hp hq hf ht hd

/-! ## The smallest cascade -/

def nodeA : String := "00000000-0000-4000-8000-00000000000a"

def nodeB : String := "00000000-0000-4000-8000-00000000000b"

def nodeC : String := "00000000-0000-4000-8000-00000000000c"

/-- One entry, one direction with one node, a vless leg between them. -/
def vlessPath : SavedTopology where
  sent := [{ nodeIds := [nodeA], position := 0, entryProtocol := some "xray",
             linkProtocol := some "vless" }]
  directions := [⟨1, { nodeIds := [nodeB] }⟩]
  validated :=
    { positions := [{ nodeIds := [nodeA], position := 0, entryProtocol := some "xray",
                      linkProtocol := some "vless" }]
      directions := [{ nodeIds := [nodeB] }]
      linkCount := 1 }
  accepted := by decide
  tags := by decide
  tags_range := by decide
  uuids := by decide

/-- A transit sent before its entry, over a tunnel, and a tuic leg into one direction. -/
def transitPath : SavedTopology where
  sent := [{ nodeIds := [nodeB], position := 1, linkProtocol := some "tuic" },
    { nodeIds := [nodeA], position := 0, entryProtocol := some "xray", linkProtocol := some "vless",
      linkParams := some { underlay := some .awg } }]
  directions := [⟨1, { nodeIds := [nodeC] }⟩]
  validated :=
    { positions := [{ nodeIds := [nodeA], position := 0, entryProtocol := some "xray",
                      linkProtocol := some "vless", linkParams := some { underlay := some .awg } },
                    { nodeIds := [nodeB], position := 1, linkProtocol := some "tuic" }]
      directions := [{ nodeIds := [nodeC] }]
      linkCount := 2 }
  accepted := by decide
  tags := by decide
  tags_range := by decide
  uuids := by decide

end Iceslab
