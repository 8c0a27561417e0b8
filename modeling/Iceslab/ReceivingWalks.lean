import Iceslab.LinkCap
import Iceslab.LinkIngress
import Iceslab.TopologyWriter

/-!
# The questions asked before a save

`cascade.config.ts` and `cascade-tunnel.ts` walk a topology four times more beside the walk that
draws its legs: which node listens on which port, which node receives which cell, which pairs ride
a tunnel, and the port written on a direction's row.  The first three run on what was sent, before
it is validated.

* `mem_walkReceivingLegs` — the walk on the sent topology meets the receiving side of every leg the
  validated one implies, and no other.
* `mem_keepFirst` — the answers are told apart by a text, and no two share one.
* `WalksExact` — the three answers are the legs', each once.
* `receiving_walks_exact` — they are, over every accepted topology, and the port written on a
  direction's row is the port of every leg into its pool.
-/

set_option autoImplicit false

namespace Iceslab

open Checked

/-! ## The walks -/

/-- A position as the walks take it, its place perhaps unsaid. -/
structure WalkPosition where
  position : Option Nat
  nodeIds : List String
  linkProtocol : Option String
  deriving DecidableEq, Repr

/-- A direction as the walks take it. -/
structure WalkDirection where
  nodeIds : List String
  linkProtocol : Option String
  deriving DecidableEq, Repr

def CascadePosition.walked (p : CascadePosition) : WalkPosition :=
  ⟨some p.position, p.nodeIds, p.linkProtocol⟩

def ResolvedDirection.walked (d : ResolvedDirection) : WalkDirection := ⟨d.nodeIds, d.linkProtocol⟩

/-- The receiving side of a leg. -/
structure ReceivingLeg where
  nodeId : String
  step : Nat
  cell : LinkCell
  deriving DecidableEq, Repr

/-- The nodes a step lands on, none where its cell cannot be read. -/
def receivingOn (nodeIds : List String) (step : Nat) : Option LinkCell → List ReceivingLeg
  | none => []
  | some cell => nodeIds.map fun nodeId => { nodeId, step, cell }

def walkSteps : Nat → List WalkPosition → List ReceivingLeg
  | step, a :: b :: rest =>
    receivingOn b.nodeIds step (linkCellFor a.linkProtocol) ++ walkSteps (step + 1) (b :: rest)
  | _, _ => []

/-- Sorted where every position says its place, else as it came. -/
def orderedForWalk (positions : List WalkPosition) : List WalkPosition :=
  if positions.all fun p => p.position.isSome then
    positions.insertionSort fun a b => a.position.getD 0 ≤ b.position.getD 0
  else positions

/-- The cell of the last leg into a direction. -/
def walkCell (fallback : Option LinkCell) (d : WalkDirection) : Option LinkCell :=
  match truthy d.linkProtocol with
  | some p => linkCellFor (some p)
  | none => fallback

def walkReceivingLegs (positions : List WalkPosition) (directions : List WalkDirection) :
    List ReceivingLeg :=
  let ordered := orderedForWalk positions
  walkSteps 0 ordered ++
    match ordered.getLast? with
    | none => []
    | some last => directions.flatMap fun d =>
        receivingOn d.nodeIds (ordered.length - 1) (walkCell (linkCellFor last.linkProtocol) d)

/-- The elements whose text was not seen before. -/
def keepFirst {α : Type} (key : α → String) (l : List α) : List α :=
  (OrderedMap.collect key (fun o a => o.getD a) l).values

def Transport.name : Transport → String
  | .tcp => "tcp"
  | .udp => "udp"

structure ReceivingPort where
  nodeId : String
  port : Nat
  transport : Transport
  deriving DecidableEq, Repr

def ReceivingPort.key (p : ReceivingPort) : String :=
  p.nodeId ++ ":" ++ toString p.port ++ ":" ++ p.transport.name

def topologyReceivingPorts (positions : List WalkPosition) (directions : List WalkDirection) :
    List ReceivingPort :=
  keepFirst ReceivingPort.key ((walkReceivingLegs positions directions).flatMap fun leg =>
    (LINK_CELL_TRANSPORTS leg.cell).map fun transport =>
      { nodeId := leg.nodeId, port := LINK_PORT_BASE + leg.step, transport })

structure ReceivingCell where
  nodeId : String
  cell : LinkCell
  deriving DecidableEq, Repr

def ReceivingCell.key (c : ReceivingCell) : String := c.nodeId ++ ":" ++ c.cell.name

def topologyReceivingCells (positions : List WalkPosition) (directions : List WalkDirection) :
    List ReceivingCell :=
  keepFirst ReceivingCell.key ((walkReceivingLegs positions directions).map fun leg =>
    { nodeId := leg.nodeId, cell := leg.cell })

/-! ## One question asked once -/

section KeepFirst

variable {α : Type} {key : α → String} {l : List α}

theorem nodup_keepFirst : (keepFirst key l).Nodup := by
  refine List.Nodup.of_map key ?_
  rw [keepFirst, OrderedMap.map_values_collect_keep]
  exact OrderedMap.nodup_keys _

theorem mem_keepFirst (h : ∀ a ∈ l, ∀ b ∈ l, key a = key b → a = b) (a : α) :
    a ∈ keepFirst key l ↔ a ∈ l := by
  have hget : ∀ k, (OrderedMap.collect key (fun o a => o.getD a) l).get? k
      = l.find? fun a => decide (key a = k) := by
    intro k
    rw [OrderedMap.get?_collect_keep key (fun a => a), Option.map_id']
  rw [keepFirst, OrderedMap.mem_values_iff]
  constructor
  · rintro ⟨k, hk⟩
    rw [hget] at hk
    exact List.mem_of_find?_eq_some hk
  · intro ha
    refine ⟨key a, ?_⟩
    rw [hget]
    obtain ⟨b, hb⟩ := Option.isSome_iff_exists.mp
      (List.find?_isSome.mpr ⟨a, ha, by simp⟩ : (l.find? fun b => decide (key b = key a)).isSome)
    have hkey : key b = key a := by simpa using List.find?_some hb
    rw [hb, h b (List.mem_of_find?_eq_some hb) a ha hkey]

end KeepFirst

theorem colon_not_mem_of_uuidShaped {s : String} (h : uuidShaped s = true) :
    ':' ∉ s.toList ∧ s ≠ "" := by
  refine ⟨fun hm => ?_, (not_mem_of_uuidShaped h).2⟩
  simp only [uuidShaped, Bool.and_eq_true, List.all_eq_true] at h
  have := h.2 ':' hm
  simp [isHexDigit] at this

theorem Transport.name_inj {t u : Transport} (h : t.name = u.name) : t = u := by
  revert h
  cases t <;> cases u <;> decide

theorem LinkCell.name_inj {c e : LinkCell} (h : c.name = e.name) : c = e := by
  revert h
  cases c <;> cases e <;> decide

theorem receivingPort_key_inj {p q : ReceivingPort} (hp : uuidShaped p.nodeId = true)
    (hq : uuidShaped q.nodeId = true) (h : p.key = q.key) : p = q := by
  have hkey : ∀ p : ReceivingPort, p.key = String.intercalate (String.singleton ':')
      [p.nodeId, toString p.port, p.transport.name] := by
    intro p
    rw [← String.toList_inj]
    simp [ReceivingPort.key]
  have hplain : ∀ p : ReceivingPort, uuidShaped p.nodeId = true →
      ∀ s ∈ [p.nodeId, toString p.port, p.transport.name], ':' ∉ s.toList ∧ s ≠ "" := by
    intro p hp s hs
    simp only [List.mem_cons, List.not_mem_nil, or_false] at hs
    rcases hs with rfl | rfl | rfl
    · exact colon_not_mem_of_uuidShaped hp
    · exact ⟨Names.not_mem_num (by decide) p.port, Names.num_ne_empty p.port⟩
    · cases p.transport <;> decide
  rw [hkey, hkey] at h
  have := Names.intercalate_inj (hplain p hp) (hplain q hq) h
  simp only [List.cons.injEq, and_true] at this
  obtain ⟨hnode, hport, htransport⟩ := this
  obtain ⟨nodeId, port, transport⟩ := p
  obtain ⟨nodeId', port', transport'⟩ := q
  obtain rfl := hnode
  obtain rfl := Names.num_inj hport
  obtain rfl := Transport.name_inj htransport
  rfl

theorem receivingCell_key_inj {c e : ReceivingCell} (hc : uuidShaped c.nodeId = true)
    (he : uuidShaped e.nodeId = true) (h : c.key = e.key) : c = e := by
  have hkey : ∀ c : ReceivingCell, c.key.toList = c.nodeId.toList ++ ':' :: c.cell.name.toList := by
    intro c
    simp [ReceivingCell.key]
  have hlist := congrArg String.toList h
  rw [hkey, hkey] at hlist
  obtain ⟨hnode, hcell⟩ := Names.append_sep_inj (colon_not_mem_of_uuidShaped hc).1
    (colon_not_mem_of_uuidShaped he).1 hlist
  obtain ⟨nodeId, cell⟩ := c
  obtain ⟨nodeId', cell'⟩ := e
  obtain rfl := String.toList_inj.mp hnode
  obtain rfl := LinkCell.name_inj (String.toList_inj.mp hcell)
  rfl

/-! ## What the walk meets -/

variable {leg : ReceivingLeg} {last : CascadePosition} {r : DirectionRow} {x : TunnelPair}

theorem mem_receivingOn {nodeIds : List String} {step : Nat} {cell : Option LinkCell} :
    leg ∈ receivingOn nodeIds step cell
      ↔ leg.nodeId ∈ nodeIds ∧ leg.step = step ∧ cell = some leg.cell := by
  cases cell with
  | none => simp [receivingOn]
  | some cell =>
    simp only [receivingOn, List.mem_map, Option.some.injEq]
    constructor
    · rintro ⟨n, hn, rfl⟩
      exact ⟨hn, rfl, rfl⟩
    · rintro ⟨hn, rfl, rfl⟩
      exact ⟨_, hn, rfl⟩

theorem mem_walkSteps {positions : List CascadePosition} {k : Nat} :
    leg ∈ walkSteps k (positions.map CascadePosition.walked) ↔ ∃ i a b, positions[i]? = some a
      ∧ positions[i + 1]? = some b ∧ leg.nodeId ∈ b.nodeIds ∧ leg.step = k + i
      ∧ linkCellFor a.linkProtocol = some leg.cell := by
  induction positions generalizing k with
  | nil => simp [walkSteps]
  | cons a rest ih =>
    cases rest with
    | nil => simp [walkSteps]
    | cons b rest =>
      rw [List.map_cons, List.map_cons, walkSteps, List.mem_append, mem_receivingOn, ← List.map_cons,
        ih]
      constructor
      · rintro (⟨hn, hstep, hcell⟩ | ⟨i, a', b', ha, hb, hn, hstep, hcell⟩)
        · exact ⟨0, a, b, rfl, rfl, hn, hstep, hcell⟩
        · exact ⟨i + 1, a', b', by simpa using ha, by simpa using hb, hn, by omega, hcell⟩
      · rintro ⟨i, a', b', ha, hb, hn, hstep, hcell⟩
        cases i with
        | zero =>
          obtain rfl : a = a' := by simpa using ha
          obtain rfl : b = b' := by simpa using hb
          exact .inl ⟨hn, hstep, hcell⟩
        | succ i =>
          exact .inr ⟨i, a', b', by simpa using ha, by simpa using hb, hn, by omega, hcell⟩

theorem orderedForWalk_walked (sent : List CascadePosition) :
    orderedForWalk (sent.map CascadePosition.walked)
      = (sortPositions sent).map CascadePosition.walked := by
  have hall : (sent.map CascadePosition.walked).all (fun p => p.position.isSome) = true := by
    simp [CascadePosition.walked]
  rw [orderedForWalk, if_pos hall, sortPositions]
  refine (List.map_insertionSort _ _ _ _ fun a _ b _ => ?_).symm
  simp [CascadePosition.walked]

theorem awg_of_getD {underlay : Option LinkUnderlay} (h : underlay.getD .direct = .awg) :
    underlay = some .awg := by
  cases underlay with
  | none => cases h
  | some u => exact congrArg some h

theorem mem_tunnelPairsBetween {froms tos : List String} {underlay : Option LinkUnderlay} :
    x ∈ tunnelPairsBetween froms tos underlay ↔ underlay = some .awg
      ∧ x.fromNodeId ∈ froms ∧ x.toNodeId ∈ tos ∧ x.fromNodeId ≠ x.toNodeId := by
  unfold tunnelPairsBetween
  split
  · rename_i h
    simp only [h, true_and, List.mem_filter, List.mem_flatMap, List.mem_map, decide_eq_true_eq]
    constructor
    · rintro ⟨⟨f, hf, t, ht, rfl⟩, hne⟩
      exact ⟨hf, ht, hne⟩
    · rintro ⟨hf, ht, hne⟩
      exact ⟨⟨_, hf, _, ht, rfl⟩, hne⟩
  · rename_i h
    simp [h]

theorem mem_tunnelPairsOfSteps {positions : List CascadePosition} :
    x ∈ tunnelPairsOfSteps positions ↔ ∃ i a b, positions[i]? = some a
      ∧ positions[i + 1]? = some b
      ∧ x ∈ tunnelPairsBetween a.nodeIds b.nodeIds (underlayOf a.linkParams) := by
  induction positions with
  | nil => simp [tunnelPairsOfSteps]
  | cons a rest ih =>
    cases rest with
    | nil => simp [tunnelPairsOfSteps]
    | cons b rest =>
      rw [tunnelPairsOfSteps, List.mem_append, ih]
      constructor
      · rintro (h | ⟨i, a', b', ha, hb, h⟩)
        · exact ⟨0, a, b, rfl, rfl, h⟩
        · exact ⟨i + 1, a', b', by simpa using ha, by simpa using hb, h⟩
      · rintro ⟨i, a', b', ha, hb, h⟩
        cases i with
        | zero =>
          obtain rfl : a = a' := by simpa using ha
          obtain rfl : b = b' := by simpa using hb
          exact .inl h
        | succ i => exact .inr ⟨i, a', b', by simpa using ha, by simpa using hb, h⟩

namespace SavedTopology

variable (T : SavedTopology)

/-- What the walks are given: the positions and directions as they were sent. -/
def walkPositions : List WalkPosition := T.sent.map CascadePosition.walked

def walkDirections : List WalkDirection := T.directions.map fun d => d.direction.walked

theorem exists_direction : ∃ d, d ∈ T.directions := by
  obtain ⟨d, hd⟩ := List.exists_mem_of_ne_nil _ T.admitted.directions_ne
  obtain ⟨d, hd, -⟩ := List.mem_map.mp hd
  exact ⟨d, hd⟩

theorem exists_last : ∃ last, T.positions[T.positions.length - 1]? = some last := by
  have hpos : 0 < T.positions.length := List.length_pos_iff.mpr T.admitted.positions_ne
  exact ⟨_, List.getElem?_eq_getElem (by omega)⟩

theorem cellOut_eq {a : CascadePosition} (ha : a ∈ T.positions) :
    linkCellFor a.linkProtocol = some (cellOut a) := by
  obtain ⟨cell, hcell⟩ := Option.isSome_iff_exists.mp (T.admitted.cells a ha)
  rw [cellOut, hcell, Option.getD_some]

theorem walkCell_eq (hcells : CellsReadable T.directions)
    (hlast : last ∈ T.positions) {d : TaggedDirection} (hd : d ∈ T.directions) :
    walkCell (linkCellFor last.linkProtocol) d.direction.walked = some (cellInto last d) := by
  unfold walkCell cellInto
  cases hp : truthy d.direction.linkProtocol with
  | none => simp only [ResolvedDirection.walked, hp, T.cellOut_eq hlast]
  | some p =>
    obtain ⟨cell, hcell⟩ := Option.isSome_iff_exists.mp (hcells d hd)
    rw [← linkCellFor_truthy hp] at hcell
    simp only [ResolvedDirection.walked, hp, hcell, Option.getD_some]

/-- **The walk on the sent topology meets the receiving side of every leg, and no other.** -/
theorem mem_walkReceivingLegs (hcells : CellsReadable T.directions) :
    leg ∈ walkReceivingLegs T.walkPositions T.walkDirections
      ↔ ∃ p, Planned T.directions 0 T.positions p ∧ p.toNodeId = leg.nodeId ∧ p.step = leg.step
        ∧ p.protocol = leg.cell := by
  obtain ⟨last, hlast⟩ := T.exists_last
  have hget : T.positions.getLast? = some last := by
    rw [List.getLast?_eq_getElem?]
    exact hlast
  have hlastMem := List.mem_of_getElem? hlast
  have hordered : orderedForWalk T.walkPositions = T.positions.map CascadePosition.walked := by
    rw [walkPositions, orderedForWalk_walked, ← T.positions_eq]
  rw [walkReceivingLegs]
  simp only [hordered, List.getLast?_map, hget, Option.map_some, List.length_map, List.mem_append,
    mem_walkSteps, List.mem_flatMap, mem_receivingOn, walkDirections, List.mem_map]
  constructor
  · rintro (⟨i, a, b, ha, hb, hn, hstep, hcell⟩ | ⟨-, ⟨d, hd, rfl⟩, hn, hstep, hcell⟩)
    · obtain ⟨d, hd⟩ := T.exists_direction
      obtain ⟨f, hf⟩ := List.exists_mem_of_ne_nil _ (T.admitted.pools a (List.mem_of_getElem? ha))
      refine ⟨_, .between ha hb hf hn hd, rfl, hstep.symm, ?_⟩
      rw [T.cellOut_eq (List.mem_of_getElem? ha)] at hcell
      exact Option.some.inj hcell
    · obtain ⟨f, hf⟩ := List.exists_mem_of_ne_nil _ (T.admitted.pools last hlastMem)
      have hpos : 0 < T.positions.length := List.length_pos_iff.mpr T.admitted.positions_ne
      refine ⟨_, .into hlast (by omega) hf hd hn, rfl, ?_, ?_⟩
      · rw [hstep, Nat.zero_add]
      · rw [CascadePosition.walked] at hcell
        rw [T.walkCell_eq hcells hlastMem hd] at hcell
        exact Option.some.inj hcell
  · rintro ⟨p, hp, hto, hstep, hcell⟩
    cases hp with
    | between ha hb hf ht hd =>
      refine .inl ⟨_, _, _, ha, hb, hto ▸ ht, hstep.symm, ?_⟩
      rw [T.cellOut_eq (List.mem_of_getElem? ha)]
      exact congrArg some hcell
    | into hlast' hi hf hd ht =>
      rename_i i last' f t d
      obtain rfl : i = T.positions.length - 1 := by omega
      obtain rfl := Option.some.inj (hlast.symm.trans hlast')
      refine .inr ⟨_, ⟨d, hd, rfl⟩, hto ▸ ht, by rw [← hstep, Nat.zero_add], ?_⟩
      rw [CascadePosition.walked, T.walkCell_eq hcells hlastMem hd]
      exact congrArg some hcell

/-! ## The pairs that ride a tunnel -/

theorem mem_topologyTunnelPairs :
    x ∈ topologyTunnelPairs T.sent (T.directions.map (·.direction))
      ↔ ∃ p, Planned T.directions 0 T.positions p ∧ p.fromNodeId = x.fromNodeId
        ∧ p.toNodeId = x.toNodeId
        ∧ legUnderlay T.positions T.directions p.fromNodeId p.toNodeId p.directionTag = .awg := by
  obtain ⟨last, hlast⟩ := T.exists_last
  have hget : T.positions.getLast? = some last := by
    rw [List.getLast?_eq_getElem?]
    exact hlast
  have hpos : 0 < T.positions.length := List.length_pos_iff.mpr T.admitted.positions_ne
  simp only [topologyTunnelPairs, ← T.positions_eq, hget, List.mem_eraseDups, List.mem_append,
    mem_tunnelPairsOfSteps, List.mem_flatMap, List.mem_map, mem_tunnelPairsBetween]
  constructor
  · rintro (⟨i, a, b, ha, hb, hawg, hf, ht, -⟩ | ⟨-, ⟨d, hd, rfl⟩, hawg, hf, ht, -⟩)
    · obtain ⟨d, hd⟩ := T.exists_direction
      refine ⟨_, .between ha hb hf ht hd, rfl, rfl, ?_⟩
      rw [T.legUnderlay_between ha hb hf ht hd, hawg, Option.getD_some]
    · refine ⟨_, .into hlast (by omega) hf hd ht, rfl, rfl, ?_⟩
      rw [T.legUnderlay_into hlast (by omega) hf hd ht, hawg, Option.getD_some]
  · rintro ⟨p, hp, hf', ht', hawg⟩
    cases hp with
    | between ha hb hf ht hd =>
      rw [T.legUnderlay_between ha hb hf ht hd] at hawg
      rename_i i a b f t d
      refine .inl ⟨i, a, b, ha, hb, awg_of_getD hawg, hf' ▸ hf, ht' ▸ ht, fun heq => ?_⟩
      have hsame : f = t := (hf'.trans heq).trans ht'.symm
      have := T.place_unique ha hb hf (hsame ▸ ht)
      omega
    | into hlast' hi hf hd ht =>
      rename_i i last' f t d
      obtain rfl : i = T.positions.length - 1 := by omega
      obtain rfl := Option.some.inj (hlast.symm.trans hlast')
      rw [T.legUnderlay_into hlast hi hf hd ht] at hawg
      refine .inr ⟨_, ⟨d, hd, rfl⟩, awg_of_getD hawg, hf' ▸ hf, ht' ▸ ht, fun heq => ?_⟩
      have hsame : f = t := (hf'.trans heq).trans ht'.symm
      exact T.not_both (List.mem_of_getElem? hlast) hd hf (hsame ▸ ht)

end SavedTopology

/-! ## The links of a save -/

/-- The link is drawn for the leg: its ends, its direction, its cell and its port. -/
structure DrawnFor (p : PlannedLeg) (l : TopologyLink) : Prop where
  fromNode : l.fromNodeId = p.fromNodeId
  toNode : l.toNodeId = p.toNodeId
  tag : l.directionTag = p.directionTag
  protocol : l.protocol = p.protocol
  port : l.cred.port = p.port

section Drawn

variable {mint : Minting} {existing : String → Option LinkCred} {positions : List CascadePosition}
  {directions : List TaggedDirection} {links : List TopologyLink}

theorem exists_drawn (h : generateTopologyLinks mint existing positions directions = .ok links)
    {p : PlannedLeg} (hp : Planned directions 0 positions p) : ∃ l ∈ links, DrawnFor p l := by
  obtain ⟨plan, i, hmem, hlink⟩ := link_of_leg h hp
  exact ⟨_, hlink, rfl, rfl, rfl, rfl, legCred_port mint existing hmem i⟩

theorem exists_planned (h : generateTopologyLinks mint existing positions directions = .ok links)
    {l : TopologyLink} (hl : l ∈ links) : ∃ p, Planned directions 0 positions p ∧ DrawnFor p l := by
  obtain ⟨plan, p, i, hp, hmem, rfl⟩ := leg_of_link h hl
  exact ⟨p, hp, rfl, rfl, rfl, rfl, legCred_port mint existing hmem i⟩

theorem planLast_of_planLegs {step : Nat} {plan : List PlannedLeg}
    (h : planLegs directions step positions = .ok plan) (hlast : positions.getLast? = some last) :
    ∃ step legs, planLast directions step last = .ok legs := by
  induction positions generalizing step plan with
  | nil => simp at hlast
  | cons a rest ih =>
    cases rest with
    | nil =>
      obtain rfl : a = last := by simpa using hlast
      exact ⟨step, plan, h⟩
    | cons b rest =>
      simp only [planLegs, bind_eq_ok, pure_eq_ok] at h
      obtain ⟨cell, -, tail, htail, -⟩ := h
      exact ih htail (by simpa using hlast)

/-- Legs are drawn only where every direction's cell can be read. -/
theorem cellsReadable_of_generated
    (h : generateTopologyLinks mint existing positions directions = .ok links)
    (hlast : positions.getLast? = some last) (hnodes : last.nodeIds ≠ []) :
    CellsReadable directions := by
  obtain ⟨plan, hplan, -⟩ := generateTopologyLinks_eq_ok.mp h
  obtain ⟨step, legs, hlegs⟩ := planLast_of_planLegs hplan hlast
  obtain ⟨f, hf⟩ := List.exists_mem_of_ne_nil _ hnodes
  simp only [planLast, bind_eq_ok] at hlegs
  obtain ⟨fallback, -, hgather⟩ := hlegs
  intro d hd
  obtain ⟨intoAll, hinto⟩ := gather_isOk.mp ⟨_, hgather⟩ f hf
  obtain ⟨into, hd'⟩ := gather_isOk.mp ⟨_, hinto⟩ d hd
  simp only [planInto, bind_eq_ok] at hd'
  obtain ⟨cell, hcell, -⟩ := hd'
  unfold directionCell at hcell
  cases hp : truthy d.direction.linkProtocol with
  | none =>
    cases hl : d.direction.linkProtocol with
    | none => rfl
    | some p =>
      have hempty : p = "" := by
        by_contra hne
        rw [truthy_eq_some.mpr ⟨hl, hne⟩] at hp
        cases hp
      simp [linkCellFor, hempty]
  | some p =>
    rw [hp, normalizeLinkProtocol_eq_ok, linkCellFor_truthy hp] at hcell
    rw [hcell]
    rfl

end Drawn

/-! ## The answers before a save -/

/-- The walks answer with the legs', each answer once. -/
structure WalksExact (T : SavedTopology) (links : List TopologyLink) : Prop where
  ports : ∀ x, x ∈ topologyReceivingPorts T.walkPositions T.walkDirections ↔ ∃ l ∈ links,
    x.nodeId = l.toNodeId ∧ x.port = l.cred.port ∧ x.transport ∈ LINK_CELL_TRANSPORTS l.protocol
  ports_nodup : (topologyReceivingPorts T.walkPositions T.walkDirections).Nodup
  cells : ∀ x, x ∈ topologyReceivingCells T.walkPositions T.walkDirections ↔ ∃ l ∈ links,
    x.nodeId = l.toNodeId ∧ x.cell = l.protocol
  cells_nodup : (topologyReceivingCells T.walkPositions T.walkDirections).Nodup
  pairs : ∀ x, x ∈ topologyTunnelPairs T.sent (T.directions.map (·.direction)) ↔ ∃ l ∈ links,
    x.fromNodeId = l.fromNodeId ∧ x.toNodeId = l.toNodeId
      ∧ legUnderlay T.positions T.directions l.fromNodeId l.toNodeId l.directionTag = .awg
  pairs_nodup : (topologyTunnelPairs T.sent (T.directions.map (·.direction))).Nodup

section Exact

variable {T : SavedTopology} {mint : Minting} {existing : String → Option LinkCred}
  {links : List TopologyLink}

/-- The walk meets the receiving side of a link, and of nothing else. -/
theorem mem_walk_iff_drawn
    (h : generateTopologyLinks mint existing T.positions T.directions = .ok links) :
    leg ∈ walkReceivingLegs T.walkPositions T.walkDirections
      ↔ ∃ l ∈ links, leg.nodeId = l.toNodeId ∧ LINK_PORT_BASE + leg.step = l.cred.port
        ∧ leg.cell = l.protocol := by
  obtain ⟨last, hlast⟩ := T.exists_last
  have hcells : CellsReadable T.directions := by
    have hgetLast : T.positions.getLast? = some last := by
      rw [List.getLast?_eq_getElem?]
      exact hlast
    apply cellsReadable_of_generated h hgetLast
    exact T.admitted.pools last (List.mem_of_getElem? hlast)
  rw [T.mem_walkReceivingLegs hcells]
  constructor
  · rintro ⟨p, hp, hto, hstep, hcell⟩
    obtain ⟨l, hl, hdrawn⟩ := exists_drawn h hp
    refine ⟨l, hl, ?_, ?_, ?_⟩
    · rw [hdrawn.toNode, hto]
    · rw [hdrawn.port, PlannedLeg.port, hstep]
    · rw [hdrawn.protocol, hcell]
  · rintro ⟨l, hl, hto, hport, hcell⟩
    obtain ⟨p, hp, hdrawn⟩ := exists_planned h hl
    refine ⟨p, hp, ?_, ?_, ?_⟩
    · rw [← hdrawn.toNode, hto]
    · rw [hdrawn.port, PlannedLeg.port] at hport
      omega
    · rw [← hdrawn.protocol, hcell]

theorem uuidShaped_of_walk
    (h : generateTopologyLinks mint existing T.positions T.directions = .ok links)
    (hleg : leg ∈ walkReceivingLegs T.walkPositions T.walkDirections) :
    uuidShaped leg.nodeId = true := by
  obtain ⟨l, hl, hto, -, -⟩ := (mem_walk_iff_drawn h).mp hleg
  obtain ⟨p, hp, hdrawn⟩ := exists_planned h hl
  rw [hto, hdrawn.toNode]
  exact T.uuids _ (T.to_mem_nodes hp)

theorem mem_topologyReceivingPorts
    (h : generateTopologyLinks mint existing T.positions T.directions = .ok links)
    (x : ReceivingPort) : x ∈ topologyReceivingPorts T.walkPositions T.walkDirections
      ↔ ∃ l ∈ links, x.nodeId = l.toNodeId ∧ x.port = l.cred.port
        ∧ x.transport ∈ LINK_CELL_TRANSPORTS l.protocol := by
  have hinj := fun (a : ReceivingPort) ha (b : ReceivingPort) hb =>
    receivingPort_key_inj (p := a) (q := b) ha hb
  have huuid : ∀ a ∈ (walkReceivingLegs T.walkPositions T.walkDirections).flatMap fun leg =>
      (LINK_CELL_TRANSPORTS leg.cell).map fun transport =>
        ({ nodeId := leg.nodeId, port := LINK_PORT_BASE + leg.step, transport } : ReceivingPort),
      uuidShaped a.nodeId = true := by
    intro a ha
    simp only [List.mem_flatMap, List.mem_map] at ha
    obtain ⟨leg, hleg, t, -, rfl⟩ := ha
    exact uuidShaped_of_walk h hleg
  rw [topologyReceivingPorts, mem_keepFirst fun a ha b hb => hinj a (huuid a ha) b (huuid b hb)]
  simp only [List.mem_flatMap, List.mem_map]
  constructor
  · rintro ⟨leg, hleg, t, ht, rfl⟩
    obtain ⟨l, hl, hto, hport, hcell⟩ := (mem_walk_iff_drawn h).mp hleg
    exact ⟨l, hl, hto, hport, hcell ▸ ht⟩
  · rintro ⟨l, hl, hto, hport, ht⟩
    obtain ⟨p, hp, hdrawn⟩ := exists_planned h hl
    have hbase : LINK_PORT_BASE + p.step = l.cred.port := hdrawn.port.symm
    refine ⟨⟨l.toNodeId, p.step, l.protocol⟩, ?_, x.transport, ht, ?_⟩
    · exact (mem_walk_iff_drawn h).mpr ⟨l, hl, rfl, hbase, rfl⟩
    · rw [hbase, ← hto, ← hport]

theorem mem_topologyReceivingCells
    (h : generateTopologyLinks mint existing T.positions T.directions = .ok links)
    (x : ReceivingCell) : x ∈ topologyReceivingCells T.walkPositions T.walkDirections
      ↔ ∃ l ∈ links, x.nodeId = l.toNodeId ∧ x.cell = l.protocol := by
  have huuid : ∀ a ∈ (walkReceivingLegs T.walkPositions T.walkDirections).map fun leg =>
      ({ nodeId := leg.nodeId, cell := leg.cell } : ReceivingCell),
      uuidShaped a.nodeId = true := by
    intro a ha
    obtain ⟨leg, hleg, rfl⟩ := List.mem_map.mp ha
    exact uuidShaped_of_walk h hleg
  rw [topologyReceivingCells,
    mem_keepFirst fun a ha b hb => receivingCell_key_inj (huuid a ha) (huuid b hb)]
  simp only [List.mem_map]
  constructor
  · rintro ⟨leg, hleg, rfl⟩
    obtain ⟨l, hl, hto, -, hcell⟩ := (mem_walk_iff_drawn h).mp hleg
    exact ⟨l, hl, hto, hcell⟩
  · rintro ⟨l, hl, hto, hcell⟩
    obtain ⟨p, hp, hdrawn⟩ := exists_planned h hl
    refine ⟨⟨l.toNodeId, p.step, l.protocol⟩, ?_, ?_⟩
    · exact (mem_walk_iff_drawn h).mpr ⟨l, hl, rfl, hdrawn.port.symm, rfl⟩
    · rw [← hto, ← hcell]

theorem walksExact
    (h : generateTopologyLinks mint existing T.positions T.directions = .ok links) :
    WalksExact T links where
  ports := mem_topologyReceivingPorts h
  ports_nodup := nodup_keepFirst
  cells := mem_topologyReceivingCells h
  cells_nodup := nodup_keepFirst
  pairs := by
    intro x
    rw [T.mem_topologyTunnelPairs]
    constructor
    · rintro ⟨p, hp, hf, ht, hawg⟩
      obtain ⟨l, hl, hdrawn⟩ := exists_drawn h hp
      refine ⟨l, hl, by rw [hdrawn.fromNode, hf], by rw [hdrawn.toNode, ht], ?_⟩
      rw [hdrawn.fromNode, hdrawn.toNode, hdrawn.tag, hawg]
    · rintro ⟨l, hl, hf, ht, hawg⟩
      obtain ⟨p, hp, hdrawn⟩ := exists_planned h hl
      refine ⟨p, hp, by rw [← hdrawn.fromNode, hf], by rw [← hdrawn.toNode, ht], ?_⟩
      rw [← hdrawn.fromNode, ← hdrawn.toNode, ← hdrawn.tag, hawg]
  pairs_nodup := List.nodup_eraseDups _

end Exact

/-! ## The port on a direction's row -/

/-- A row the writer leaves was written for a direction, unless no direction keeps it. -/
theorem writeRow_cases {newIds : Nat → String} {linkPort : Nat}
    {l : List (AssignedDirection × Nat)} {rows : List DirectionRow}
    (hr : r ∈ l.foldl (writeRow newIds linkPort) rows) :
    (∃ e ∈ l, ∃ base, r = e.1.writeOnto linkPort base)
      ∨ (r ∈ rows ∧ ∀ e ∈ l, truthy e.1.keepId ≠ some r.id) := by
  induction l generalizing rows with
  | nil => exact .inr ⟨hr, fun _ he => by cases he⟩
  | cons a l ih =>
    rcases ih hr with ⟨e, he, base, rfl⟩ | ⟨hmem, hrest⟩
    · exact .inl ⟨e, List.mem_cons_of_mem a he, base, rfl⟩
    unfold writeRow at hmem
    cases hkeep : truthy a.1.keepId with
    | none =>
      rw [hkeep] at hmem
      rcases List.mem_append.mp hmem with hold | hnew
      · refine .inr ⟨hold, ?_⟩
        intro e he
        rcases List.mem_cons.mp he with rfl | he
        · rw [hkeep]
          simp
        · exact hrest e he
      · exact .inl ⟨a, List.mem_cons_self, _, List.mem_singleton.mp hnew⟩
    | some id =>
      rw [hkeep] at hmem
      obtain ⟨base, hbase, rfl⟩ := List.mem_map.mp hmem
      by_cases hid : base.id = id
      · exact .inl ⟨a, List.mem_cons_self, base, if_pos hid⟩
      · rw [if_neg hid] at hrest ⊢
        refine .inr ⟨hbase, ?_⟩
        intro e he
        rcases List.mem_cons.mp he with rfl | he
        · rw [hkeep]
          intro heq
          exact hid (Option.some.inj heq).symm
        · exact hrest e he

section Rows

variable {s : Save} {st st' : CascadeRows}

theorem map_direction_assignTags (n : Nat) (l : List (ResolvedDirection × Option DirectionRow)) :
    (assignTags n l).1.map (·.direction) = l.map Prod.fst := by
  induction l generalizing n with
  | nil => rfl
  | cons e l ih =>
    obtain ⟨d, m⟩ := e
    cases m <;> simp [assignTags, ih]

theorem map_direction_resolved : (resolvedDirections s st).1.map (·.direction) = s.directions := by
  rw [resolvedDirections, map_direction_assignTags]
  apply List.map_fst_zip
  rw [matchedRows, matchStoredDirections, length_matchFrom, List.length_map]

/-- **Every row left is one the save wrote.**  The rows it did not claim are deleted first. -/
theorem exists_written (hnamed : ∀ r ∈ st.directions, r.id ≠ "")
    (hr : r ∈ writtenDirections s st) : ∃ a ∈ (resolvedDirections s st).1, ∃ base,
      r = a.writeOnto (LINK_PORT_BASE + (s.positions.length - 1)) base := by
  rcases writeRow_cases hr with ⟨⟨a, i⟩, he, base, rfl⟩ | ⟨hkept, hnone⟩
  · have ha := List.mem_map_of_mem (f := Prod.fst) he
    rw [List.zipIdx_map_fst] at ha
    exact ⟨a, ha, base, rfl⟩
  · exfalso
    obtain ⟨hst, hclaimed⟩ := List.mem_filter.mp hkept
    simp only [unclaimedIds, List.mem_filter, decide_eq_true_eq, not_and, not_not] at hclaimed
    obtain ⟨m, hm, hid⟩ := List.mem_filterMap.mp (hclaimed (List.mem_map_of_mem hst))
    have hkeepIds : some r.id ∈ (resolvedDirections s st).1.map (·.keepId) := by
      rw [map_keepId_resolved, ← hid]
      exact List.mem_map_of_mem hm
    obtain ⟨a, ha, hakeep⟩ := List.mem_map.mp hkeepIds
    obtain ⟨i, hi⟩ := List.mem_iff_getElem?.mp ha
    refine hnone (a, i) (List.mem_zipIdx_iff_getElem?.mpr hi) ?_
    exact truthy_eq_some.mpr ⟨hakeep, hnamed r hst⟩

theorem links_of_written (h : writeTopologyV4 s st = .ok st') :
    generateTopologyLinks s.mint (storedLinks st.links).get? s.positions
      ((resolvedDirections s st).1.map fun a => { tag := a.tag, direction := a.direction })
      = .ok st'.links := by
  simp only [writeTopologyV4, bind_eq_ok, pure_eq_ok] at h
  obtain ⟨_, -, _, -, links, hlinks, _, -, rfl⟩ := h
  cases hgen : generateTopologyLinks s.mint (storedLinks st.links).get? s.positions
      ((resolvedDirections s st).1.map fun a => { tag := a.tag, direction := a.direction }) with
  | error e =>
    rw [hgen] at hlinks
    cases hlinks
  | ok drawn =>
    rw [hgen] at hlinks
    cases hlinks
    rfl

/-- **The port on a direction's row is the port of every leg into its pool.** -/
theorem linkPort_of_leg {T : SavedTopology} (hpositions : s.positions = T.positions)
    (hdirections : s.directions = T.directions.map (·.direction))
    (hnamed : ∀ r ∈ st.directions, r.id ≠ "") (h : writeTopologyV4 s st = .ok st')
    (hr : r ∈ st'.directions) {l : TopologyLink} (hl : l ∈ st'.links)
    (hto : l.toNodeId ∈ r.nodes) : r.linkPort = some l.cred.port := by
  rw [(writeTopologyV4_eq_ok h).directions] at hr
  obtain ⟨a, ha, base, rfl⟩ := exists_written hnamed hr
  rw [writeOnto_nodes] at hto
  obtain ⟨d, hd, hda⟩ : ∃ d ∈ T.directions, d.direction = a.direction := by
    have hmem := List.mem_map_of_mem (f := AssignedDirection.direction) ha
    rw [map_direction_resolved, hdirections] at hmem
    exact List.mem_map.mp hmem
  obtain ⟨p, hp, hdrawn⟩ := exists_planned (links_of_written h) hl
  rw [hdrawn.toNode] at hto
  rw [hpositions] at hp
  cases hp with
  | between _ hb _ ht _ =>
    -- a leg between two positions lands on a node no pool has
    rw [← hda] at hto
    exact absurd hto (T.not_both (List.mem_of_getElem? hb) hd ht)
  | into hlast hi hf hd' ht =>
    rename_i i last f t d'
    have hpool : truthy a.direction.outboundId = none := by
      have hshape := T.admitted.shapes d.direction (List.mem_map_of_mem hd)
      rw [hda] at hshape
      cases ho : truthy a.direction.outboundId with
      | none => rfl
      | some o =>
        rw [ho] at hshape
        rw [hshape.mp rfl] at hto
        cases hto
    have hstep : s.positions.length - 1 = 0 + i := by
      rw [hpositions, ← hi, Nat.add_sub_cancel, Nat.zero_add]
    rw [hdrawn.port, PlannedLeg.port, AssignedDirection.writeOnto, hpool, hstep]

end Rows

/-- **The questions before a save are asked about the legs it draws.**  Where every direction's
cell can be read legs are drawn; whatever is drawn, the walks answer with its ports, its cells and
its tunnels, each once; and a save writes on each direction's row the port of every leg into its
pool. -/
theorem receiving_walks_exact (T : SavedTopology) :
    (∀ mint existing links,
        generateTopologyLinks mint existing T.positions T.directions = .ok links →
        WalksExact T links)
      ∧ (CellsReadable T.directions → ∀ mint existing, ∃ links,
        generateTopologyLinks mint existing T.positions T.directions = .ok links)
      ∧ ∀ (s : Save) (st st' : CascadeRows), s.positions = T.positions →
        s.directions = T.directions.map (·.direction) → (∀ r ∈ st.directions, r.id ≠ "") →
        writeTopologyV4 s st = .ok st' →
        ∀ r ∈ st'.directions, ∀ l ∈ st'.links, l.toNodeId ∈ r.nodes →
          r.linkPort = some l.cred.port := by
  refine ⟨?_, ?_, ?_⟩
  · intro mint existing links h
    exact walksExact h
  · intro hcells mint existing
    exact generateTopologyLinks_isOk T.accepted hcells mint existing
  · intro s st st' hpositions hdirections hnamed h r hr l hl hto
    exact linkPort_of_leg hpositions hdirections hnamed h hr hl hto

/-- The save of the path with its transit, tunnel and direction. -/
def transitSave : Save := { sampleSave "row-" [nodeC] with positions := transitPath.positions }

theorem receiving_walks_exact_transitPath :
    ∃ links, generateTopologyLinks (sampleMinting "1") (fun _ => none) transitPath.positions
        transitPath.directions = .ok links ∧ WalksExact transitPath links
      ∧ topologyTunnelPairs transitPath.sent (transitPath.directions.map (·.direction))
        = [⟨nodeA, nodeB⟩]
      ∧ ∃ st', writeTopologyV4 transitSave newCascade = .ok st'
        ∧ ∀ r ∈ st'.directions, ∀ l ∈ st'.links, l.toNodeId ∈ r.nodes →
          r.linkPort = some l.cred.port := by
  obtain ⟨hexact, hdrawn, hports⟩ := receiving_walks_exact transitPath
  obtain ⟨links, hlinks⟩ :=
    hdrawn (by simp [CellsReadable, transitPath, linkCellFor]) (sampleMinting "1") (fun _ => none)
  refine ⟨links, hlinks, hexact _ _ _ hlinks, by decide, _, rfl, ?_⟩
  exact hports transitSave newCascade _ rfl rfl (by simp [newCascade]) rfl

end Iceslab
