import Mathlib.Algebra.BigOperators.Ring.List
import Mathlib.Data.Nat.Cast.Basic
import Iceslab.LegStability

/-!
# How many legs a topology comes to

`countLinks` of `cascade.validation.ts` beside `generateTopologyLinks` of `cascade.config.ts`.  The
cap counts the pairs of nodes on neighbouring steps; the legs drawn between two positions are as
many for each direction.

* `length_planLegs` — the legs drawn: the pairs between positions, each once for every direction,
  and the pairs of the last position and the pools.
* `countLinks_eq` — the count: the same pairs, each once.
* `generateTopologyLinks_isOk` — legs are drawn where every direction names a cell or none.
* `link_cap_iff` — the two agree on a topology of one position or of one direction, and only there.
-/

set_option autoImplicit false

namespace Iceslab

open Checked

/-- The pairs of nodes on neighbouring positions. -/
def stepPairs : List CascadePosition → Nat
  | a :: b :: rest => a.nodeIds.length * b.nodeIds.length + stepPairs (b :: rest)
  | _ => 0

/-- The pairs of a node of the last position and a node behind a direction. -/
def lastPairs (directions : List ResolvedDirection) (positions : List CascadePosition) : Nat :=
  match positions.getLast? with
  | none => 0
  | some last => (directions.map fun d => last.nodeIds.length * d.nodeIds.length).sum

theorem countLinks_eq (directions : List ResolvedDirection) (positions : List CascadePosition) :
    countLinks directions positions = stepPairs positions + lastPairs directions positions := by
  induction positions with
  | nil => rfl
  | cons a rest ih =>
    cases rest with
    | nil => simp [countLinks, stepPairs, lastPairs]
    | cons b rest =>
      have hlast : lastPairs directions (a :: b :: rest) = lastPairs directions (b :: rest) := by
        simp [lastPairs]
      rw [countLinks, stepPairs, ih, hlast]
      omega

theorem length_planStep (directions : List TaggedDirection) (step : Nat) (a b : CascadePosition)
    (cell : LinkCell) : (planStep directions step a b cell).length
      = a.nodeIds.length * b.nodeIds.length * directions.length := by
  simp [planStep, List.length_flatMap, Nat.mul_assoc]

theorem length_planLast {directions : List TaggedDirection} {step : Nat} {last : CascadePosition}
    {plan : List PlannedLeg} (h : planLast directions step last = .ok plan) :
    plan.length
      = (directions.map fun d => last.nodeIds.length * d.direction.nodeIds.length).sum := by
  have hsum : (directions.map fun d => last.nodeIds.length * d.direction.nodeIds.length).sum
      = last.nodeIds.length * (directions.map fun d => d.direction.nodeIds.length).sum :=
    List.sum_map_mul_left directions (fun d => d.direction.nodeIds.length) last.nodeIds.length
  rw [planLast_eq_ok h, hsum]
  simp [legsInto, List.length_flatMap]

variable {positions : List CascadePosition}

/-- The legs drawn: between two positions as many for each direction. -/
theorem length_planLegs {directions : List TaggedDirection} {step : Nat} {plan : List PlannedLeg}
    (h : planLegs directions step positions = .ok plan) :
    plan.length = stepPairs positions * directions.length
      + lastPairs (directions.map (·.direction)) positions := by
  induction positions generalizing step plan with
  | nil =>
    obtain rfl : [] = plan := by simpa [planLegs] using h
    simp [stepPairs, lastPairs]
  | cons a rest ih =>
    cases rest with
    | nil =>
      rw [length_planLast h]
      simp [stepPairs, lastPairs, Function.comp_def]
    | cons b rest =>
      simp only [planLegs, bind_eq_ok, pure_eq_ok] at h
      obtain ⟨cell, -, tail, htail, rfl⟩ := h
      have hlast : lastPairs (directions.map (·.direction)) (a :: b :: rest)
          = lastPairs (directions.map (·.direction)) (b :: rest) := by
        simp [lastPairs]
      rw [List.length_append, length_planStep, ih htail, stepPairs, hlast, Nat.add_mul]
      omega

/-- A path of more than one position has a pair of nodes on its first step. -/
theorem stepPairs_eq_zero_iff (hne : positions ≠ [])
    (hpools : ∀ p ∈ positions, p.nodeIds ≠ []) : stepPairs positions = 0 ↔ positions.length = 1 := by
  match positions, hne with
  | [a], _ => simp [stepPairs]
  | a :: b :: rest, _ =>
    have ha : 0 < a.nodeIds.length := List.length_pos_iff.mpr (hpools a (by simp))
    have hb : 0 < b.nodeIds.length := List.length_pos_iff.mpr (hpools b (by simp))
    have hpos := Nat.mul_pos ha hb
    simp only [stepPairs, List.length_cons]
    omega

/-! ## The legs are drawn -/

/-- Every direction names a cell the links can carry, or none. -/
def CellsReadable (directions : List TaggedDirection) : Prop :=
  ∀ d ∈ directions, (linkCellFor d.direction.linkProtocol).isSome

theorem linkCellFor_truthy {o : Option String} {p : String} (h : truthy o = some p) :
    linkCellFor (some p) = linkCellFor o := by
  rw [(truthy_eq_some.mp h).1]

theorem directionCell_isOk {directions : List TaggedDirection} (h : CellsReadable directions)
    {d : TaggedDirection} (hd : d ∈ directions) (fallback : LinkCell) :
    ∃ cell, directionCell fallback d.direction = .ok cell := by
  unfold directionCell
  cases hp : truthy d.direction.linkProtocol with
  | none => exact ⟨fallback, rfl⟩
  | some p =>
    obtain ⟨cell, hcell⟩ := Option.isSome_iff_exists.mp (h d hd)
    rw [← linkCellFor_truthy hp] at hcell
    exact ⟨cell, normalizeLinkProtocol_eq_ok.mpr hcell⟩

theorem planLast_isOk {directions : List TaggedDirection} (h : CellsReadable directions) (step : Nat)
    {last : CascadePosition} (hlast : (linkCellFor last.linkProtocol).isSome) :
    ∃ plan, planLast directions step last = .ok plan := by
  obtain ⟨fallback, hfallback⟩ := Option.isSome_iff_exists.mp hlast
  obtain ⟨plan, hplan⟩ : ∃ plan, gather
      (fun f => gather (planInto last step f fallback) directions) last.nodeIds = .ok plan := by
    refine gather_isOk.mpr fun f _ => gather_isOk.mpr fun d hd => ?_
    obtain ⟨cell, hcell⟩ := directionCell_isOk h hd fallback
    exact ⟨_, by simp only [planInto, hcell]; rfl⟩
  refine ⟨plan, ?_⟩
  simp only [planLast, bind_eq_ok]
  exact ⟨fallback, normalizeLinkProtocol_eq_ok.mpr hfallback, hplan⟩

theorem planLegs_isOk {directions : List TaggedDirection} (h : CellsReadable directions) (step : Nat)
    (hcells : ∀ p ∈ positions, (linkCellFor p.linkProtocol).isSome) :
    ∃ plan, planLegs directions step positions = .ok plan := by
  induction positions generalizing step with
  | nil => exact ⟨[], rfl⟩
  | cons a rest ih =>
    cases rest with
    | nil => exact planLast_isOk h step (hcells a List.mem_cons_self)
    | cons b rest =>
      obtain ⟨cell, hcell⟩ := Option.isSome_iff_exists.mp (hcells a List.mem_cons_self)
      obtain ⟨tail, htail⟩ := ih (step + 1) fun p hp => hcells p (List.mem_cons_of_mem a hp)
      refine ⟨planStep directions step a b cell ++ tail, ?_⟩
      simp only [planLegs, bind_eq_ok, pure_eq_ok]
      exact ⟨cell, normalizeLinkProtocol_eq_ok.mpr hcell, tail, htail, rfl⟩

section Accepted

variable {sent : List CascadePosition} {directions : List TaggedDirection} {v : ValidatedTopology}

theorem generateTopologyLinks_isOk
    (h : validateCascadeTopology sent (directions.map (·.direction)) = .ok v)
    (hcells : CellsReadable directions) (mint : Minting) (existing : String → Option LinkCred) :
    ∃ links, generateTopologyLinks mint existing v.positions directions = .ok links := by
  obtain ⟨-, -, hadmitted⟩ := validateCascadeTopology_admitted h
  obtain ⟨plan, hplan⟩ := planLegs_isOk hcells 0 hadmitted.cells
  exact ⟨_, generateTopologyLinks_eq_ok.mpr ⟨plan, hplan, rfl⟩⟩

/-- The count an accepted save answers with. -/
theorem linkCount_of_accepted
    (h : validateCascadeTopology sent (directions.map (·.direction)) = .ok v) :
    v.linkCount = stepPairs v.positions + lastPairs (directions.map (·.direction)) v.positions := by
  rw [← countLinks_eq]
  simp only [validateCascadeTopology, bind_eq_ok, require_eq_ok, Except.ok.injEq] at h
  obtain ⟨-, -, -, -, -, -, -, -, -, -, -, -, -, -, -, -, -, -, -, -, -, -, -, -, rfl⟩ := h
  rfl

/-- The legs an accepted save draws. -/
theorem length_generateTopologyLinks {mint : Minting} {existing : String → Option LinkCred}
    {links : List TopologyLink}
    (h : generateTopologyLinks mint existing v.positions directions = .ok links) :
    links.length = stepPairs v.positions * directions.length
      + lastPairs (directions.map (·.direction)) v.positions := by
  simp only [generateTopologyLinks, bind_eq_ok, pure_eq_ok] at h
  obtain ⟨plan, hplan, rfl⟩ := h
  rw [List.length_map, List.length_zipIdx]
  exact length_planLegs hplan

/-- **What the cap counts against what a save draws.**  An accepted topology of one position or of
one direction comes to the legs its count says, inside the cap; any other comes to more than its
count, wherever legs are drawn at all.  They are drawn when every direction's cell can be read. -/
theorem link_cap_iff (h : validateCascadeTopology sent (directions.map (·.direction)) = .ok v)
    (mint : Minting) (existing : String → Option LinkCred) :
    (∀ links, generateTopologyLinks mint existing v.positions directions = .ok links →
      ((links.length = v.linkCount ∧ links.length ≤ MAX_CASCADE_LINKS)
        ↔ sent.length = 1 ∨ directions.length = 1))
      ∧ (CellsReadable directions →
        ∃ links, generateTopologyLinks mint existing v.positions directions = .ok links) := by
  refine ⟨fun links hlinks => ?_, fun hcells => generateTopologyLinks_isOk h hcells mint existing⟩
  obtain ⟨hpositions, hdirections, hadmitted⟩ := validateCascadeTopology_admitted h
  have hsteps := stepPairs_eq_zero_iff hadmitted.positions_ne hadmitted.pools
  have hlength : v.positions.length = sent.length := by
    rw [hpositions]
    exact List.length_insertionSort _ sent
  have hcap : v.linkCount ≤ MAX_CASCADE_LINKS := by
    have hlinks := hadmitted.links
    rwa [hdirections, countLinks_eq, ← linkCount_of_accepted h] at hlinks
  have hsome : 0 < directions.length := by
    have hne := hadmitted.directions_ne
    rw [hdirections] at hne
    exact List.length_pos_iff.mpr fun hnil => hne (by rw [hnil]; rfl)
  rw [linkCount_of_accepted h] at hcap ⊢
  rw [length_generateTopologyLinks hlinks, ← hlength, ← hsteps]
  constructor
  · rintro ⟨hcount, -⟩
    rcases Nat.eq_zero_or_pos (stepPairs v.positions) with hzero | hpos
    · exact .inl hzero
    · right
      apply Nat.eq_of_mul_eq_mul_left hpos
      omega
  · rintro (hzero | hone)
    · simp only [hzero, Nat.zero_mul] at hcap ⊢
      exact ⟨trivial, hcap⟩
    · simp only [hone, Nat.mul_one] at hcap ⊢
      exact ⟨trivial, hcap⟩

end Accepted

/-- The count a path with one direction behind it is saved with is the count drawn. -/
theorem link_cap_iff_transitPath :
    ∃ links, generateTopologyLinks (sampleMinting "1") (fun _ => none) transitPath.positions
        transitPath.directions = .ok links
      ∧ links.length = transitPath.validated.linkCount ∧ links.length ≤ MAX_CASCADE_LINKS := by
  obtain ⟨hcount, hdrawn⟩ := link_cap_iff transitPath.accepted (sampleMinting "1") (fun _ => none)
  obtain ⟨links, hlinks⟩ := hdrawn (by simp [CellsReadable, transitPath, linkCellFor])
  exact ⟨links, hlinks, (hcount links hlinks).mpr (.inr rfl)⟩

/-! ## A shape over the cap -/

def wideNode (c : Char) : String := "00000000-0000-4000-8000-00000000000".push c

/-- One entry, eight transits. -/
def widePositions : List CascadePosition :=
  [{ nodeIds := [wideNode '0'], position := 0, entryProtocol := some "xray",
     linkProtocol := some "vless" },
   { nodeIds := ['1', '2', '3', '4', '5', '6', '7', '8'].map wideNode, position := 1,
     linkProtocol := some "vless" }]

/-- Seven directions of one node each. -/
def wideDirections : List TaggedDirection :=
  ['9', 'a', 'b', 'c', 'd', 'e', 'f'].zipIdx.map
    fun e => ⟨e.2 + 1, { nodeIds := [wideNode e.1] }⟩

/-- The count stands on the cap, and the legs drawn are 112. -/
theorem wide_cascade_over_cap :
    ∃ v links, validateCascadeTopology widePositions (wideDirections.map (·.direction)) = .ok v
      ∧ generateTopologyLinks (sampleMinting "1") (fun _ => none) v.positions wideDirections
        = .ok links
      ∧ v.linkCount = 64 ∧ links.length = 112
      ∧ ¬ (links.length = v.linkCount ∧ links.length ≤ MAX_CASCADE_LINKS) := by
  obtain ⟨v, hv⟩ : ∃ v, validateCascadeTopology widePositions
      (wideDirections.map (·.direction)) = .ok v := exists_ok_of_isSome (by decide)
  obtain ⟨links, hlinks⟩ :=
    generateTopologyLinks_isOk hv (by simp [CellsReadable, wideDirections, linkCellFor])
      (sampleMinting "1") (fun _ => none)
  have hpositions : v.positions = widePositions := (validateCascadeTopology_admitted hv).1
  have hcount : v.linkCount = 64 := by
    rw [linkCount_of_accepted hv, hpositions]
    rfl
  have hlength : links.length = 112 := by
    rw [length_generateTopologyLinks hlinks, hpositions]
    rfl
  refine ⟨v, links, hv, hlinks, hcount, hlength, ?_⟩
  rw [hcount, hlength]
  decide

end Iceslab
