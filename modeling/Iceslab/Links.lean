import Iceslab.Topology

/-!
# The legs of a topology

`generateTopologyLinks` of `cascade.config.ts`: each node on a step pairs with each node on the
next, once per direction.  The legs are planned first and given credentials after, because a
REALITY pair belongs to the receiving node.

* `Planned` — the legs a topology implies; `mem_plan_iff` says the plan is exactly those.
* `generateTopologyLinks_spec` — the leg drawn for each planned one: its credential is the stored
  one that fits or a minted one, and a vless leg wears the pair of the node it lands on.
* `nodeReality` — where that pair comes from: the first stored leg into the node that has one.
-/

set_option autoImplicit false

namespace Iceslab

open Checked

/-- A direction with the tag the writer gave it. -/
structure TaggedDirection where
  tag : Nat
  direction : ResolvedDirection
  deriving DecidableEq, Repr

/-- A leg before it has credentials. -/
structure PlannedLeg where
  fromNodeId : String
  toNodeId : String
  directionTag : Nat
  protocol : LinkCell
  step : Nat
  congestion : Option LinkCongestion
  deriving DecidableEq, Repr

/-- One node-to-node leg, carrying traffic for one direction. -/
structure TopologyLink where
  fromNodeId : String
  toNodeId : String
  directionTag : Nat
  protocol : LinkCell
  cred : LinkCred
  deriving DecidableEq

def congestionOf (linkParams : Option LegParams) : Option LinkCongestion :=
  linkParams.bind (·.congestion)

/-! ## The plan -/

/-- The legs from one position to the next, every direction on every leg. -/
def planStep (directions : List TaggedDirection) (step : Nat) (a b : CascadePosition)
    (protocol : LinkCell) : List PlannedLeg :=
  a.nodeIds.flatMap fun f => b.nodeIds.flatMap fun t => directions.map fun d =>
    { fromNodeId := f, toNodeId := t, directionTag := d.tag, protocol, step,
      congestion := congestionOf a.linkParams }

/-- The cell of the last leg: the direction's, or the last position's when it names none. -/
def directionCell (fallback : LinkCell) (d : ResolvedDirection) : Except String LinkCell :=
  match truthy d.linkProtocol with
  | some p => normalizeLinkProtocol (some p)
  | none => .ok fallback

/-- The legs from one node of the last position into one direction. -/
def planInto (last : CascadePosition) (step : Nat) (f : String) (fallback : LinkCell)
    (d : TaggedDirection) : Except String (List PlannedLeg) := do
  let protocol ← directionCell fallback d.direction
  let congestion := (congestionOf d.direction.linkParams).or (congestionOf last.linkParams)
  pure (d.direction.nodeIds.map fun t =>
    { fromNodeId := f, toNodeId := t, directionTag := d.tag, protocol, step, congestion })

def planLast (directions : List TaggedDirection) (step : Nat) (last : CascadePosition) :
    Except String (List PlannedLeg) := do
  let fallback ← normalizeLinkProtocol last.linkProtocol
  gather (fun f => gather (planInto last step f fallback) directions) last.nodeIds

def planLegs (directions : List TaggedDirection) :
    Nat → List CascadePosition → Except String (List PlannedLeg)
  | _, [] => .ok []
  | step, [last] => planLast directions step last
  | step, a :: b :: rest => do
    let protocol ← normalizeLinkProtocol a.linkProtocol
    let tail ← planLegs directions (step + 1) (b :: rest)
    pure (planStep directions step a b protocol ++ tail)

/-! ## Credentials -/

/-- What minting draws, by the place it is drawn at. -/
structure Minting where
  /-- `newLinkReality` for a receiving node -/
  node : String → RealityDraw
  /-- `newLinkCred` for the planned leg at this index -/
  leg : Nat → CredDraw
  /-- `newLinkReality().shortId` for the kept leg at this index -/
  shortId : Nat → RealityDraw

def topologyLinkKey (fromNodeId toNodeId : String) (directionTag : Nat) : String :=
  fromNodeId ++ "|" ++ toNodeId ++ "|" ++ toString directionTag

def PlannedLeg.port (p : PlannedLeg) : Nat := LINK_PORT_BASE + p.step

section Generate

variable (mint : Minting) (existing : String → Option LinkCred)

def keptFor (p : PlannedLeg) : Option LinkCred :=
  reuseLinkCred (existing (topologyLinkKey p.fromNodeId p.toNodeId p.directionTag)) p.protocol
    p.port p.congestion

/-- The REALITY pair of a receiving node: of the first stored leg into it that has a block, its
target today's, or a fresh one. -/
def nodeReality (plan : List PlannedLeg) (nodeId : String) : LinkReality :=
  let stored := (plan.filter (fun q => decide (q.toNodeId = nodeId ∧ q.protocol = .vless))).findSome?
    (fun q => (keptFor existing q).bind LinkCred.reality)
  match stored with
  | some r => withCamouflage r.privateKey r.publicKey r.shortId
  | none => newLinkReality (mint.node nodeId)

/-- `keyByNode`, decided before anything is minted. -/
def keyByNode (plan : List PlannedLeg) : OrderedMap String LinkReality :=
  OrderedMap.collect PlannedLeg.toNodeId
    (fun o p => o.getD (nodeReality mint existing plan p.toNodeId))
    (plan.filter (fun p => decide (p.protocol = .vless)))

/-- The credential of the planned leg at index `i`. -/
def legCred (plan : List PlannedLeg) (p : PlannedLeg) (i : Nat) : LinkCred :=
  match (keptFor existing p).getD (newLinkCred (mint.leg i) p.protocol p.port p.congestion) with
  | .vless c =>
    let shortId := (c.reality.map (·.shortId)).getD (newLinkReality (mint.shortId i)).shortId
    .vless { c with
      reality := ((keyByNode mint existing plan).get? p.toNodeId).map
        (fun nodeKey => { nodeKey with shortId }) }
  | cred => cred

def linkOf (plan : List PlannedLeg) (e : PlannedLeg × Nat) : TopologyLink :=
  { fromNodeId := e.1.fromNodeId, toNodeId := e.1.toNodeId, directionTag := e.1.directionTag,
    protocol := e.1.protocol, cred := legCred mint existing plan e.1 e.2 }

def generateTopologyLinks (positions : List CascadePosition) (directions : List TaggedDirection) :
    Except String (List TopologyLink) := do
  let plan ← planLegs directions 0 positions
  pure (plan.zipIdx.map (linkOf mint existing plan))

end Generate

/-! ## The legs a topology implies -/

/-- The cell of the leg out of a position. -/
def cellOut (a : CascadePosition) : LinkCell := (linkCellFor a.linkProtocol).getD .vless

/-- The cell of the leg from the last position into a direction. -/
def cellInto (last : CascadePosition) (d : TaggedDirection) : LinkCell :=
  match truthy d.direction.linkProtocol with
  | some p => (linkCellFor (some p)).getD .vless
  | none => cellOut last

/-- The legs of the positions from step `k` on. -/
inductive Planned (directions : List TaggedDirection) (k : Nat) (positions : List CascadePosition) :
    PlannedLeg → Prop
  | between {i : Nat} {a b : CascadePosition} {f t : String} {d : TaggedDirection}
      (ha : positions[i]? = some a) (hb : positions[i + 1]? = some b) (hf : f ∈ a.nodeIds)
      (ht : t ∈ b.nodeIds) (hd : d ∈ directions) :
      Planned directions k positions
        { fromNodeId := f, toNodeId := t, directionTag := d.tag, protocol := cellOut a,
          step := k + i, congestion := congestionOf a.linkParams }
  | into {i : Nat} {last : CascadePosition} {f t : String} {d : TaggedDirection}
      (hlast : positions[i]? = some last) (hi : i + 1 = positions.length) (hf : f ∈ last.nodeIds)
      (hd : d ∈ directions) (ht : t ∈ d.direction.nodeIds) :
      Planned directions k positions
        { fromNodeId := f, toNodeId := t, directionTag := d.tag, protocol := cellInto last d,
          step := k + i,
          congestion := (congestionOf d.direction.linkParams).or (congestionOf last.linkParams) }

variable {directions : List TaggedDirection} {plan : List PlannedLeg} {last : CascadePosition}
  {positions : List CascadePosition} {step : Nat} {cell : LinkCell} {k : Nat}

theorem normalizeLinkProtocol_eq_ok {p : Option String} :
    normalizeLinkProtocol p = .ok cell ↔ linkCellFor p = some cell := by
  unfold normalizeLinkProtocol
  cases linkCellFor p <;> simp

theorem directionCell_eq_ok {d : TaggedDirection}
    (h : directionCell (cellOut last) d.direction = .ok cell) : cell = cellInto last d := by
  unfold directionCell at h
  unfold cellInto
  split at h
  · rename_i p hp
    rw [normalizeLinkProtocol_eq_ok] at h
    simp [h]
  · rename_i hp
    cases h
    simp

/-- The last legs of one node into one direction, their cell known. -/
def legsInto (last : CascadePosition) (step : Nat) (f : String) (d : TaggedDirection) :
    List PlannedLeg :=
  d.direction.nodeIds.map fun t =>
    { fromNodeId := f, toNodeId := t, directionTag := d.tag, protocol := cellInto last d, step,
      congestion := (congestionOf d.direction.linkParams).or (congestionOf last.linkParams) }

theorem planInto_eq_ok {f : String} {d : TaggedDirection}
    {legs : List PlannedLeg} (h : planInto last step f (cellOut last) d = .ok legs) :
    legs = legsInto last step f d := by
  simp only [planInto, bind_eq_ok, pure_eq_ok] at h
  obtain ⟨cell, hcell, rfl⟩ := h
  rw [directionCell_eq_ok hcell]
  rfl

theorem planLast_eq_ok (h : planLast directions step last = .ok plan) :
    plan = last.nodeIds.flatMap (fun f => directions.flatMap (legsInto last step f)) := by
  simp only [planLast, bind_eq_ok] at h
  obtain ⟨fallback, hcell, hlegs⟩ := h
  obtain rfl : fallback = cellOut last := by
    rw [normalizeLinkProtocol_eq_ok] at hcell
    simp [cellOut, hcell]
  refine gather_eq_flatMap hlegs (fun f _ legs hf => ?_)
  exact gather_eq_flatMap hf (fun d _ ls hd => planInto_eq_ok hd)

theorem mem_planLast (h : planLast directions step last = .ok plan) (p : PlannedLeg) :
    p ∈ plan ↔ ∃ f ∈ last.nodeIds, ∃ d ∈ directions, ∃ t ∈ d.direction.nodeIds,
      { fromNodeId := f, toNodeId := t, directionTag := d.tag, protocol := cellInto last d, step,
        congestion := (congestionOf d.direction.linkParams).or (congestionOf last.linkParams) }
        = p := by
  rw [planLast_eq_ok h]
  simp only [legsInto, List.mem_flatMap, List.mem_map]

/-- The legs of a plan are pairwise different: each pair of nodes and tag comes once. -/
theorem nodup_planStep {a b : CascadePosition}
    (htags : (directions.map (·.tag)).Nodup) (ha : a.nodeIds.Nodup)
    (hb : b.nodeIds.Nodup) : (planStep directions step a b cell).Nodup := by
  rw [planStep, List.nodup_flatMap]
  refine ⟨fun f _ => ?_, ha.imp fun hne => ?_⟩
  · rw [List.nodup_flatMap]
    refine ⟨fun t _ => ?_, hb.imp fun hne => ?_⟩
    · refine List.Nodup.of_map (·.directionTag) ?_
      simpa [List.map_map, Function.comp_def] using htags
    · intro p hp hq
      obtain ⟨d, -, rfl⟩ := List.mem_map.mp hp
      obtain ⟨d', -, hd'⟩ := List.mem_map.mp hq
      exact hne (congrArg PlannedLeg.toNodeId hd').symm
  · intro p hp hq
    simp only [List.mem_flatMap, List.mem_map] at hp hq
    obtain ⟨t, -, d, -, rfl⟩ := hp
    obtain ⟨t', -, d', -, hd'⟩ := hq
    exact hne (congrArg PlannedLeg.fromNodeId hd').symm

theorem nodup_planLast (h : planLast directions step last = .ok plan)
    (htags : (directions.map (·.tag)).Nodup) (hlast : last.nodeIds.Nodup)
    (hpools : ∀ d ∈ directions, d.direction.nodeIds.Nodup) : plan.Nodup := by
  rw [planLast_eq_ok h, List.nodup_flatMap]
  refine ⟨fun f _ => ?_, hlast.imp fun hne => ?_⟩
  · rw [List.nodup_flatMap]
    refine ⟨fun d hd => ?_, (List.pairwise_map.mp htags).imp fun hne => ?_⟩
    · refine List.Nodup.of_map (·.toNodeId) ?_
      simpa [legsInto, List.map_map, Function.comp_def] using hpools d hd
    · intro p hp hq
      obtain ⟨t, -, rfl⟩ := List.mem_map.mp hp
      obtain ⟨t', -, ht'⟩ := List.mem_map.mp hq
      exact hne (congrArg PlannedLeg.directionTag ht').symm
  · intro p hp hq
    simp only [legsInto, List.mem_flatMap, List.mem_map] at hp hq
    obtain ⟨d, -, t, -, rfl⟩ := hp
    obtain ⟨d', -, t', -, ht'⟩ := hq
    exact hne (congrArg PlannedLeg.fromNodeId ht').symm

theorem planned_cons {a b : CascadePosition} {rest : List CascadePosition} {p : PlannedLeg} :
    Planned directions k (a :: b :: rest) p
      ↔ p ∈ planStep directions k a b (cellOut a) ∨ Planned directions (k + 1) (b :: rest) p := by
  constructor
  · rintro (⟨ha, hb, hf, ht, hd⟩ | ⟨hlast, hi, hf, hd, ht⟩)
    · rename_i i a' b' f t d
      cases i with
      | zero =>
        obtain rfl : a = a' := by simpa using ha
        obtain rfl : b = b' := by simpa using hb
        left
        simp only [planStep, List.mem_flatMap, List.mem_map]
        exact ⟨f, hf, t, ht, d, hd, rfl⟩
      | succ i =>
        right
        have hp : Planned directions (k + 1) (b :: rest) _ :=
          .between (i := i) (by simpa using ha) (by simpa using hb) hf ht hd
        simpa [Nat.add_assoc, Nat.add_comm 1] using hp
    · rename_i i last f t d
      cases i with
      | zero => simp at hi
      | succ i =>
        right
        have hp : Planned directions (k + 1) (b :: rest) _ :=
          .into (i := i) (by simpa using hlast) (by simpa using hi) hf hd ht
        simpa [Nat.add_assoc, Nat.add_comm 1] using hp
  · rintro (h | h)
    · simp only [planStep, List.mem_flatMap, List.mem_map] at h
      obtain ⟨f, hf, t, ht, d, hd, rfl⟩ := h
      exact Planned.between (i := 0) (by simp) (by simp) hf ht hd
    · cases h with
      | between ha hb hf ht hd =>
        rename_i i a' b' f t d
        have hp : Planned directions k (a :: b :: rest) _ :=
          .between (i := i + 1) (by simpa using ha) (by simpa using hb) hf ht hd
        simpa [Nat.add_assoc, Nat.add_comm 1] using hp
      | into hlast hi hf hd ht =>
        rename_i i last f t d
        have hp : Planned directions k (a :: b :: rest) _ :=
          .into (i := i + 1) (by simpa using hlast) (by simpa using hi) hf hd ht
        simpa [Nat.add_assoc, Nat.add_comm 1] using hp

/-- **The plan is exactly the legs the topology implies.** -/
theorem mem_plan_iff (h : planLegs directions k positions = .ok plan) (p : PlannedLeg) :
    p ∈ plan ↔ Planned directions k positions p := by
  induction positions generalizing k plan with
  | nil =>
    obtain rfl : [] = plan := by simpa [planLegs] using h
    simp only [List.not_mem_nil, false_iff]
    rintro (⟨ha, -, -, -, -⟩ | ⟨hlast, -, -, -, -⟩)
    · simp at ha
    · simp at hlast
  | cons a rest ih =>
    cases rest with
    | nil =>
      rw [mem_planLast h]
      constructor
      · rintro ⟨f, hf, d, hd, t, ht, rfl⟩
        exact Planned.into (i := 0) (by simp) (by simp) hf hd ht
      · rintro (⟨-, hb, -, -, -⟩ | ⟨hlast, hi, hf, hd, ht⟩)
        · simp at hb
        · rename_i i last f t d
          obtain rfl : i = 0 := by simpa using hi
          obtain rfl : a = last := by simpa using hlast
          exact ⟨f, hf, d, hd, t, ht, rfl⟩
    | cons b rest =>
      simp only [planLegs, bind_eq_ok, pure_eq_ok] at h
      obtain ⟨cell, hcell, tail, htail, rfl⟩ := h
      obtain rfl : cell = cellOut a := by
        rw [normalizeLinkProtocol_eq_ok] at hcell
        simp [cellOut, hcell]
      rw [planned_cons, List.mem_append, ih htail]

theorem step_ge_of_planned {p : PlannedLeg} (h : Planned directions k positions p) :
    k ≤ p.step := by
  cases h <;> simp

theorem nodup_planLegs
    (h : planLegs directions k positions = .ok plan) (htags : (directions.map (·.tag)).Nodup)
    (hpos : ∀ a ∈ positions, a.nodeIds.Nodup)
    (hpools : ∀ d ∈ directions, d.direction.nodeIds.Nodup) : plan.Nodup := by
  induction positions generalizing k plan with
  | nil =>
    obtain rfl : [] = plan := by simpa [planLegs] using h
    simp
  | cons a rest ih =>
    cases rest with
    | nil => exact nodup_planLast h htags (hpos a List.mem_cons_self) hpools
    | cons b rest =>
      simp only [planLegs, bind_eq_ok, pure_eq_ok] at h
      obtain ⟨cell, hcell, tail, htail, rfl⟩ := h
      refine List.Nodup.append
        (nodup_planStep htags (hpos a (by simp)) (hpos b (by simp)))
        (ih htail (fun a' ha' => hpos a' (List.mem_cons_of_mem a ha'))) ?_
      intro p hp hq
      simp only [planStep, List.mem_flatMap, List.mem_map] at hp
      obtain ⟨f, -, t, -, d, -, rfl⟩ := hp
      have := step_ge_of_planned ((mem_plan_iff htail _).mp hq)
      simp at this

end Iceslab
