import Mathlib.Algebra.GroupWithZero.Nat
import Mathlib.Data.List.Sort
import Mathlib.Data.String.Basic
import Iceslab.Lib.Checked
import Iceslab.Lib.OrderedMap
import Iceslab.LinkCred

/-!
# The topology of a cascade and its validation

`cascade.validation.ts`: the positions a path runs through, the directions it leaves by, and the
rules a save has to pass.

* `validateCascadeTopology` — the checks of the source, in its order and with its messages.
* `Admitted` — what an accepted topology satisfies; `validateCascadeTopology_admitted` reads it
  off the checks, and the modules that render a topology use nothing else.
-/

set_option autoImplicit false

namespace Iceslab

open Checked

def MAX_CASCADE_PATH : Nat := 5

def MAX_CASCADE_POSITIONS : Nat := MAX_CASCADE_PATH - 1

def MAX_CASCADE_LINKS : Nat := 64

def CHAIN_ENTRY_PROTOCOLS : List String := ["xray", "hysteria", "amneziawg"]

/-- What the operator chose about a leg beyond its cell. -/
structure LegParams where
  congestion : Option LinkCongestion := none
  underlay : Option LinkUnderlay := none
  deriving DecidableEq, Repr

/-- One step of the path: a pool of interchangeable nodes. -/
structure CascadePosition where
  nodeIds : List String
  position : Nat
  entryProtocol : Option String := none
  linkProtocol : Option String := none
  linkParams : Option LegParams := none
  deriving DecidableEq, Repr

/-- A direction with nothing left unsaid. -/
structure ResolvedDirection where
  id : Option String := none
  tag : Option Nat := none
  nodeIds : List String
  outboundId : Option String := none
  countryCode : Option String := none
  linkProtocol : Option String := none
  linkParams : Option LegParams := none
  deriving DecidableEq, Repr

inductive DirectionShapeCode where
  | DIRECTION_OUTBOUND_AND_NODES
  | DIRECTION_EMPTY
  deriving DecidableEq, Repr

/-- The refusals of a save, with what the screen matches on. -/
inductive CascadeRefusal where
  | validation (message : String)
  | entryNotChainable (protocol : String)
  | directionShape (code : DirectionShapeCode) (directionIndex : Nat) (directionTag : Option Nat)
      (message : String)
  deriving DecidableEq, Repr

structure ValidatedTopology where
  positions : List CascadePosition
  directions : List ResolvedDirection
  linkCount : Nat
  deriving DecidableEq, Repr

/-- A string the source tests for truth: absent and empty are both false. -/
def truthy (o : Option String) : Option String :=
  match o with
  | none => none
  | some s => if s = "" then none else some s

@[simp] theorem truthy_none : truthy none = none := rfl

theorem truthy_eq_some {o : Option String} {s : String} :
    truthy o = some s ↔ o = some s ∧ s ≠ "" := by
  cases o with
  | none => simp [truthy]
  | some t =>
    by_cases h : t = ""
    · subst h
      simp only [truthy, if_true, reduceCtorEq, Option.some.injEq, false_iff, not_and, not_not]
      exact fun h => h.symm
    · simp only [truthy, h, if_false, Option.some.injEq]
      constructor
      · rintro rfl
        exact ⟨rfl, h⟩
      · exact fun ⟨h, _⟩ => h

/-! ## The checks -/

/-- Stable sort by `position`. -/
def sortPositions (positions : List CascadePosition) : List CascadePosition :=
  positions.insertionSort (fun a b => a.position ≤ b.position)

def assertLinkCellExists (protocol : Option String) (place : String) : Except CascadeRefusal Unit :=
  require (linkCellFor protocol).isSome (.validation
    (place ++ ": " ++ Json.quote (protocol.getD "") ++ " is not an inter-hop link cell this build can "
      ++ "carry. Available: " ++ String.intercalate ", " (LINK_CELLS.map LinkCell.name)
      ++ " (vless is also stored as \"xray\"). A hop link "
      ++ "is not the same thing as the protocol the entry serves users with."))

def assertEntryIsChainable (protocol : String) : Except CascadeRefusal Unit :=
  require (decide (protocol ∈ CHAIN_ENTRY_PROTOCOLS)) (.entryNotChainable protocol)

/-- An entry serves a chainable protocol, no other position names one. -/
def checkEntryProtocol (isEntry : Bool) (p : CascadePosition) : Except CascadeRefusal Unit :=
  match isEntry, truthy p.entryProtocol with
  | true, some protocol => assertEntryIsChainable protocol
  | false, some _ => .error (.validation
      ("entryProtocol is only valid on the entry, not position " ++ toString p.position))
  | _, none => .ok ()

/-- The rules of one position; `i` is its place in the sorted list of `n`. -/
def checkPosition (n : Nat) (e : CascadePosition × Nat) : Except CascadeRefusal Unit := do
  let (p, i) := e
  let isEntry := decide (i = 0)
  require (!isEntry || (truthy p.entryProtocol).isSome)
    (.validation "the entry position needs an entryProtocol")
  checkEntryProtocol isEntry p
  require (truthy p.linkProtocol).isSome (.validation
    ("position " ++ toString p.position ++ " needs a linkProtocol (it links to "
      ++ (if i = n - 1 then "the directions" else "the next position") ++ ")"))
  assertLinkCellExists p.linkProtocol ("position " ++ toString p.position)
  require (decide (p.nodeIds.length ≠ 0)) (.validation
    ("position " ++ toString p.position ++ " needs at least one node"))
  require (decide p.nodeIds.Nodup) (.validation
    ("position " ++ toString p.position ++ " lists the same node twice"))

structure BlindStep where
  fromPosition : Nat
  transitPosition : Nat
  cell : LinkCell
  deriving DecidableEq, Repr

/-- The steps of a sorted list into a transit whose cell cannot tell the directions apart. -/
def blindSteps : List CascadePosition → List BlindStep
  | a :: b :: rest =>
    (match linkCellFor a.linkProtocol with
      | some cell => if cell ≠ .vless then [⟨a.position, b.position, cell⟩] else []
      | none => []) ++ blindSteps (b :: rest)
  | _ => []

def blindTransitSteps (positions : List CascadePosition) (directionCount : Nat) : List BlindStep :=
  if directionCount ≤ 1 then [] else blindSteps (sortPositions positions)

def checkBlind (sorted : List CascadePosition) (directionCount : Nat) :
    Except CascadeRefusal Unit :=
  match blindTransitSteps sorted directionCount with
  | [] => .ok ()
  | blind :: _ => .error (.validation
      ("position " ++ toString blind.transitPosition ++ " is a transit carrying "
        ++ toString directionCount ++ " directions, and the " ++ blind.cell.name
        ++ " leg into it from position " ++ toString blind.fromPosition
        ++ " cannot tell them apart: every direction "
        ++ "would leave through the first. Use vless for that step, or keep one direction."))

/-- `NL (#2)`, or `#2` for a direction without a country. -/
def directionLabel (d : ResolvedDirection) (i : Nat) : String :=
  match truthy d.countryCode with
  | some country => country ++ " (#" ++ toString (i + 1) ++ ")"
  | none => "#" ++ toString (i + 1)

/-- Every direction is a pool of nodes or one named outbound of its own. -/
def checkDirectionShapes (seen : List String) (i : Nat) :
    List ResolvedDirection → Except CascadeRefusal Unit
  | [] => .ok ()
  | d :: ds => do
    let name := directionLabel d i
    require (!((truthy d.outboundId).isSome && decide (d.nodeIds.length > 0)))
      (.directionShape .DIRECTION_OUTBOUND_AND_NODES i d.tag
        ("direction " ++ name
          ++ " has both nodes and a named outbound. A direction goes out through one "
          ++ "of the two: send outboundId: null to keep the nodes, or nodeIds: [] to keep the outbound."))
    require (!((truthy d.outboundId).isNone && decide (d.nodeIds.length = 0)))
      (.directionShape .DIRECTION_EMPTY i d.tag
        ("direction " ++ name
          ++ " has neither nodes nor a named outbound, so it has no way out. Give it "
          ++ "one of the two, or remove it."))
    match truthy d.outboundId with
    | none => checkDirectionShapes seen (i + 1) ds
    | some outboundId =>
      require (decide (outboundId ∉ seen)) (.validation
        ("direction " ++ name
          ++ " stands on a named outbound another direction of this cascade already "
          ++ "goes out through. One outbound is one way out: remove one of the two."))
      checkDirectionShapes (outboundId :: seen) (i + 1) ds

def assertDirectionShapes (directions : List ResolvedDirection) : Except CascadeRefusal Unit :=
  checkDirectionShapes [] 0 directions

/-- Which directions hold each node, by label. -/
def directionHolders (directions : List ResolvedDirection) : OrderedMap String (List String) :=
  OrderedMap.collect Prod.fst (fun o e => o.getD [] ++ [e.2])
    (directions.zipIdx.flatMap (fun e => e.1.nodeIds.map (fun n => (n, directionLabel e.1 e.2))))

def checkHolders (e : String × List String) : Except CascadeRefusal Unit :=
  require (decide (¬ e.2.length > 1)) (.validation
    ("node " ++ e.1 ++ " is behind two directions of this cascade at once ("
      ++ String.intercalate " and " e.2
      ++ "). Each direction reaches its nodes over its own leg, and two legs cannot share one "
      ++ "node and one port: give the node to one of them, or put a second node behind the other."))

/-- Links a sorted topology implies: every node on a step pairs with every node on the next. -/
def countLinks (directions : List ResolvedDirection) : List CascadePosition → Nat
  | [] => 0
  | [last] => (directions.map (fun d => last.nodeIds.length * d.nodeIds.length)).sum
  | a :: b :: rest => a.nodeIds.length * b.nodeIds.length + countLinks directions (b :: rest)

/-- Every node the topology names, positions first. -/
def topologyNodes (positions : List CascadePosition) (directions : List ResolvedDirection) :
    List String :=
  positions.flatMap (·.nodeIds) ++ directions.flatMap (·.nodeIds)

def validateCascadeTopology (positions : List CascadePosition)
    (directions : List ResolvedDirection) : Except CascadeRefusal ValidatedTopology := do
  require (decide (¬ positions.length < 1)) (.validation "a cascade needs an entry position")
  require (decide (¬ positions.length > MAX_CASCADE_POSITIONS)) (.validation
    ("a cascade can have at most " ++ toString MAX_CASCADE_POSITIONS ++ " positions (got "
      ++ toString positions.length ++ ")"))
  require (decide (¬ directions.length < 1)) (.validation
    "a cascade needs at least one direction: without one, a client has nowhere to exit")
  require (decide (¬ positions.length + 1 > MAX_CASCADE_PATH)) (.validation
    ("the path is capped at " ++ toString MAX_CASCADE_PATH ++ " steps including the direction"))
  let sorted := sortPositions positions
  forEach (fun e : CascadePosition × Nat => require (decide (e.1.position = e.2)) (.validation
    ("positions must be contiguous 0.." ++ toString (sorted.length - 1) ++ " (got "
      ++ String.intercalate "," (sorted.map (fun p => toString p.position)) ++ ")")))
    sorted.zipIdx
  forEach (checkPosition sorted.length) sorted.zipIdx
  checkBlind sorted directions.length
  assertDirectionShapes directions
  forEach (fun d : ResolvedDirection => require (decide d.nodeIds.Nodup) (.validation
    "a direction lists the same node twice")) directions
  forEach checkHolders (directionHolders directions).entries
  require (decide (topologyNodes sorted directions).Nodup) (.validation
    "a node cannot appear more than once in a cascade")
  let linkCount := countLinks directions sorted
  require (decide (¬ linkCount > MAX_CASCADE_LINKS)) (.validation
    ("this shape needs " ++ toString linkCount ++ " links, over the " ++ toString MAX_CASCADE_LINKS
      ++ " cap. Each pair of nodes on adjacent steps is one link with its own listener and secret, "
      ++ "so pools multiply."))
  .ok { positions := sorted, directions, linkCount }

/-! ## What an accepted topology satisfies -/

/-- The facts behind an accepted save, over the sorted positions. -/
structure Admitted (positions : List CascadePosition) (directions : List ResolvedDirection) :
    Prop where
  positions_ne : positions ≠ []
  positions_le : positions.length ≤ MAX_CASCADE_POSITIONS
  directions_ne : directions ≠ []
  contiguous : ∀ (i : Nat) (p : CascadePosition), positions[i]? = some p → p.position = i
  entry : ∀ p : CascadePosition, positions[0]? = some p →
    ∃ e ∈ CHAIN_ENTRY_PROTOCOLS, p.entryProtocol = some e
  cells : ∀ p ∈ positions, (linkCellFor p.linkProtocol).isSome
  pools : ∀ p ∈ positions, p.nodeIds ≠ []
  transits : 1 < directions.length → ∀ (i : Nat) (p : CascadePosition), positions[i]? = some p →
    i + 1 < positions.length → linkCellFor p.linkProtocol = some .vless
  shapes : ∀ d ∈ directions, (truthy d.outboundId).isSome ↔ d.nodeIds = []
  outbounds : (directions.filterMap (fun d => truthy d.outboundId)).Nodup
  nodes : (topologyNodes positions directions).Nodup
  links : countLinks directions positions ≤ MAX_CASCADE_LINKS

variable {i n : Nat}

theorem checkPosition_eq_ok {p : CascadePosition} (h : checkPosition n (p, i) = .ok ()) :
    (i = 0 → ∃ e ∈ CHAIN_ENTRY_PROTOCOLS, p.entryProtocol = some e)
      ∧ (linkCellFor p.linkProtocol).isSome ∧ p.nodeIds ≠ [] ∧ p.nodeIds.Nodup := by
  simp only [checkPosition, bind_eq_ok, require_eq_ok] at h
  obtain ⟨_, hentry, _, hprot, _, _, _, hcell, _, hlen, hnodup⟩ := h
  refine ⟨?_, ?_, ?_, by simpa using hnodup⟩
  · rintro rfl
    simp only [decide_true, Bool.not_true, Bool.false_or] at hentry
    obtain ⟨e, he⟩ := Option.isSome_iff_exists.mp hentry
    simp only [checkEntryProtocol, he, decide_true, assertEntryIsChainable, require_eq_ok,
      decide_eq_true_eq] at hprot
    exact ⟨e, hprot, (truthy_eq_some.mp he).1⟩
  · simpa [assertLinkCellExists] using hcell
  · rintro hnil
    simp [hnil] at hlen

variable {positions : List CascadePosition}

theorem blindSteps_eq_nil (h : blindSteps positions = [])
    (hcells : ∀ p ∈ positions, (linkCellFor p.linkProtocol).isSome)
    {p : CascadePosition} (hp : positions[i]? = some p) (hi : i + 1 < positions.length) :
    linkCellFor p.linkProtocol = some .vless := by
  induction positions generalizing i with
  | nil => simp at hi
  | cons a rest ih =>
    cases rest with
    | nil => simp at hi
    | cons b rest =>
      simp only [blindSteps, List.append_eq_nil_iff] at h
      cases i with
      | zero =>
        obtain rfl : a = p := by simpa using hp
        obtain ⟨cell, hcell⟩ := Option.isSome_iff_exists.mp (hcells a List.mem_cons_self)
        have h1 := h.1
        rw [hcell] at h1 ⊢
        by_contra hne
        simp_all
      | succ i =>
        exact ih h.2 (fun q hq => hcells q (List.mem_cons_of_mem a hq)) (by simpa using hp)
          (by simpa using hi)

theorem checkDirectionShapes_eq_ok {ds : List ResolvedDirection} {seen : List String}
    (h : checkDirectionShapes seen i ds = .ok ()) :
    (∀ d ∈ ds, (truthy d.outboundId).isSome ↔ d.nodeIds = [])
      ∧ (ds.filterMap (fun d => truthy d.outboundId)).Nodup
      ∧ ∀ o ∈ ds.filterMap (fun d => truthy d.outboundId), o ∉ seen := by
  induction ds generalizing seen i with
  | nil => simp
  | cons d ds ih =>
    simp only [checkDirectionShapes, bind_eq_ok, require_eq_ok] at h
    obtain ⟨-, hboth, -, hnone, hrest⟩ := h
    have hshape : (truthy d.outboundId).isSome ↔ d.nodeIds = [] := by
      cases ho : truthy d.outboundId with
      | none => simpa [ho] using hnone
      | some o => simpa [ho] using hboth
    cases ho : truthy d.outboundId with
    | none =>
      simp only [ho] at hrest
      obtain ⟨h1, h2, h3⟩ := ih hrest
      simp only [List.mem_cons, forall_eq_or_imp, List.filterMap_cons, ho]
      exact ⟨⟨by simpa [ho] using hshape, h1⟩, h2, h3⟩
    | some o =>
      simp only [ho, bind_eq_ok, require_eq_ok, decide_eq_true_eq] at hrest
      obtain ⟨-, hseen, hrest⟩ := hrest
      obtain ⟨h1, h2, h3⟩ := ih hrest
      simp only [List.mem_cons, forall_eq_or_imp, List.filterMap_cons, ho, List.nodup_cons]
      refine ⟨⟨by simpa [ho] using hshape, h1⟩, ⟨fun hm => ?_, h2⟩, hseen, fun o' ho' hs => ?_⟩
      · exact h3 o hm List.mem_cons_self
      · exact h3 o' ho' (List.mem_cons_of_mem o hs)

theorem checkBlind_eq_ok {sorted : List CascadePosition}
    (h : checkBlind sorted n = .ok ()) : blindTransitSteps sorted n = [] := by
  unfold checkBlind at h
  split at h
  · assumption
  · cases h

theorem sortPositions_sorted (positions : List CascadePosition) :
    (sortPositions positions).Pairwise (fun a b => a.position ≤ b.position) :=
  List.pairwise_insertionSort (fun a b : CascadePosition => a.position ≤ b.position) positions

theorem sortPositions_eq_self (h : positions.Pairwise (fun a b => a.position ≤ b.position)) :
    sortPositions positions = positions :=
  List.Pairwise.insertionSort_eq h

theorem sortPositions_idem (positions : List CascadePosition) :
    sortPositions (sortPositions positions) = sortPositions positions :=
  sortPositions_eq_self (sortPositions_sorted positions)

/-- **What the checks establish.** -/
theorem validateCascadeTopology_admitted
    {directions : List ResolvedDirection} {v : ValidatedTopology}
    (h : validateCascadeTopology positions directions = .ok v) :
    v.positions = sortPositions positions ∧ v.directions = directions
      ∧ Admitted v.positions v.directions := by
  simp only [validateCascadeTopology, bind_eq_ok, require_eq_ok, forEach_eq_ok,
    decide_eq_true_eq, Except.ok.injEq] at h
  obtain ⟨_, hpos, _, hmax, _, hdir, _, _, _, hcont, _, hchk, _, hblind, _, hshape, _, _, _, _, _,
    hnodes, _, hlinks, rfl⟩ := h
  have hlen : (sortPositions positions).length = positions.length :=
    List.length_insertionSort _ positions
  have hat : ∀ i p, (sortPositions positions)[i]? = some p →
      (p, i) ∈ (sortPositions positions).zipIdx := by
    intro i p hp
    exact List.mk_mem_zipIdx_iff_getElem?.mpr hp
  have hpos' : ∀ p ∈ sortPositions positions, ∃ i, (p, i) ∈ (sortPositions positions).zipIdx := by
    intro p hp
    obtain ⟨i, hi⟩ := List.mem_iff_getElem?.mp hp
    exact ⟨i, hat i p hi⟩
  have hcells : ∀ p ∈ sortPositions positions, (linkCellFor p.linkProtocol).isSome := by
    intro p hp
    obtain ⟨i, hi⟩ := hpos' p hp
    exact (checkPosition_eq_ok (hchk _ hi)).2.1
  obtain ⟨hs1, hs2, -⟩ := checkDirectionShapes_eq_ok hshape
  refine ⟨rfl, rfl, ?_⟩
  constructor
  · intro hnil
    have := congrArg List.length hnil
    rw [hlen] at this
    simp only [List.length_nil] at this
    omega
  · simp only [hlen]
    omega
  · rintro rfl
    simp at hdir
  · intro i p hp
    exact hcont _ (hat i p hp)
  · intro p hp
    exact (checkPosition_eq_ok (hchk _ (hat 0 p hp))).1 rfl
  · exact hcells
  · intro p hp
    obtain ⟨i, hi⟩ := hpos' p hp
    exact (checkPosition_eq_ok (hchk _ hi)).2.2.1
  · intro hmany i p hp hi
    have hb := checkBlind_eq_ok hblind
    rw [blindTransitSteps, if_neg (Nat.not_le.mpr hmany), sortPositions_idem] at hb
    exact blindSteps_eq_nil hb hcells hp hi
  · exact hs1
  · exact hs2
  · exact hnodes
  · simp only [not_lt] at hlinks
    exact hlinks

end Iceslab
