import Iceslab.TrafficDeltas
import Iceslab.Lib.JsNumeral
import Iceslab.Lib.Tally
import Mathlib.Algebra.Order.Ring.Abs
import Mathlib.Tactic.FieldSimp

/-!
# What one poll writes

`computeNodeStatsWrites` of `stats.compute.ts`: the entries of a poll become one row per user for
the bill and one for the history, and the bytes of the node.

* `tally_entries` — the loop over the entries, read off as sums.
* `scale_near` — what rounding to whole bytes costs one entry.
* `poll_writes` — the rows, the node's bytes and the snapshot, for every list of entries.
-/

set_option autoImplicit false

namespace Iceslab

open JsNumeral (Double)
open JsText (codeUnits)
open SortedRows (sortOn)

/-! ## Input and output -/

/-- A `{ in, out }` record. -/
@[ext] structure InOut where
  inB : Nat
  outB : Nat
  deriving DecidableEq, Repr

/-- What `computeNodeStatsWrites` reads of an entry. -/
structure UserBytes where
  userId : String
  bytesIn : Option Nat
  bytesOut : Option Nat
  deriving DecidableEq, Repr

structure NodeTotals where
  upload : Nat
  download : Nat
  deriving DecidableEq, Repr

structure NodeStatsInput where
  users : List UserBytes
  multiplier : Double
  totalBytesIn : Option Nat
  totalBytesOut : Option Nat
  prevSnapshot : Option InOut
  maxUserDeltaBytes : Option Nat
  /-- false where it is absent -/
  nodeTotalIsCumulative : Bool
  nodeTotals : Option NodeTotals

structure UserTrafficRow where
  userId : String
  scaled : Nat
  deriving DecidableEq, Repr

structure UserHistoryRow where
  userId : String
  bytesIn : Nat
  bytesOut : Nat
  deriving DecidableEq, Repr

structure ClampedEntry where
  userId : String
  bytesIn : Nat
  bytesOut : Nat
  deriving DecidableEq, Repr

structure NodeStatsWrites where
  userTrafficRows : List UserTrafficRow
  historyRows : List UserHistoryRow
  nodeDownload : Nat
  nodeUpload : Nat
  newSnapshot : Option InOut
  clamped : List ClampedEntry
  deriving DecidableEq, Repr

/-- `BigInt(u.bytesIn || 0)` -/
def UserBytes.inB (u : UserBytes) : Nat := u.bytesIn.getD 0

/-- `BigInt(u.bytesOut || 0)` -/
def UserBytes.outB (u : UserBytes) : Nat := u.bytesOut.getD 0

/-! ## `computeNodeStatsWrites` -/

/-- The multiplier in whole tenths; none where `BigInt` is given no integer. -/
def tenthsOf (m : Double) : Option Nat :=
  match m with
  | .finite neg units =>
    if neg = false ∨ units = 0 then (m.timesNat 10).mathRound?.map Int.toNat else some 10
  | _ => some 10

def scale (tenths v : Nat) : Nat := if tenths = 10 then v else (v * tenths + 5) / 10

/-- One poll moves no more than this in a direction. -/
def NodeStatsInput.overCeiling (input : NodeStatsInput) (u : UserBytes) : Bool :=
  match input.maxUserDeltaBytes with
  | none => false
  | some ceiling => decide (ceiling < u.inB) || decide (ceiling < u.outB)

/-- The node's bytes are the sum of the entries. -/
def NodeStatsInput.totalFromUsers (input : NodeStatsInput) : Bool :=
  !input.nodeTotalIsCumulative && input.nodeTotals.isNone

instance : Add InOut := ⟨fun a b => ⟨a.inB + b.inB, a.outB + b.outB⟩⟩

instance : Zero InOut := ⟨⟨0, 0⟩⟩

instance : AddCommMonoid InOut where
  add_assoc a b c := InOut.ext (Nat.add_assoc _ _ _) (Nat.add_assoc _ _ _)
  zero_add a := InOut.ext (Nat.zero_add _) (Nat.zero_add _)
  add_zero a := rfl
  add_comm a b := InOut.ext (Nat.add_comm _ _) (Nat.add_comm _ _)
  nsmul := nsmulRec

/-- What the loop over the entries keeps. -/
structure PollSums where
  usedByUser : OrderedMap String Nat
  histByUser : OrderedMap String InOut
  clamped : List ClampedEntry
  nodeUpload : Nat
  nodeDownload : Nat

def clampedEntry (u : UserBytes) : ClampedEntry := ⟨u.userId, toNumber u.inB, toNumber u.outB⟩

def NodeStatsInput.addEntry (input : NodeStatsInput) (tenths : Nat) (s : PollSums)
    (u : UserBytes) : PollSums :=
  if input.overCeiling u then { s with clamped := s.clamped ++ [clampedEntry u] }
  else
    let s :=
      if input.totalFromUsers then
        { s with
          nodeUpload := s.nodeUpload + u.inB
          nodeDownload := s.nodeDownload + u.outB }
      else s
    let delta := u.inB + u.outB
    -- a user who moved nothing is not written
    if delta = 0 then s
    else
      { s with
        usedByUser := s.usedByUser.alter u.userId fun o => o.getD 0 + scale tenths delta
        histByUser := s.histByUser.alter u.userId fun o =>
          o.getD 0 + ⟨scale tenths u.inB, scale tenths u.outB⟩ }

def NodeStatsInput.sums (input : NodeStatsInput) (tenths : Nat) : PollSums :=
  input.users.foldl (input.addEntry tenths) ⟨.empty, .empty, [], 0, 0⟩

/-- What a cumulative counter has grown by. -/
def NodeStatsInput.growth (input : NodeStatsInput) (cum prev : Nat) : Nat :=
  -- first sight of a cumulative inbound counter only sets the baseline
  let baselineOnly := input.prevSnapshot.isNone && input.nodeTotalIsCumulative
  if baselineOnly then 0 else if prev < cum then cum - prev else 0

/-- The node's bytes and the new snapshot, from the sums of the loop. -/
def NodeStatsInput.nodeBytes (input : NodeStatsInput) (nodeUpload nodeDownload : Nat) :
    NodeTotals × Option InOut :=
  match input.nodeTotals with
  | some totals => (totals, none)
  | none =>
    if input.nodeTotalIsCumulative = true ∨ (nodeDownload = 0 ∧ nodeUpload = 0) then
      let cumIn := input.totalBytesIn.getD 0
      let cumOut := input.totalBytesOut.getD 0
      if 0 < cumIn ∨ 0 < cumOut then
        let prev := input.prevSnapshot.getD 0
        (⟨nodeUpload + input.growth cumIn prev.inB, nodeDownload + input.growth cumOut prev.outB⟩,
          some ⟨cumIn, cumOut⟩)
      else (⟨nodeUpload, nodeDownload⟩, none)
    else (⟨nodeUpload, nodeDownload⟩, none)

def userTrafficRow (e : String × Nat) : UserTrafficRow := ⟨e.1, e.2⟩

def historyRow (e : String × InOut) : UserHistoryRow := ⟨e.1, e.2.inB, e.2.outB⟩

def computeNodeStatsWrites (input : NodeStatsInput) : Option NodeStatsWrites :=
  (tenthsOf input.multiplier).map fun tenths =>
    let s := input.sums tenths
    let node := input.nodeBytes s.nodeUpload s.nodeDownload
    { userTrafficRows :=
        sortOn (fun r => codeUnits r.userId) (s.usedByUser.entries.map userTrafficRow)
      historyRows := sortOn (fun r => codeUnits r.userId) (s.histByUser.entries.map historyRow)
      nodeDownload := node.1.download
      nodeUpload := node.1.upload
      newSnapshot := node.2
      clamped := s.clamped }

/-- `node.consumptionMultiplierTenths / 10`, what the poll hands in. -/
def nodeMultiplier (consumptionMultiplierTenths : Nat) : Double :=
  JsNumeral.ofRatio false consumptionMultiplierTenths 10

/-! ## The loop as sums -/

def UserBytes.moved (u : UserBytes) : Nat := u.inB + u.outB

/-- Both directions of an entry, scaled one by one. -/
def UserBytes.scaled (u : UserBytes) (tenths : Nat) : InOut :=
  ⟨scale tenths u.inB, scale tenths u.outB⟩

/-- The entries that are not thrown away. -/
def NodeStatsInput.keep (input : NodeStatsInput) (us : List UserBytes) : List UserBytes :=
  us.filter fun u => !input.overCeiling u

/-- The entries that are written. -/
def NodeStatsInput.written (input : NodeStatsInput) (us : List UserBytes) : List UserBytes :=
  (input.keep us).filter fun u => decide (u.moved ≠ 0)

def NodeStatsInput.counted (input : NodeStatsInput) : List UserBytes := input.keep input.users

def NodeStatsInput.countedOf (input : NodeStatsInput) (userId : String) : List UserBytes :=
  input.counted.filter fun u => decide (u.userId = userId)

/-- What crossed the wire, by the entries. -/
def NodeStatsInput.rawTotals (input : NodeStatsInput) : NodeTotals :=
  ⟨(input.counted.map UserBytes.inB).sum, (input.counted.map UserBytes.outB).sum⟩

/-- The counters the agent says of the node. -/
def NodeStatsInput.cumulative (input : NodeStatsInput) : InOut :=
  ⟨input.totalBytesIn.getD 0, input.totalBytesOut.getD 0⟩

/-- What the node's counters have grown by since the last snapshot.  Without one everything is new
to the single counter, and nothing to a cumulative one. -/
def NodeStatsInput.snapshotDelta (input : NodeStatsInput) : NodeTotals :=
  match input.prevSnapshot with
  | some prev => ⟨input.cumulative.inB - prev.inB, input.cumulative.outB - prev.outB⟩
  | none =>
    if input.nodeTotalIsCumulative then ⟨0, 0⟩
    else ⟨input.cumulative.inB, input.cumulative.outB⟩

/-- The node's bytes by its mode: the adapters' totals, the snapshot delta, or the entries. -/
def NodeStatsInput.nodeMoved (input : NodeStatsInput) : NodeTotals :=
  match input.nodeTotals with
  | some totals => totals
  | none =>
    if input.nodeTotalIsCumulative = true ∨ input.rawTotals = ⟨0, 0⟩ then input.snapshotDelta
    else input.rawTotals

/-- The mode reads the counters, and they have counted something. -/
def NodeStatsInput.Consumes (input : NodeStatsInput) : Prop :=
  input.nodeTotals = none ∧
    (input.nodeTotalIsCumulative = true ∨ input.rawTotals = ⟨0, 0⟩) ∧ input.cumulative ≠ ⟨0, 0⟩

instance (input : NodeStatsInput) : Decidable input.Consumes := inferInstanceAs (Decidable (_ ∧ _))

variable {u : UserBytes} {us : List UserBytes} {ν ρ : Type*}

section Loop

variable (input : NodeStatsInput) (tenths : Nat)

theorem addEntry_over {s : PollSums} (h : input.overCeiling u = true) :
    input.addEntry tenths s u = { s with clamped := s.clamped ++ [clampedEntry u] } := if_pos h

theorem addEntry_counted {s : PollSums} (h : ¬input.overCeiling u = true) :
    input.addEntry tenths s u =
      { usedByUser := if u.moved = 0 then s.usedByUser else
          s.usedByUser.alter u.userId fun o => o.getD 0 + scale tenths u.moved
        histByUser := if u.moved = 0 then s.histByUser else
          s.histByUser.alter u.userId fun o => o.getD 0 + u.scaled tenths
        clamped := s.clamped
        nodeUpload := s.nodeUpload + if input.totalFromUsers then u.inB else 0
        nodeDownload := s.nodeDownload + if input.totalFromUsers then u.outB else 0 } := by
  have hmoved : u.inB + u.outB = u.moved := rfl
  simp only [NodeStatsInput.addEntry, if_neg h, hmoved, UserBytes.scaled]
  by_cases hraw : input.totalFromUsers = true
  · by_cases hzero : u.moved = 0
    · simp only [if_pos hraw, if_pos hzero]
    · simp only [if_pos hraw, if_neg hzero]
  · by_cases hzero : u.moved = 0
    · simp only [if_neg hraw, if_pos hzero, Nat.add_zero]
    · simp only [if_neg hraw, if_neg hzero, Nat.add_zero]

theorem keep_cons_over (h : input.overCeiling u = true) :
    input.keep (u :: us) = input.keep us := List.filter_cons_of_neg (by simp [h])

theorem keep_cons (h : ¬input.overCeiling u = true) :
    input.keep (u :: us) = u :: input.keep us := List.filter_cons_of_pos (by simpa using h)

theorem foldl_addEntry (us : List UserBytes) (s : PollSums) :
    us.foldl (input.addEntry tenths) s =
      { usedByUser := OrderedMap.collectFrom UserBytes.userId
          (fun o u => o.getD 0 + scale tenths u.moved) s.usedByUser (input.written us)
        histByUser := OrderedMap.collectFrom UserBytes.userId
          (fun o u => o.getD 0 + u.scaled tenths) s.histByUser (input.written us)
        clamped := s.clamped ++ (us.filter input.overCeiling).map clampedEntry
        nodeUpload := s.nodeUpload +
          if input.totalFromUsers then ((input.keep us).map UserBytes.inB).sum else 0
        nodeDownload := s.nodeDownload +
          if input.totalFromUsers then ((input.keep us).map UserBytes.outB).sum else 0 } := by
  induction us generalizing s with
  | nil => cases s; simp [OrderedMap.collectFrom, NodeStatsInput.written, NodeStatsInput.keep]
  | cons u us ih =>
    rw [List.foldl_cons, ih, NodeStatsInput.written, NodeStatsInput.written]
    by_cases hover : input.overCeiling u = true
    · rw [addEntry_over input tenths hover, keep_cons_over input hover,
        List.filter_cons_of_pos hover]
      simp
    · rw [addEntry_counted input tenths hover, keep_cons input hover,
        List.filter_cons_of_neg hover]
      simp only [List.map_cons, List.sum_cons]
      by_cases hmoved : u.moved = 0
      · rw [List.filter_cons_of_neg (by simpa using hmoved)]
        simp only [hmoved, if_true]
        split <;> simp [Nat.add_assoc]
      · rw [List.filter_cons_of_pos (by simpa using hmoved)]
        simp only [hmoved, if_false]
        split <;> simp [Nat.add_assoc, OrderedMap.collectFrom]

/-- **The loop, read off as sums.** -/
theorem sums_eq :
    input.sums tenths =
      { usedByUser := OrderedMap.tally UserBytes.userId (fun u => scale tenths u.moved)
          (input.written input.users)
        histByUser := OrderedMap.tally UserBytes.userId (fun u => u.scaled tenths)
          (input.written input.users)
        clamped := (input.users.filter input.overCeiling).map clampedEntry
        nodeUpload := if input.totalFromUsers then input.rawTotals.upload else 0
        nodeDownload := if input.totalFromUsers then input.rawTotals.download else 0 } := by
  rw [NodeStatsInput.sums, foldl_addEntry]
  simp [OrderedMap.tally, OrderedMap.collect, NodeStatsInput.rawTotals, NodeStatsInput.counted]

end Loop

/-! ## Rounding -/

@[simp] theorem scale_zero (tenths : Nat) : scale tenths 0 = 0 := by
  unfold scale
  split
  · rfl
  · omega

@[simp] theorem scale_one (v : Nat) : scale 10 v = v := if_pos rfl

/-- One entry is off by half a byte at most. -/
theorem scale_near (tenths v : Nat) : |(scale tenths v : ℚ) - tenths / 10 * v| ≤ 1 / 2 := by
  have hbounds : 10 * scale tenths v ≤ v * tenths + 5 ∧ v * tenths ≤ 10 * scale tenths v + 5 := by
    unfold scale
    split
    · rename_i h
      subst h
      omega
    · omega
  obtain ⟨hhigh, hlow⟩ := hbounds
  have hhigh : (10 * scale tenths v : ℚ) ≤ v * tenths + 5 := by exact_mod_cast hhigh
  have hlow : (v * tenths : ℚ) ≤ 10 * scale tenths v + 5 := by exact_mod_cast hlow
  rw [abs_le]
  constructor <;> linarith

theorem sum_scale_near (tenths : Nat) (vs : List Nat) :
    |((vs.map (scale tenths)).sum : ℚ) - tenths / 10 * vs.sum| ≤ vs.length / 2 := by
  induction vs with
  | nil => simp
  | cons v vs ih =>
    have hv := scale_near tenths v
    simp only [List.map_cons, List.sum_cons, List.length_cons, Nat.cast_add, Nat.cast_one]
    rw [abs_le] at hv ih ⊢
    constructor <;> linarith [hv.1, hv.2, ih.1, ih.2]

/-! ## The rows -/

section Rows

variable (input : NodeStatsInput) (tenths : Nat)

theorem sum_written {ν : Type*} [AddCommMonoid ν] (userId : String) (f : UserBytes → ν)
    (hf : ∀ u, u.moved = 0 → f u = 0) :
    (((input.written input.users).filter fun u => decide (u.userId = userId)).map f).sum =
      ((input.countedOf userId).map f).sum := by
  rw [NodeStatsInput.written, List.filter_comm]
  exact OrderedMap.sum_map_filter f _ fun u _ hu => hf u (by simpa using hu)

theorem mem_written : u ∈ input.written us ↔ u ∈ input.keep us ∧ u.moved ≠ 0 := by
  rw [NodeStatsInput.written, List.mem_filter, decide_eq_true_eq]

/-- A map of the loop holds the users who moved bytes, each with the sum over their entries. -/
theorem get?_tally_written {ν : Type*} [AddCommMonoid ν] (f : UserBytes → ν)
    (hf : ∀ u, u.moved = 0 → f u = 0) (userId : String) (v : ν) :
    (OrderedMap.tally UserBytes.userId f (input.written input.users)).get? userId = some v ↔
      (∃ u ∈ input.counted, u.userId = userId ∧ u.moved ≠ 0) ∧
        v = ((input.countedOf userId).map f).sum := by
  have hex : (∃ u ∈ input.written input.users, u.userId = userId) ↔
      ∃ u ∈ input.counted, u.userId = userId ∧ u.moved ≠ 0 :=
    ⟨fun ⟨u, hu, hid⟩ => ⟨u, ((mem_written input).mp hu).1, hid, ((mem_written input).mp hu).2⟩,
      fun ⟨u, hu, hid, hmoved⟩ => ⟨u, (mem_written input).mpr ⟨hu, hmoved⟩, hid⟩⟩
  rw [OrderedMap.get?_tally, sum_written input userId f hf, ← hex]
  split
  · rename_i h
    rw [Option.some.injEq, eq_comm (b := v)]
    exact (and_iff_right h).symm
  · rename_i h
    exact ⟨nofun, fun hboth => absurd hboth.1 h⟩

theorem scaled_eq_zero (h : u.moved = 0) : u.scaled tenths = 0 := by
  obtain ⟨hin, hout⟩ := Nat.add_eq_zero_iff.mp h
  rw [UserBytes.scaled, hin, hout, scale_zero]
  rfl

theorem sum_scaled (us : List UserBytes) :
    (us.map fun u => u.scaled tenths).sum =
      ⟨(us.map fun u => scale tenths u.inB).sum, (us.map fun u => scale tenths u.outB).sum⟩ := by
  induction us with
  | nil => rfl
  | cons u us ih =>
    simp only [List.map_cons, List.sum_cons, ih]
    rfl

variable {input tenths} {w : NodeStatsWrites}

theorem tenthsOf_nodeMultiplier (h : tenths ≤ 1000) :
    tenthsOf (nodeMultiplier tenths) = some tenths := by
  have hround := JsNumeral.mathRound?_tenths (t := tenths) (by omega)
  have hlt := Nat.mul_lt_mul_of_pos_right (show tenths < 2 ^ 40 by omega) JsNumeral.unit_pos
  have hpow : 2 ^ (53 + 1061) = 2 ^ 40 * JsNumeral.unit := by rw [JsNumeral.unit, ← pow_add]
  obtain ⟨units, hunits, -, -⟩ := JsNumeral.ofRatio_near false (show 0 < 10 by decide)
    (show tenths * JsNumeral.unit < 10 * 2 ^ (53 + 1061) by omega) (by decide)
  rw [hunits] at hround
  rw [nodeMultiplier, hunits, tenthsOf, if_pos (.inl rfl), hround]
  rfl

theorem growth_def (input : NodeStatsInput) (cum prev : Nat) :
    input.growth cum prev =
      if input.prevSnapshot.isNone && input.nodeTotalIsCumulative then 0 else cum - prev := by
  have hsub : (if prev < cum then cum - prev else 0) = cum - prev := by split <;> omega
  rw [NodeStatsInput.growth, hsub]

theorem growth_eq (input : NodeStatsInput) :
    (⟨input.growth input.cumulative.inB (input.prevSnapshot.getD 0).inB,
      input.growth input.cumulative.outB (input.prevSnapshot.getD 0).outB⟩ : NodeTotals) =
      input.snapshotDelta := by
  have hzero : (0 : InOut) = ⟨0, 0⟩ := rfl
  rw [growth_def, growth_def, NodeStatsInput.snapshotDelta]
  cases input.prevSnapshot with
  | some prev => simp
  | none => cases input.nodeTotalIsCumulative <;> simp [hzero]

theorem snapshotDelta_of_silent (h : input.cumulative = ⟨0, 0⟩) : input.snapshotDelta = ⟨0, 0⟩ := by
  unfold NodeStatsInput.snapshotDelta
  rw [h]
  cases input.prevSnapshot with
  | some prev => simp
  | none => simp

theorem readCounters (input : NodeStatsInput) :
    (if 0 < input.cumulative.inB ∨ 0 < input.cumulative.outB then
      ((⟨0 + input.growth input.cumulative.inB (input.prevSnapshot.getD 0).inB,
        0 + input.growth input.cumulative.outB (input.prevSnapshot.getD 0).outB⟩ : NodeTotals),
        some input.cumulative)
      else (⟨0, 0⟩, none)) =
      (input.snapshotDelta, if input.cumulative ≠ ⟨0, 0⟩ then some input.cumulative else none) := by
  have hcounted : (0 < input.cumulative.inB ∨ 0 < input.cumulative.outB) ↔
      input.cumulative ≠ ⟨0, 0⟩ := by
    rw [ne_eq, InOut.ext_iff, not_and_or, Nat.pos_iff_ne_zero, Nat.pos_iff_ne_zero]
  rw [Nat.zero_add, Nat.zero_add, growth_eq]
  by_cases h : input.cumulative = ⟨0, 0⟩
  · rw [if_neg (mt hcounted.mp (not_not_intro h)), if_neg (not_not_intro h),
      snapshotDelta_of_silent h]
  · rw [if_pos (hcounted.mpr h), if_pos h]

theorem nodeBytes_eq (input : NodeStatsInput) :
    input.nodeBytes (if input.totalFromUsers then input.rawTotals.upload else 0)
        (if input.totalFromUsers then input.rawTotals.download else 0) =
      (input.nodeMoved, if input.Consumes then some input.cumulative else none) := by
  rw [NodeStatsInput.nodeBytes, NodeStatsInput.nodeMoved]
  obtain htotals | ⟨totals, htotals⟩ := Option.eq_none_or_eq_some input.nodeTotals
  · have hconsumes : input.Consumes ↔
        (input.nodeTotalIsCumulative = true ∨ input.rawTotals = ⟨0, 0⟩) ∧
          input.cumulative ≠ ⟨0, 0⟩ := and_iff_right htotals
    simp only [htotals, hconsumes]
    by_cases hcum : input.nodeTotalIsCumulative = true
    · have hfrom : input.totalFromUsers = false := by simp [NodeStatsInput.totalFromUsers, hcum]
      simp only [hfrom, hcum, true_or, true_and, if_true, Bool.false_eq_true, if_false]
      exact readCounters input
    · have hfrom : input.totalFromUsers = true := by
        simp [NodeStatsInput.totalFromUsers, hcum, htotals]
      simp only [hfrom, hcum, Bool.false_eq_true, false_or, if_true]
      by_cases hraw : input.rawTotals = ⟨0, 0⟩
      · simp only [hraw, and_self, true_and, if_true]
        exact readCounters input
      · have hmoved : ¬(input.rawTotals.download = 0 ∧ input.rawTotals.upload = 0) := by
          rintro ⟨hdown, hup⟩
          refine hraw ?_
          cases hr : input.rawTotals
          rw [hr] at hdown hup
          exact congrArg₂ NodeTotals.mk hup hdown
        rw [if_neg hmoved, if_neg hraw, if_neg (fun h => hraw h.1)]
  · have hconsumes : ¬input.Consumes := fun h => by
      have hnone := h.1
      rw [htotals] at hnone
      cases hnone
    simp only [htotals, if_neg hconsumes]

/-- What `computeNodeStatsWrites` returns, with the loop read off. -/
theorem computeNodeStatsWrites_eq (ht : tenthsOf input.multiplier = some tenths) :
    computeNodeStatsWrites input = some
      { userTrafficRows := sortOn (fun r => codeUnits r.userId)
          ((OrderedMap.tally UserBytes.userId (fun u => scale tenths u.moved)
            (input.written input.users)).entries.map userTrafficRow)
        historyRows := sortOn (fun r => codeUnits r.userId)
          ((OrderedMap.tally UserBytes.userId (fun u => u.scaled tenths)
            (input.written input.users)).entries.map historyRow)
        nodeDownload := input.nodeMoved.download
        nodeUpload := input.nodeMoved.upload
        newSnapshot := if input.Consumes then some input.cumulative else none
        clamped := (input.users.filter input.overCeiling).map clampedEntry } := by
  simp only [computeNodeStatsWrites, ht, Option.map_some, sums_eq, nodeBytes_eq]

theorem mem_rows [AddCommMonoid ν] {f : UserBytes → ν} (row : String × ν → ρ)
    (key : ρ → List Nat) (hf : ∀ u, u.moved = 0 → f u = 0) {r : ρ} :
    r ∈ sortOn key ((OrderedMap.tally UserBytes.userId f
        (input.written input.users)).entries.map row) ↔
      ∃ userId, (∃ u ∈ input.counted, u.userId = userId ∧ u.moved ≠ 0) ∧
        row (userId, ((input.countedOf userId).map f).sum) = r := by
  rw [SortedRows.mem_sortOn, List.mem_map]
  constructor
  · rintro ⟨⟨userId, v⟩, he, rfl⟩
    obtain ⟨hmoved, rfl⟩ := (get?_tally_written input f hf userId v).mp
      ((OrderedMap.get?_eq_some_iff _ _ _).mpr he)
    exact ⟨userId, hmoved, rfl⟩
  · rintro ⟨userId, hmoved, rfl⟩
    exact ⟨_, (OrderedMap.get?_eq_some_iff _ _ _).mp
      ((get?_tally_written input f hf userId _).mpr ⟨hmoved, rfl⟩), rfl⟩

theorem nodup_rows (m : OrderedMap String ν) (row : String × ν → ρ)
    (userId : ρ → String) (hrow : ∀ e, userId (row e) = e.1) :
    ((m.entries.map row).map fun r => codeUnits (userId r)).Nodup := by
  have hkeys : (m.entries.map row).map (fun r => codeUnits (userId r)) = m.keys.map codeUnits := by
    rw [OrderedMap.keys, List.map_map, List.map_map]
    exact List.map_congr_left fun e _ => congrArg codeUnits (hrow e)
  rw [hkeys]
  exact m.nodup_keys.map JsText.codeUnits_injective

theorem rows_congr {m m' : OrderedMap String ν} (h : ∀ k, m.get? k = m'.get? k)
    (row : String × ν → ρ) (userId : ρ → String) (hrow : ∀ e, userId (row e) = e.1) :
    sortOn (fun r => codeUnits (userId r)) (m.entries.map row) =
      sortOn (fun r => codeUnits (userId r)) (m'.entries.map row) :=
  SortedRows.sortOn_congr _ (nodup_rows m row userId hrow) ((OrderedMap.entries_perm h).map row)

end Rows

/-! ## Every poll -/

/-- The writes of a poll, for a node of `tenths`. -/
structure NodeStatsWrites.Right (w : NodeStatsWrites) (input : NodeStatsInput) (tenths : Nat) :
    Prop where
  /-- in the order of the ids, each once -/
  increasing : (w.userTrafficRows.map fun r => codeUnits r.userId).Pairwise (· < ·)
  sameUsers : w.historyRows.map (·.userId) = w.userTrafficRows.map (·.userId)
  users : ∀ userId, userId ∈ w.userTrafficRows.map (·.userId) ↔
    ∃ u ∈ input.counted, u.userId = userId ∧ u.moved ≠ 0
  /-- every entry of the user once -/
  billed : ∀ r ∈ w.userTrafficRows,
    r.scaled = ((input.countedOf r.userId).map fun u => scale tenths u.moved).sum
  near : ∀ r ∈ w.userTrafficRows,
    |(r.scaled : ℚ) - tenths / 10 * ((input.countedOf r.userId).map UserBytes.moved).sum| ≤
      (input.countedOf r.userId).length / 2
  exactAtOne : tenths = 10 → ∀ r ∈ w.userTrafficRows,
    r.scaled = ((input.countedOf r.userId).map UserBytes.moved).sum
  history : ∀ r ∈ w.historyRows,
    r.bytesIn = ((input.countedOf r.userId).map fun u => scale tenths u.inB).sum ∧
      r.bytesOut = ((input.countedOf r.userId).map fun u => scale tenths u.outB).sum
  clamped : w.clamped = (input.users.filter input.overCeiling).map clampedEntry
  node : (⟨w.nodeUpload, w.nodeDownload⟩ : NodeTotals) = input.nodeMoved
  snapshot : ∀ s, w.newSnapshot = some s ↔ input.Consumes ∧ s = input.cumulative

section Polls

variable {input : NodeStatsInput} {tenths : Nat} {w : NodeStatsWrites}

theorem scale_moved (tenths : Nat) (u : UserBytes) (h : u.moved = 0) :
    scale tenths u.moved = 0 := by rw [h, scale_zero]

theorem mem_userIds [AddCommMonoid ν] {f : UserBytes → ν} (row : String × ν → ρ)
    (id : ρ → String) (hid : ∀ e, id (row e) = e.1) (hf : ∀ u, u.moved = 0 → f u = 0)
    (input : NodeStatsInput) (userId : String) :
    userId ∈ (sortOn (fun r => codeUnits (id r)) ((OrderedMap.tally UserBytes.userId f
        (input.written input.users)).entries.map row)).map id ↔
      ∃ u ∈ input.counted, u.userId = userId ∧ u.moved ≠ 0 := by
  rw [List.mem_map]
  constructor
  · rintro ⟨r, hr, rfl⟩
    obtain ⟨userId, hmoved, rfl⟩ := (mem_rows row _ hf).mp hr
    rw [hid]
    exact hmoved
  · intro hmoved
    exact ⟨_, (mem_rows row _ hf).mpr ⟨userId, hmoved, rfl⟩, hid _⟩

theorem ids_ext {ids ids' : List String} (h : (ids.map codeUnits).Pairwise (· < ·))
    (h' : (ids'.map codeUnits).Pairwise (· < ·)) (hmem : ∀ id, id ∈ ids ↔ id ∈ ids') :
    ids = ids' := by
  refine List.map_injective_iff.mpr JsText.codeUnits_injective ?_
  refine List.Pairwise.eq_of_mem_iff h h' fun units => ?_
  rw [List.mem_map, List.mem_map]
  exact exists_congr fun id => and_congr_left fun _ => hmem id

theorem right_of_compute (ht : tenthsOf input.multiplier = some tenths)
    (h : computeNodeStatsWrites input = some w) : w.Right input tenths := by
  rw [computeNodeStatsWrites_eq ht] at h
  obtain rfl := Option.some.inj h
  have hincreasing := SortedRows.sortOn_lt _ (nodup_rows (OrderedMap.tally UserBytes.userId
    (fun u => scale tenths u.moved) (input.written input.users)) userTrafficRow
    UserTrafficRow.userId fun _ => rfl)
  have hincreasing' := SortedRows.sortOn_lt _ (nodup_rows (OrderedMap.tally UserBytes.userId
    (fun u => u.scaled tenths) (input.written input.users)) historyRow
    UserHistoryRow.userId fun _ => rfl)
  have husers := fun userId => mem_userIds userTrafficRow UserTrafficRow.userId (fun _ => rfl)
    (scale_moved tenths) input userId
  have husers' := fun userId => mem_userIds historyRow UserHistoryRow.userId (fun _ => rfl)
    (fun _ => scaled_eq_zero tenths) input userId
  refine ⟨hincreasing, ?_, husers, ?_, ?_, ?_, ?_, rfl, rfl, ?_⟩
  · refine ids_ext ?_ ?_ fun userId => (husers' userId).trans (husers userId).symm
    · rwa [List.map_map]
    · rwa [List.map_map]
  · intro r hr
    obtain ⟨userId, -, rfl⟩ := (mem_rows userTrafficRow _ (scale_moved tenths)).mp hr
    rfl
  · intro r hr
    obtain ⟨userId, -, rfl⟩ := (mem_rows userTrafficRow _ (scale_moved tenths)).mp hr
    simpa [Function.comp_def, userTrafficRow] using
      sum_scale_near tenths ((input.countedOf userId).map UserBytes.moved)
  · intro hone r hr
    obtain ⟨userId, -, rfl⟩ := (mem_rows userTrafficRow _ (scale_moved tenths)).mp hr
    subst hone
    simp only [scale_one]
    rfl
  · intro r hr
    obtain ⟨userId, -, rfl⟩ := (mem_rows historyRow _ fun _ => scaled_eq_zero tenths).mp hr
    rw [sum_scaled]
    exact ⟨rfl, rfl⟩
  · intro s
    by_cases hc : input.Consumes
    · simp [hc, eq_comm]
    · simp [hc]

/-- Only the entries below the ceiling reach the rows, in whatever order. -/
theorem compute_of_keep_perm (ht : tenthsOf input.multiplier = some tenths)
    (h : computeNodeStatsWrites input = some w) (hperm : (input.keep us).Perm input.counted) :
    computeNodeStatsWrites { input with users := us } =
      some { w with clamped := (us.filter input.overCeiling).map clampedEntry } := by
  rw [computeNodeStatsWrites_eq ht] at h
  obtain rfl := Option.some.inj h
  have hwritten : (input.written us).Perm (input.written input.users) := hperm.filter _
  have hraw : NodeStatsInput.rawTotals { input with users := us } = input.rawTotals :=
    congrArg₂ NodeTotals.mk (hperm.map _).sum_eq (hperm.map _).sum_eq
  have hmoved : NodeStatsInput.nodeMoved { input with users := us } = input.nodeMoved := by
    rw [NodeStatsInput.nodeMoved, NodeStatsInput.nodeMoved, hraw]
    rfl
  have hconsumes : NodeStatsInput.Consumes { input with users := us } ↔ input.Consumes := by
    rw [NodeStatsInput.Consumes, NodeStatsInput.Consumes, hraw]
    rfl
  rw [show computeNodeStatsWrites { input with users := us } = _ from computeNodeStatsWrites_eq ht,
    hmoved]
  simp only [hconsumes]
  refine congrArg some ?_
  congr 1
  · have hget :=
      OrderedMap.get?_tally_perm UserBytes.userId (fun u => scale tenths u.moved) hwritten
    exact rows_congr hget userTrafficRow UserTrafficRow.userId fun _ => rfl
  · have hget := OrderedMap.get?_tally_perm UserBytes.userId (fun u => u.scaled tenths) hwritten
    exact rows_congr hget historyRow UserHistoryRow.userId fun _ => rfl

theorem keep_keep (input : NodeStatsInput) (us : List UserBytes) :
    input.keep (input.keep us) = input.keep us := by
  simp [NodeStatsInput.keep, List.filter_filter]

/-- **Every poll writes its users in order and once each, bills each entry below the ceiling once
and to half a byte, and says of the node what its mode says; the order of the entries and those
over the ceiling change nothing but the warnings.** -/
theorem poll_writes (hinput : input.multiplier = nodeMultiplier tenths) (ht : tenths ≤ 1000) :
    ∃ w, computeNodeStatsWrites input = some w ∧ w.Right input tenths ∧
      computeNodeStatsWrites { input with users := input.counted } = some { w with clamped := [] } ∧
      ∀ users, users.Perm input.users → ∃ clamped, clamped.Perm w.clamped ∧
        computeNodeStatsWrites { input with users := users } =
          some { w with clamped := clamped } := by
  have htenths : tenthsOf input.multiplier = some tenths := by
    rw [hinput, tenthsOf_nodeMultiplier ht]
  obtain ⟨w, hw⟩ : ∃ w, computeNodeStatsWrites input = some w :=
    ⟨_, computeNodeStatsWrites_eq htenths⟩
  have hright := right_of_compute htenths hw
  refine ⟨w, hw, hright, ?_, fun users hperm => ⟨_, ?_, compute_of_keep_perm htenths hw
    (hperm.filter _)⟩⟩
  · have hdropped : (input.keep input.users).filter input.overCeiling = [] := by
      rw [List.filter_eq_nil_iff]
      intro u hu
      simpa using (List.mem_filter.mp hu).2
    have hkept := compute_of_keep_perm htenths hw (List.Perm.of_eq (keep_keep input input.users))
    rwa [hdropped] at hkept
  · rw [hright.clamped]
    exact (hperm.filter _).map _

/-- A user on two inbounds, one entry out of range and a node that bills seven tenths. -/
def mixedPoll : NodeStatsInput where
  users := [⟨"b", some 3, none⟩, ⟨"a", some 2000, some 1⟩, ⟨"b", none, some 8⟩, ⟨"a", none, none⟩]
  multiplier := nodeMultiplier 7
  totalBytesIn := some 90
  totalBytesOut := some 10
  prevSnapshot := some ⟨50, 20⟩
  maxUserDeltaBytes := some 1000
  nodeTotalIsCumulative := true
  nodeTotals := none

theorem poll_writes_mixed : ∃ w, computeNodeStatsWrites mixedPoll = some w ∧
    w.Right mixedPoll 7 ∧ w.userTrafficRows = [⟨"b", 8⟩] ∧ w.historyRows = [⟨"b", 2, 6⟩] ∧
      w.nodeUpload = 40 ∧ w.newSnapshot = some ⟨90, 10⟩ := by
  obtain ⟨w, hw, hright, -⟩ := @poll_writes mixedPoll 7 (by rw [mixedPoll]) (by decide)
  have hrun : computeNodeStatsWrites mixedPoll =
      some ⟨[⟨"b", 8⟩], [⟨"b", 2, 6⟩], 0, 40, some ⟨90, 10⟩, [⟨"a", 2000, 1⟩]⟩ := by
    decide +kernel
  refine ⟨w, hw, hright, ?_⟩
  rw [hrun] at hw
  cases hw
  exact ⟨rfl, rfl, rfl, rfl⟩

end Polls

end Iceslab
