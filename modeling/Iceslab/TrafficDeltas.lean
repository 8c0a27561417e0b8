import Iceslab.Lib.Machine
import Iceslab.Lib.Names
import Iceslab.Lib.OrderedMap
import Iceslab.Lib.ResetCounter

/-!
# Traffic billed from cumulative counters

`computeUserDeltas` of `stats.compute.ts` and the part of `pollNodeStats` that feeds it and commits
its snapshots.  A node's adapters count each user's bytes since their core started; a poll reports
some of the counters, and bills what each has grown by over the snapshot committed last.

* `get?_groupEntries` — a group is the sum of the entries of its user and adapter.
* `answered_poll` — what one committed poll bills a pair and leaves as its snapshot.
* `traffic_conserved` — over any run of polls, what a pair is billed in all.
* `summed_snapshot_overbills` — an agent that names no engine shares one snapshot between adapters,
  and a silent one is billed again when it is back.
-/

set_option autoImplicit false

namespace Iceslab

/-! ## The report of a node -/

/-- A name on the wire.  User ids are UUIDs, protocols and engines are words of fixed lists: none
holds the bar the snapshot key is joined with. -/
structure WireName where
  text : String
  no_bar : '|' ∉ text.toList
  deriving DecidableEq

def WireName.blank : WireName := ⟨"", by simp⟩

structure StatsUserEntry where
  userId : WireName
  bytesIn : Option Nat
  bytesOut : Option Nat
  cumulative : Option Bool
  protocol : Option WireName
  engine : Option WireName
  deriving DecidableEq

structure GetStatsResponse where
  users : List StatsUserEntry
  cumulative : Option Bool

structure Adapter where
  protocol : WireName
  engine : WireName
  deriving DecidableEq

/-- The two counters every entry carries. -/
inductive Side where
  | bytesIn
  | bytesOut
  deriving DecidableEq, Repr

/-- `u.bytesIn || 0`, `u.bytesOut || 0`. -/
def StatsUserEntry.bytes (u : StatsUserEntry) : Side → Nat
  | .bytesIn => u.bytesIn.getD 0
  | .bytesOut => u.bytesOut.getD 0

/-- `u.engine ?`: an empty name is none. -/
def StatsUserEntry.named (u : StatsUserEntry) : Bool :=
  match u.engine with
  | none => false
  | some e => decide (e ≠ .blank)

def snapshotAdapterOf (u : StatsUserEntry) : Adapter :=
  if u.named then ⟨u.protocol.getD .blank, u.engine.getD .blank⟩ else ⟨.blank, .blank⟩

def snapshotKey (userId : WireName) (a : Adapter) : String :=
  userId.text ++ "|" ++ a.protocol.text ++ "|" ++ a.engine.text

theorem snapshotKey_inj {u u' : WireName} {a a' : Adapter}
    (h : snapshotKey u a = snapshotKey u' a') : u = u' ∧ a = a' := by
  obtain ⟨⟨p, hp⟩, ⟨e, he⟩⟩ := a
  obtain ⟨⟨p', hp'⟩, ⟨e', he'⟩⟩ := a'
  obtain ⟨t, ht⟩ := u
  obtain ⟨t', ht'⟩ := u'
  have hl := congrArg String.toList h
  simp only [snapshotKey, String.toList_append, List.append_assoc] at hl
  obtain ⟨h₁, hl⟩ := Names.append_sep_inj ht ht' hl
  obtain ⟨h₂, h₃⟩ := Names.append_sep_inj hp hp' hl
  simp only [WireName.mk.injEq, Adapter.mk.injEq]
  exact ⟨String.toList_inj.mp h₁, String.toList_inj.mp h₂, String.toList_inj.mp h₃⟩

/-! ## `computeUserDeltas` -/

structure UserSnapshot where
  cumIn : Nat
  cumOut : Nat
  deriving DecidableEq, Repr

structure UserGroup where
  userId : WireName
  adapter : Adapter
  cumIn : Nat
  cumOut : Nat
  protocols : List (Option WireName)
  deriving DecidableEq

structure SnapshotEntry where
  userId : WireName
  protocol : WireName
  engine : WireName
  cumIn : Nat
  cumOut : Nat
  deriving DecidableEq

structure UserDeltaResult where
  deltas : List StatsUserEntry
  snapshots : List SnapshotEntry

def UserSnapshot.cum (p : UserSnapshot) : Side → Nat
  | .bytesIn => p.cumIn
  | .bytesOut => p.cumOut

def UserGroup.cum (g : UserGroup) : Side → Nat
  | .bytesIn => g.cumIn
  | .bytesOut => g.cumOut

def MAX_SAFE_INTEGER : Nat := 9007199254740991

/-- `Number(n)` of a BigInt: exact up to 2^53, above it the nearest double, ties to even. -/
def toNumber (n : Nat) : Nat :=
  if n ≤ MAX_SAFE_INTEGER then n
  else
    let ulp := 2 ^ (n.log2 - 52)
    let q := n / ulp
    let r := n % ulp
    if 2 * r < ulp ∨ (2 * r = ulp ∧ q % 2 = 0) then q * ulp else (q + 1) * ulp

theorem toNumber_of_safe {n : Nat} (h : n ≤ MAX_SAFE_INTEGER) : toNumber n = n := if_pos h

def addReported (cur : Option UserGroup) (u : StatsUserEntry) : UserGroup :=
  let g := cur.getD ⟨u.userId, snapshotAdapterOf u, 0, 0, []⟩
  { g with
    cumIn := g.cumIn + u.bytes .bytesIn
    cumOut := g.cumOut + u.bytes .bytesOut
    protocols := if u.protocol ∈ g.protocols then g.protocols else g.protocols ++ [u.protocol] }

/-- The map key of an entry. -/
def StatsUserEntry.key (u : StatsUserEntry) : String := snapshotKey u.userId (snapshotAdapterOf u)

def groupEntries (reported : List StatsUserEntry) : OrderedMap String UserGroup :=
  OrderedMap.collect StatsUserEntry.key addReported reported

/-- First sight and a counter below its snapshot give 0. -/
def groupDelta (g : UserGroup) (p : Option UserSnapshot) (side : Side) : Nat :=
  match p with
  | none => 0
  | some p => if p.cum side ≤ g.cum side then g.cum side - p.cum side else 0

def deltaEntry (g : UserGroup) (p : Option UserSnapshot) : StatsUserEntry where
  userId := g.userId
  bytesIn := some (toNumber (groupDelta g p .bytesIn))
  bytesOut := some (toNumber (groupDelta g p .bytesOut))
  cumulative := none
  protocol := (g.protocols.find? (·.isSome)).getD none
  engine := none

def snapshotEntry (g : UserGroup) : SnapshotEntry :=
  ⟨g.userId, g.adapter.protocol, g.adapter.engine, g.cumIn, g.cumOut⟩

def computeUserDeltas (reported : List StatsUserEntry) (prev : OrderedMap String UserSnapshot) :
    UserDeltaResult :=
  let groups := (groupEntries reported).entries
  { deltas := groups.map (fun e => deltaEntry e.2 (prev.get? e.1))
    snapshots := groups.map (fun e => snapshotEntry e.2) }

/-! ## One poll of a node -/

/-- The primary key of `node_user_traffic_snapshot`, within one node. -/
structure RowKey where
  userId : WireName
  protocol : WireName
  engine : WireName
  deriving DecidableEq

abbrev SnapshotTable := OrderedMap RowKey UserSnapshot

/-- The entries that go through the snapshots: the tagged ones, or all where none is tagged. -/
def cumulativeUsers (res : GetStatsResponse) : List StatsUserEntry :=
  if res.cumulative = some true then
    if res.users.any (·.cumulative.isSome) then
      res.users.filter (fun u => decide (u.cumulative = some true))
    else res.users
  else []

def prevOf (rows : SnapshotTable) (users : List StatsUserEntry) : OrderedMap String UserSnapshot :=
  OrderedMap.collect (fun e => snapshotKey e.1.userId ⟨e.1.protocol, e.1.engine⟩)
    (fun _ e => e.2)
    (rows.entries.filter (fun e => decide (e.1.userId ∈ users.map (·.userId))))

def userDeltas (rows : SnapshotTable) (res : GetStatsResponse) : UserDeltaResult :=
  computeUserDeltas (cumulativeUsers res) (prevOf rows (cumulativeUsers res))

/-- The upsert of the new snapshots.  The statement sorts its rows for the lock order; each row has
its own key, so the table is the same. -/
def upsertSnapshots (rows : SnapshotTable) (snapshots : List SnapshotEntry) : SnapshotTable :=
  OrderedMap.collectFrom (fun s => ⟨s.userId, s.protocol, s.engine⟩)
    (fun _ s => ⟨s.cumIn, s.cumOut⟩) rows snapshots

/-- Users counted per adapter have no use for the summed row an older agent left. -/
def dropSummed (rows : SnapshotTable) (adapterKeyedUsers : List WireName) : SnapshotTable :=
  rows.filter (fun k => !(decide (k.protocol = .blank) && decide (k.engine = .blank) &&
    decide (k.userId ∈ adapterKeyedUsers)))

/-- The snapshots after a poll whose transaction committed. -/
def commitPoll (rows : SnapshotTable) (res : GetStatsResponse) : SnapshotTable :=
  dropSummed (upsertSnapshots rows (userDeltas rows res).snapshots)
    (((cumulativeUsers res).filter StatsUserEntry.named).map (·.userId))

/-! ## The group of a user and an adapter -/

/-- The entries a pair has in a report. -/
def entriesOf (reported : List StatsUserEntry) (u : WireName) (a : Adapter) : List StatsUserEntry :=
  reported.filter (fun v => decide (v.userId = u ∧ snapshotAdapterOf v = a))

theorem entriesOf_eq_filter_key (reported : List StatsUserEntry) (u : WireName) (a : Adapter) :
    reported.filter (fun v => decide (v.key = snapshotKey u a)) = entriesOf reported u a := by
  refine List.filter_congr fun v _ => decide_eq_decide.mpr ⟨snapshotKey_inj, ?_⟩
  rintro ⟨rfl, rfl⟩
  rfl

theorem addReported_some_cum (g : UserGroup) (v : StatsUserEntry) (side : Side) :
    (addReported (some g) v).cum side = g.cum side + v.bytes side := by
  cases side <;> rfl

theorem addReported_none_cum (v : StatsUserEntry) (side : Side) :
    (addReported none v).cum side = v.bytes side := by
  cases side <;> simp [addReported, UserGroup.cum]

theorem foldl_addReported (own : List StatsUserEntry) (g : UserGroup) :
    ∃ g', own.foldl (fun o v => some (addReported o v)) (some g) = some g' ∧
      g'.userId = g.userId ∧ g'.adapter = g.adapter ∧
      ∀ side, g'.cum side = g.cum side + (own.map (·.bytes side)).sum := by
  induction own generalizing g with
  | nil => exact ⟨g, rfl, rfl, rfl, fun _ => rfl⟩
  | cons v own ih =>
    obtain ⟨g', hrun, huser, hadapter, hcum⟩ := ih (addReported (some g) v)
    refine ⟨g', hrun, huser, hadapter, fun side => ?_⟩
    rw [hcum, addReported_some_cum, List.map_cons, List.sum_cons, Nat.add_assoc]

variable {reported : List StatsUserEntry}

theorem get?_groupEntries_none {u : WireName} {a : Adapter} (h : entriesOf reported u a = []) :
    (groupEntries reported).get? (snapshotKey u a) = none := by
  rw [groupEntries, OrderedMap.get?_collect, entriesOf_eq_filter_key, h]
  rfl

/-- **A group is the sum of the entries of its user and adapter.** -/
theorem get?_groupEntries {u : WireName} {a : Adapter} (h : entriesOf reported u a ≠ []) :
    ∃ g, (groupEntries reported).get? (snapshotKey u a) = some g ∧ g.userId = u ∧ g.adapter = a ∧
      ∀ side, g.cum side = ((entriesOf reported u a).map (·.bytes side)).sum := by
  rw [groupEntries, OrderedMap.get?_collect, entriesOf_eq_filter_key]
  cases hown : entriesOf reported u a with
  | nil => exact absurd hown h
  | cons v own =>
    have hv : v ∈ entriesOf reported u a := by
      rw [hown]
      exact List.mem_cons_self
    have hv := (List.mem_filter.mp hv).2
    simp only [decide_eq_true_eq] at hv
    obtain ⟨g, hrun, huser, hadapter, hcum⟩ := foldl_addReported own (addReported none v)
    refine ⟨g, hrun, huser.trans hv.1, hadapter.trans hv.2, fun side => ?_⟩
    rw [hcum, addReported_none_cum, List.map_cons, List.sum_cons]

theorem key_of_mem_groupEntries {k : String} {g : UserGroup}
    (h : (k, g) ∈ (groupEntries reported).entries) : k = snapshotKey g.userId g.adapter := by
  have hget := ((groupEntries reported).get?_eq_some_iff k g).mpr h
  obtain ⟨v, hv, rfl⟩ := (OrderedMap.mem_keys_collect _ _ _ _).mp
    (OrderedMap.mem_keys_of_get? hget)
  have hne : entriesOf reported v.userId (snapshotAdapterOf v) ≠ [] := by
    refine List.ne_nil_of_mem (a := v) (List.mem_filter.mpr ⟨hv, by simp⟩)
  obtain ⟨g', hget', huser, hadapter, -⟩ := get?_groupEntries hne
  have hkey : v.key = snapshotKey v.userId (snapshotAdapterOf v) := rfl
  rw [hkey, hget'] at hget
  cases hget
  rw [huser, hadapter]
  rfl

/-! ## What a poll makes of a pair -/

def isPair (u : WireName) (a : Adapter) (s : SnapshotEntry) : Bool :=
  decide (s.userId = u ∧ s.protocol = a.protocol ∧ s.engine = a.engine)

/-- The snapshot and the delta of a pair; the two lists are written in one loop. -/
def UserDeltaResult.ofPair (r : UserDeltaResult) (u : WireName) (a : Adapter) :
    Option (SnapshotEntry × StatsUserEntry) :=
  (r.snapshots.zip r.deltas).find? (fun e => isPair u a e.1)

theorem isPair_snapshotEntry {g : UserGroup} {u : WireName} {a : Adapter} :
    isPair u a (snapshotEntry g) = decide (snapshotKey g.userId g.adapter = snapshotKey u a) := by
  obtain ⟨p, e⟩ := a
  refine decide_eq_decide.mpr ⟨?_, fun h => ?_⟩
  · rintro ⟨hu, hp, he⟩
    have ha : g.adapter = ⟨p, e⟩ := by
      cases hga : g.adapter
      simp only [snapshotEntry, hga] at hp he
      rw [hp, he]
    have huser : g.userId = u := hu
    rw [ha, huser]
  · obtain ⟨hu, ha⟩ := snapshotKey_inj h
    exact ⟨hu, by rw [snapshotEntry, ha], by rw [snapshotEntry, ha]⟩

/-- A pair has at most one group. -/
theorem filter_isPair (reported : List StatsUserEntry) (u : WireName) (a : Adapter) :
    (groupEntries reported).entries.filter (fun e => isPair u a (snapshotEntry e.2)) =
      ((groupEntries reported).get? (snapshotKey u a)).toList.map (fun g =>
        (snapshotKey u a, g)) := by
  rw [← OrderedMap.filter_entries_key]
  refine List.filter_congr fun e he => ?_
  rw [isPair_snapshotEntry, ← key_of_mem_groupEntries (k := e.1) (g := e.2) he]

theorem ofPair_computeUserDeltas (reported : List StatsUserEntry)
    (prev : OrderedMap String UserSnapshot) (u : WireName) (a : Adapter) :
    (computeUserDeltas reported prev).ofPair u a =
      ((groupEntries reported).get? (snapshotKey u a)).map (fun g =>
        (snapshotEntry g, deltaEntry g (prev.get? (snapshotKey u a)))) := by
  simp only [UserDeltaResult.ofPair, computeUserDeltas, List.zip_map', List.find?_map,
    Function.comp_def]
  rw [← List.head?_filter, filter_isPair]
  cases (groupEntries reported).get? (snapshotKey u a) with
  | none => rfl
  | some g => rfl

theorem get?_upsertSnapshots (rows : SnapshotTable) (reported : List StatsUserEntry)
    (prev : OrderedMap String UserSnapshot) (u : WireName) (a : Adapter) :
    (upsertSnapshots rows (computeUserDeltas reported prev).snapshots).get?
        ⟨u, a.protocol, a.engine⟩ =
      match (groupEntries reported).get? (snapshotKey u a) with
      | none => rows.get? ⟨u, a.protocol, a.engine⟩
      | some g => some ⟨g.cumIn, g.cumOut⟩ := by
  have hfilter : (computeUserDeltas reported prev).snapshots.filter (fun s => decide
      ((⟨s.userId, s.protocol, s.engine⟩ : RowKey) = ⟨u, a.protocol, a.engine⟩)) =
      ((groupEntries reported).get? (snapshotKey u a)).toList.map snapshotEntry := by
    have hpair : (fun e : String × UserGroup => decide ((snapshotEntry e.2).userId = u ∧
        (snapshotEntry e.2).protocol = a.protocol ∧ (snapshotEntry e.2).engine = a.engine)) =
        fun e => isPair u a (snapshotEntry e.2) := rfl
    simp only [computeUserDeltas, List.filter_map, Function.comp_def, RowKey.mk.injEq]
    rw [hpair, filter_isPair, List.map_map]
    rfl
  rw [upsertSnapshots, OrderedMap.get?_collectFrom, hfilter]
  cases (groupEntries reported).get? (snapshotKey u a) with
  | none => rfl
  | some g => rfl

theorem get?_prevOf (rows : SnapshotTable) (users : List StatsUserEntry) {v : StatsUserEntry}
    (hv : v ∈ users) (a : Adapter) :
    (prevOf rows users).get? (snapshotKey v.userId a) =
      rows.get? ⟨v.userId, a.protocol, a.engine⟩ := by
  have hfilter : (rows.entries.filter (fun e => decide (e.1.userId ∈ users.map (·.userId)))).filter
      (fun e => decide (snapshotKey e.1.userId ⟨e.1.protocol, e.1.engine⟩ =
        snapshotKey v.userId a)) =
      rows.entries.filter (fun e => decide (e.1 = ⟨v.userId, a.protocol, a.engine⟩)) := by
    rw [List.filter_filter]
    refine List.filter_congr fun e _ => ?_
    rw [← Bool.decide_and]
    refine decide_eq_decide.mpr ⟨fun ⟨h, _⟩ => ?_, fun h => ?_⟩
    · obtain ⟨hu, ha⟩ := snapshotKey_inj h
      rw [← hu, ← ha]
    · rw [h]
      exact ⟨rfl, List.mem_map.mpr ⟨v, hv, rfl⟩⟩
  rw [prevOf, OrderedMap.get?_collect, hfilter, OrderedMap.filter_entries_key]
  cases rows.get? ⟨v.userId, a.protocol, a.engine⟩ with
  | none => rfl
  | some p => rfl

/-! ## The node and its poller -/

/-- The true counters of a node and the snapshots its polls have committed. -/
structure NodeTraffic where
  counters : WireName → Adapter → Side → Reading
  rows : SnapshotTable

/-- A poll is lost, or its transaction fails, where it is not committed. -/
inductive TrafficEvent where
  | pass (u : WireName) (a : Adapter) (side : Side) (n : Nat)
  | restart (a : Adapter)
  | poll (res : GetStatsResponse) (committed : Bool)

/-- The adapter that counted an entry. -/
def adapterOf (v : StatsUserEntry) : Adapter := ⟨v.protocol.getD .blank, v.engine.getD .blank⟩

/-- What a report says of the counter an entry comes from. -/
def reportedSum (res : GetStatsResponse) (v : StatsUserEntry) (side : Side) : Nat :=
  (((cumulativeUsers res).filter (fun w => decide
    (w.userId = v.userId ∧ adapterOf w = adapterOf v))).map (·.bytes side)).sum

/-- A report is truthful when the entries of a user under one adapter add up to its counter.  It
may leave out any adapter and any user. -/
def Truthful (counters : WireName → Adapter → Side → Reading) (res : GetStatsResponse) : Prop :=
  ∀ v ∈ cumulativeUsers res, ∀ side,
    reportedSum res v side = (counters v.userId (adapterOf v) side).value

def NodeTraffic.pass (s : NodeTraffic) (u : WireName) (a : Adapter) (side : Side) (n : Nat) :
    NodeTraffic :=
  { s with counters := fun u' a' side' =>
      if u' = u ∧ a' = a ∧ side' = side then (s.counters u' a' side').count n
      else s.counters u' a' side' }

def NodeTraffic.restart (s : NodeTraffic) (a : Adapter) : NodeTraffic :=
  { s with counters := fun u' a' side' =>
      if a' = a then (s.counters u' a' side').reset else s.counters u' a' side' }

def NodeTraffic.poll (s : NodeTraffic) (res : GetStatsResponse) (committed : Bool) : NodeTraffic :=
  if committed then { s with rows := commitPoll s.rows res } else s

inductive TrafficStep (s : NodeTraffic) : TrafficEvent → NodeTraffic → Prop
  | pass (u : WireName) (a : Adapter) (side : Side) (n : Nat) :
    TrafficStep s (.pass u a side n) (s.pass u a side n)
  | restart (a : Adapter) : TrafficStep s (.restart a) (s.restart a)
  | poll (res : GetStatsResponse) (committed : Bool) (h : Truthful s.counters res) :
    TrafficStep s (.poll res committed) (s.poll res committed)

/-- A node whose polls have committed nothing yet; its cores may have counted before. -/
def nodeTraffic : Machine NodeTraffic TrafficEvent where
  start s := s.rows = .empty
  step s e s' := TrafficStep s e s'

/-- What a committed poll bills a pair. -/
def billed (u : WireName) (a : Adapter) (side : Side)
    (st : NodeTraffic × TrafficEvent × NodeTraffic) : Option Nat :=
  match st.2.1 with
  | .poll res true => ((userDeltas st.1.rows res).ofPair u a).map (fun e => e.2.bytes side)
  | _ => none

/-- The snapshot a pair has in the table. -/
def NodeTraffic.snapshotOf (s : NodeTraffic) (u : WireName) (a : Adapter) (side : Side) :
    Option Nat :=
  (s.rows.get? ⟨u, a.protocol, a.engine⟩).map (·.cum side)

section Pair

variable {u : WireName} {a : Adapter} {res : GetStatsResponse}

/-- An entry that names its engine is grouped under the adapter that counted it. -/
theorem snapshotAdapterOf_eq_iff (ha : a.engine ≠ .blank) (v : StatsUserEntry) :
    snapshotAdapterOf v = a ↔ adapterOf v = a := by
  unfold snapshotAdapterOf
  split
  · rfl
  · rename_i hn
    have hblank : v.engine.getD .blank = .blank := by
      cases he : v.engine with
      | none => rfl
      | some e => simpa [StatsUserEntry.named, he] using hn
    constructor
    · rintro rfl
      exact absurd rfl ha
    · rintro rfl
      exact absurd hblank ha

theorem sum_entriesOf {counters : WireName → Adapter → Side → Reading}
    (ht : Truthful counters res) (ha : a.engine ≠ .blank)
    (hne : entriesOf (cumulativeUsers res) u a ≠ []) (side : Side) :
    ((entriesOf (cumulativeUsers res) u a).map (·.bytes side)).sum =
      (counters u a side).value := by
  obtain ⟨v, hv⟩ := List.exists_mem_of_ne_nil _ hne
  obtain ⟨hmem, hpair⟩ := List.mem_filter.mp hv
  rw [decide_eq_true_eq] at hpair
  obtain ⟨rfl, hadapter⟩ := hpair
  have hown := (snapshotAdapterOf_eq_iff ha v).mp hadapter
  have hsame : entriesOf (cumulativeUsers res) v.userId a =
      (cumulativeUsers res).filter (fun w => decide
        (w.userId = v.userId ∧ adapterOf w = adapterOf v)) := by
    refine List.filter_congr fun w _ => decide_eq_decide.mpr ?_
    rw [snapshotAdapterOf_eq_iff ha, hown]
  have hsum := ht v hmem side
  rw [reportedSum, ← hsame, hown] at hsum
  exact hsum

/-- A pair that did not answer is billed nothing and keeps its snapshot. -/
theorem silent_poll {s : NodeTraffic} (ha : a.engine ≠ .blank)
    (hnil : entriesOf (cumulativeUsers res) u a = []) (side : Side) :
    billed u a side (s, .poll res true, s.poll res true) = none ∧
      (s.poll res true).snapshotOf u a side = s.snapshotOf u a side := by
  have hgroup := get?_groupEntries_none hnil
  constructor
  · simp only [billed, userDeltas, ofPair_computeUserDeltas, hgroup, Option.map_none]
  · simp only [NodeTraffic.snapshotOf, NodeTraffic.poll, if_true, commitPoll, dropSummed,
      OrderedMap.get?_filter, ha, decide_false, Bool.and_false, Bool.false_and, Bool.not_false,
      userDeltas, get?_upsertSnapshots, hgroup]

/-- **What a committed poll bills a pair that answered**, and the snapshot it leaves. -/
theorem answered_poll {s : NodeTraffic} (ha : a.engine ≠ .blank)
    (ht : Truthful s.counters res) (hne : entriesOf (cumulativeUsers res) u a ≠ []) (side : Side) :
    billed u a side (s, .poll res true, s.poll res true) =
        some (toNumber (incrementOver (s.snapshotOf u a side) (s.counters u a side).value)) ∧
      (s.poll res true).snapshotOf u a side = some (s.counters u a side).value := by
  obtain ⟨g, hgroup, -, -, hcum⟩ := get?_groupEntries hne
  obtain ⟨v, hv⟩ := List.exists_mem_of_ne_nil _ hne
  obtain ⟨hmem, hpair⟩ := List.mem_filter.mp hv
  rw [decide_eq_true_eq] at hpair
  obtain ⟨rfl, -⟩ := hpair
  have hvalue := (hcum side).trans (sum_entriesOf ht ha hne side)
  have hdelta : ∀ p : Option UserSnapshot,
      groupDelta g p side = incrementOver (p.map (·.cum side)) (s.counters v.userId a side).value := by
    intro p
    rw [← hvalue]
    cases p with
    | none => rfl
    | some p =>
      simp only [groupDelta, Option.map_some, incrementOver]
      split
      · rfl
      · omega
  have hbytes : ∀ p, (deltaEntry g p).bytes side = toNumber (groupDelta g p side) := by
    intro p
    cases side <;> rfl
  constructor
  · simp only [billed, userDeltas, ofPair_computeUserDeltas, hgroup, Option.map_some,
      hbytes, hdelta, get?_prevOf s.rows _ hmem, NodeTraffic.snapshotOf]
  · have hrow : UserSnapshot.cum ⟨g.cumIn, g.cumOut⟩ side = g.cum side := by
      cases side <;> rfl
    simp only [NodeTraffic.snapshotOf, NodeTraffic.poll, if_true, commitPoll, dropSummed,
      OrderedMap.get?_filter, ha, decide_false, Bool.and_false, Bool.false_and, Bool.not_false,
      userDeltas, get?_upsertSnapshots, hgroup, Option.map_some, hrow, hvalue]

end Pair

/-! ## Whole runs -/

section Runs

variable (u : WireName) (a : Adapter) (side : Side)

/-- The true counter of a pair at a committed poll in which it answered. -/
def answered (st : NodeTraffic × TrafficEvent × NodeTraffic) : Option Reading :=
  match st.2.1 with
  | .poll res true =>
    if entriesOf (cumulativeUsers res) u a = [] then none else some (st.1.counters u a side)
  | _ => none

/-- The counters a pair answered with in committed polls, newest first. -/
def answers (steps : List (NodeTraffic × TrafficEvent × NodeTraffic)) : List Reading :=
  (steps.filterMap (answered u a side)).reverse

/-- The deltas committed polls yield for a pair, newest first. -/
def deltas (steps : List (NodeTraffic × TrafficEvent × NodeTraffic)) : List Nat :=
  (steps.filterMap (billed u a side)).reverse

/-- **The conservation of a pair's traffic**: what its deltas are over a run that ends with its
counter at `now`. -/
structure Conserved (steps : List (NodeTraffic × TrafficEvent × NodeTraffic)) (now : Reading) :
    Prop where
  /-- the deltas come from the pair's own counters alone, whatever else answered -/
  own : deltas u a side steps = increments ((answers u a side steps).map Reading.value)
  /-- they never exceed what has passed since the first committed snapshot -/
  bounded : ∀ r rs, answers u a side steps = r :: rs →
    (deltas u a side steps).sum + ((r :: rs).getLast (List.cons_ne_nil r rs)).passed ≤ now.passed
  /-- they are the last counter less the first exactly when no committed counter fell -/
  exactly : ∀ r rs, answers u a side steps = r :: rs →
    ((deltas u a side steps).sum + ((r :: rs).getLast (List.cons_ne_nil r rs)).value = r.value ↔
      ((r :: rs).map Reading.value).IsChain (fun later earlier => earlier ≤ later))
  /-- in particular where nothing was reset between the first and the last -/
  whole : ∀ r rs, answers u a side steps = r :: rs →
    r.resets = ((r :: rs).getLast (List.cons_ne_nil r rs)).resets →
      (deltas u a side steps).sum + ((r :: rs).getLast (List.cons_ne_nil r rs)).value = r.value
  /-- each delta counts bytes its poll saw, and no byte is counted by two -/
  once : ∃ bytes : List (Finset Nat), bytes.map Finset.card = deltas u a side steps ∧
    bytes.Pairwise Disjoint ∧
    List.Forall₂ (fun b r => b ⊆ countedBy r r.value) bytes (answers u a side steps)

/-- What the committed polls of a pair have left. -/
structure PairHistory (steps : List (NodeTraffic × TrafficEvent × NodeTraffic))
    (s : NodeTraffic) : Prop where
  row : s.snapshotOf u a side = ((answers u a side steps).map Reading.value).head?
  delta : deltas u a side steps =
    (increments ((answers u a side steps).map Reading.value)).map toNumber
  chain : (s.counters u a side :: answers u a side steps).IsChain Reading.After

variable {u a side} {past : List (NodeTraffic × TrafficEvent × NodeTraffic)}

theorem answers_append (past : List (NodeTraffic × TrafficEvent × NodeTraffic))
    (st : NodeTraffic × TrafficEvent × NodeTraffic) :
    answers u a side (past ++ [st]) = (answered u a side st).toList ++ answers u a side past := by
  simp only [answers, List.filterMap_append, List.reverse_append]
  cases h : answered u a side st <;> simp [List.filterMap, h]

theorem deltas_append (past : List (NodeTraffic × TrafficEvent × NodeTraffic))
    (st : NodeTraffic × TrafficEvent × NodeTraffic) :
    deltas u a side (past ++ [st]) =
      (billed u a side st).toList ++ deltas u a side past := by
  simp only [deltas, List.filterMap_append, List.reverse_append]
  cases h : billed u a side st <;> simp [List.filterMap, h]

/-- A step that commits nothing for the pair keeps its history, whatever its counter counts. -/
theorem PairHistory.quiet {s s' : NodeTraffic} {e : TrafficEvent} (h : PairHistory u a side past s)
    (hpoll : billed u a side (s, e, s') = none) (hanswered : answered u a side (s, e, s') = none)
    (hrow : s'.snapshotOf u a side = s.snapshotOf u a side)
    (hafter : (s'.counters u a side).After (s.counters u a side)) :
    PairHistory u a side (past ++ [(s, e, s')]) s' := by
  have hans : answers u a side (past ++ [(s, e, s')]) = answers u a side past := by
    rw [answers_append, hanswered]
    rfl
  have hdel : deltas u a side (past ++ [(s, e, s')]) = deltas u a side past := by
    rw [deltas_append, hpoll]
    rfl
  refine ⟨by rw [hans, hrow, h.row], by rw [hans, hdel, h.delta], ?_⟩
  rw [hans]
  cases hl : answers u a side past with
  | nil => exact .singleton _
  | cons r rs =>
    have hchain := h.chain
    rw [hl, List.isChain_cons_cons] at hchain
    rw [List.isChain_cons_cons]
    exact ⟨hafter.trans hchain.1, hchain.2⟩

theorem PairHistory.step {s s' : NodeTraffic} {e : TrafficEvent} (ha : a.engine ≠ .blank)
    (h : PairHistory u a side past s) (hs : TrafficStep s e s') :
    PairHistory u a side (past ++ [(s, e, s')]) s' := by
  cases hs with
  | pass u' a' side' n =>
    refine h.quiet rfl rfl rfl ?_
    simp only [NodeTraffic.pass]
    split
    · exact Reading.after_count _ n
    · exact .refl _
  | restart a' =>
    refine h.quiet rfl rfl rfl ?_
    simp only [NodeTraffic.restart]
    split
    · exact Reading.after_reset _
    · exact .refl _
  | poll res committed ht =>
    cases committed with
    | false => exact h.quiet rfl rfl rfl (.refl _)
    | true =>
      by_cases hnil : entriesOf (cumulativeUsers res) u a = []
      · obtain ⟨hpoll, hrow⟩ := silent_poll (s := s) ha hnil side
        exact h.quiet hpoll (if_pos hnil) hrow (.refl _)
      · obtain ⟨hpoll, hrow⟩ := answered_poll ha ht hnil side
        have hans : answers u a side (past ++ [(s, .poll res true, s.poll res true)]) =
            s.counters u a side :: answers u a side past := by
          have hone : answered u a side (s, .poll res true, s.poll res true) =
              some (s.counters u a side) := if_neg hnil
          rw [answers_append, hone]
          rfl
        refine ⟨?_, ?_, ?_⟩
        · rw [hans, hrow]
          rfl
        · rw [hans, deltas_append, hpoll, h.delta, h.row]
          rfl
        · rw [hans, List.isChain_cons_cons]
          exact ⟨.refl _, h.chain⟩

theorem pairHistory_of_run {s₀ s : NodeTraffic}
    {steps : List (NodeTraffic × TrafficEvent × NodeTraffic)} (hstart : nodeTraffic.start s₀)
    (hrun : nodeTraffic.Run s₀ steps s) (ha : a.engine ≠ .blank) :
    PairHistory u a side steps s := by
  refine hrun.history (fun past s e s' h hs => h.step ha hs) ⟨?_, rfl, .singleton _⟩
  have hrows : s₀.rows = .empty := hstart
  rw [NodeTraffic.snapshotOf, hrows]
  rfl

theorem map_toNumber_increments {cs : List Nat} (h : ∀ c ∈ cs, c ≤ MAX_SAFE_INTEGER) :
    (increments cs).map toNumber = increments cs := by
  induction cs with
  | nil => rfl
  | cons c cs ih =>
    have hc := h c List.mem_cons_self
    have hle := incrementOver_le cs.head? c
    rw [increments, List.map_cons, ih fun c' hc' => h c' (List.mem_cons_of_mem _ hc'),
      toNumber_of_safe (Nat.le_trans hle hc)]

/-- **Traffic is conserved.**  Over any run of a node, with polls lost, commits failed, adapters and
users missing from reports and cores restarted, the deltas of a pair whose adapter names its engine
and whose counters stay within the safe integers. -/
theorem traffic_conserved {s₀ s : NodeTraffic}
    {steps : List (NodeTraffic × TrafficEvent × NodeTraffic)} (hstart : nodeTraffic.start s₀)
    (hrun : nodeTraffic.Run s₀ steps s) (u : WireName) (a : Adapter) (side : Side)
    (ha : a.engine ≠ .blank) (hsafe : ∀ r ∈ answers u a side steps, r.value ≤ MAX_SAFE_INTEGER) :
    Conserved u a side steps (s.counters u a side) := by
  have h : PairHistory u a side steps s := pairHistory_of_run hstart hrun ha
  have hown : deltas u a side steps = increments ((answers u a side steps).map Reading.value) := by
    rw [h.delta, map_toNumber_increments]
    intro c hc
    obtain ⟨r, hr, rfl⟩ := List.mem_map.mp hc
    exact hsafe r hr
  have hchain : (answers u a side steps).IsChain Reading.After := h.chain.tail
  have hlast : ∀ (r : Reading) (rs : List Reading), ((r :: rs).getLast (List.cons_ne_nil r rs)).value =
      (r.value :: rs.map Reading.value).getLast (List.cons_ne_nil _ _) :=
    fun r rs => (List.getLast_map (f := Reading.value) (l := r :: rs) (by simp)).symm
  refine ⟨hown, ?_, ?_, ?_, ?_⟩
  · intro r rs hans
    have hnow := h.chain
    rw [hans, List.isChain_cons_cons] at hnow
    have hpassed := hnow.1.passed
    have hsum := sum_increments_le hnow.2
    rw [hown, hans]
    omega
  · intro r rs hans
    rw [hown, hans, hlast]
    exact (sum_increments_eq_iff r.value (rs.map Reading.value)).2
  · intro r rs hans hreset
    rw [hans] at hchain
    rw [hown, hans, hlast]
    exact (sum_increments_eq_iff r.value (rs.map Reading.value)).2.mpr
      (isChain_value_of_no_reset hchain hreset)
  · exact ⟨counted (answers u a side steps), by rw [card_counted, hown],
      counted_pairwise hchain, counted_subset _⟩

end Runs

/-! ## Reports against the claim of conservation -/

section Examples

def wireName (text : String) (h : '|' ∉ text.toList) : WireName := ⟨text, h⟩

def someUser : WireName := wireName "u" (by decide)

def xray : WireName := wireName "xray" (by decide)

def singbox : WireName := wireName "singbox" (by decide)

def xrayAdapter : Adapter := ⟨xray, xray⟩

/-- Counters that stand at these values since their cores started. -/
def standing (value : WireName → Adapter → Side → Nat) : NodeTraffic where
  counters u a side := ⟨value u a side, value u a side, 0, Nat.le_refl _⟩
  rows := .empty

theorem start_standing (value : WireName → Adapter → Side → Nat) :
    nodeTraffic.start (standing value) := by
  show (standing value).rows = .empty
  rfl

/-- One cumulative entry of the user, on its way in. -/
def userEntry (protocol : WireName) (engine : Option WireName) (bytesIn : Nat) : StatsUserEntry :=
  ⟨someUser, some bytesIn, none, some true, some protocol, engine⟩

def userReport (users : List StatsUserEntry) : GetStatsResponse := ⟨users, some true⟩

instance (counters : WireName → Adapter → Side → Reading) (res : GetStatsResponse) :
    Decidable (Truthful counters res) :=
  decidable_of_iff (∀ v ∈ cumulativeUsers res,
      reportedSum res v .bytesIn = (counters v.userId (adapterOf v) .bytesIn).value ∧
        reportedSum res v .bytesOut = (counters v.userId (adapterOf v) .bytesOut).value)
    ⟨fun h v hv side => by cases side; exact (h v hv).1; exact (h v hv).2,
      fun h v hv => ⟨h v hv _, h v hv _⟩⟩

/-- An agent that names no engine, with 100 bytes on xray and 50 on sing-box. -/
def unnamedNode : NodeTraffic := standing fun u a side =>
  if u = someUser ∧ a = ⟨xray, .blank⟩ ∧ side = .bytesIn then 100
  else if u = someUser ∧ a = ⟨singbox, .blank⟩ ∧ side = .bytesIn then 50
  else 0

def xrayNode (value : Nat) : NodeTraffic := standing fun u a side =>
  if u = someUser ∧ a = xrayAdapter ∧ side = .bytesIn then value else 0

/-- Sixty and forty bytes on two inbounds of one xray, thirty more, one lost poll. -/
theorem traffic_conserved_xray :
    ∃ s₀ steps s, nodeTraffic.start s₀ ∧ nodeTraffic.Run s₀ steps s ∧
      deltas someUser xrayAdapter .bytesIn steps = [30, 0] ∧
      Conserved someUser xrayAdapter .bytesIn steps (s.counters someUser xrayAdapter .bytesIn) := by
  have hrun : nodeTraffic.Run (xrayNode 100) _ _ :=
    .cons (.poll (userReport [userEntry xray (some xray) 60, userEntry xray (some xray) 40]) true (by decide))
      (.cons (.pass someUser xrayAdapter .bytesIn 30)
        (.cons (.poll (userReport [userEntry xray (some xray) 130]) false (by decide))
          (.cons (.poll (userReport [userEntry xray (some xray) 130]) true (by decide)) (.nil _))))
  refine ⟨_, _, _, start_standing _, hrun, by decide, ?_⟩
  exact traffic_conserved (start_standing _) hrun someUser xrayAdapter .bytesIn (by decide)
    (by decide)

/-- **Where the deltas are not the traffic.**  The adapters of an agent that names no engine share
one snapshot: nothing passes, and the silent one is billed again when it is back.  A counter that was
reset can overtake its snapshot, and the deltas are then the last value less the first although it
was reset.  And a delta above 2^53 is rounded. -/
theorem summed_snapshot_overbills :
    (∃ s₀ steps s, nodeTraffic.start s₀ ∧ nodeTraffic.Run s₀ steps s ∧
        s.counters = s₀.counters ∧
        (deltas someUser ⟨.blank, .blank⟩ .bytesIn steps).sum = 50) ∧
      (∃ s₀ steps s, nodeTraffic.start s₀ ∧ nodeTraffic.Run s₀ steps s ∧
        ∃ r r', answers someUser xrayAdapter .bytesIn steps = [r, r'] ∧ r.resets ≠ r'.resets ∧
          (deltas someUser xrayAdapter .bytesIn steps).sum + r'.value = r.value) ∧
      (∃ s₀ steps s, nodeTraffic.start s₀ ∧ nodeTraffic.Run s₀ steps s ∧
        ∃ r r', answers someUser xrayAdapter .bytesIn steps = [r, r'] ∧ r.resets = r'.resets ∧
          (deltas someUser xrayAdapter .bytesIn steps).sum + r'.value ≠ r.value) := by
  refine ⟨?_, ?_, ?_⟩
  · have hrun : nodeTraffic.Run unnamedNode _ _ :=
      .cons (.poll (userReport [userEntry xray none 100, userEntry singbox none 50]) true (by decide))
        (.cons (.poll (userReport [userEntry xray none 100]) true (by decide))
          (.cons (.poll (userReport [userEntry xray none 100, userEntry singbox none 50]) true (by decide))
            (.nil _)))
    exact ⟨_, _, _, start_standing _, hrun, rfl, by decide⟩
  · have hrun : nodeTraffic.Run (xrayNode 100) _ _ :=
      .cons (.poll (userReport [userEntry xray (some xray) 100]) true (by decide))
        (.cons (.restart xrayAdapter)
          (.cons (.pass someUser xrayAdapter .bytesIn 150)
            (.cons (.poll (userReport [userEntry xray (some xray) 150]) true (by decide)) (.nil _))))
    exact ⟨_, _, _, start_standing _, hrun, _, _, rfl, by decide, by decide⟩
  · have hrun : nodeTraffic.Run (xrayNode 0) _ _ :=
      .cons (.poll (userReport [userEntry xray (some xray) 0]) true (by decide))
        (.cons (.pass someUser xrayAdapter .bytesIn (MAX_SAFE_INTEGER + 2))
          (.cons (.poll (userReport [userEntry xray (some xray) MAX_SAFE_INTEGER, userEntry xray (some xray) 2])
            true (by decide)) (.nil _)))
    exact ⟨_, _, _, start_standing _, hrun, _, _, rfl, by decide, by decide⟩

end Examples

end Iceslab
