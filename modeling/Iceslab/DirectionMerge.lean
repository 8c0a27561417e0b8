import Iceslab.Topology

/-!
# Which stored direction each incoming one is

`direction-merge.ts`: the matching rule the merge and the writer share, and the merge itself.
A stored direction is matched by its id, by its pool read as a set, or by its outbound, and
claimed at most once.

* `matchStoredDirections` — the rule.
* `resolveDirections` — what the client did not mention is filled in from the matched row.
* `match_resolveDirections` — the merged directions match the same rows, position by position.
* `matchFrom_nodup` — no row is claimed twice.
-/

set_option autoImplicit false

namespace Iceslab

/-- A key of a payload: not sent, sent as `null`, or sent with a value. -/
inductive Sent (α : Type*) where
  | absent
  | null
  | value (a : α)
  deriving DecidableEq, Repr

namespace Sent

variable {α : Type*}

/-- `d.key ?? null` -/
def toOption : Sent α → Option α
  | .value a => some a
  | _ => none

/-- `'key' in d ? d.key : kept` -/
def orKept (s : Sent α) (kept : Option α) : Option α :=
  match s with
  | .absent => kept
  | s => s.toOption

def ofOption : Option α → Sent α
  | some a => .value a
  | none => .null

@[simp] theorem toOption_ofOption (o : Option α) : (ofOption o).toOption = o := by
  cases o <;> rfl

theorem orKept_none (s : Sent α) : s.orKept none = s.toOption := by
  cases s <;> rfl

end Sent

/-- What the panel already has for a direction, as far as merging cares. -/
structure StoredDirection where
  id : String
  nodes : List String
  outboundId : Option String
  deriving DecidableEq, Repr

/-- A direction as it arrived. -/
structure IncomingDirection where
  id : Option String := none
  nodeIds : Option (List String) := none
  outboundId : Sent String := .absent
  countryCode : Sent String := .absent
  linkProtocol : Sent String := .absent
  linkParams : Sent LegParams := .absent
  deriving DecidableEq, Repr

/-- What the merge reads of a stored row, beside its id and pool. -/
structure KeptFields where
  tag : Option Nat := none
  outboundId : Option String := none
  countryCode : Option String := none
  linkProtocol : Option String := none
  linkParams : Option LegParams := none
  deriving DecidableEq, Repr

/-- A merged direction, as the matching rule sees it the second time. -/
def ResolvedDirection.asIncoming (d : ResolvedDirection) : IncomingDirection :=
  { id := d.id, nodeIds := some d.nodeIds, outboundId := .ofOption d.outboundId,
    countryCode := .ofOption d.countryCode, linkProtocol := .ofOption d.linkProtocol,
    linkParams := .ofOption d.linkParams }

section Matching

variable {S : Type} (view : S → StoredDirection)

/-- `byId.get(d.id)` for a truthy id. -/
def byId (stored : List S) (id : Option String) : Option S :=
  match truthy id with
  | none => none
  | some id => (OrderedMap.collect (fun s => (view s).id) (fun _ s => s) stored).get? id

/-- The first unclaimed row whose pool is the wanted set. -/
def byPool (stored : List S) (unclaimed : List String) (want : List String) : Option S :=
  if want = [] then none
  else stored.find? fun s =>
    decide ((view s).id ∈ unclaimed)
      && decide ((view s).nodes.length = want.eraseDups.length)
      && (view s).nodes.all (fun n => decide (n ∈ want))

/-- The first unclaimed row without a pool that stands on the wanted outbound. -/
def byOutbound (stored : List S) (unclaimed : List String) (want : List String)
    (outboundId : Option String) : Option S :=
  match truthy outboundId with
  | none => none
  | some o =>
    if want = [] then
      stored.find? fun s =>
        decide ((view s).id ∈ unclaimed) && decide ((view s).nodes.length = 0)
          && decide ((view s).outboundId = some o)
    else none

def candidate (stored : List S) (unclaimed : List String) (d : IncomingDirection) : Option S :=
  ((byId view stored d.id).or (byPool view stored unclaimed (d.nodeIds.getD []))).or
    (byOutbound view stored unclaimed (d.nodeIds.getD []) d.outboundId.toOption)

/-- The row a direction claims, if it is still free. -/
def claim (stored : List S) (unclaimed : List String) (d : IncomingDirection) : Option S :=
  match candidate view stored unclaimed d with
  | some s => if (view s).id ∈ unclaimed then some s else none
  | none => none

def matchFrom (stored : List S) (unclaimed : List String) :
    List IncomingDirection → List (Option S)
  | [] => []
  | d :: ds =>
    match claim view stored unclaimed d with
    | some s => some s :: matchFrom stored (unclaimed.filter (fun i => decide (i ≠ (view s).id))) ds
    | none => none :: matchFrom stored unclaimed ds

def matchStoredDirections (stored : List S) (incoming : List IncomingDirection) : List (Option S) :=
  matchFrom view stored (stored.map (fun s => (view s).id)) incoming

/-- One merged direction, given the row it matched. -/
def resolveOne (read : S → KeptFields) (d : IncomingDirection) (matched : Option S) :
    ResolvedDirection :=
  let kept := (matched.map read).getD {}
  { id := match matched with
      | some s => some (view s).id
      | none => truthy d.id
    tag := kept.tag
    nodeIds := d.nodeIds.getD ((matched.map (fun s => (view s).nodes)).getD [])
    outboundId := d.outboundId.orKept kept.outboundId
    countryCode := d.countryCode.orKept kept.countryCode
    linkProtocol := d.linkProtocol.orKept kept.linkProtocol
    linkParams := d.linkParams.orKept kept.linkParams }

def resolveDirections (stored : List S) (incoming : List IncomingDirection)
    (read : S → KeptFields) : List ResolvedDirection :=
  List.zipWith (resolveOne view read) incoming (matchStoredDirections view stored incoming)

/-! ## The second pass matches what the first did -/

variable {view} {stored : List S} {unclaimed : List String} {d : IncomingDirection}
  {read : S → KeptFields} {s : S}

theorem byId_of_mem (hids : (stored.map (fun s => (view s).id)).Nodup)
    (hs : s ∈ stored) (hne : (view s).id ≠ "") : byId view stored (some (view s).id) = some s := by
  have ht : truthy (some (view s).id) = some (view s).id := truthy_eq_some.mpr ⟨rfl, hne⟩
  rw [byId, ht]
  exact OrderedMap.get?_collect_of_nodup (fun s => (view s).id) (fun _ s => s) hids hs

theorem byId_eq_some {id : Option String}
    (h : byId view stored id = some s) : s ∈ stored ∧ truthy id = some (view s).id := by
  unfold byId at h
  split at h
  · cases h
  · rename_i i hi
    rw [OrderedMap.get?_collect] at h
    -- the last row written under the id is a row with that id
    have hlast : ∀ (l : List S) (o : Option S), (∀ s ∈ l, s ∈ stored ∧ (view s).id = i) →
        (∀ s, o = some s → s ∈ stored ∧ (view s).id = i) →
        ∀ s, l.foldl (fun _ s => some s) o = some s → s ∈ stored ∧ (view s).id = i := by
      intro l
      induction l with
      | nil => exact fun o _ ho s hs => ho s hs
      | cons a l ih =>
        intro o hl _ s hs
        exact ih (some a) (fun s hs => hl s (List.mem_cons_of_mem a hs))
          (fun s hs => by cases hs; exact hl _ List.mem_cons_self) s hs
    obtain ⟨hs, he⟩ := hlast _ none (fun s hs => by
      have := List.mem_filter.mp hs
      exact ⟨this.1, by simpa using this.2⟩) (fun s hs => by cases hs) s h
    exact ⟨hs, by rw [hi, he]⟩

theorem candidate_mem (h : candidate view stored unclaimed d = some s) : s ∈ stored := by
  simp only [candidate, Option.or_eq_some_iff] at h
  rcases h with (h | ⟨-, h⟩) | ⟨-, h⟩
  · exact (byId_eq_some h).1
  · unfold byPool at h
    split at h
    · cases h
    · exact List.mem_of_find?_eq_some h
  · unfold byOutbound at h
    split at h
    · cases h
    · split at h
      · exact List.mem_of_find?_eq_some h
      · cases h

theorem claim_eq_some (h : claim view stored unclaimed d = some s) :
    candidate view stored unclaimed d = some s ∧ s ∈ stored ∧ (view s).id ∈ unclaimed := by
  unfold claim at h
  split at h
  · rename_i s' hc
    split at h
    · rename_i hu
      cases h
      exact ⟨hc, candidate_mem hc, hu⟩
    · cases h
  · cases h

/-- What the rule reads of a direction. -/
theorem claim_congr {d e : IncomingDirection} (hid : byId view stored d.id = byId view stored e.id)
    (hpool : d.nodeIds.getD [] = e.nodeIds.getD [])
    (hout : truthy d.outboundId.toOption = truthy e.outboundId.toOption) :
    claim view stored unclaimed d = claim view stored unclaimed e := by
  have hc : candidate view stored unclaimed d = candidate view stored unclaimed e := by
    simp only [candidate, byOutbound, hid, hpool, hout]
  rw [claim, claim, hc]

theorem truthy_truthy (o : Option String) : truthy (truthy o) = truthy o := by
  cases o with
  | none => rfl
  | some s => by_cases h : s = "" <;> simp [truthy, h]

/-- A direction that matched nothing matches nothing once merged. -/
theorem claim_resolveOne_none :
    claim view stored unclaimed (resolveOne view read d none).asIncoming
      = claim view stored unclaimed d := by
  refine claim_congr ?_ ?_ ?_
  · simp only [resolveOne, ResolvedDirection.asIncoming, byId, truthy_truthy]
  · simp [resolveOne, ResolvedDirection.asIncoming]
  · simp [resolveOne, ResolvedDirection.asIncoming, Sent.orKept_none]

/-- A direction that claimed a row claims it again once merged. -/
theorem claim_resolveOne_some (hids : (stored.map (fun s => (view s).id)).Nodup)
    (h : claim view stored unclaimed d = some s) :
    claim view stored unclaimed (resolveOne view read d (some s)).asIncoming = some s := by
  obtain ⟨hc, hmem, hfree⟩ := claim_eq_some h
  have hagain : candidate view stored unclaimed (resolveOne view read d (some s)).asIncoming
      = some s := by
    by_cases hne : (view s).id = ""
    · -- an empty id is no id: the pool or the outbound that matched matches again
      have hnoid : byId view stored (resolveOne view read d (some s)).asIncoming.id = none := by
        simp [byId, resolveOne, ResolvedDirection.asIncoming, truthy, hne]
      have hidd : byId view stored d.id = none := by
        cases hb : byId view stored d.id with
        | none => rfl
        | some s' =>
          obtain rfl : s' = s := by simpa [candidate, hb] using hc
          exact absurd hne (truthy_eq_some.mp (byId_eq_some hb).2).2
      simp only [candidate, hidd, Option.none_or] at hc
      rw [candidate, hnoid, Option.none_or]
      cases hp : byPool view stored unclaimed (d.nodeIds.getD []) with
      | some s' =>
        obtain rfl : s' = s := by simpa [hp] using hc
        have hsent : (resolveOne view read d (some s')).nodeIds = d.nodeIds.getD [] := by
          cases hn : d.nodeIds with
          | none => simp [hn, byPool] at hp
          | some l => simp [resolveOne, hn]
        simp [ResolvedDirection.asIncoming, hsent, hp]
      | none =>
        rw [hp, Option.none_or] at hc
        unfold byOutbound at hc
        split at hc
        · cases hc
        · rename_i o ho
          split at hc
          · rename_i hwant
            have hnodes : (view s).nodes = [] := by
              have := List.find?_some hc
              simp only [Bool.and_eq_true, decide_eq_true_eq] at this
              exact List.length_eq_zero_iff.mp this.1.2
            have hsent : (resolveOne view read d (some s)).nodeIds = [] := by
              cases hn : d.nodeIds with
              | none => simp [resolveOne, hn, hnodes]
              | some l => simpa [resolveOne, hn] using hwant
            have hout : (resolveOne view read d (some s)).outboundId = d.outboundId.toOption := by
              cases hs : d.outboundId with
              | absent => simp [hs, Sent.toOption, truthy] at ho
              | null => simp [resolveOne, hs, Sent.orKept]
              | value o' => simp [resolveOne, hs, Sent.orKept]
            simp only [ResolvedDirection.asIncoming, hsent, hout, Option.getD_some, byPool,
              if_true, Option.none_or, byOutbound, Sent.toOption_ofOption, ho]
            exact hc
          · cases hc
    · have hb := byId_of_mem hids hmem hne
      rw [candidate, show (resolveOne view read d (some s)).asIncoming.id = some (view s).id from rfl,
        hb]
      simp
  rw [claim, hagain]
  simp [hfree]

theorem matchFrom_resolve
    (hids : (stored.map (fun s => (view s).id)).Nodup) (unclaimed : List String)
    (incoming : List IncomingDirection) :
    matchFrom view stored unclaimed ((List.zipWith (resolveOne view read) incoming
        (matchFrom view stored unclaimed incoming)).map ResolvedDirection.asIncoming)
      = matchFrom view stored unclaimed incoming := by
  induction incoming generalizing unclaimed with
  | nil => rfl
  | cons d ds ih =>
    cases hc : claim view stored unclaimed d with
    | none =>
      simp only [matchFrom, hc, List.zipWith_cons_cons, List.map_cons, claim_resolveOne_none]
      rw [ih]
    | some s =>
      simp only [matchFrom, hc, List.zipWith_cons_cons, List.map_cons,
        claim_resolveOne_some hids hc]
      rw [ih]

/-- **The row the writer matches is the row the merge matched**, position by position. -/
theorem match_resolveDirections
    (hids : (stored.map (fun s => (view s).id)).Nodup) (incoming : List IncomingDirection)
    (read : S → KeptFields) :
    matchStoredDirections view stored
        ((resolveDirections view stored incoming read).map ResolvedDirection.asIncoming)
      = matchStoredDirections view stored incoming :=
  matchFrom_resolve hids _ incoming

/-! ## A row is claimed once -/

theorem length_matchFrom (stored : List S) (unclaimed : List String)
    (incoming : List IncomingDirection) :
    (matchFrom view stored unclaimed incoming).length = incoming.length := by
  induction incoming generalizing unclaimed with
  | nil => rfl
  | cons d ds ih =>
    simp only [matchFrom]
    split <;> simp [ih]

theorem mem_matchFrom {incoming : List IncomingDirection}
    (h : some s ∈ matchFrom view stored unclaimed incoming) :
    s ∈ stored ∧ (view s).id ∈ unclaimed := by
  induction incoming generalizing unclaimed with
  | nil => cases h
  | cons d ds ih =>
    simp only [matchFrom] at h
    split at h
    · rename_i s' hc
      rcases List.mem_cons.mp h with heq | h
      · cases heq
        exact (claim_eq_some hc).2
      · obtain ⟨h1, h2⟩ := ih h
        exact ⟨h1, (List.mem_filter.mp h2).1⟩
    · rcases List.mem_cons.mp h with heq | h
      · cases heq
      · exact ih h

/-- **No row is claimed twice.** -/
theorem matchFrom_nodup (stored : List S) (unclaimed : List String)
    (incoming : List IncomingDirection) :
    ((matchFrom view stored unclaimed incoming).filterMap
      (fun o => o.map (fun s => (view s).id))).Nodup := by
  induction incoming generalizing unclaimed with
  | nil => simp [matchFrom]
  | cons d ds ih =>
    simp only [matchFrom]
    split
    · rename_i s hc
      simp only [List.filterMap_cons, Option.map_some, List.nodup_cons]
      refine ⟨fun hm => ?_, ih _⟩
      obtain ⟨o, ho, he⟩ := List.mem_filterMap.mp hm
      cases o with
      | none => cases he
      | some s' =>
        have := (List.mem_filter.mp (mem_matchFrom ho).2).2
        simp only [Option.map_some, Option.some.injEq] at he
        simp [he] at this
    · simpa using ih _

end Matching

end Iceslab
