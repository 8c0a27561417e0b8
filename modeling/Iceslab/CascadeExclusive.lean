import Mathlib.Data.List.Induction
import Mathlib.Data.List.Sort
import Mathlib.Data.String.Basic
import Iceslab.Lib.OrderedMap

/-!
# One enabled cascade a node

`cascade-exclusive.ts`: which enabled cascade holds a node, and which enabled cascades are dead for
it.

* `mem_deadCascadeIds` — a cascade is dead when an older enabled one has a node of it.
* `deadCascadeIds_exclusive` — what is left alive is disjoint.
-/

set_option autoImplicit false

namespace Iceslab

/-- A cascade as it is stored, with its member nodes where the tables hold them. -/
structure StoredCascade where
  id : String
  name : String
  createdAt : Nat
  enabled : Bool
  hops : List String
  positions : List (List String)
  directions : List (List String)
  deriving DecidableEq, Repr

/-- The cascades of the panel; the id is the key. -/
structure CascadeTable where
  rows : List StoredCascade
  ids : (rows.map (·.id)).Nodup

/-- `CASCADE_OWNERSHIP_ORDER` -/
def ownedBefore (a b : StoredCascade) : Prop :=
  a.createdAt < b.createdAt ∨ a.createdAt = b.createdAt ∧ a.id ≤ b.id

instance : DecidableRel ownedBefore := fun a b =>
  inferInstanceAs (Decidable (a.createdAt < b.createdAt ∨ a.createdAt = b.createdAt ∧ a.id ≤ b.id))

def membersOf (c : StoredCascade) : List String :=
  (c.hops ++ c.positions.flatten ++ c.directions.flatten).eraseDups

structure OwnershipPair where
  nodeId : String
  ownerId : String
  ownerName : String
  deadId : String
  deadName : String
  deriving DecidableEq, Repr

/-- Who holds each node so far, and the pairs met. -/
structure Ownership where
  owner : OrderedMap String (String × String)
  pairs : List OwnershipPair

def takeNode (c : StoredCascade) (o : Ownership) (nodeId : String) : Ownership :=
  match o.owner.get? nodeId with
  | none => { o with owner := o.owner.set nodeId (c.id, c.name) }
  | some held => { o with pairs := o.pairs ++ [⟨nodeId, held.1, held.2, c.id, c.name⟩] }

def takeCascade (o : Ownership) (c : StoredCascade) : Ownership :=
  (membersOf c).foldl (takeNode c) o

def takeCascades (cs : List StoredCascade) : Ownership :=
  cs.foldl takeCascade ⟨OrderedMap.empty, []⟩

namespace CascadeTable

variable (t : CascadeTable)

/-- The enabled cascades, oldest first. -/
def enabledInOrder : List StoredCascade := (t.rows.filter (·.enabled)).insertionSort ownedBefore

def ownershipPairs : List OwnershipPair := (takeCascades t.enabledInOrder).pairs

/-- Read without the cache. -/
def deadCascadeIds : List String := (t.ownershipPairs.map (·.deadId)).eraseDups

end CascadeTable

/-! ## The order of ownership -/

variable {a b c d : StoredCascade}

theorem ownedBefore_trans (h : ownedBefore a b) (h' : ownedBefore b c) : ownedBefore a c := by
  unfold ownedBefore at h h' ⊢
  rcases h with h | ⟨h, hi⟩ <;> rcases h' with h' | ⟨h', hi'⟩
  · exact Or.inl (h.trans h')
  · exact Or.inl (h' ▸ h)
  · exact Or.inl (h ▸ h')
  · exact Or.inr ⟨h.trans h', hi.trans hi'⟩

theorem ownedBefore_total (a b : StoredCascade) : ownedBefore a b ∨ ownedBefore b a := by
  unfold ownedBefore
  rcases Nat.lt_trichotomy a.createdAt b.createdAt with h | h | h
  · exact Or.inl (Or.inl h)
  · rcases le_total a.id b.id with hi | hi
    · exact Or.inl (Or.inr ⟨h, hi⟩)
    · exact Or.inr (Or.inr ⟨h.symm, hi⟩)
  · exact Or.inr (Or.inl h)

theorem ownedBefore_antisymm (h : ownedBefore a b) (h' : ownedBefore b a) : a.id = b.id := by
  unfold ownedBefore at h h'
  rcases h with h | ⟨h, hi⟩
  · rcases h' with h' | ⟨h', -⟩ <;> omega
  · rcases h' with h' | ⟨-, hi'⟩
    · omega
    · exact le_antisymm hi hi'

instance : IsTrans StoredCascade ownedBefore := ⟨fun _ _ _ => ownedBefore_trans⟩

instance : @Std.Total StoredCascade ownedBefore := ⟨ownedBefore_total⟩

/-- Strictly older: another cascade that comes first. -/
def Older (a b : StoredCascade) : Prop := ownedBefore a b ∧ a.id ≠ b.id

instance : DecidableRel Older := fun a b =>
  inferInstanceAs (Decidable (ownedBefore a b ∧ a.id ≠ b.id))

namespace CascadeTable

variable (t : CascadeTable)

theorem mem_enabledInOrder (c : StoredCascade) :
    c ∈ t.enabledInOrder ↔ c ∈ t.rows ∧ c.enabled = true := by
  rw [enabledInOrder, List.mem_insertionSort, List.mem_filter]

theorem nodup_enabledInOrder : (t.enabledInOrder.map (·.id)).Nodup := by
  have hperm : (t.enabledInOrder.map (·.id)).Perm ((t.rows.filter (·.enabled)).map (·.id)) :=
    (List.perm_insertionSort _ _).map _
  rw [hperm.nodup_iff]
  exact t.ids.sublist (List.filter_sublist.map _)

theorem sorted_enabledInOrder : t.enabledInOrder.Pairwise ownedBefore :=
  List.pairwise_insertionSort ownedBefore _

/-- What stands before a cascade in the list is what is strictly older. -/
theorem before_iff {pre post : List StoredCascade}
    (h : t.enabledInOrder = pre ++ c :: post) (d : StoredCascade) :
    d ∈ pre ↔ d ∈ t.enabledInOrder ∧ Older d c := by
  have hsort := t.sorted_enabledInOrder
  have hnd := t.nodup_enabledInOrder
  rw [h] at hsort hnd ⊢
  rw [List.pairwise_append] at hsort
  simp only [List.map_append, List.map_cons, List.nodup_append, List.nodup_cons, List.mem_map,
    List.mem_cons] at hnd
  constructor
  · intro hd
    refine ⟨List.mem_append_left _ hd, hsort.2.2 d hd c List.mem_cons_self, fun he => ?_⟩
    exact hnd.2.2 d.id ⟨d, hd, rfl⟩ c.id (Or.inl rfl) he
  · rintro ⟨hd, hold, hne⟩
    rcases List.mem_append.mp hd with hd | hd
    · exact hd
    · rcases List.mem_cons.mp hd with rfl | hd
      · exact absurd rfl hne
      · have hle := (List.pairwise_cons.mp hsort.2.1).1 d hd
        exact absurd (ownedBefore_antisymm hold hle) hne

end CascadeTable

/-! ## Who holds a node -/

theorem nodup_membersOf (c : StoredCascade) : (membersOf c).Nodup := List.nodup_eraseDups _

theorem takeNode_owner (c : StoredCascade) (o : Ownership) (m n : String) :
    (takeNode c o m).owner.get? n
      = (o.owner.get? n).or (if n = m then some (c.id, c.name) else none) := by
  unfold takeNode
  split
  · rename_i hm
    simp only [OrderedMap.get?_set]
    split
    · rename_i hn
      rw [hn, hm]
      rfl
    · rw [Option.or_none]
  · rename_i held hm
    split
    · rename_i hn
      rw [hn, hm]
      rfl
    · rw [Option.or_none]

/-- The pair a cascade makes over a node that is held. -/
def pairOver (c : StoredCascade) (nodeId : String) (held : String × String) : OwnershipPair :=
  ⟨nodeId, held.1, held.2, c.id, c.name⟩

theorem takeNodes_owner (c : StoredCascade) (ms : List String) (o : Ownership) (n : String) :
    (ms.foldl (takeNode c) o).owner.get? n
      = (o.owner.get? n).or (if n ∈ ms then some (c.id, c.name) else none) := by
  induction ms generalizing o with
  | nil => simp
  | cons m ms ih =>
    rw [List.foldl_cons, ih, takeNode_owner, Option.or_assoc]
    by_cases hm : n = m
    · simp [hm]
    · simp [hm]

theorem takeNodes_pairs (c : StoredCascade) {ms : List String} (h : ms.Nodup) (o : Ownership) :
    (ms.foldl (takeNode c) o).pairs
      = o.pairs ++ ms.filterMap fun n => (o.owner.get? n).map (pairOver c n) := by
  induction ms generalizing o with
  | nil => simp
  | cons m ms ih =>
    obtain ⟨hm, hms⟩ := List.nodup_cons.mp h
    have hrest : ms.filterMap (fun n => ((takeNode c o m).owner.get? n).map (pairOver c n))
        = ms.filterMap (fun n => (o.owner.get? n).map (pairOver c n)) := by
      refine List.filterMap_congr fun n hn => ?_
      have hne : n ≠ m := fun he => hm (he ▸ hn)
      rw [takeNode_owner, if_neg hne, Option.or_none]
    rw [List.foldl_cons, ih hms, hrest]
    unfold takeNode
    split
    · rename_i hget
      simp [hget]
    · rename_i held hget
      simp [hget, pairOver]

theorem takeCascades_append (cs : List StoredCascade) (c : StoredCascade) :
    takeCascades (cs ++ [c]) = takeCascade (takeCascades cs) c := by
  simp [takeCascades]

/-- The holder is the first cascade of the list with the node. -/
theorem takeCascades_owner (cs : List StoredCascade) (n : String) :
    (takeCascades cs).owner.get? n
      = (cs.find? fun c => decide (n ∈ membersOf c)).map fun c => (c.id, c.name) := by
  induction cs using List.reverseRecOn with
  | nil => rfl
  | append_singleton cs c ih =>
    rw [takeCascades_append, takeCascade, takeNodes_owner, ih, List.find?_append]
    cases cs.find? fun c => decide (n ∈ membersOf c) with
    | some o => rfl
    | none =>
      by_cases hn : n ∈ membersOf c
      · simp [hn]
      · simp [hn]

/-- A pair is met at a cascade, over a node held by an earlier one. -/
theorem mem_takeCascades_pairs (cs : List StoredCascade) (p : OwnershipPair) :
    p ∈ (takeCascades cs).pairs ↔ ∃ pre c post o n, cs = pre ++ c :: post ∧ n ∈ membersOf c
      ∧ pre.find? (fun c => decide (n ∈ membersOf c)) = some o
      ∧ p = pairOver c n (o.id, o.name) := by
  induction cs using List.reverseRecOn with
  | nil => simp [takeCascades]
  | append_singleton cs c ih =>
    rw [takeCascades_append, takeCascade, takeNodes_pairs c (nodup_membersOf c),
      List.mem_append, ih]
    constructor
    · rintro (⟨pre, d, post, o, n, rfl, hn, ho, hp⟩ | h)
      · exact ⟨pre, d, post ++ [c], o, n, by simp, hn, ho, hp⟩
      · obtain ⟨n, hn, hp⟩ := List.mem_filterMap.mp h
        rw [takeCascades_owner, Option.map_map, Option.map_eq_some_iff] at hp
        obtain ⟨o, ho, hp⟩ := hp
        exact ⟨cs, c, [], o, n, rfl, hn, ho, hp.symm⟩
    · rintro ⟨pre, d, post, o, n, hcs, hn, ho, hp⟩
      rcases List.eq_nil_or_concat post with rfl | ⟨post, e, rfl⟩
      · obtain ⟨rfl, hd⟩ := List.append_inj' hcs rfl
        obtain rfl : c = d := by simpa using hd
        refine Or.inr (List.mem_filterMap.mpr ⟨n, hn, ?_⟩)
        rw [takeCascades_owner, ho, hp]
        rfl
      · have hcs' : cs ++ [c] = (pre ++ d :: post) ++ [e] := by simpa using hcs
        obtain ⟨rfl, -⟩ := List.append_inj' hcs' rfl
        exact Or.inl ⟨pre, d, post, o, n, rfl, hn, ho, hp⟩

/-- A cascade holds a node: it is the oldest enabled one with it. -/
structure Holds (t : CascadeTable) (o : StoredCascade) (n : String) : Prop where
  enabled : o ∈ t.enabledInOrder
  member : n ∈ membersOf o
  oldest : ∀ c ∈ t.enabledInOrder, n ∈ membersOf c → ownedBefore o c

namespace CascadeTable

variable (t : CascadeTable)

theorem exists_holder {n : String} (hc : c ∈ t.enabledInOrder)
    (hn : n ∈ membersOf c) : ∃ o, Holds t o n := by
  cases hf : t.enabledInOrder.find? fun c => decide (n ∈ membersOf c) with
  | none =>
    have := List.find?_eq_none.mp hf c hc
    simp [hn] at this
  | some o =>
    obtain ⟨ho, pre, post, hsplit, hpre⟩ := List.find?_eq_some_iff_append.mp hf
    have hsort := t.sorted_enabledInOrder
    rw [hsplit, List.pairwise_append, List.pairwise_cons] at hsort
    refine ⟨o, List.mem_of_find?_eq_some hf, of_decide_eq_true ho, fun d hd hdn => ?_⟩
    rw [hsplit] at hd
    rcases List.mem_append.mp hd with hd | hd
    · have := hpre d hd
      simp [hdn] at this
    · rcases List.mem_cons.mp hd with rfl | hd
      · exact (ownedBefore_total d d).elim id id
      · exact hsort.2.1.1 d hd

/-- **The dead cascades**: those with a node that an older enabled cascade has. -/
theorem mem_deadCascadeIds (i : String) : i ∈ t.deadCascadeIds
    ↔ ∃ c ∈ t.enabledInOrder, c.id = i ∧ ∃ o ∈ t.enabledInOrder, Older o c
        ∧ ∃ n ∈ membersOf c, n ∈ membersOf o := by
  simp only [deadCascadeIds, List.mem_eraseDups, List.mem_map, ownershipPairs,
    mem_takeCascades_pairs]
  constructor
  · rintro ⟨p, ⟨pre, c, post, o, n, hsplit, hn, ho, rfl⟩, rfl⟩
    have hmem : o ∈ pre := List.mem_of_find?_eq_some ho
    obtain ⟨hoe, hold⟩ := (t.before_iff hsplit o).mp hmem
    refine ⟨c, by rw [hsplit]; simp, rfl, o, hoe, hold, n, hn, ?_⟩
    simpa using List.find?_some ho
  · rintro ⟨c, hc, rfl, o, ho, hold, n, hn, hno⟩
    obtain ⟨pre, post, hsplit⟩ := List.append_of_mem hc
    have hpre : o ∈ pre := (t.before_iff hsplit o).mpr ⟨ho, hold⟩
    cases hf : pre.find? fun c => decide (n ∈ membersOf c) with
    | none =>
      have := List.find?_eq_none.mp hf o hpre
      simp [hno] at this
    | some h => exact ⟨_, ⟨pre, c, post, h, n, hsplit, hn, hf, rfl⟩, rfl⟩

/-- The enabled cascades that are not dead. -/
def live : List StoredCascade := t.enabledInOrder.filter fun c => decide (c.id ∉ t.deadCascadeIds)

def remove (i : String) : CascadeTable where
  rows := t.rows.filter fun c => decide (c.id ≠ i)
  ids := t.ids.sublist (List.filter_sublist.map _)

def disable (i : String) : CascadeTable where
  rows := t.rows.map fun c => if c.id = i then { c with enabled := false } else c
  ids := by
    have hsame : (fun c : StoredCascade => if c.id = i then { c with enabled := false } else c)
        = fun c => { c with enabled := if c.id = i then false else c.enabled } := by
      funext c
      split <;> rfl
    rw [hsame, List.map_map]
    exact t.ids

end CascadeTable

/-! ## What the rule gives -/

/-- One cascade, its members listed in any order. -/
structure SameMembers (c d : StoredCascade) : Prop where
  id : d.id = c.id
  createdAt : d.createdAt = c.createdAt
  enabled : d.enabled = c.enabled
  members : ∀ n, n ∈ membersOf d ↔ n ∈ membersOf c

theorem SameMembers.rfl' (c : StoredCascade) : SameMembers c c := ⟨rfl, rfl, rfl, fun _ => Iff.rfl⟩

theorem SameMembers.symm (h : SameMembers c d) : SameMembers d c :=
  ⟨h.id.symm, h.createdAt.symm, h.enabled.symm, fun n => (h.members n).symm⟩

theorem SameMembers.older {c d c' d' : StoredCascade} (h : SameMembers c d) (h' : SameMembers c' d')
    (hold : Older c c') : Older d d' := by
  unfold Older ownedBefore at hold ⊢
  rw [h.id, h'.id, h.createdAt, h'.createdAt]
  exact hold

/-- Every enabled cascade of a table is an enabled cascade of another. -/
def Covered (t t' : CascadeTable) : Prop :=
  ∀ c ∈ t.enabledInOrder, ∃ d ∈ t'.enabledInOrder, SameMembers c d

/-- More enabled cascades kill more. -/
theorem Covered.dead {t t' : CascadeTable} (h : Covered t t') {i : String}
    (hi : i ∈ t.deadCascadeIds) : i ∈ t'.deadCascadeIds := by
  rw [CascadeTable.mem_deadCascadeIds] at hi ⊢
  obtain ⟨c, hc, rfl, o, ho, hold, n, hn, hno⟩ := hi
  obtain ⟨d, hd, hcd⟩ := h c hc
  obtain ⟨p, hp, hop⟩ := h o ho
  exact ⟨d, hd, hcd.id, p, hp, hop.older hcd hold, n, (hcd.members n).mpr hn,
    (hop.members n).mpr hno⟩

/-- The rows of one table are those of the other, their members listed in any order. -/
def Relisted (t t' : CascadeTable) : Prop := List.Forall₂ SameMembers t.rows t'.rows

theorem Relisted.symm {t t' : CascadeTable} (h : Relisted t t') : Relisted t' t :=
  List.Forall₂.flip (h.imp fun _ _ hcd => hcd.symm)

theorem Relisted.covered {t t' : CascadeTable} (h : Relisted t t') : Covered t t' := by
  intro c hc
  obtain ⟨hrow, hen⟩ := (t.mem_enabledInOrder c).mp hc
  obtain ⟨i, hi, rfl⟩ := List.mem_iff_getElem.mp hrow
  have hi' : i < t'.rows.length := by rwa [← h.length_eq]
  have hsame : SameMembers t.rows[i] t'.rows[i] := List.Forall₂.get h hi hi'
  refine ⟨t'.rows[i], (t'.mem_enabledInOrder _).mpr ⟨List.getElem_mem hi', ?_⟩, hsame⟩
  rw [hsame.enabled]
  exact hen

theorem remove_covered (t : CascadeTable) (i : String) : Covered (t.remove i) t := by
  intro c hc
  obtain ⟨hrow, hen⟩ := ((t.remove i).mem_enabledInOrder c).mp hc
  exact ⟨c, (t.mem_enabledInOrder c).mpr ⟨(List.mem_filter.mp hrow).1, hen⟩, .rfl' c⟩

theorem disable_covered (t : CascadeTable) (i : String) : Covered (t.disable i) t := by
  intro c hc
  obtain ⟨hrow, hen⟩ := ((t.disable i).mem_enabledInOrder c).mp hc
  obtain ⟨d, hd, hcd⟩ := List.mem_map.mp hrow
  split at hcd
  · rw [← hcd] at hen
    cases hen
  · subst hcd
    exact ⟨d, (t.mem_enabledInOrder d).mpr ⟨hd, hen⟩, .rfl' d⟩

theorem mem_live {t : CascadeTable} :
    c ∈ t.live ↔ c ∈ t.enabledInOrder ∧ c.id ∉ t.deadCascadeIds := by
  rw [CascadeTable.live, List.mem_filter, decide_eq_true_eq]

/-- Two enabled cascades with a common node: the younger is dead. -/
theorem dead_of_shared {t : CascadeTable} (hc : c ∈ t.enabledInOrder)
    (hd : d ∈ t.enabledInOrder) (hne : c.id ≠ d.id) {n : String} (hn : n ∈ membersOf c)
    (hn' : n ∈ membersOf d) : c.id ∈ t.deadCascadeIds ∨ d.id ∈ t.deadCascadeIds := by
  rw [t.mem_deadCascadeIds, t.mem_deadCascadeIds]
  rcases ownedBefore_total c d with h | h
  · exact Or.inr ⟨d, hd, rfl, c, hc, ⟨h, hne⟩, n, hn', hn⟩
  · exact Or.inl ⟨c, hc, rfl, d, hd, ⟨h, hne.symm⟩, n, hn, hn'⟩

/-- A dead cascade has a node that an older one holds. -/
theorem dead_of_holder {t : CascadeTable} (hc : c ∈ t.enabledInOrder)
    (h : c.id ∈ t.deadCascadeIds) : ∃ n ∈ membersOf c, ∃ o, Holds t o n ∧ Older o c := by
  obtain ⟨d, hd, hid, o, ho, ⟨hold, hne⟩, n, hn, hno⟩ := (t.mem_deadCascadeIds _).mp h
  have hdc : d = c := List.inj_on_of_nodup_map t.nodup_enabledInOrder hd hc hid
  subst hdc
  obtain ⟨p, hp⟩ := t.exists_holder ho hno
  refine ⟨n, hn, p, hp, ownedBefore_trans (hp.oldest o ho hno) hold, fun he => ?_⟩
  -- the holder cannot be the cascade itself, an older one has the node
  have hpd : p = d := List.inj_on_of_nodup_map t.nodup_enabledInOrder hp.enabled hd he
  subst hpd
  exact hne (ownedBefore_antisymm hold (hp.oldest o ho hno))

/-- **Live cascades are disjoint, a dead one loses a node to an older one**, the order of the
members does not matter, and taking a cascade away kills none. -/
theorem deadCascadeIds_exclusive (t : CascadeTable) :
    (∀ c ∈ t.live, ∀ d ∈ t.live, c.id ≠ d.id → ∀ n ∈ membersOf c, n ∉ membersOf d)
    ∧ (∀ c ∈ t.enabledInOrder, c.id ∈ t.deadCascadeIds →
        ∃ n ∈ membersOf c, ∃ o, Holds t o n ∧ Older o c)
    ∧ (∀ t' : CascadeTable, Relisted t t' → ∀ i, i ∈ t'.deadCascadeIds ↔ i ∈ t.deadCascadeIds)
    ∧ (∀ i, ∀ c ∈ t.live,
        c.id ∉ (t.remove i).deadCascadeIds ∧ c.id ∉ (t.disable i).deadCascadeIds) := by
  refine ⟨fun c hc d hd hne n hn hn' => ?_, fun c hc h => dead_of_holder hc h, fun t' h i => ?_,
    fun i c hc => ?_⟩
  · rw [mem_live] at hc hd
    exact (dead_of_shared hc.1 hd.1 hne hn hn').elim hc.2 hd.2
  · exact ⟨h.symm.covered.dead, h.covered.dead⟩
  · have hlive := (mem_live.mp hc).2
    exact ⟨fun h => hlive ((remove_covered t i).dead h),
      fun h => hlive ((disable_covered t i).dead h)⟩

/-- Three cascades in a row, each sharing one node with the next. -/
def chainOfThree : CascadeTable where
  rows := [
    { id := "a", name := "first", createdAt := 1, enabled := true, hops := [],
      positions := [["n1"]], directions := [] },
    { id := "b", name := "second", createdAt := 2, enabled := true, hops := [],
      positions := [["n1"]], directions := [["n2"]] },
    { id := "c", name := "third", createdAt := 3, enabled := true, hops := [],
      positions := [["n3"]], directions := [["n2"]] }]
  ids := by decide

/-- A dead cascade still holds its other nodes: the third one dies of the second, itself dead. -/
theorem chainOfThree_dead : ∃ c ∈ chainOfThree.enabledInOrder, c.id ∈ chainOfThree.deadCascadeIds
    ∧ ¬ ∃ o ∈ chainOfThree.enabledInOrder, Older o c ∧ o.id ∉ chainOfThree.deadCascadeIds
        ∧ ∃ n ∈ membersOf c, n ∈ membersOf o := by
  decide

end Iceslab
