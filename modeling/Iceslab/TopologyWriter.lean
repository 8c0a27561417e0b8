import Iceslab.Lib.Ledger
import Iceslab.DirectionMerge
import Iceslab.LegStability

/-!
# The writer of a topology and the direction tags

`writeTopologyV4` of `cascade.service.ts`: each incoming direction becomes a stored row or a new
one, the rows that went away are deleted, the legs are drawn again, and the counter moves past
every tag handed out.  It runs inside a transaction, so a refusal leaves what was stored.

* `writeTopologyV4` — the writer, over the rows it reads.
* `Saved` — one save, written or refused; the rows come in any order.
* `TagsKept` — the invariant: tags in range, below the counter, one row a tag.
* `direction_tags_of_history` — over whole histories of saves a tag keeps its row.
-/

set_option autoImplicit false

namespace Iceslab

open Checked Relation

/-- A stored direction. -/
structure DirectionRow where
  id : String
  tag : Nat
  nodes : List String
  outboundId : Option String := none
  countryCode : Option String := none
  linkProtocol : Option String := none
  linkParams : Option LegParams := none
  linkPort : Option Nat := none
  deriving DecidableEq, Repr

/-- What the matching rule sees of a row. -/
def DirectionRow.asStored (r : DirectionRow) : StoredDirection :=
  { id := r.id, nodes := r.nodes, outboundId := r.outboundId }

/-- What is stored of one cascade. -/
structure CascadeRows where
  positions : List CascadePosition
  directions : List DirectionRow
  links : List TopologyLink
  nextDirectionTag : Nat
  deriving DecidableEq

/-- A cascade before its first save: the counter starts at the column's default. -/
def newCascade : CascadeRows :=
  { positions := [], directions := [], links := [], nextDirectionTag := 1 }

inductive WriteRefusal where
  | tagsExhausted (needed available : Nat)
  | directionInUse (policyNames : List String)
  | link (message : String)
  | transaction (message : String)
  deriving DecidableEq, Repr

/-- One call of the writer, with what it finds outside the cascade's own rows. -/
structure Save where
  positions : List CascadePosition
  directions : List ResolvedDirection
  /-- the node policy rules that leave by a direction: its row id and the policy's name -/
  policyRules : List (String × String)
  /-- the id the database gives the row created for the direction at this index -/
  newIds : Nat → String
  mint : Minting
  /-- what the rest of the transaction says: the tunnels and the constraints of the tables -/
  commit : CascadeRows → Except WriteRefusal Unit

/-- A direction with the tag it is written with, and the row it is written onto. -/
structure AssignedDirection where
  direction : ResolvedDirection
  tag : Nat
  keepId : Option String
  deriving DecidableEq, Repr

/-- A matched direction keeps its row's tag, any other draws the next one. -/
def assignTags : Nat → List (ResolvedDirection × Option DirectionRow) →
    List AssignedDirection × Nat
  | nextTag, [] => ([], nextTag)
  | nextTag, (d, some m) :: rest =>
    let r := assignTags nextTag rest
    ({ direction := d, tag := m.tag, keepId := some m.id } :: r.1, r.2)
  | nextTag, (d, none) :: rest =>
    let r := assignTags (nextTag + 1) rest
    ({ direction := d, tag := nextTag, keepId := none } :: r.1, r.2)

/-- The columns a save writes; a direction on an outbound has no leg. -/
def AssignedDirection.writeOnto (a : AssignedDirection) (linkPort : Nat) (r : DirectionRow) :
    DirectionRow :=
  let d := a.direction
  let r := { r with countryCode := d.countryCode, nodes := d.nodeIds }
  match truthy d.outboundId with
  | some o =>
    { r with outboundId := some o, linkProtocol := none, linkParams := none, linkPort := none }
  | none =>
    { r with outboundId := none, linkProtocol := d.linkProtocol, linkParams := d.linkParams,
             linkPort := some linkPort }

/-- Update the row that is kept, or create one. -/
def writeRow (newIds : Nat → String) (linkPort : Nat) (rows : List DirectionRow)
    (e : AssignedDirection × Nat) : List DirectionRow :=
  match truthy e.1.keepId with
  | some id => rows.map fun r => if r.id = id then e.1.writeOnto linkPort r else r
  | none => rows ++ [e.1.writeOnto linkPort { id := newIds e.2, tag := e.1.tag, nodes := [] }]

section Writer

variable (s : Save) (st : CascadeRows)

def matchedRows : List (Option DirectionRow) :=
  matchStoredDirections DirectionRow.asStored st.directions
    (s.directions.map ResolvedDirection.asIncoming)

/-- The stored rows no incoming direction is. -/
def unclaimedIds : List String :=
  (st.directions.map (·.id)).filter fun id =>
    decide (id ∉ (matchedRows s st).filterMap (fun m => m.map (·.id)))

def resolvedDirections : List AssignedDirection × Nat :=
  assignTags st.nextDirectionTag (s.directions.zip (matchedRows s st))

/-- The policy rules that leave by a direction this save would delete. -/
def blockingRules : List (String × String) :=
  s.policyRules.filter fun r => decide (r.1 ∈ unclaimedIds s st)

def writtenDirections : List DirectionRow :=
  (resolvedDirections s st).1.zipIdx.foldl
    (writeRow s.newIds (LINK_PORT_BASE + (s.positions.length - 1)))
    (st.directions.filter fun r => decide (r.id ∉ unclaimedIds s st))

def writeTopologyV4 : Except WriteRefusal CascadeRows := do
  let nextTag := (resolvedDirections s st).2
  require (decide (nextTag - 1 ≤ MAX_DIRECTION_TAG))
    (.tagsExhausted (nextTag - st.nextDirectionTag) (MAX_DIRECTION_TAG + 1 - st.nextDirectionTag))
  require (blockingRules s st).isEmpty
    (.directionInUse ((blockingRules s st).map (·.2)).eraseDups)
  let links ← (generateTopologyLinks s.mint (storedLinks st.links).get? s.positions
    ((resolvedDirections s st).1.map fun a => { tag := a.tag, direction := a.direction })).mapError
      .link
  let written : CascadeRows :=
    { positions := s.positions, directions := writtenDirections s st, links,
      nextDirectionTag := nextTag }
  s.commit written
  pure written

end Writer

/-! ## What assigning draws from the counter -/

theorem assignTags_next (n : Nat) (l : List (ResolvedDirection × Option DirectionRow)) :
    (assignTags n l).2 = n + l.countP (fun e => e.2.isNone) := by
  induction l generalizing n with
  | nil => simp [assignTags]
  | cons e l ih =>
    obtain ⟨d, m⟩ := e
    cases m with
    | some m => simp [assignTags, ih]
    | none =>
      simp only [assignTags, ih, List.countP_cons, Option.isNone_none, if_true]
      omega

theorem assignTags_keepIds (n : Nat) (l : List (ResolvedDirection × Option DirectionRow)) :
    (assignTags n l).1.map (·.keepId) = l.map (fun e => e.2.map (·.id)) := by
  induction l generalizing n with
  | nil => rfl
  | cons e l ih =>
    obtain ⟨d, m⟩ := e
    cases m <;> simp [assignTags, ih]

variable {r : DirectionRow} {l : List (ResolvedDirection × Option DirectionRow)} {m : DirectionRow}

theorem getElem?_assignTags {n : Nat}
    {i : Nat} {d : ResolvedDirection} (h : l[i]? = some (d, some m)) :
    (assignTags n l).1[i]? = some { direction := d, tag := m.tag, keepId := some m.id } := by
  induction l generalizing n i with
  | nil => simp at h
  | cons e l ih =>
    obtain ⟨d', m'⟩ := e
    cases i with
    | zero =>
      simp only [List.getElem?_cons_zero, Option.some.injEq, Prod.mk.injEq] at h
      obtain ⟨rfl, rfl⟩ := h
      simp [assignTags]
    | succ i =>
      rw [List.getElem?_cons_succ] at h
      cases m' <;> simp [assignTags, ih h]

/-- The rows a save creates: their ids and tags. -/
def createdRows (newIds : Nat → String) (l : List (AssignedDirection × Nat)) :
    List (String × Nat) :=
  (l.filter fun e => decide (truthy e.1.keepId = none)).map fun e => (newIds e.2, e.1.tag)

/-- The created rows take the numbers from the counter on, one after the other. -/
theorem createdRows_tags {newIds : Nat → String} (n k : Nat)
    (hnamed : ∀ e ∈ l, ∀ m, e.2 = some m → m.id ≠ "") :
    (createdRows newIds ((assignTags n l).1.zipIdx k)).map Prod.snd
      = List.range' n (l.countP fun e => e.2.isNone) := by
  induction l generalizing n k with
  | nil => simp [assignTags, createdRows]
  | cons e l ih =>
    obtain ⟨d, m⟩ := e
    have ih' := fun n k => ih (n := n) (k := k) fun e he => hnamed e (List.mem_cons_of_mem _ he)
    simp only [createdRows, List.map_map] at ih' ⊢
    cases m with
    | some m =>
      have hkept : truthy (some m.id) = some m.id :=
        truthy_eq_some.mpr ⟨rfl, hnamed _ List.mem_cons_self m rfl⟩
      simp [assignTags, List.zipIdx_cons, hkept, ih']
    | none => simp [assignTags, List.zipIdx_cons, ih', List.range'_succ]

/-! ## What writing does to the rows -/

/-- A row's holding: its id and its tag. -/
def DirectionRow.holding (r : DirectionRow) : String × Nat := (r.id, r.tag)

@[simp] theorem writeOnto_holding (a : AssignedDirection) (linkPort : Nat) (r : DirectionRow) :
    (a.writeOnto linkPort r).holding = r.holding := by
  simp only [AssignedDirection.writeOnto]
  split <;> rfl

@[simp] theorem writeOnto_nodes (a : AssignedDirection) (linkPort : Nat) (r : DirectionRow) :
    (a.writeOnto linkPort r).nodes = a.direction.nodeIds := by
  simp only [AssignedDirection.writeOnto]
  split <;> rfl

theorem map_holding_writeRow (newIds : Nat → String) (linkPort : Nat) (rows : List DirectionRow)
    (e : AssignedDirection × Nat) :
    (writeRow newIds linkPort rows e).map DirectionRow.holding
      = rows.map DirectionRow.holding ++ createdRows newIds [e] := by
  unfold writeRow createdRows
  split
  · rename_i id hid
    have : DirectionRow.holding ∘ (fun r => if r.id = id then e.1.writeOnto linkPort r else r)
        = DirectionRow.holding := by
      funext r
      simp only [Function.comp_apply]
      split <;> simp
    simp [hid, this]
  · rename_i hid
    rw [List.map_append, List.map_singleton, writeOnto_holding]
    simp [hid, DirectionRow.holding]

/-- **The writer keeps every holding it was given and adds the created ones.** -/
theorem map_holding_foldl_writeRow (newIds : Nat → String) (linkPort : Nat)
    (l : List (AssignedDirection × Nat)) (rows : List DirectionRow) :
    (l.foldl (writeRow newIds linkPort) rows).map DirectionRow.holding
      = rows.map DirectionRow.holding ++ createdRows newIds l := by
  induction l generalizing rows with
  | nil => simp [createdRows]
  | cons e l ih =>
    rw [List.foldl_cons, ih, map_holding_writeRow, List.append_assoc]
    congr 1
    unfold createdRows
    rw [← List.map_append, ← List.filter_append, List.singleton_append]

theorem mem_writeRow_of_ne {newIds : Nat → String} {linkPort : Nat} {rows : List DirectionRow}
    {e : AssignedDirection × Nat} (hr : r ∈ rows)
    (hne : e.1.keepId ≠ some r.id) : r ∈ writeRow newIds linkPort rows e := by
  unfold writeRow
  split
  · rename_i id hid
    refine List.mem_map.mpr ⟨r, hr, if_neg ?_⟩
    rintro rfl
    exact hne (truthy_eq_some.mp hid).1
  · exact List.mem_append_left _ hr

/-- A row one direction keeps is written by it, and by no other. -/
theorem mem_foldl_writeRow (newIds : Nat → String) (linkPort : Nat)
    {l : List (AssignedDirection × Nat)} {rows : List DirectionRow} {e : AssignedDirection × Nat}
    (hr : r ∈ rows) (hnamed : r.id ≠ "") (he : e ∈ l)
    (hkeep : e.1.keepId = some r.id) (honce : (l.filterMap (fun e => e.1.keepId)).Nodup) :
    e.1.writeOnto linkPort r ∈ l.foldl (writeRow newIds linkPort) rows := by
  have hrest : ∀ (l : List (AssignedDirection × Nat)) (rows : List DirectionRow) (x : DirectionRow),
      x ∈ rows → (∀ e' ∈ l, e'.1.keepId ≠ some x.id) →
      x ∈ l.foldl (writeRow newIds linkPort) rows := by
    intro l
    induction l with
    | nil => exact fun _ _ hx _ => hx
    | cons a l ih =>
      intro rows x hx hne
      exact ih _ _ (mem_writeRow_of_ne hx (hne a List.mem_cons_self))
        (fun e' he' => hne e' (List.mem_cons_of_mem a he'))
  induction l generalizing rows with
  | nil => cases he
  | cons a l ih =>
    rw [List.foldl_cons]
    have honce' : (l.filterMap (fun e => e.1.keepId)).Nodup := by
      rw [List.filterMap_cons] at honce
      split at honce
      · exact honce
      · exact (List.nodup_cons.mp honce).2
    have hlater : ∀ b ∈ l, a.1.keepId = some r.id → b.1.keepId ≠ some r.id := by
      intro b hb ha hb'
      simp only [List.filterMap_cons, ha, List.nodup_cons] at honce
      exact honce.1 (List.mem_filterMap.mpr ⟨b, hb, hb'⟩)
    rcases List.mem_cons.mp he with rfl | he
    · have hid : (e.1.writeOnto linkPort r).id = r.id :=
        congrArg Prod.fst (writeOnto_holding e.1 linkPort r)
      refine hrest l _ _ ?_ (fun b hb => by rw [hid]; exact hlater b hb hkeep)
      unfold writeRow
      rw [hkeep, truthy_eq_some.mpr ⟨rfl, hnamed⟩]
      exact List.mem_map.mpr ⟨r, hr, if_pos rfl⟩
    · exact ih (mem_writeRow_of_ne hr (fun ha => hlater e he ha hkeep)) he honce'

/-! ## One save -/

/-- The rows as a save reads them: in any order, and the nodes of each in any order. -/
structure Reads (st read : CascadeRows) : Prop where
  directions : ∃ order : List DirectionRow, order.Perm st.directions
    ∧ List.Forall₂ (fun a b => a.nodes.Perm b.nodes ∧ { a with nodes := b.nodes } = b) order
        read.directions
  links : read.links.Perm st.links
  nextDirectionTag : read.nextDirectionTag = st.nextDirectionTag

/-- The ids of created rows are new: the database draws them, and they are keys. -/
structure Save.FreshIds (s : Save) (st : CascadeRows) : Prop where
  distinct : Function.Injective s.newIds
  unused : ∀ i, ∀ r ∈ st.directions, s.newIds i ≠ r.id
  named : ∀ i, s.newIds i ≠ ""

/-- One save of what was read: written whole, or refused and rolled back. -/
inductive Saved (s : Save) (read st : CascadeRows) : CascadeRows → Prop
  | written {st' : CascadeRows} (hread : Reads st read) (hfresh : s.FreshIds read)
      (h : writeTopologyV4 s read = .ok st') : Saved s read st st'
  | refused {e : WriteRefusal} (hread : Reads st read)
      (h : writeTopologyV4 s read = .error e) : Saved s read st st

/-- Some save happened. -/
def Saves (st st' : CascadeRows) : Prop := ∃ s read, Saved s read st st'

/-- What an accepted save did. -/
structure Written (s : Save) (st st' : CascadeRows) : Prop where
  fits : (resolvedDirections s st).2 - 1 ≤ MAX_DIRECTION_TAG
  unused : ∀ rule ∈ s.policyRules, rule.1 ∉ unclaimedIds s st
  directions : st'.directions = writtenDirections s st
  nextDirectionTag : st'.nextDirectionTag = (resolvedDirections s st).2

theorem writeTopologyV4_eq_ok {s : Save} {st st' : CascadeRows}
    (h : writeTopologyV4 s st = .ok st') : Written s st st' := by
  simp only [writeTopologyV4, bind_eq_ok, require_eq_ok, pure_eq_ok, decide_eq_true_eq] at h
  obtain ⟨_, hfits, _, hnone, links, -, _, -, rfl⟩ := h
  refine ⟨hfits, fun rule hrule hmem => ?_, rfl, rfl⟩
  have : rule ∈ blockingRules s st := List.mem_filter.mpr ⟨hrule, decide_eq_true hmem⟩
  rw [List.isEmpty_iff.mp hnone] at this
  cases this

/-! ## The invariant -/

/-- The rows of a cascade as holders of the tags its counter issued. -/
def CascadeRows.ledger (st : CascadeRows) : Ledger String :=
  { held := st.directions.map DirectionRow.holding, next := st.nextDirectionTag }

structure TagsKept (st : CascadeRows) : Prop where
  kept : st.ledger.WellKept
  named : ∀ r ∈ st.directions, r.id ≠ ""
  positive : ∀ r ∈ st.directions, 1 ≤ r.tag
  next_pos : 1 ≤ st.nextDirectionTag
  next_le : st.nextDirectionTag ≤ MAX_DIRECTION_TAG + 1

theorem newCascade_tagsKept : TagsKept newCascade where
  kept := ⟨List.nodup_nil, List.nodup_nil, fun _ h => by cases h⟩
  named := fun _ h => by cases h
  positive := fun _ h => by cases h
  next_pos := Nat.le_refl 1
  next_le := by decide

theorem TagsKept.tags {st : CascadeRows} (h : TagsKept st) : (st.directions.map (·.tag)).Nodup := by
  have := h.kept.numbers
  rwa [CascadeRows.ledger, List.map_map] at this

theorem TagsKept.tag_lt {st : CascadeRows} (h : TagsKept st)
    (hr : r ∈ st.directions) : r.tag < st.nextDirectionTag :=
  h.kept.below r.holding (List.mem_map_of_mem hr)

theorem Reads.holdings {st read : CascadeRows} (h : Reads st read) :
    (read.directions.map DirectionRow.holding).Perm (st.directions.map DirectionRow.holding) := by
  obtain ⟨order, hperm, hrows⟩ := h.directions
  have hsame : List.Forall₂ Eq (order.map DirectionRow.holding)
      (read.directions.map DirectionRow.holding) := by
    rw [List.forall₂_map_left_iff, List.forall₂_map_right_iff]
    refine hrows.imp fun a b hab => ?_
    rw [← hab.2]
    rfl
  rw [List.forall₂_eq_eq_eq] at hsame
  rw [← hsame]
  exact hperm.map _

theorem Reads.exists_row {st read : CascadeRows} (h : Reads st read)
    (hr : r ∈ read.directions) : ∃ r' ∈ st.directions, r'.id = r.id ∧ r'.tag = r.tag := by
  have := h.holdings.mem_iff.mp (List.mem_map_of_mem hr)
  obtain ⟨r', hr', heq⟩ := List.mem_map.mp this
  exact ⟨r', hr', congrArg Prod.fst heq, congrArg Prod.snd heq⟩

theorem Reads.tagsKept {st read : CascadeRows} (h : Reads st read) (hk : TagsKept st) :
    TagsKept read where
  kept := hk.kept.perm h.holdings h.nextDirectionTag
  named := fun r hr => by
    obtain ⟨r', hr', hid, -⟩ := h.exists_row hr
    exact hid ▸ hk.named r' hr'
  positive := fun r hr => by
    obtain ⟨r', hr', -, htag⟩ := h.exists_row hr
    exact htag ▸ hk.positive r' hr'
  next_pos := h.nextDirectionTag ▸ hk.next_pos
  next_le := h.nextDirectionTag ▸ hk.next_le

section Step

variable {s : Save} {st st' : CascadeRows}

theorem mem_matchedRows (h : some m ∈ matchedRows s st) : m ∈ st.directions :=
  (mem_matchFrom h).1

/-- The rows an accepted save creates. -/
def Save.created (s : Save) (st : CascadeRows) : List (String × Nat) :=
  createdRows s.newIds (resolvedDirections s st).1.zipIdx

/-- The rows an accepted save keeps. -/
def Save.keptRows (s : Save) (st : CascadeRows) : List DirectionRow :=
  st.directions.filter fun r => decide (r.id ∉ unclaimedIds s st)

theorem created_tags (hk : TagsKept st) :
    (s.created st).map Prod.snd
      = List.range' st.nextDirectionTag
          ((s.directions.zip (matchedRows s st)).countP fun e => e.2.isNone) := by
  refine createdRows_tags _ 0 fun e he m hm => hk.named m (mem_matchedRows (s := s) ?_)
  rw [← hm]
  exact (List.of_mem_zip (a := e.1) (b := e.2) he).2

theorem length_created (hk : TagsKept st) :
    (s.created st).length = (s.directions.zip (matchedRows s st)).countP fun e => e.2.isNone := by
  have h := congrArg List.length (created_tags (s := s) hk)
  rwa [List.length_map, List.length_range'] at h

theorem Written.ledger_eq (hk : TagsKept st) (hw : Written s st st') :
    st'.ledger = ⟨(s.keptRows st).map DirectionRow.holding ++ s.created st,
      st.nextDirectionTag + (s.created st).length⟩ := by
  rw [CascadeRows.ledger, hw.directions, writtenDirections, map_holding_foldl_writeRow,
    hw.nextDirectionTag, resolvedDirections, assignTags_next, length_created hk]
  rfl

/-- The counter moves by the number of directions no row matched. -/
theorem resolvedDirections_next : (resolvedDirections s st).2
    = st.nextDirectionTag + (matchedRows s st).countP Option.isNone := by
  have hlen : (matchedRows s st).length ≤ s.directions.length := by
    rw [matchedRows, matchStoredDirections, length_matchFrom, List.length_map]
  rw [resolvedDirections, assignTags_next]
  conv_rhs => rw [← List.map_snd_zip hlen, List.countP_map]
  rfl

theorem mem_created {e : String × Nat} (he : e ∈ s.created st) : ∃ i, s.newIds i = e.1 := by
  obtain ⟨a, -, rfl⟩ := List.mem_map.mp he
  exact ⟨a.2, rfl⟩

theorem created_ids (hfresh : s.FreshIds st) : ((s.created st).map Prod.fst).Nodup := by
  have hcols : (s.created st).map Prod.fst
      = (((resolvedDirections s st).1.zipIdx.filter
          fun e => decide (truthy e.1.keepId = none)).map Prod.snd).map s.newIds := by
    simp [Save.created, createdRows, Function.comp_def]
  rw [hcols]
  refine List.Nodup.map hfresh.distinct (List.Nodup.sublist (List.filter_sublist.map _) ?_)
  rw [List.zipIdx_map_snd]
  exact List.nodup_range'

/-- **One save** keeps the invariant, and only issues tags from the counter. -/
theorem Written.tagsKept (hk : TagsKept st) (hfresh : s.FreshIds st) (hw : Written s st st') :
    TagsKept st' ∧ st.ledger.Issues st'.ledger := by
  have heq := hw.ledger_eq hk
  have hstep : st'.ledger.WellKept ∧ st.ledger.Issues st'.ledger := by
    rw [heq]
    refine Ledger.wellKept_of_issue hk.kept (List.filter_sublist.map _) (created_ids hfresh)
      (fun e he e' he' => ?_) (by rw [created_tags hk, length_created hk]; rfl)
    obtain ⟨i, hi⟩ := mem_created he
    obtain ⟨r, hr, rfl⟩ := List.mem_map.mp he'
    exact hi ▸ hfresh.unused i r hr
  have hnext : st'.nextDirectionTag = st.nextDirectionTag + (s.created st).length :=
    congrArg Ledger.next heq
  -- a row of the new state is a kept one or a created one
  have hrow : ∀ r ∈ st'.directions,
      (∃ r' ∈ st.directions, r'.id = r.id ∧ r'.tag = r.tag)
        ∨ (∃ i, s.newIds i = r.id) ∧ st.nextDirectionTag ≤ r.tag := by
    intro r hr
    have hmem : r.holding ∈ st'.ledger.held := List.mem_map_of_mem hr
    rw [heq] at hmem
    rcases List.mem_append.mp hmem with hold | hnew
    · obtain ⟨r', hr', he⟩ := List.mem_map.mp hold
      exact Or.inl ⟨r', (List.mem_filter.mp hr').1, congrArg Prod.fst he, congrArg Prod.snd he⟩
    · have htag := List.mem_map_of_mem (f := Prod.snd) hnew
      rw [created_tags hk, List.mem_range'_1] at htag
      exact Or.inr ⟨mem_created hnew, htag.1⟩
  refine ⟨⟨hstep.1, fun r hr => ?_, fun r hr => ?_, ?_, ?_⟩, hstep.2⟩
  · rcases hrow r hr with ⟨r', hr', hid, -⟩ | ⟨⟨i, hi⟩, -⟩
    · exact hid ▸ hk.named r' hr'
    · exact hi ▸ hfresh.named i
  · have := hk.next_pos
    rcases hrow r hr with ⟨r', hr', -, htag⟩ | ⟨-, htag⟩
    · exact htag ▸ hk.positive r' hr'
    · omega
  · have := hk.next_pos
    omega
  · have := hw.fits
    rw [hw.nextDirectionTag]
    omega

theorem map_keepId_resolved : (resolvedDirections s st).1.map (·.keepId)
    = (matchedRows s st).map fun o => o.map (·.id) := by
  have hlen : (matchedRows s st).length ≤ s.directions.length := by
    rw [matchedRows, matchStoredDirections, length_matchFrom, List.length_map]
  calc (resolvedDirections s st).1.map (·.keepId)
      = (s.directions.zip (matchedRows s st)).map (fun e => e.2.map (·.id)) := by
        rw [resolvedDirections, assignTags_keepIds]
    _ = ((s.directions.zip (matchedRows s st)).map Prod.snd).map (fun o => o.map (·.id)) := by
        simp
    _ = (matchedRows s st).map (fun o => o.map (·.id)) := by
        rw [List.map_snd_zip hlen]

theorem keepIds_nodup :
    ((resolvedDirections s st).1.zipIdx.filterMap (fun e => e.1.keepId)).Nodup := by
  have hcol : (resolvedDirections s st).1.zipIdx.filterMap (fun e => e.1.keepId)
      = (matchedRows s st).filterMap (fun o => o.map (·.id)) := by
    calc (resolvedDirections s st).1.zipIdx.filterMap (fun e => e.1.keepId)
        = (((resolvedDirections s st).1.zipIdx.map Prod.fst).map (·.keepId)).filterMap id := by
          simp [List.filterMap_map]
      _ = ((matchedRows s st).map (fun o => o.map (·.id))).filterMap id := by
          rw [List.zipIdx_map_fst, map_keepId_resolved]
      _ = (matchedRows s st).filterMap (fun o => o.map (·.id)) := by
          rw [List.filterMap_map]
          rfl
  rw [hcol]
  exact @matchFrom_nodup _ DirectionRow.asStored _ _ _

/-- **A matched direction keeps its row**: its id and its tag stay, its nodes are the new pool. -/
theorem Written.matched_row (hk : TagsKept st) (hw : Written s st st') {i : Nat}
    {d : ResolvedDirection} (hd : s.directions[i]? = some d)
    (hm : (matchedRows s st)[i]? = some (some m)) :
    ∃ r ∈ st'.directions, r.id = m.id ∧ r.tag = m.tag ∧ r.nodes = d.nodeIds := by
  have hmem : m ∈ st.directions := mem_matchedRows (List.mem_of_getElem? hm)
  have hzip : (s.directions.zip (matchedRows s st))[i]? = some (d, some m) := by
    rw [List.getElem?_zip_eq_some]
    exact ⟨hd, hm⟩
  have ha := getElem?_assignTags (n := st.nextDirectionTag) hzip
  have hkept : m ∈ s.keptRows st := by
    refine List.mem_filter.mpr ⟨hmem, ?_⟩
    simp only [unclaimedIds, List.mem_filter, decide_eq_true_eq, not_and, not_not]
    exact fun _ => List.mem_filterMap.mpr ⟨some m, List.mem_of_getElem? hm, rfl⟩
  have hwrite := mem_foldl_writeRow s.newIds
    (LINK_PORT_BASE + (s.positions.length - 1)) hkept (hk.named m hmem)
    (e := ({ direction := d, tag := m.tag, keepId := some m.id }, i))
    (l := (resolvedDirections s st).1.zipIdx)
    (List.mem_zipIdx_iff_getElem?.mpr ha) rfl keepIds_nodup
  rw [hw.directions]
  refine ⟨_, hwrite, ?_⟩
  have hh := writeOnto_holding { direction := d, tag := m.tag, keepId := some m.id }
    (LINK_PORT_BASE + (s.positions.length - 1)) m
  exact ⟨congrArg Prod.fst hh, congrArg Prod.snd hh, writeOnto_nodes _ _ _⟩

end Step

/-! ## Histories -/

theorem Saved.tagsKept {s : Save} {read st st' : CascadeRows} (h : Saved s read st st')
    (hk : TagsKept st) : TagsKept st' ∧ st.ledger.Issues st'.ledger := by
  cases h with
  | refused => exact ⟨hk, Ledger.Issues.refl _⟩
  | written hread hfresh hw =>
    obtain ⟨hk', hi⟩ := (writeTopologyV4_eq_ok hw).tagsKept (hread.tagsKept hk) hfresh
    have hnext : read.ledger.next = st.ledger.next := hread.nextDirectionTag
    refine ⟨hk', ⟨hnext ▸ hi.next_le, fun e he => ?_⟩⟩
    rcases hi.held e he with hold | hnew
    · exact Or.inl (hread.holdings.mem_iff.mp hold)
    · exact Or.inr (hnext ▸ hnew)

theorem history_tagsKept {st st' : CascadeRows} (h : ReflTransGen Saves st st')
    (hk : TagsKept st) : TagsKept st' ∧ st.ledger.Issues st'.ledger := by
  induction h with
  | refl => exact ⟨hk, Ledger.Issues.refl _⟩
  | tail _ hstep ih =>
    obtain ⟨s, read, hs⟩ := hstep
    obtain ⟨hk', hi⟩ := hs.tagsKept ih.1
    exact ⟨hk', ih.2.trans hi⟩

/-- **A direction tag keeps its row over any history of saves**, written and refused. -/
theorem direction_tags_of_history {st st' : CascadeRows}
    (h : ReflTransGen Saves newCascade st) (h' : ReflTransGen Saves st st') :
    (∀ r ∈ st.directions, 1 ≤ r.tag ∧ r.tag ≤ MAX_DIRECTION_TAG ∧ r.tag < st.nextDirectionTag)
      ∧ (st.directions.map (·.tag)).Nodup
      ∧ (∀ r' ∈ st'.directions, r'.tag < st.nextDirectionTag →
          ∃ r ∈ st.directions, r.id = r'.id ∧ r.tag = r'.tag)
      ∧ (∀ r ∈ st.directions, ∀ r' ∈ st'.directions, r.tag = r'.tag → r.id = r'.id)
      ∧ (∀ s read st'', Saved s read st st'' →
          (∀ (i : Nat) (d : ResolvedDirection) (m : DirectionRow), s.directions[i]? = some d →
            (matchedRows s read)[i]? = some (some m) →
            ∃ r ∈ st''.directions, r.id = m.id ∧ r.tag = m.tag
              ∧ (st'' ≠ st → r.nodes = d.nodeIds))
          ∧ (MAX_DIRECTION_TAG
                < read.nextDirectionTag + (matchedRows s read).countP Option.isNone - 1 →
              st'' = st)
          ∧ (∀ rule ∈ s.policyRules, rule.1 ∈ unclaimedIds s read → st'' = st))
      ∧ (∀ stored : List DirectionRow, (stored.map (·.id)).Nodup →
          ∀ (incoming : List IncomingDirection) (fields : DirectionRow → KeptFields),
            matchStoredDirections DirectionRow.asStored stored
                ((resolveDirections DirectionRow.asStored stored incoming fields).map
                  ResolvedDirection.asIncoming)
              = matchStoredDirections DirectionRow.asStored stored incoming) := by
  obtain ⟨hk, -⟩ := history_tagsKept h newCascade_tagsKept
  obtain ⟨-, hi⟩ := history_tagsKept h' hk
  have hlater : ∀ r' ∈ st'.directions, r'.tag < st.nextDirectionTag →
      ∃ r ∈ st.directions, r.id = r'.id ∧ r.tag = r'.tag := by
    intro r' hr' hlt
    rcases hi.held r'.holding (List.mem_map_of_mem hr') with hold | hnew
    · obtain ⟨r, hr, he⟩ := List.mem_map.mp hold
      exact ⟨r, hr, congrArg Prod.fst he, congrArg Prod.snd he⟩
    · exact absurd hlt (Nat.not_lt.mpr hnew)
  refine ⟨fun r hr => ?_, hk.tags, hlater, fun r hr r' hr' htag => ?_, ?_, ?_⟩
  · have := hk.tag_lt hr
    have := hk.next_le
    exact ⟨hk.positive r hr, by omega, hk.tag_lt hr⟩
  · exact congrArg Prod.fst (hi.owner_unique hk.kept (List.mem_map_of_mem hr)
      (List.mem_map_of_mem hr') htag)
  · intro s read st'' hs
    cases hs with
    | refused hread hw =>
      refine ⟨fun i d m _ hm => ?_, fun _ => rfl, fun _ _ _ => rfl⟩
      obtain ⟨r, hr, hid, htag⟩ := hread.exists_row (mem_matchedRows (List.mem_of_getElem? hm))
      exact ⟨r, hr, hid, htag, fun hne => absurd rfl hne⟩
    | written hread hfresh hw =>
      have hwr := writeTopologyV4_eq_ok hw
      refine ⟨fun i d m hd hm => ?_, fun hbig => ?_, fun rule hrule hmem => ?_⟩
      · obtain ⟨r, hr, hid, htag, hnodes⟩ := hwr.matched_row (hread.tagsKept hk) hd hm
        exact ⟨r, hr, hid, htag, fun _ => hnodes⟩
      · have := hwr.fits
        rw [resolvedDirections_next] at this
        omega
      · exact absurd hmem (hwr.unused rule hrule)
  · exact fun stored hids incoming fields => match_resolveDirections hids incoming fields

theorem Reads.refl (st : CascadeRows) : Reads st st where
  directions := ⟨st.directions, .refl _, List.forall₂_same.mpr fun _ _ => ⟨.refl _, rfl⟩⟩
  links := .refl _
  nextDirectionTag := rfl

/-- A save of `vlessPath` with the nodes of its direction replaced. -/
def sampleSave (ids : String) (nodeIds : List String) : Save where
  positions := vlessPath.positions
  directions := [{ nodeIds }]
  policyRules := []
  newIds i := ids ++ toString i
  mint := sampleMinting ids
  commit _ := .ok ()

theorem sampleSave_freshIds {ids : String} {nodeIds : List String} {st : CascadeRows}
    (h : ∀ i : Nat, ∀ r ∈ st.directions, ids ++ toString i ≠ r.id) :
    (sampleSave ids nodeIds).FreshIds st where
  distinct := fun _ _ heq => Names.append_num_inj heq
  unused := h
  named := fun i he => Names.num_ne_empty i (by simpa using (String.append_eq_empty_iff.mp he).2)

/-- A direction saved, then replaced by another: the second draws the tag after it. -/
theorem direction_tags_of_history_replaced : ∃ st st' : CascadeRows,
    st.directions.map DirectionRow.holding = [("first-0", 1)]
      ∧ st'.directions.map DirectionRow.holding = [("second-0", 2)]
      ∧ (∀ r' ∈ st'.directions, r'.tag < st.nextDirectionTag →
          ∃ r ∈ st.directions, r.id = r'.id ∧ r.tag = r'.tag) := by
  have hfirst : Saved (sampleSave "first-" [nodeB]) newCascade newCascade _ :=
    .written (Reads.refl _) (sampleSave_freshIds fun _ _ hr => by cases hr) rfl
  refine ⟨_, _, ?_, ?_, (direction_tags_of_history (ReflTransGen.single ⟨_, _, hfirst⟩)
    (ReflTransGen.single ⟨sampleSave "second-" [nodeA], _, .written (Reads.refl _) ?_ rfl⟩)).2.2.1⟩
  · rfl
  · rfl
  · refine sampleSave_freshIds fun i r hr heq => ?_
    have hids : (writtenDirections (sampleSave "first-" [nodeB]) newCascade).map (·.id)
        = ["first-0"] := rfl
    have hid : r.id ∈ ["first-0"] := hids ▸ List.mem_map_of_mem hr
    rw [List.mem_singleton.mp hid] at heq
    have := congrArg (fun s => s.toList.head?) heq
    simp [String.toList_append] at this

end Iceslab
