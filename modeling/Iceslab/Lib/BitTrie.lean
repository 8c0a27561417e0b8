import Mathlib.Data.Fintype.Card

/-!
# Walking a binary table of nodes

A table of `n` nodes with two records each: a record below `n` is a node, `n` itself is nothing, and
a record above `n` is a value.  Nothing says that the table is a tree.

* `walk` — where the bits of an address lead.
* `traverse` — the nodes one by one off a stack, with paths that are skipped, within so many bits
  and so many visits.
* `traverse_ok` — what a traversal that ends has found is where every walk leads, by prefixes that
  stand apart.
* `traverse_isOk` — on a tree it ends.
-/

set_option autoImplicit false

namespace BitTrie

variable {a p q : List Bool}

section Walk

variable (n : Nat) (child : Nat → Bool → Nat)

/-- The record the bits lead to from another: what is not a node stays. -/
def walk (record : Nat) : List Bool → Nat
  | [] => record
  | b :: rest => if record < n then walk (child record b) rest else record

theorem walk_of_le {record : Nat} (h : n ≤ record) (path : List Bool) :
    walk n child record path = record := by
  cases path with
  | nil => rfl
  | cons b rest => exact if_neg (not_lt.mpr h)

theorem walk_append (record : Nat) (p q : List Bool) :
    walk n child record (p ++ q) = walk n child (walk n child record p) q := by
  induction p generalizing record with
  | nil => rfl
  | cons b rest ih =>
    by_cases h : record < n
    · rw [List.cons_append, walk, walk, if_pos h, if_pos h, ih]
    · have hle := not_lt.mp h
      rw [walk_of_le n child hle, walk_of_le n child hle, walk_of_le n child hle]

theorem walk_of_leading (hpa : p <+: a) (h : n ≤ walk n child 0 p) :
    walk n child 0 a = walk n child 0 p := by
  obtain ⟨rest, rfl⟩ := hpa
  rw [walk_append, walk_of_le n child h]

end Walk

/-! ## The traversal -/

/-- Why a traversal gives up. -/
inductive Refusal where
  | loops
  | deep
  deriving DecidableEq, Repr

/-- Nodes still to be visited and values found, each with the path to it. -/
structure Frontier where
  stack : List (List Bool × Nat)
  found : List (List Bool × Nat)

section Traverse

variable (n : Nat) (child : Nat → Bool → Nat) (skip : List Bool → Bool) (bits : Nat)

/-- One record of a node. -/
def turn (v : List Bool × Nat) (f : Frontier) (b : Bool) : Except Refusal Frontier :=
  let path := v.1 ++ [b]
  let record := child v.2 b
  if skip path then .ok f
  else if record < n then
    if bits ≤ path.length then .error .deep else .ok { f with stack := (path, record) :: f.stack }
  else if n < record then .ok { f with found := f.found ++ [(path, record)] }
  else .ok f

/-- Both records of a node. -/
def visit (v : List Bool × Nat) (f : Frontier) : Except Refusal Frontier :=
  (turn n child skip bits v f false).bind fun f => turn n child skip bits v f true

/-- The last node put on the stack first, with so many visits left. -/
def traverse : Nat → Frontier → Except Refusal (List (List Bool × Nat))
  | _, ⟨[], found⟩ => .ok found
  | 0, ⟨_ :: _, _⟩ => .error .loops
  | left + 1, ⟨v :: stack, found⟩ =>
    (visit n child skip bits v ⟨stack, found⟩).bind (traverse left)

end Traverse

/-- What a turn that goes on can do. -/
theorem turn_cases {n : Nat} {child : Nat → Bool → Nat} {skip : List Bool → Bool} {bits : Nat}
    {v : List Bool × Nat} {f f' : Frontier} {b : Bool} (h : turn n child skip bits v f b = .ok f') :
    skip (v.1 ++ [b]) = true ∧ f' = f ∨
    skip (v.1 ++ [b]) = false ∧
      (child v.2 b < n ∧ v.1.length + 1 < bits ∧
          f' = ⟨(v.1 ++ [b], child v.2 b) :: f.stack, f.found⟩ ∨
        n < child v.2 b ∧ f' = ⟨f.stack, f.found ++ [(v.1 ++ [b], child v.2 b)]⟩ ∨
        child v.2 b = n ∧ f' = f) := by
  unfold turn at h
  cases hskip : skip (v.1 ++ [b]) with
  | true =>
    simp only [hskip, if_true, Except.ok.injEq] at h
    exact .inl ⟨rfl, h.symm⟩
  | false =>
    simp only [hskip, Bool.false_eq_true, if_false, List.length_append, List.length_singleton] at h
    refine .inr ⟨rfl, ?_⟩
    rcases Nat.lt_trichotomy (child v.2 b) n with hlt | heq | hgt
    · rw [if_pos hlt] at h
      by_cases hdeep : bits ≤ v.1.length + 1
      · rw [if_pos hdeep] at h
        cases h
      · rw [if_neg hdeep, Except.ok.injEq] at h
        exact .inl ⟨hlt, not_le.mp hdeep, h.symm⟩
    · rw [if_neg (by omega), if_neg (by omega), Except.ok.injEq] at h
      exact .inr (.inr ⟨heq, h.symm⟩)
    · rw [if_neg (by omega), if_pos hgt, Except.ok.injEq] at h
      exact .inr (.inl ⟨hgt, h.symm⟩)

/-! ## Paths apart -/

/-- Neither is a prefix of the other. -/
def Apart (p q : List Bool) : Prop := ¬ p <+: q ∧ ¬ q <+: p

theorem Apart.symm (h : Apart p q) : Apart q p := ⟨h.2, h.1⟩

/-- No address goes both ways. -/
theorem Apart.not_both (h : Apart p q) (hp : p <+: a) : ¬ q <+: a := by
  intro hq
  rcases Nat.le_total p.length q.length with hle | hle
  · exact h.1 (List.prefix_of_prefix_length_le hp hq hle)
  · exact h.2 (List.prefix_of_prefix_length_le hq hp hle)

theorem Apart.snoc (h : Apart p q) (b : Bool) : Apart (p ++ [b]) q := by
  refine ⟨fun hpq => h.1 ((List.prefix_append p [b]).trans hpq), fun hqp => ?_⟩
  rcases List.prefix_concat_iff.mp hqp with rfl | hqp
  · exact h.1 (List.prefix_append p [b])
  · exact h.2 hqp

theorem apart_children (p : List Bool) : Apart (p ++ [false]) (p ++ [true]) := by
  constructor <;> intro h <;> simpa using List.IsPrefix.eq_of_length h (by simp)

theorem pairwise_apart_perm {l l' : List (List Bool)} (h : l.Perm l') :
    l.Pairwise Apart ↔ l'.Pairwise Apart := h.pairwise_iff fun h => h.symm

/-! ## What a traversal keeps -/

section Reached

variable (n : Nat) (child : Nat → Bool → Nat) (skip : List Bool → Bool) (bits : Nat)

/-- No part of the path is skipped. -/
def Kept (a : List Bool) : Prop := ∀ p, p <+: a → p ≠ [] → skip p = false

/-- A path to a node; the root is visited in an empty table too. -/
def NodeAt (path : List Bool) (node : Nat) : Prop :=
  walk n child 0 path = node ∧ (node < n ∨ n = 0 ∧ path = [])

/-- The walk of the address ends, at nothing or at a value that is found on its way. -/
def Settled (found : List (List Bool × Nat)) (a : List Bool) : Prop :=
  n ≤ walk n child 0 a ∧
    (n < walk n child 0 a → ∃ p, p <+: a ∧ (p, walk n child 0 a) ∈ found)

/-- What holds between two turns, with the paths still to be taken from the node being visited. -/
structure Reached (pending : List (List Bool)) (f : Frontier) : Prop where
  node : ∀ v ∈ f.stack, NodeAt n child v.1 v.2 ∧ v.1.length < bits ∧ Kept skip v.1
  value : ∀ v ∈ f.found,
    walk n child 0 v.1 = v.2 ∧ n < v.2 ∧ v.1.length ≤ bits ∧ Kept skip v.1
  apart : (pending ++ (f.stack.map Prod.fst ++ f.found.map Prod.fst)).Pairwise Apart
  covers : ∀ a, a.length = bits → Kept skip a →
    (∃ p ∈ pending ++ f.stack.map Prod.fst, p <+: a) ∨ Settled n child f.found a

variable {n child skip bits} {seen : List (List Bool)} {left : Nat}

theorem kept_snoc {b : Bool} (hp : Kept skip p) (hb : skip (p ++ [b]) = false) :
    Kept skip (p ++ [b]) := fun q hq hne => by
  rcases List.prefix_concat_iff.mp hq with rfl | hq
  · exact hb
  · exact hp q hq hne

theorem walk_snoc (hroot : n = 0 → ∀ b, child 0 b = 0) {node : Nat}
    (h : NodeAt n child p node) (b : Bool) : walk n child 0 (p ++ [b]) = child node b := by
  obtain ⟨hwalk, hnode⟩ := h
  rw [walk_append, hwalk]
  rcases hnode with hlt | ⟨hn, hp⟩
  · exact if_pos hlt
  · subst hp hn
    obtain rfl : 0 = node := hwalk
    exact (hroot rfl b).symm

theorem Settled.mono {found found' : List (List Bool × Nat)}
    (h : Settled n child found a) (hsub : found ⊆ found') : Settled n child found' a := by
  refine ⟨h.1, fun hlt => ?_⟩
  obtain ⟨p, hpa, hp⟩ := h.2 hlt
  exact ⟨p, hpa, hsub hp⟩

section Turn

variable (hroot : n = 0 → ∀ b, child 0 b = 0) {v : List Bool × Nat} {b : Bool}
  (hnode : NodeAt n child v.1 v.2) (hlen : v.1.length < bits) (hkept : Kept skip v.1)
  {pending : List (List Bool)} {f f' : Frontier}

include hroot hnode hlen hkept

theorem reached_turn (h : Reached n child skip bits ((v.1 ++ [b]) :: pending) f)
    (hturn : turn n child skip bits v f b = .ok f') : Reached n child skip bits pending f' := by
  have hwalk := walk_snoc hroot hnode b
  have hapart := h.apart
  rw [List.cons_append] at hapart
  -- an address that goes this way is settled, or this way is on the new stack
  have hcovers : ∀ a, a.length = bits → Kept skip a → (v.1 ++ [b]) <+: a ∨
      (∃ p ∈ pending ++ f.stack.map Prod.fst, p <+: a) ∨ Settled n child f.found a := by
    intro a ha hka
    rcases h.covers a ha hka with ⟨p, hp, hpa⟩ | hset
    · rcases List.mem_cons.mp hp with rfl | hp
      · exact .inl hpa
      · exact .inr (.inl ⟨p, hp, hpa⟩)
    · exact .inr (.inr hset)
  rcases turn_cases hturn with ⟨hskip, rfl⟩ | ⟨hskip, hturned⟩
  · refine ⟨h.node, h.value, hapart.tail, fun a ha hka => ?_⟩
    refine (hcovers a ha hka).resolve_left fun hpa => ?_
    exact absurd (hka _ hpa (by simp)) (by simp [hskip])
  · have hkept' := kept_snoc hkept hskip
    rcases hturned with ⟨hrec, hshort, rfl⟩ | ⟨hrec, rfl⟩ | ⟨hrec, rfl⟩
    · refine ⟨?_, h.value, ?_, fun a ha hka => ?_⟩
      · intro w hw
        rcases List.mem_cons.mp hw with rfl | hw
        · exact ⟨⟨hwalk, .inl hrec⟩, by simpa using hshort, hkept'⟩
        · exact h.node w hw
      · exact (pairwise_apart_perm List.perm_middle).mpr hapart
      · rcases hcovers a ha hka with hpa | ⟨p, hp, hpa⟩ | hset
        · exact .inl ⟨_, by simp, hpa⟩
        · refine .inl ⟨p, ?_, hpa⟩
          rcases List.mem_append.mp hp with hp | hp
          · exact List.mem_append_left _ hp
          · exact List.mem_append_right _ (List.mem_cons_of_mem _ hp)
        · exact .inr hset
    · refine ⟨h.node, ?_, ?_, fun a ha hka => ?_⟩
      · intro w hw
        rcases List.mem_append.mp hw with hw | hw
        · exact h.value w hw
        · rw [List.mem_singleton.mp hw]
          exact ⟨hwalk, hrec, by rw [List.length_append]; exact hlen, hkept'⟩
      · refine (pairwise_apart_perm ?_).mpr hapart
        simp only [List.map_append, List.map_singleton, ← List.append_assoc]
        exact List.perm_append_singleton _ _
      · rcases hcovers a ha hka with hpa | hp | hset
        · have ha := walk_of_leading n child hpa (hwalk ▸ hrec.le)
          rw [hwalk] at ha
          exact .inr ⟨ha ▸ hrec.le, fun _ => ⟨_, hpa, by simp [ha]⟩⟩
        · exact .inl hp
        · exact .inr (hset.mono (List.subset_append_left _ _))
    · refine ⟨h.node, h.value, hapart.tail, fun a ha hka => ?_⟩
      rcases hcovers a ha hka with hpa | hp | hset
      · have ha := walk_of_leading n child hpa (hwalk ▸ hrec.ge)
        rw [hwalk, hrec] at ha
        exact .inr ⟨ha.ge, fun hlt => absurd hlt (by omega)⟩
      · exact .inl hp
      · exact .inr hset

/-- Under a table whose walks end within the address, a turn goes on. -/
theorem turn_isOk (hends : ∀ a, a.length = bits → Kept skip a → n ≤ walk n child 0 a) :
    ∃ f', turn n child skip bits v f b = .ok f' := by
  cases hskip : skip (v.1 ++ [b]) with
  | true => exact ⟨f, by simp [turn, hskip]⟩
  | false =>
    by_cases hrec : child v.2 b < n
    · have hshort : ¬ bits ≤ v.1.length + 1 := fun hdeep => by
        have hfull : (v.1 ++ [b]).length = bits := by
          rw [List.length_append]
          exact le_antisymm hlen hdeep
        have hend := hends _ hfull (kept_snoc hkept hskip)
        rw [walk_snoc hroot hnode b] at hend
        exact absurd hrec (not_lt.mpr hend)
      exact ⟨_, by simp [turn, hskip, hrec, hshort]; rfl⟩
    · by_cases hval : n < child v.2 b
      · exact ⟨_, by simp [turn, hskip, hrec, hval]; rfl⟩
      · exact ⟨f, by simp [turn, hskip, hrec, hval]⟩

end Turn

section Visit

variable (hroot : n = 0 → ∀ b, child 0 b = 0) {v : List Bool × Nat}
  {stack found : List (List Bool × Nat)} {f' : Frontier}

theorem reached_pop (h : Reached n child skip bits [] ⟨v :: stack, found⟩) :
    Reached n child skip bits [v.1 ++ [false], v.1 ++ [true]] ⟨stack, found⟩ where
  node := fun w hw => h.node w (List.mem_cons_of_mem _ hw)
  value := h.value
  apart := by
    obtain ⟨hv, hrest⟩ := List.pairwise_cons.mp h.apart
    refine List.pairwise_cons.mpr ⟨fun p hp => ?_, List.pairwise_cons.mpr ⟨fun p hp => ?_, hrest⟩⟩
    · rcases List.mem_cons.mp hp with rfl | hp
      · exact apart_children v.1
      · exact (hv p hp).snoc false
    · exact (hv p hp).snoc true
  covers := by
    intro a ha hka
    rcases h.covers a ha hka with ⟨p, hp, hpa⟩ | hset
    · rcases List.mem_cons.mp hp with rfl | hp
      · obtain ⟨rest, rfl⟩ := hpa
        have hlen := (h.node v List.mem_cons_self).2.1
        cases rest with
        | nil => simp at ha; omega
        | cons b rest =>
          refine .inl ⟨v.1 ++ [b], ?_, ⟨rest, by simp⟩⟩
          cases b <;> simp
      · exact .inl ⟨p, List.mem_append_right _ hp, hpa⟩
    · exact .inr hset

include hroot

theorem reached_visit (h : Reached n child skip bits [] ⟨v :: stack, found⟩)
    (hvisit : visit n child skip bits v ⟨stack, found⟩ = .ok f') :
    Reached n child skip bits [] f' := by
  obtain ⟨hnode, hlen, hkept⟩ := h.node v List.mem_cons_self
  unfold visit at hvisit
  cases hleft : turn n child skip bits v ⟨stack, found⟩ false with
  | error e => simp [hleft, Except.bind] at hvisit
  | ok f =>
    rw [hleft] at hvisit
    have hmid := reached_turn hroot hnode hlen hkept (reached_pop h) hleft
    exact reached_turn hroot hnode hlen hkept hmid hvisit

theorem reached_traverse {f : Frontier} (h : Reached n child skip bits [] f)
    {done : List (List Bool × Nat)} (hrun : traverse n child skip bits left f = .ok done) :
    Reached n child skip bits [] ⟨[], done⟩ := by
  induction left generalizing f with
  | zero =>
    obtain ⟨stack, found⟩ := f
    cases stack with
    | nil =>
      cases hrun
      exact h
    | cons v stack => cases hrun
  | succ left ih =>
    obtain ⟨stack, found⟩ := f
    cases stack with
    | nil =>
      cases hrun
      exact h
    | cons v stack =>
      rw [traverse] at hrun
      cases hvisit : visit n child skip bits v ⟨stack, found⟩ with
      | error e => simp [hvisit, Except.bind] at hrun
      | ok f' =>
        rw [hvisit] at hrun
        exact ih (reached_visit hroot h hvisit) hrun

end Visit

/-- The root on the stack, and nothing found. -/
def Frontier.start : Frontier := ⟨[([], 0)], []⟩

theorem reached_start (hbits : 0 < bits) : Reached n child skip bits [] .start where
  node := by
    intro v hv
    rw [List.mem_singleton.mp hv]
    refine ⟨⟨rfl, ?_⟩, hbits, fun p hp hne => absurd (List.prefix_nil.mp hp) hne⟩
    rcases Nat.eq_zero_or_pos n with hn | hn
    · exact .inr ⟨hn, rfl⟩
    · exact .inl hn
  value := fun v hv => absurd hv List.not_mem_nil
  apart := List.pairwise_singleton _ _
  covers := fun a _ _ => .inl ⟨[], List.mem_singleton.mpr rfl, List.nil_prefix⟩

/-- What a traversal that ends has found. -/
structure Found (n : Nat) (child : Nat → Bool → Nat) (skip : List Bool → Bool) (bits : Nat)
    (found : List (List Bool × Nat)) : Prop where
  value : ∀ v ∈ found, walk n child 0 v.1 = v.2 ∧ n < v.2 ∧ v.1.length ≤ bits ∧ Kept skip v.1
  apart : (found.map Prod.fst).Pairwise Apart
  settled : ∀ a, a.length = bits → Kept skip a → Settled n child found a

theorem traverse_ok (hroot : n = 0 → ∀ b, child 0 b = 0) (hbits : 0 < bits)
    {found : List (List Bool × Nat)} (h : traverse n child skip bits left .start = .ok found) :
    Found n child skip bits found := by
  have hreached := reached_traverse hroot (reached_start hbits) h
  refine ⟨hreached.value, hreached.apart, fun a ha hka => ?_⟩
  exact (hreached.covers a ha hka).resolve_left fun ⟨p, hp, _⟩ => absurd hp List.not_mem_nil

/-! ## On a tree -/

/-- No two paths that are kept lead to one node. -/
def IsTree (n : Nat) (child : Nat → Bool → Nat) (skip : List Bool → Bool) (bits : Nat) : Prop :=
  ∀ p q, Kept skip p → Kept skip q → p.length < bits → q.length < bits →
    walk n child 0 p = walk n child 0 q → walk n child 0 p < n → p = q

/-- The paths visited so far: none twice, and none to be visited again. -/
structure Seen (n : Nat) (child : Nat → Bool → Nat) (skip : List Bool → Bool) (bits : Nat)
    (seen : List (List Bool)) (f : Frontier) : Prop where
  nodup : seen.Nodup
  node : ∀ p ∈ seen, NodeAt n child p (walk n child 0 p) ∧ p.length < bits ∧ Kept skip p
  ahead : ∀ p ∈ seen, ∀ v ∈ f.stack, ¬ v.1 <+: p

/-- A tree has no more nodes to visit than the table has. -/
theorem Seen.length_le {f : Frontier}
    (h : Seen n child skip bits seen f) (htree : IsTree n child skip bits) :
    seen.length ≤ max n 1 := by
  have hinj : ∀ p ∈ seen, ∀ q ∈ seen, walk n child 0 p = walk n child 0 q → p = q := by
    intro p hp q hq heq
    obtain ⟨⟨-, hpn⟩, hplen, hpk⟩ := h.node p hp
    obtain ⟨⟨-, hqn⟩, hqlen, hqk⟩ := h.node q hq
    rcases hpn with hlt | ⟨hn, rfl⟩
    · exact htree p q hpk hqk hplen hqlen heq hlt
    · rcases hqn with hlt | ⟨-, rfl⟩
      · omega
      · rfl
  have hnodup : (seen.map (walk n child 0)).Nodup := h.nodup.map_on hinj
  have hsub : seen.map (walk n child 0) ⊆ List.range (max n 1) := by
    intro node hmem
    obtain ⟨p, hp, rfl⟩ := List.mem_map.mp hmem
    rcases (h.node p hp).1.2 with hlt | ⟨hn, rfl⟩
    · exact List.mem_range.mpr (lt_max_of_lt_left hlt)
    · exact List.mem_range.mpr (by simp [walk])
  simpa using (List.subperm_of_subset hnodup hsub).length_le

theorem turn_stack {v : List Bool × Nat} {b : Bool} {f f' : Frontier}
    (h : turn n child skip bits v f b = .ok f') {w : List Bool × Nat} (hw : w ∈ f'.stack) :
    w ∈ f.stack ∨ w.1 = v.1 ++ [b] := by
  rcases turn_cases h with ⟨-, rfl⟩ | ⟨-, ⟨-, -, rfl⟩ | ⟨-, rfl⟩ | ⟨-, rfl⟩⟩
  · exact .inl hw
  · rcases List.mem_cons.mp hw with rfl | hw
    · exact .inr rfl
    · exact .inl hw
  · exact .inl hw
  · exact .inl hw

theorem visit_stack {v : List Bool × Nat} {f f' : Frontier}
    (h : visit n child skip bits v f = .ok f') {w : List Bool × Nat} (hw : w ∈ f'.stack) :
    w ∈ f.stack ∨ ∃ b, w.1 = v.1 ++ [b] := by
  unfold visit at h
  cases hleft : turn n child skip bits v f false with
  | error e => simp [hleft, Except.bind] at h
  | ok mid =>
    rw [hleft] at h
    rcases turn_stack h hw with hmid | hb
    · exact (turn_stack hleft hmid).imp_right fun hb => ⟨false, hb⟩
    · exact .inr ⟨true, hb⟩

theorem turn_found {v : List Bool × Nat} {b : Bool} {f f' : Frontier}
    (h : turn n child skip bits v f b = .ok f') : f.found ⊆ f'.found := by
  rcases turn_cases h with ⟨-, rfl⟩ | ⟨-, ⟨-, -, rfl⟩ | ⟨-, rfl⟩ | ⟨-, rfl⟩⟩
  · exact List.Subset.refl _
  · exact List.Subset.refl _
  · exact List.subset_append_left _ _
  · exact List.Subset.refl _

theorem visit_found {v : List Bool × Nat} {f f' : Frontier}
    (h : visit n child skip bits v f = .ok f') : f.found ⊆ f'.found := by
  unfold visit at h
  cases hleft : turn n child skip bits v f false with
  | error e => simp [hleft, Except.bind] at h
  | ok mid =>
    rw [hleft] at h
    exact List.Subset.trans (turn_found hleft) (turn_found h)

theorem traverse_found {f : Frontier} {found : List (List Bool × Nat)}
    (h : traverse n child skip bits left f = .ok found) : f.found ⊆ found := by
  induction left generalizing f with
  | zero =>
    obtain ⟨stack, found'⟩ := f
    cases stack with
    | nil =>
      cases h
      exact List.Subset.refl _
    | cons v stack => cases h
  | succ left ih =>
    obtain ⟨stack, found'⟩ := f
    cases stack with
    | nil =>
      cases h
      exact List.Subset.refl _
    | cons v stack =>
      rw [traverse] at h
      cases hvisit : visit n child skip bits v ⟨stack, found'⟩ with
      | error e => simp [hvisit, Except.bind] at h
      | ok f' =>
        rw [hvisit] at h
        have hsub : found' ⊆ f'.found := visit_found hvisit
        exact List.Subset.trans hsub (ih h)

theorem seen_pop {v : List Bool × Nat} {stack found : List (List Bool × Nat)}
    (h : Reached n child skip bits [] ⟨v :: stack, found⟩)
    (hseen : Seen n child skip bits seen ⟨v :: stack, found⟩) :
    Seen n child skip bits (v.1 :: seen) ⟨stack, found⟩ where
  nodup := List.nodup_cons.mpr
    ⟨fun hv => hseen.ahead v.1 hv v List.mem_cons_self (List.prefix_refl _), hseen.nodup⟩
  node := by
    intro p hp
    rcases List.mem_cons.mp hp with rfl | hp
    · obtain ⟨hnode, hlen, hkept⟩ := h.node v List.mem_cons_self
      exact ⟨by rw [hnode.1]; exact hnode, hlen, hkept⟩
    · exact hseen.node p hp
  ahead := by
    intro p hp w hw
    rcases List.mem_cons.mp hp with rfl | hp
    · have hapart := (List.pairwise_cons.mp h.apart).1 w.1
        (List.mem_append_left _ (List.mem_map_of_mem hw))
      exact hapart.2
    · exact hseen.ahead p hp w (List.mem_cons_of_mem _ hw)

theorem seen_visit {v : List Bool × Nat} {stack found : List (List Bool × Nat)}
    {f' : Frontier} (h : Reached n child skip bits [] ⟨v :: stack, found⟩)
    (hseen : Seen n child skip bits seen ⟨v :: stack, found⟩)
    (hvisit : visit n child skip bits v ⟨stack, found⟩ = .ok f') :
    Seen n child skip bits (v.1 :: seen) f' := by
  have hpop := seen_pop h hseen
  refine ⟨hpop.nodup, hpop.node, fun p hp w hw hwp => ?_⟩
  rcases visit_stack hvisit hw with hw | ⟨b, hb⟩
  · exact hpop.ahead p hp w hw hwp
  · have hvp : v.1 ++ [b] <+: p := hb ▸ hwp
    rcases List.mem_cons.mp hp with rfl | hp
    · exact absurd hvp.length_le (by simp)
    · exact hseen.ahead p hp v List.mem_cons_self ((List.prefix_append _ _).trans hvp)

section Ends

variable (hroot : n = 0 → ∀ b, child 0 b = 0)
  (hends : ∀ a, a.length = bits → Kept skip a → n ≤ walk n child 0 a)
  (htree : IsTree n child skip bits)

include hroot hends

theorem visit_isOk {v : List Bool × Nat} {stack found : List (List Bool × Nat)}
    (h : Reached n child skip bits [] ⟨v :: stack, found⟩) :
    ∃ f', visit n child skip bits v ⟨stack, found⟩ = .ok f' := by
  obtain ⟨hnode, hlen, hkept⟩ := h.node v List.mem_cons_self
  obtain ⟨mid, hmid⟩ :=
    turn_isOk hroot (b := false) hnode hlen hkept (f := ⟨stack, found⟩) hends
  obtain ⟨f', hf'⟩ := turn_isOk hroot (b := true) hnode hlen hkept (f := mid) hends
  exact ⟨f', by rw [visit, hmid]; exact hf'⟩

include htree

theorem traverse_isOk_of_seen {f : Frontier}
    (h : Reached n child skip bits [] f) (hseen : Seen n child skip bits seen f)
    (hleft : max n 1 ≤ left + seen.length) :
    ∃ found, traverse n child skip bits left f = .ok found := by
  induction left generalizing f seen with
  | zero =>
    obtain ⟨stack, found⟩ := f
    cases stack with
    | nil => exact ⟨found, rfl⟩
    | cons v stack =>
      have hle := (seen_pop h hseen).length_le htree
      rw [List.length_cons] at hle
      omega
  | succ left ih =>
    obtain ⟨stack, found⟩ := f
    cases stack with
    | nil => exact ⟨found, rfl⟩
    | cons v stack =>
      obtain ⟨f', hf'⟩ := visit_isOk hroot hends h
      rw [traverse, hf']
      refine ih (reached_visit hroot h hf') (seen_visit h hseen hf') ?_
      rw [List.length_cons]
      omega

theorem traverse_isOk (hbits : 0 < bits) (hleft : max n 1 ≤ left) :
    ∃ found, traverse n child skip bits left .start = .ok found :=
  traverse_isOk_of_seen hroot hends htree (reached_start hbits)
    ⟨List.nodup_nil, fun _ hp => absurd hp List.not_mem_nil, fun _ hp => absurd hp List.not_mem_nil⟩
    (by simpa using hleft)

end Ends

end Reached

end BitTrie
