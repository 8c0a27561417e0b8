import Iceslab.DirectionMerge

/-!
# Who gets a stored direction two incoming ones could be

`matchStoredDirections` of `direction-merge.ts` is one pass from the top.  A direction that names a
stored id takes that row if it is still there; a direction that names none takes the first row left
that has its pool or its outbound, whether or not a direction further down names it.

* `fits` — a row has the pool or stands on the outbound of a direction.
* `Undisturbed` — every direction without an id that fits a row named further down also fits a row
  before it which nobody names and the directions above have left.
* `matchFrom_named_iff` — over what is left of the rows, one turn at a time.
* `named_rows_iff` — the directions that name a row get it exactly where they are undisturbed.
-/

set_option autoImplicit false

namespace Iceslab

section Claims

variable {S : Type} (view : S → StoredDirection)

/-- The pool or the outbound of a direction is the row's. -/
def fits (d : IncomingDirection) (s : S) : Bool :=
  let want := d.nodeIds.getD []
  if want = [] then
    match truthy d.outboundId.toOption with
    | none => false
    | some o => decide ((view s).nodes.length = 0) && decide ((view s).outboundId = some o)
  else
    decide ((view s).nodes.length = want.eraseDups.length)
      && (view s).nodes.all (fun n => decide (n ∈ want))

variable (stored : List S)

/-- The stored ids the directions name. -/
def namedIds (ds : List IncomingDirection) : List String :=
  ds.filterMap fun d => (byId view stored d.id).map fun s => (view s).id

/-- The directions that name a row have it, and no row goes to two. -/
def NamesKept (incoming : List IncomingDirection) (rows : List (Option S)) : Prop :=
  (∀ e ∈ incoming.zip rows, ∀ s, byId view stored e.1.id = some s → e.2 = some s)
    ∧ (rows.filterMap fun o => o.map fun s => (view s).id).Nodup

/-- What the directions that name no row leave of `free`: the first that fits goes to each. -/
def leftBy (free : List S) (ds : List IncomingDirection) : List S :=
  (ds.filter fun d => (byId view stored d.id).isNone).foldl
    (fun free d => free.eraseP (fits view d)) free

/-- The one row stands before the other. -/
def Precedes (s s' : S) : Prop := ∃ as bs, stored = as ++ s' :: bs ∧ s ∈ as

/-- A direction without an id that fits a row named further down fits, before it, a row of `free`
which the directions above have left. -/
def UndisturbedFrom (free : List S) (ds : List IncomingDirection) : Prop :=
  ∀ above d below, ds = above ++ d :: below → byId view stored d.id = none →
    ∀ s ∈ stored, (view s).id ∈ namedIds view stored below → fits view d s = true →
      ∃ s' ∈ leftBy view stored free above, fits view d s' = true ∧ Precedes stored s' s

/-- At the start the rows nobody names are free. -/
def Undisturbed (incoming : List IncomingDirection) : Prop :=
  UndisturbedFrom view stored
    (stored.filter fun s => decide ((view s).id ∉ namedIds view stored incoming)) incoming

/-! ## One turn -/

variable {view stored} {unclaimed : List String} {free : List S} {d : IncomingDirection} {s : S}
  {ds : List IncomingDirection} {s' : S}

theorem candidate_nameless (hd : byId view stored d.id = none) :
    candidate view stored unclaimed d
      = stored.find? fun s => decide ((view s).id ∈ unclaimed) && fits view d s := by
  unfold candidate byPool byOutbound fits
  rw [hd, Option.none_or]
  by_cases hwant : d.nodeIds.getD [] = []
  · rw [if_pos hwant, Option.none_or]
    cases ho : truthy d.outboundId.toOption with
    | none => simp [hwant, List.find?_eq_none.mpr]
    | some o => simp [hwant, Bool.and_assoc]
  · simp only [hwant, if_false]
    cases ho : truthy d.outboundId.toOption with
    | none => simp [Bool.and_assoc]
    | some o => simp [Bool.and_assoc]

/-- A direction without an id takes the first row left that fits. -/
theorem claim_nameless (hd : byId view stored d.id = none) :
    claim view stored unclaimed d
      = stored.find? fun s => decide ((view s).id ∈ unclaimed) && fits view d s := by
  unfold claim
  rw [candidate_nameless hd]
  split
  · rename_i s hs
    have hfree := List.find?_some hs
    simp only [Bool.and_eq_true, decide_eq_true_eq] at hfree
    rw [if_pos hfree.1, hs]
  · rename_i hs
    exact hs.symm

/-- A direction that names a row takes it, if it is left. -/
theorem claim_named (hd : byId view stored d.id = some s) :
    claim view stored unclaimed d = if (view s).id ∈ unclaimed then some s else none := by
  simp [claim, candidate, hd]

theorem row_unique (hids : (stored.map fun s => (view s).id).Nodup) (hs : s ∈ stored)
    (hs' : s' ∈ stored) (h : (view s).id = (view s').id) : s = s' :=
  List.inj_on_of_nodup_map hids hs hs' h

theorem mem_namedIds {i : String} :
    i ∈ namedIds view stored ds ↔ ∃ d ∈ ds, ∃ s, byId view stored d.id = some s ∧ (view s).id = i := by
  simp [namedIds, List.mem_filterMap]

/-- What the pass finds first stands before anything else that is left and fits. -/
theorem precedes_of_find {p : S → Bool} (h : stored.find? p = some s) (hs' : s' ∈ stored)
    (hp : p s' = true) (hne : s' ≠ s) : Precedes stored s s' := by
  obtain ⟨-, as, bs, rfl, hbefore⟩ := List.find?_eq_some_iff_append.mp h
  rcases List.mem_append.mp hs' with hmem | hmem
  · have := hbefore s' hmem
    simp [hp] at this
  · obtain ⟨bs₁, bs₂, rfl⟩ := List.append_of_mem ((List.mem_cons.mp hmem).resolve_left hne)
    exact ⟨as ++ s :: bs₁, bs₂, by simp, by simp⟩

theorem not_precedes_of_find (hnodup : stored.Nodup) {p : S → Bool} (h : stored.find? p = some s)
    (hp : p s' = true) : ¬ Precedes stored s' s := by
  rintro ⟨as, bs, rfl, hmem⟩
  have hnot : s ∉ as := by
    have := (List.nodup_append'.mp hnodup).2.2
    exact fun hs => this hs List.mem_cons_self
  obtain ⟨t, ht⟩ : ∃ t, as.find? p = some t :=
    Option.isSome_iff_exists.mp (List.find?_isSome.mpr ⟨s', hmem, hp⟩)
  rw [List.find?_append, ht, Option.some_or] at h
  obtain rfl := Option.some.inj h
  exact hnot (List.mem_of_find?_eq_some ht)

/-- What is found first is what is taken out of the free rows, where it is one of them. -/
theorem eraseP_of_find (hnodup : stored.Nodup) (hsub : free.Sublist stored)
    (hfree : ∀ s ∈ free, (view s).id ∈ unclaimed)
    (h : (stored.find? fun s => decide ((view s).id ∈ unclaimed) && fits view d s) = some s)
    (hs : s ∈ free) : ∃ as bs, free = as ++ s :: bs ∧ free.eraseP (fits view d) = as ++ bs := by
  obtain ⟨hp, as, bs, hstored, hbefore⟩ := List.find?_eq_some_iff_append.mp h
  subst hstored
  obtain ⟨f₁, f₂, rfl, h₁, h₂⟩ := List.sublist_append_iff.mp hsub
  have hdis := (List.nodup_append'.mp hnodup).2.2
  have hbs : s ∉ bs := (List.nodup_cons.mp (List.nodup_append'.mp hnodup).2.1).1
  have hmiss : ∀ t ∈ f₁, ¬ fits view d t = true := by
    intro t ht hfit
    have := hbefore t (h₁.subset ht)
    simp [hfit, hfree t (List.mem_append_left _ ht)] at this
  have hs₂ : s ∈ f₂ := (List.mem_append.mp hs).resolve_left
    fun hs₁ => hdis (h₁.subset hs₁) List.mem_cons_self
  cases h₂ with
  | cons _ h₂ => exact absurd (h₂.subset hs₂) hbs
  | cons_cons _ h₂ =>
    rename_i f₃
    simp only [Bool.and_eq_true] at hp
    refine ⟨f₁, f₃, rfl, ?_⟩
    rw [List.eraseP_append_right _ hmiss, List.eraseP_cons_of_pos hp.2]

/-! ## The whole pass -/

theorem exists_mem_zip {α β : Type} {a : α} {l : List α} {r : List β} (ha : a ∈ l)
    (h : l.length ≤ r.length) : ∃ b, (a, b) ∈ l.zip r := by
  rw [← List.map_fst_zip h] at ha
  obtain ⟨e, he, rfl⟩ := List.mem_map.mp ha
  exact ⟨e.2, he⟩

theorem leftBy_cons : leftBy view stored free (d :: ds)
    = leftBy view stored (leftBy view stored free [d]) ds := by
  unfold leftBy
  cases hd : byId view stored d.id <;> simp [hd]

theorem undisturbedFrom_cons : UndisturbedFrom view stored free (d :: ds) ↔
    (byId view stored d.id = none → ∀ s ∈ stored, (view s).id ∈ namedIds view stored ds →
      fits view d s = true → ∃ s' ∈ free, fits view d s' = true ∧ Precedes stored s' s)
      ∧ UndisturbedFrom view stored (leftBy view stored free [d]) ds := by
  constructor
  · intro h
    refine ⟨h [] d ds rfl, fun above e below heq he s hs hnamed hfit => ?_⟩
    rw [← leftBy_cons]
    exact h (d :: above) e below (by rw [heq]; rfl) he s hs hnamed hfit
  · rintro ⟨hhead, htail⟩ above e below heq he s hs hnamed hfit
    cases above with
    | nil =>
      obtain ⟨rfl, rfl⟩ := List.cons.inj heq
      exact hhead he s hs hnamed hfit
    | cons a above =>
      obtain ⟨rfl, rfl⟩ := List.cons.inj heq
      rw [leftBy_cons]
      exact htail above e below rfl he s hs hnamed hfit

/-- While the directions above got what they name, what is left is what nobody names and nobody has
taken, and what the directions below name. -/
structure Sharing (view : S → StoredDirection) (stored : List S) (unclaimed : List String)
    (free : List S) (ds : List IncomingDirection) : Prop where
  left : ∀ s ∈ stored, (view s).id ∈ unclaimed ↔ s ∈ free ∨ (view s).id ∈ namedIds view stored ds
  sub : free.Sublist stored
  apart : ∀ s ∈ free, (view s).id ∉ namedIds view stored ds

theorem namedIds_cons_of_none (hd : byId view stored d.id = none) :
    namedIds view stored (d :: ds) = namedIds view stored ds := by
  simp [namedIds, hd]

theorem namedIds_cons_of_some (hd : byId view stored d.id = some s) :
    namedIds view stored (d :: ds) = (view s).id :: namedIds view stored ds := by
  simp [namedIds, hd]

theorem Sharing.named (h : Sharing view stored unclaimed free (d :: ds))
    (honce : (namedIds view stored (d :: ds)).Nodup) (hd : byId view stored d.id = some s) :
    Sharing view stored (unclaimed.filter fun i => decide (i ≠ (view s).id)) free ds := by
  rw [namedIds_cons_of_some hd, List.nodup_cons] at honce
  refine ⟨fun t ht => ?_, h.sub, fun t ht hnamed => h.apart t ht ?_⟩
  · rw [List.mem_filter, decide_eq_true_eq, h.left t ht, namedIds_cons_of_some hd]
    by_cases heq : (view t).id = (view s).id
    · have hfree : t ∉ free := by
        intro hfree
        refine h.apart t hfree ?_
        rw [namedIds_cons_of_some hd, heq]
        exact List.mem_cons_self
      simp only [heq, ne_eq, not_true_eq_false, and_false, false_iff, not_or]
      exact ⟨hfree, honce.1⟩
    · simp [heq]
  · rw [namedIds_cons_of_some hd]
    exact List.mem_cons_of_mem _ hnamed

theorem Sharing.passed (h : Sharing view stored unclaimed free (d :: ds))
    (hd : byId view stored d.id = none)
    (hnone : (stored.find? fun s => decide ((view s).id ∈ unclaimed) && fits view d s) = none) :
    Sharing view stored unclaimed (leftBy view stored free [d]) ds := by
  have hmiss : ∀ s ∈ free, ¬ fits view d s = true := by
    intro s hs hfit
    have hst := h.sub.subset hs
    have := List.find?_eq_none.mp hnone s hst
    simp [hfit, (h.left s hst).mpr (.inl hs)] at this
  have hfree : leftBy view stored free [d] = free := by
    simp [leftBy, hd, List.eraseP_of_forall_not hmiss]
  rw [hfree]
  refine ⟨fun s hs => ?_, h.sub, fun s hs => ?_⟩
  · rw [← namedIds_cons_of_none hd]
    exact h.left s hs
  · rw [← namedIds_cons_of_none hd]
    exact h.apart s hs

theorem Sharing.taken (h : Sharing view stored unclaimed free (d :: ds))
    (hids : (stored.map fun s => (view s).id).Nodup) (hd : byId view stored d.id = none)
    (hfind : (stored.find? fun s => decide ((view s).id ∈ unclaimed) && fits view d s) = some s)
    (hs : s ∈ free) :
    Sharing view stored (unclaimed.filter fun i => decide (i ≠ (view s).id))
      (leftBy view stored free [d]) ds := by
  have hnodup : stored.Nodup := List.Nodup.of_map _ hids
  have hst : s ∈ stored := List.mem_of_find?_eq_some hfind
  obtain ⟨as, bs, hsplit, herase⟩ := eraseP_of_find hnodup h.sub
    (fun t ht => (h.left t (h.sub.subset ht)).mpr (.inl ht)) hfind hs
  have hfree : leftBy view stored free [d] = as ++ bs := by simp [leftBy, hd, herase]
  have hsub : (as ++ bs).Sublist free := by
    rw [hsplit]
    exact (List.Sublist.refl as).append (List.sublist_cons_self s bs)
  have hmem : ∀ t, t ∈ as ++ bs ↔ t ∈ free ∧ t ≠ s := by
    have hnot : s ∉ as ++ bs := by
      have hfn := hnodup.sublist h.sub
      rw [hsplit] at hfn
      exact (List.nodup_middle.mp hfn |> List.nodup_cons.mp).1
    intro t
    rw [hsplit, List.mem_append, List.mem_append, List.mem_cons]
    constructor
    · intro ht
      refine ⟨ht.imp_right .inr, ?_⟩
      rintro rfl
      exact hnot (List.mem_append.mpr ht)
    · rintro ⟨ht, hne⟩
      exact ht.imp_right fun ht => ht.resolve_left hne
  rw [hfree]
  refine ⟨fun t ht => ?_, hsub.trans h.sub, fun t ht => ?_⟩
  · rw [List.mem_filter, decide_eq_true_eq, h.left t ht, hmem, namedIds_cons_of_none hd]
    by_cases heq : t = s
    · subst heq
      have hnamed := h.apart t hs
      rw [namedIds_cons_of_none hd] at hnamed
      simp [hnamed]
    · have hne : (view t).id ≠ (view s).id := fun hid => heq (row_unique hids ht hst hid)
      simp [heq, hne]
  · rw [← namedIds_cons_of_none hd]
    exact h.apart t ((hmem t).mp ht).1

/-- A row that is named and gone is not given to the direction that names it. -/
theorem not_kept_of_gone (hids : (stored.map fun s => (view s).id).Nodup) (hs : s ∈ stored)
    (hnamed : (view s).id ∈ namedIds view stored ds) (hgone : (view s).id ∉ unclaimed) :
    ¬ ∀ e ∈ ds.zip (matchFrom view stored unclaimed ds), ∀ t,
      byId view stored e.1.id = some t → e.2 = some t := by
  intro hkept
  obtain ⟨e, he, t, ht, hid⟩ := mem_namedIds.mp hnamed
  obtain rfl := row_unique hids (byId_eq_some ht).1 hs hid
  have hlen : (matchFrom view stored unclaimed ds).length = ds.length :=
    length_matchFrom stored unclaimed ds
  obtain ⟨o, ho⟩ := exists_mem_zip he (Nat.le_of_eq hlen.symm)
  have hgot : o = some t := hkept _ ho t ht
  have hmem := (List.of_mem_zip ho).2
  rw [hgot] at hmem
  exact hgone (mem_matchFrom hmem).2

/-- **One turn at a time.** -/
theorem matchFrom_named_iff (hids : (stored.map fun s => (view s).id).Nodup)
    (honce : (namedIds view stored ds).Nodup) (h : Sharing view stored unclaimed free ds) :
    (∀ e ∈ ds.zip (matchFrom view stored unclaimed ds), ∀ s,
      byId view stored e.1.id = some s → e.2 = some s)
        ↔ UndisturbedFrom view stored free ds := by
  induction ds generalizing unclaimed free with
  | nil =>
    refine ⟨fun _ above e below heq => ?_, fun _ e he => absurd he (by simp [matchFrom])⟩
    simp at heq
  | cons d ds ih =>
    rw [undisturbedFrom_cons]
    have hrest : (namedIds view stored ds).Nodup := by
      refine honce.sublist ?_
      unfold namedIds
      exact (List.sublist_cons_self d ds).filterMap _
    cases hd : byId view stored d.id with
    | some s =>
      have hin : (view s).id ∈ unclaimed := by
        refine (h.left s (byId_eq_some hd).1).mpr (.inr ?_)
        rw [namedIds_cons_of_some hd]
        exact List.mem_cons_self
      have hfree : leftBy view stored free [d] = free := by simp [leftBy, hd]
      simp only [matchFrom, claim_named hd, if_pos hin, List.zip_cons_cons, List.forall_mem_cons,
        hfree, reduceCtorEq, false_implies, true_and]
      rw [ih hrest (h.named honce hd)]
      refine and_iff_right fun t ht => ?_
      rw [← ht, hd]
    | none =>
      simp only [matchFrom, claim_nameless hd, forall_const]
      cases hfind : stored.find? fun s => decide ((view s).id ∈ unclaimed) && fits view d s with
      | none =>
        simp only [List.zip_cons_cons, List.forall_mem_cons, hd, reduceCtorEq, false_implies,
          implies_true, true_and]
        rw [ih hrest (h.passed hd hfind), iff_and_self]
        intro _ s hs hnamed hfit
        have := List.find?_eq_none.mp hfind s hs
        have hleft := (h.left s hs).mpr (.inr (by rwa [namedIds_cons_of_none hd]))
        simp [hfit, hleft] at this
      | some s =>
        simp only [List.zip_cons_cons, List.forall_mem_cons, hd, reduceCtorEq, false_implies,
          implies_true, true_and]
        have hp := List.find?_some hfind
        have hst := List.mem_of_find?_eq_some hfind
        simp only [Bool.and_eq_true, decide_eq_true_eq] at hp
        by_cases hnamed : (view s).id ∈ namedIds view stored ds
        · -- the row is named further down, and is gone when its turn comes
          refine iff_of_false (fun hkept => ?_) fun hun => ?_
          · exact not_kept_of_gone hids hst hnamed (by simp) hkept
          · obtain ⟨s', hs', hfit, hbefore⟩ := hun.1 s hst hnamed hp.2
            refine not_precedes_of_find (List.Nodup.of_map _ hids) hfind ?_ hbefore
            simp [hfit, (h.left s' (h.sub.subset hs')).mpr (.inl hs')]
        · have hfree : s ∈ free := by
            refine ((h.left s hst).mp hp.1).resolve_right ?_
            rwa [namedIds_cons_of_none hd]
          rw [ih hrest (h.taken hids hd hfind hfree), iff_and_self]
          intro _ t ht htnamed hfit
          refine ⟨s, hfree, hp.2, precedes_of_find hfind ht ?_ ?_⟩
          · simp [hfit, (h.left t ht).mpr (.inr (by rwa [namedIds_cons_of_none hd]))]
          · rintro rfl
            exact hnamed htnamed

/-- **A direction that names a row is that row** exactly where no direction without an id comes to
it first; no row goes to two directions in any case. -/
theorem named_rows_iff {incoming : List IncomingDirection}
    (hids : (stored.map fun s => (view s).id).Nodup)
    (honce : (namedIds view stored incoming).Nodup) :
    NamesKept view stored incoming (matchStoredDirections view stored incoming)
      ↔ Undisturbed view stored incoming := by
  have hstart : Sharing view stored (stored.map fun s => (view s).id)
      (stored.filter fun s => decide ((view s).id ∉ namedIds view stored incoming)) incoming := by
    refine ⟨fun s hs => ?_, List.filter_sublist, fun s hs => ?_⟩
    · refine iff_of_true (List.mem_map_of_mem (f := fun s => (view s).id) hs) ?_
      by_cases hnamed : (view s).id ∈ namedIds view stored incoming
      · exact .inr hnamed
      · exact .inl (List.mem_filter.mpr ⟨hs, decide_eq_true hnamed⟩)
    · exact of_decide_eq_true (List.mem_filter.mp hs).2
  unfold NamesKept Undisturbed matchStoredDirections
  rw [and_iff_left (matchFrom_nodup stored _ incoming)]
  exact matchFrom_named_iff hids honce hstart

end Claims

/-! ## One row, and two directions it could be -/

def poolRow : StoredDirection := { id := "nl", nodes := ["exit-1"], outboundId := none }

/-- The pool of the row, without its id. -/
def poolAlone : IncomingDirection := { nodeIds := some ["exit-1"] }

/-- The row's id, with its pool moved to another node. -/
def poolMoved : IncomingDirection := { id := some "nl", nodeIds := some ["exit-2"] }

theorem named_rows_iff_namedFirst : Undisturbed id [poolRow] [poolMoved, poolAlone] := by
  refine (named_rows_iff (by decide) (by decide)).mp ⟨fun e he s hs => ?_, by decide⟩
  have hrows : [poolMoved, poolAlone].zip (matchStoredDirections id [poolRow] [poolMoved, poolAlone])
      = [(poolMoved, some poolRow), (poolAlone, none)] := by decide
  rw [hrows] at he
  simp only [List.mem_cons, List.not_mem_nil, or_false] at he
  rcases he with rfl | rfl
  · exact hs
  · cases hs

/-- The direction without an id stands first and takes the row the other one names: the named one
gets no row, and is saved under a new tag. -/
theorem named_row_taken :
    matchStoredDirections id [poolRow] [poolAlone, poolMoved] = [some poolRow, none]
      ∧ ¬ NamesKept id [poolRow] [poolAlone, poolMoved]
        (matchStoredDirections id [poolRow] [poolAlone, poolMoved]) := by
  have hrows : matchStoredDirections id [poolRow] [poolAlone, poolMoved] = [some poolRow, none] := by
    decide
  refine ⟨hrows, fun hkept => ?_⟩
  rw [hrows] at hkept
  have := hkept.1 (poolMoved, none) (by simp) poolRow rfl
  cases this

end Iceslab
