import Iceslab.Lib.OrderedMap
import Iceslab.Lib.Tickets
import Iceslab.LoginCap

/-!
# Refused sign-ins are all accounted for

Every call carries the number its increment came to, so the largest overshoot under a key is how
many calls went past its cap, and the row keeps the largest.

* `WindowInv` — the numbers of every counter are the first ones, and a row holds the largest
  overshoot that has landed.
* `accounted` — the caps are kept, every refusal is in one place, and at the end each summary is
  the count of its key.
-/

set_option autoImplicit false

namespace Iceslab.LoginCap

/-! ## One call -/

section Calls

variable (limits : LoginCapLimits) (c : Call)

/-- How far past the cap of the key a call is. -/
def Call.overUnder (key : String) : Option Nat :=
  (c.over limits).bind fun o => if o.key = key then some o.n else none

/-- The calls counted under a key. -/
def countedUnder (calls : List Call) (key : String) : Nat :=
  calls.countP fun c => decide (((c.over limits).map (·.key)) = some key)

/-- How far the counters of a key have gone past its cap. -/
def State.surplus (s : State) (key : String) : Nat :=
  if h : key ≠ "all" then s.networks ⟨key, h⟩ - limits.perNetwork else s.all - limits.all

/-- What a call has behind it fits together. -/
structure Call.Sound : Prop where
  counted : c.all ≠ none → ∃ n, c.perNetwork = some n ∧ n ≤ limits.perNetwork
  admitted : c.returned = some true →
    ∃ m, c.all = some m ∧ m ≤ limits.all ∧ ∃ n, c.perNetwork = some n ∧ n ≤ limits.perNetwork
  suppressed : c.returned = some false → c.over limits ≠ none
  running : c.returned = none → ∀ m, c.all = some m → limits.all < m

end Calls

/-! ## The invariant -/

section Invariant

variable (limits : LoginCapLimits)

/-- The numbers that the calls of a network hold. -/
def heldOf (calls : List Call) (network : Network) : List Nat :=
  (calls.filter fun c => decide (c.network = network)).filterMap (·.perNetwork)

structure WindowInv (s : State) : Prop where
  networks : ∀ network, Numbered (heldOf s.calls network) (s.networks network)
  all : Numbered (s.calls.filterMap (·.all)) s.all
  sound : ∀ c ∈ s.calls, c.Sound limits
  oneRow : (s.summaries.map (·.targetLabel)).Nodup
  landed : ∀ c ∈ s.calls, c.returned = some false → ∀ o, c.over limits = some o →
    ∃ r ∈ s.summaries, r.targetLabel = o.key ∧ o.n ≤ r.suppressed
  reached : ∀ r ∈ s.summaries, ∃ c ∈ s.calls, ∃ o, c.over limits = some o ∧
    o.key = r.targetLabel ∧ o.n = r.suppressed

/-- What the window promises. -/
structure Accounted (s : State) : Prop where
  perNetwork : ∀ network, s.calls.countP (fun c =>
    decide (c.network = network) && decide (c.returned = some true)) ≤ limits.perNetwork
  all : s.calls.countP (fun c => decide (c.returned = some true)) ≤ limits.all
  /-- admitted, or counted under one key -/
  onePlace : ∀ c ∈ s.calls, (c.returned = some true → c.over limits = none) ∧
    (c.returned = some false → ∃ o, c.over limits = some o)
  /-- every call has returned: a row for each key counted under, with its count -/
  summarised : (∀ c ∈ s.calls, c.returned ≠ none) → ∀ key,
    (s.summaries.filter fun r => decide (r.targetLabel = key)).map (·.suppressed) =
      if countedUnder limits s.calls key = 0 then [] else [countedUnder limits s.calls key]

variable {limits} {s : State}

end Invariant

/-! ## The numbers under a key -/

section Numbers

variable {limits : LoginCapLimits} {s : State} {c : Call}

/-- Under a network's key, the calls of the network past its cap. -/
theorem overUnder_network (network : Network) :
    c.overUnder limits network =
      if decide (c.network = network) = true then
        c.perNetwork.bind (Numbered.past limits.perNetwork) else none := by
  have hall : ¬ "all" = (network : String) := fun h => network.2 h.symm
  have hkey : ((c.network : String) = network) ↔ c.network = network := Subtype.ext_iff.symm
  unfold Call.overUnder Call.over
  cases hper : c.perNetwork with
  | none => simp
  | some n =>
    by_cases hn : limits.perNetwork < n
    · simp [hn, Numbered.past, hkey]
    · cases c.all with
      | none => simp [hn, Numbered.past]
      | some m =>
        by_cases hm : limits.all < m
        · simp [hn, hm, Numbered.past, hall]
        · simp [hn, hm, Numbered.past]

/-- Under `all`, the calls past the cap in all: they had passed their network's. -/
theorem overUnder_all (h : c.Sound limits) :
    c.overUnder limits "all" = c.all.bind (Numbered.past limits.all) := by
  have hnet : ¬ (c.network : String) = "all" := c.network.2
  unfold Call.overUnder Call.over
  cases hall : c.all with
  | none =>
    cases c.perNetwork with
    | none => rfl
    | some n => by_cases hn : limits.perNetwork < n <;> simp [hn, hnet]
  | some m =>
    obtain ⟨n, hper, hn⟩ := h.counted (by simp [hall])
    have hlt : ¬ limits.perNetwork < n := by omega
    by_cases hm : limits.all < m
    · simp [hper, hlt, hm, Numbered.past]
    · simp [hper, hlt, hm, Numbered.past]

/-- The overshoots under a key are the first numbers. -/
theorem WindowInv.numbered (h : WindowInv limits s) (key : String) :
    Numbered (s.calls.filterMap (·.overUnder limits key)) (s.surplus limits key) := by
  unfold State.surplus
  by_cases hkey : key ≠ "all"
  · rw [dif_pos hkey]
    have hheld := (h.networks ⟨key, hkey⟩).surplus limits.perNetwork
    unfold heldOf at hheld
    rw [List.filterMap_filterMap, List.filterMap_filter] at hheld
    have heq : s.calls.filterMap (·.overUnder limits key) = s.calls.filterMap fun c =>
        if decide (c.network = (⟨key, hkey⟩ : Network)) = true then
          c.perNetwork.bind (Numbered.past limits.perNetwork) else none :=
      List.filterMap_congr fun c _ => overUnder_network (⟨key, hkey⟩ : Network)
    rw [heq]
    exact hheld
  · rw [dif_neg hkey]
    obtain rfl : key = "all" := not_not.mp hkey
    have hheld := h.all.surplus limits.all
    rw [List.filterMap_filterMap] at hheld
    rw [List.filterMap_congr fun c hc => overUnder_all (h.sound c hc)]
    exact hheld

theorem countedUnder_eq (calls : List Call) (key : String) :
    countedUnder limits calls key = (calls.filterMap (·.overUnder limits key)).length := by
  induction calls with
  | nil => rfl
  | cons c calls ih =>
    unfold countedUnder at ih ⊢
    rw [List.countP_cons, ih, List.filterMap_cons]
    unfold Call.overUnder
    cases c.over limits with
    | none => simp
    | some o => by_cases hkey : o.key = key <;> simp [hkey]

/-- So many are counted under a key as its counter is past the cap. -/
theorem WindowInv.counted (h : WindowInv limits s) (key : String) :
    countedUnder limits s.calls key = s.surplus limits key := by
  rw [countedUnder_eq, (h.numbered key).length]

theorem mem_overUnder {calls : List Call} {key : String} {n : Nat} :
    n ∈ calls.filterMap (·.overUnder limits key) ↔
      ∃ c ∈ calls, ∃ o, c.over limits = some o ∧ o.key = key ∧ o.n = n := by
  rw [List.mem_filterMap]
  constructor
  · rintro ⟨c, hc, hn⟩
    unfold Call.overUnder at hn
    obtain ⟨o, ho, hif⟩ := Option.bind_eq_some_iff.mp hn
    by_cases hkey : o.key = key
    · rw [if_pos hkey] at hif
      exact ⟨c, hc, o, ho, hkey, Option.some.inj hif⟩
    · rw [if_neg hkey] at hif
      cases hif
  · rintro ⟨c, hc, o, ho, hkey, hn⟩
    refine ⟨c, hc, ?_⟩
    unfold Call.overUnder
    rw [ho, Option.bind_some, if_pos hkey, hn]

end Numbers

/-! ## The summaries -/

section Summaries

variable {summaries : List SummaryRow} {past : Over} {r : SummaryRow}

theorem labels_summarise : (summarise summaries past).map (·.targetLabel) =
    if past.key ∈ summaries.map (·.targetLabel) then summaries.map (·.targetLabel)
    else summaries.map (·.targetLabel) ++ [past.key] := by
  have hmem : (summaries.any fun r => decide (r.targetLabel = past.key)) = true ↔
      past.key ∈ summaries.map (·.targetLabel) := by
    rw [List.any_eq_true, List.mem_map]
    constructor
    · rintro ⟨r, hr, hkey⟩
      exact ⟨r, hr, of_decide_eq_true hkey⟩
    · rintro ⟨r, hr, hkey⟩
      exact ⟨r, hr, decide_eq_true hkey⟩
  unfold summarise
  by_cases hany : past.key ∈ summaries.map (·.targetLabel)
  · rw [if_pos (hmem.mpr hany), if_pos hany, List.map_map]
    refine List.map_congr_left fun r _ => ?_
    simp only [Function.comp_apply]
    split
    · rfl
    · rfl
  · rw [if_neg (mt hmem.mp hany), if_neg hany, List.map_append]
    rfl

theorem nodup_summarise (h : (summaries.map (·.targetLabel)).Nodup) :
    ((summarise summaries past).map (·.targetLabel)).Nodup := by
  rw [labels_summarise]
  split
  · exact h
  · rename_i hnew
    exact List.nodup_append.mpr ⟨h, List.pairwise_singleton _ _, fun a ha b hb hab =>
      hnew (List.mem_singleton.mp hb ▸ hab ▸ ha)⟩

variable (past) in
/-- A row only grows. -/
theorem grown_of_mem (h : r ∈ summaries) :
    ∃ r' ∈ summarise summaries past,
      r'.targetLabel = r.targetLabel ∧ r.suppressed ≤ r'.suppressed := by
  unfold summarise
  split
  · refine ⟨_, List.mem_map_of_mem h, ?_⟩
    split
    · exact ⟨rfl, Nat.le_max_left _ _⟩
    · exact ⟨rfl, Nat.le_refl _⟩
  · exact ⟨r, List.mem_append_left _ h, rfl, Nat.le_refl _⟩

/-- The row of the key has the count, or a larger one. -/
theorem landed_summarise :
    ∃ r ∈ summarise summaries past, r.targetLabel = past.key ∧ past.n ≤ r.suppressed := by
  unfold summarise
  split
  · rename_i hany
    obtain ⟨r, hr, hkey⟩ := List.any_eq_true.mp hany
    have hkey := of_decide_eq_true hkey
    refine ⟨_, List.mem_map_of_mem hr, ?_⟩
    rw [if_pos hkey]
    exact ⟨hkey, Nat.le_max_right _ _⟩
  · exact ⟨_, List.mem_append_right _ (List.mem_singleton_self _), rfl, Nat.le_refl _⟩

/-- A row is as it was, or has the count that came. -/
theorem mem_summarise (h : r ∈ summarise summaries past) :
    (∃ r₀ ∈ summaries, r₀.targetLabel = r.targetLabel ∧ r₀.suppressed = r.suppressed) ∨
      (past.key = r.targetLabel ∧ past.n = r.suppressed) := by
  unfold summarise at h
  split at h
  · obtain ⟨r₀, hr₀, rfl⟩ := List.mem_map.mp h
    split
    · rename_i hkey
      rcases Nat.le_total past.n r₀.suppressed with hle | hle
      · exact .inl ⟨r₀, hr₀, rfl, (Nat.max_eq_left hle).symm⟩
      · exact .inr ⟨hkey.symm, (Nat.max_eq_right hle).symm⟩
    · exact .inl ⟨r₀, hr₀, rfl, rfl⟩
  · rcases List.mem_append.mp h with hold | hnew
    · exact .inl ⟨r, hold, rfl, rfl⟩
    · obtain rfl := List.mem_singleton.mp hnew
      exact .inr ⟨rfl, rfl⟩

end Summaries

/-! ## One statement -/

section Statements

variable {limits : LoginCapLimits} {s : State} {c c' : Call} {rest : List Call} {i : Nat}

theorem heldOf_cons (c : Call) (rest : List Call) (network : Network) :
    heldOf (c :: rest) network =
      if c.network = network then c.perNetwork.toList ++ heldOf rest network
      else heldOf rest network := by
  unfold heldOf
  by_cases hnet : c.network = network
  · rw [List.filter_cons_of_pos (by simpa using hnet), if_pos hnet]
    cases hper : c.perNetwork with
    | none => rw [List.filterMap_cons_none hper]; rfl
    | some n => rw [List.filterMap_cons_some hper]; rfl
  · rw [List.filter_cons_of_neg (by simpa using hnet), if_neg hnet]

/-- The order of the calls does not matter. -/
theorem WindowInv.of_perm (h : WindowInv limits s) {calls : List Call}
    (hp : s.calls.Perm calls) : WindowInv limits { s with calls } where
  networks network := (((hp.filter _).filterMap _).symm).trans (h.networks network)
  all := ((hp.filterMap _).symm).trans h.all
  sound c hc := h.sound c (hp.mem_iff.mpr hc)
  oneRow := h.oneRow
  landed c hc := h.landed c (hp.mem_iff.mpr hc)
  reached r hr := by
    obtain ⟨c, hc, hover⟩ := h.reached r hr
    exact ⟨c, hp.mem_iff.mp hc, hover⟩

/-- A call that comes holds nothing. -/
theorem inv_refused (h : WindowInv limits s) (network : Network) :
    WindowInv limits { s with calls := ({ network } : Call) :: s.calls } where
  networks other := by
    rw [heldOf_cons]
    split
    · exact h.networks other
    · exact h.networks other
  all := h.all
  sound c hc := by
    rcases List.mem_cons.mp hc with rfl | hc
    · exact ⟨fun hall => absurd rfl hall, by simp, by simp, by simp⟩
    · exact h.sound c hc
  oneRow := h.oneRow
  landed c hc := by
    rcases List.mem_cons.mp hc with rfl | hc
    · intro hret
      cases hret
    · exact h.landed c hc
  reached r hr := by
    obtain ⟨c, hc, hover⟩ := h.reached r hr
    exact ⟨c, List.mem_cons_of_mem _ hc, hover⟩

/-- A call past no cap goes on to its next statement: the rows are as they were. -/
theorem WindowInv.goOn (h : WindowInv limits { s with calls := c :: rest })
    (hover : c.over limits = none) (hsound : c'.Sound limits) (hret : c'.returned ≠ some false)
    {networks : Network → Nat} {all : Nat}
    (hnetworks : ∀ network, Numbered (heldOf (c' :: rest) network) (networks network))
    (hall : Numbered ((c' :: rest).filterMap (·.all)) all) :
    WindowInv limits { s with networks, all, calls := c' :: rest } where
  networks := hnetworks
  all := hall
  sound c₁ hc₁ := by
    rcases List.mem_cons.mp hc₁ with rfl | hmem
    · exact hsound
    · exact h.sound c₁ (List.mem_cons_of_mem c hmem)
  oneRow := h.oneRow
  landed c₁ hc₁ hf := by
    rcases List.mem_cons.mp hc₁ with rfl | hmem
    · exact absurd hf hret
    · exact h.landed c₁ (List.mem_cons_of_mem c hmem) hf
  reached r hr := by
    obtain ⟨c₀, hc₀, o, ho, hrow⟩ := h.reached r hr
    rcases List.mem_cons.mp hc₀ with rfl | hmem
    · rw [hover] at ho
      cases ho
    · exact ⟨c₀, List.mem_cons_of_mem _ hmem, o, ho, hrow⟩

/-- The first increment: the network's counter answers the next number. -/
theorem inv_perNetwork (h : WindowInv limits { s with calls := c :: rest })
    (hret : c.returned = none) (hper : c.perNetwork = none) :
    WindowInv limits
      { s with
        networks := Function.update s.networks c.network (s.networks c.network + 1)
        calls := { c with perNetwork := some (s.networks c.network + 1) } :: rest } := by
  have hall : c.all = none := by
    by_contra hne
    obtain ⟨n, hn, -⟩ := (h.sound c List.mem_cons_self).counted hne
    rw [hper] at hn
    cases hn
  have hover : c.over limits = none := by
    unfold Call.over
    rw [hper]
  refine h.goOn hover ?_ (by simp [hret]) (fun network => ?_) h.all
  · exact ⟨fun hne => absurd hall hne, fun ht => by simp [hret] at ht,
      fun hf => by simp [hret] at hf, fun _ m hm => by simp [hall] at hm⟩
  · have hheld := h.networks network
    simp only [heldOf_cons, hper] at hheld ⊢
    by_cases hnet : c.network = network
    · subst hnet
      rw [if_pos rfl, Function.update_self]
      rw [if_pos rfl] at hheld
      exact hheld.take
    · rw [if_neg hnet, Function.update_of_ne (Ne.symm hnet)]
      rw [if_neg hnet] at hheld
      exact hheld

/-- The second increment, of a call within its network's cap. -/
theorem inv_all (h : WindowInv limits { s with calls := c :: rest }) {n : Nat}
    (hret : c.returned = none) (hper : c.perNetwork = some n) (hover : c.over limits = none) :
    WindowInv limits
      { s with
        all := s.all + 1
        calls :=
          { c with
            all := some (s.all + 1)
            returned := if s.all + 1 ≤ limits.all then some true else none } :: rest } := by
  have hn : n ≤ limits.perNetwork := by
    by_contra hlt
    unfold Call.over at hover
    simp [hper, Nat.lt_of_not_le hlt] at hover
  have hall : c.all = none := by
    cases hm : c.all with
    | none => rfl
    | some m =>
      have hlt := (h.sound c List.mem_cons_self).running hret m hm
      unfold Call.over at hover
      simp [hper, hm, hlt, Nat.not_lt_of_le hn] at hover
  have hheld := h.all
  rw [List.filterMap_cons_none hall] at hheld
  refine h.goOn hover ?_ ?_ (fun network => ?_) hheld.take
  · by_cases hle : s.all + 1 ≤ limits.all
    · exact ⟨fun _ => ⟨n, hper, hn⟩, fun _ => ⟨s.all + 1, rfl, hle, n, hper, hn⟩,
        fun hf => by simp [hle] at hf, fun hnone => by simp [hle] at hnone⟩
    · refine ⟨fun _ => ⟨n, hper, hn⟩, fun ht => by simp [hle] at ht,
        fun hf => by simp [hle] at hf, fun _ m hm => ?_⟩
      obtain rfl := Option.some.inj hm
      exact Nat.lt_of_not_le hle
  · dsimp only
    split <;> simp
  · have hkeep := h.networks network
    simp only [heldOf_cons] at hkeep ⊢
    exact hkeep

theorem over_returned (c : Call) (returned : Option Bool) :
    ({ c with returned } : Call).over limits = c.over limits := rfl

/-- The upsert of a call past a cap. -/
theorem inv_summarise (h : WindowInv limits { s with calls := c :: rest }) {past : Over}
    (hover : c.over limits = some past) :
    WindowInv limits
      { s with
        summaries := summarise s.summaries past
        calls := { c with returned := some false } :: rest } where
  networks network := by
    have hheld := h.networks network
    simp only [heldOf_cons] at hheld ⊢
    exact hheld
  all := h.all
  sound c' hc' := by
    rcases List.mem_cons.mp hc' with rfl | hmem
    · refine ⟨(h.sound c List.mem_cons_self).counted, by simp, fun _ => ?_, by simp⟩
      rw [over_returned, hover]
      simp
    · exact h.sound c' (List.mem_cons_of_mem c hmem)
  oneRow := nodup_summarise h.oneRow
  landed c' hc' hf o ho := by
    rcases List.mem_cons.mp hc' with rfl | hmem
    · rw [over_returned, hover] at ho
      obtain rfl := Option.some.inj ho
      exact landed_summarise
    · obtain ⟨r, hr, hkey, hle⟩ := h.landed c' (List.mem_cons_of_mem c hmem) hf o ho
      obtain ⟨r', hr', hkey', hle'⟩ := grown_of_mem past hr
      exact ⟨r', hr', hkey'.trans hkey, hle.trans hle'⟩
  reached r hr := by
    rcases mem_summarise hr with ⟨r₀, hr₀, hkey, hcount⟩ | ⟨hkey, hcount⟩
    · obtain ⟨c₀, hc₀, o, ho, hrow⟩ := h.reached r₀ hr₀
      rw [hkey, hcount] at hrow
      rcases List.mem_cons.mp hc₀ with rfl | hmem
      · exact ⟨_, List.mem_cons_self, o, ho, hrow⟩
      · exact ⟨c₀, List.mem_cons_of_mem _ hmem, o, ho, hrow⟩
    · exact ⟨_, List.mem_cons_self, past, hover, hkey, hcount⟩

/-- Every statement of a call that runs keeps the invariant. -/
theorem inv_statement (h : WindowInv limits s) (hrun : s.running i = some c) :
    WindowInv limits (statement limits s i c) := by
  obtain ⟨hi, hnone⟩ := Option.filter_eq_some_iff.mp hrun
  have hret : c.returned = none := Option.isNone_iff_eq_none.mp hnone
  obtain ⟨rest, hp, hset⟩ := List.exists_perm_set hi
  have hcons := h.of_perm hp
  unfold statement
  split
  · rename_i hper
    exact (inv_perNetwork hcons hret hper).of_perm (hset _).symm
  · rename_i n hper
    split
    · rename_i past hover
      exact (inv_summarise hcons hover).of_perm (hset _).symm
    · rename_i hover
      exact (inv_all hcons hret hper hover).of_perm (hset _).symm

theorem inv_step {e : Event} {s' : State} (h : WindowInv limits s)
    (hs : (signIns limits).step s e s') : WindowInv limits s' := by
  obtain ⟨havail, hstep⟩ := hs
  cases e with
  | refused network =>
    obtain rfl := Option.some.inj hstep
    exact (inv_refused h network).of_perm (List.perm_append_singleton _ _).symm
  | turn i =>
    obtain ⟨c, hc, rfl⟩ := Option.map_eq_some_iff.mp hstep
    exact inv_statement h hc
  | away i => exact havail.elim

theorem inv_emptyWindow : WindowInv limits emptyWindow where
  networks _ := Numbered.nil
  all := Numbered.nil
  sound _ hc := absurd hc List.not_mem_nil
  oneRow := List.nodup_nil
  landed _ hc := absurd hc List.not_mem_nil
  reached _ hr := absurd hr List.not_mem_nil

theorem inv_reachable (h : (signIns limits).Reachable s) : WindowInv limits s :=
  h.invariant (fun s hstart => by
    obtain rfl : s = emptyWindow := hstart
    exact inv_emptyWindow) fun _ _ _ _ hinv => inv_step hinv

end Statements

/-! ## Accounted for -/

section Main

variable {limits : LoginCapLimits} {s : State}

theorem perNetwork_le (h : WindowInv limits s) (network : Network) :
    s.calls.countP (fun c => decide (c.network = network) && decide (c.returned = some true)) ≤
      limits.perNetwork := by
  have hheld := (h.networks network).countP_le limits.perNetwork
  calc s.calls.countP (fun c => decide (c.network = network) && decide (c.returned = some true))
      ≤ (s.calls.filterMap fun c =>
          if decide (c.network = network) = true then c.perNetwork else none).countP
            fun k => decide (k ≤ limits.perNetwork) := by
        refine List.countP_le_filterMap fun c hc hadmitted => ?_
        obtain ⟨hnet, hret⟩ := Bool.and_eq_true_iff.mp hadmitted
        obtain ⟨-, -, -, n, hn, hle⟩ := (h.sound c hc).admitted (of_decide_eq_true hret)
        rw [if_pos hnet]
        exact ⟨n, hn, decide_eq_true hle⟩
    _ = min (s.networks network) limits.perNetwork := by
        rw [← hheld]
        unfold heldOf
        rw [List.filterMap_filter]
    _ ≤ limits.perNetwork := Nat.min_le_right _ _

theorem all_le (h : WindowInv limits s) :
    s.calls.countP (fun c => decide (c.returned = some true)) ≤ limits.all := by
  calc s.calls.countP (fun c => decide (c.returned = some true))
      ≤ (s.calls.filterMap (·.all)).countP fun k => decide (k ≤ limits.all) := by
        refine List.countP_le_filterMap fun c hc hret => ?_
        obtain ⟨m, hm, hle, -⟩ := (h.sound c hc).admitted (of_decide_eq_true hret)
        exact ⟨m, hm, decide_eq_true hle⟩
    _ = min s.all limits.all := h.all.countP_le limits.all
    _ ≤ limits.all := Nat.min_le_right _ _

/-- A call within both caps is past none. -/
theorem over_eq_none_of_admitted {c : Call} (h : c.Sound limits) (hret : c.returned = some true) :
    c.over limits = none := by
  obtain ⟨m, hm, hmle, n, hn, hnle⟩ := h.admitted hret
  unfold Call.over
  simp [hn, hm, Nat.not_lt_of_le hnle, Nat.not_lt_of_le hmle]

/-- Once a call past a cap has returned, it was not admitted. -/
theorem returned_of_over (h : WindowInv limits s) (hdone : ∀ c ∈ s.calls, c.returned ≠ none)
    {c : Call} (hc : c ∈ s.calls) {o : Over} (ho : c.over limits = some o) :
    c.returned = some false := by
  cases hret : c.returned with
  | none => exact absurd hret (hdone c hc)
  | some b =>
    cases b with
    | false => rfl
    | true =>
      rw [over_eq_none_of_admitted (h.sound c hc) hret] at ho
      cases ho

/-- Every row of a key has a count of the key, and at the end the largest. -/
theorem suppressed_eq (h : WindowInv limits s) (hdone : ∀ c ∈ s.calls, c.returned ≠ none)
    {r : SummaryRow} (hr : r ∈ s.summaries) :
    r.suppressed = countedUnder limits s.calls r.targetLabel := by
  have hnum := h.numbered r.targetLabel
  rw [h.counted]
  have hmem := hnum.mem_iff.mp (mem_overUnder.mpr (h.reached r hr))
  refine Nat.le_antisymm hmem.2 ?_
  obtain ⟨c, hc, o, ho, hkey, hn⟩ := mem_overUnder.mp (hnum.count_mem (by omega))
  have hret := returned_of_over h hdone hc ho
  obtain ⟨r', hr', hkey', hle⟩ := h.landed c hc hret o ho
  obtain rfl : r' = r := List.inj_on_of_nodup_map h.oneRow hr' hr (hkey'.trans hkey)
  rw [← hn]
  exact hle

/-- Something counted under a key has its row. -/
theorem exists_row (h : WindowInv limits s) (hdone : ∀ c ∈ s.calls, c.returned ≠ none)
    {key : String} (hkey : countedUnder limits s.calls key ≠ 0) :
    ∃ r ∈ s.summaries, r.targetLabel = key := by
  unfold countedUnder at hkey
  obtain ⟨c, hc, hunder⟩ := List.countP_pos_iff.mp (Nat.pos_of_ne_zero hkey)
  obtain ⟨o, ho, rfl⟩ := Option.map_eq_some_iff.mp (of_decide_eq_true hunder)
  have hret := returned_of_over h hdone hc ho
  obtain ⟨r, hr, hlabel, -⟩ := h.landed c hc hret o ho
  exact ⟨r, hr, hlabel⟩

/-- At the end the rows of a key are one with its count, or none. -/
theorem rows_eq (h : WindowInv limits s) (hdone : ∀ c ∈ s.calls, c.returned ≠ none) (key : String) :
    (s.summaries.filter fun r => decide (r.targetLabel = key)).map (·.suppressed) =
      if countedUnder limits s.calls key = 0 then [] else [countedUnder limits s.calls key] := by
  split
  · rename_i hzero
    rw [List.map_eq_nil_iff, List.filter_eq_nil_iff]
    intro r hr hlabel
    obtain rfl := of_decide_eq_true hlabel
    have hmem := (h.numbered r.targetLabel).mem_iff.mp (mem_overUnder.mpr (h.reached r hr))
    rw [← h.counted, hzero] at hmem
    omega
  · rename_i hpos
    obtain ⟨r, hr, rfl⟩ := exists_row h hdone hpos
    rw [OrderedMap.filter_key_of_nodup (·.targetLabel) h.oneRow hr, List.map_singleton,
      suppressed_eq h hdone hr]

/-- Whatever the order of the statements, every refusal of the window is accounted for. -/
theorem accounted (h : (signIns limits).Reachable s) : Accounted limits s := by
  have hinv := inv_reachable h
  exact {
    perNetwork := perNetwork_le hinv
    all := all_le hinv
    onePlace := fun c hc =>
      ⟨over_eq_none_of_admitted (hinv.sound c hc), fun hret =>
        Option.ne_none_iff_exists'.mp ((hinv.sound c hc).suppressed hret)⟩
    summarised := rows_eq hinv }

/-- A cap of one: the second call has landed its summary before the first is admitted. -/
theorem accounted_two : ∃ s, (signIns ⟨1, 5⟩).Reachable s ∧
    s.summaries = [⟨"198.51.100.0/24", some "198.51.100.0/24", 1⟩] ∧
    s.calls.map (·.returned) = [some true, some false] ∧ Accounted ⟨1, 5⟩ s := by
  let network : Network := ⟨"198.51.100.0/24", by decide⟩
  have hrun : (signIns ⟨1, 5⟩).Reachable _ :=
    .step (e := .turn 0) (.step (e := .turn 1) (.step (e := .turn 1) (.step (e := .turn 0)
      (.step (e := .refused network) (.step (e := .refused network) (.start rfl)
        ⟨trivial, rfl⟩) ⟨trivial, rfl⟩) ⟨trivial, rfl⟩) ⟨trivial, rfl⟩) ⟨trivial, rfl⟩)
    ⟨trivial, rfl⟩
  exact ⟨_, hrun, rfl, rfl, accounted hrun⟩

end Main

end Iceslab.LoginCap
