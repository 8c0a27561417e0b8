import Iceslab.PeerChoice

/-!
# What the allocation of peers keeps

* `AllocInv` — the rows of the table and of the statements in flight are apart under both keys, and
  every row of a statement was chosen from its snapshot.
* `CountsHonestly`, `exhaustedRightly_iff` — the check of the capacity against the table.
* `Remembered` — what the calls for a user know of them is still in the table.
* `peers_allocated` — everything a run keeps, up to the one thing that hangs on `CountsHonestly`:
  an exhausted subnet is exhausted.
* `free_address_refused` — a subnet refused with four of its addresses free.
-/

set_option autoImplicit false

namespace Iceslab

/-! ## What is asked of a run -/

/-- The call returned the address of the user. -/
def AllocCall.Answers (c : AllocCall) (userId ip : String) : Prop :=
  (c.job = .allocatePeer userId ∧ c.phase = .done (.address ip)) ∨
    ∃ map, c.phase = .done (.addresses map) ∧ (userId, ip) ∈ map

/-- What one step does. -/
structure AllocStepKept (s : AllocState) (e : AllocEvent) (s' : AllocState) : Prop where
  inserted : ∀ row ∈ s'.rows, row ∉ s.rows → ∃ c ∈ s.calls, ∃ st, c.phase = .inserting st ∧
    row ∈ st.accepted ∧ row.profileId = c.profileId ∧ LowestFree c st row
  scanned : ∀ (i : Nat) (c : AllocCall), e = .snapshot i → s.calls[i]? = some c →
    c.phase = .querying → FindsFree c s.rows

/-- A call is refused for an exhausted subnet only where no address of it is free. -/
def ExhaustedRightly (s s' : AllocState) : Prop :=
  ∀ (i : Nat) (c' : AllocCall), s'.calls[i]? = some c' → c'.phase = .done .ipExhausted →
    (∃ c : AllocCall, s.calls[i]? = some c ∧ c.phase = .done .ipExhausted) ∨
      c'.range.free s.rows c'.profileId = []

structure AllocationsKept (s₀ : AllocState) (steps : List (AllocState × AllocEvent × AllocState))
    (s : AllocState) : Prop where
  unique : UniqueKeys s.rows
  step : ∀ st ∈ steps, AllocStepKept st.1 st.2.1 st.2.2
  exhausted : ∀ st ∈ steps, ExhaustedRightly st.1 st.2.2
  /-- any two calls for a user that is not released return the same address -/
  repeated : ∀ p u, (∀ st ∈ steps, st.2.1 ≠ .releasePeer p u) →
    ∀ (i j : Nat) (c c' : AllocCall) (ip ip' : String), s₀.calls.length ≤ i → s₀.calls.length ≤ j →
    s.calls[i]? = some c → s.calls[j]? = some c' → c.profileId = p → c'.profileId = p →
    c.Answers u ip → c'.Answers u ip' → ip = ip'

/-- **When the count of rows says how full the subnet is.**  Where the capacity is checked, no
address of the subnet is free, or the profile has fewer peers outside of it than it has free
addresses. -/
def CountsHonestly (s : AllocState) (e : AllocEvent) : Prop :=
  ∀ (i : Nat) (c : AllocCall), e = .count i → s.calls[i]? = some c → c.phase = .counting →
    c.range.free s.rows c.profileId = [] ∨
      (c.range.outside s.rows c.profileId).length < (c.range.free s.rows c.profileId).length

/-! ## The invariant -/

/-- What an insert in flight was chosen from. -/
def AllocCall.Planned (c : AllocCall) : Prop :=
  ∀ st, c.phase = .inserting st → st.chosen = c.chosen st.seen ∧
    (∀ row ∈ st.todo, row ∈ st.chosen) ∧ ∀ row ∈ st.accepted, row ∈ st.chosen

structure AllocInv (s : AllocState) : Prop where
  unique : UniqueKeys (s.rows ++ s.calls.flatMap AllocCall.accepted)
  planned : ∀ c ∈ s.calls, c.Planned

section Invariant

variable {s : AllocState} {i j : Nat} {c c' : AllocCall} {rows : List AmneziawgPeer}

theorem accepted_perm (h : s.calls[i]? = some c) :
    (s.calls.flatMap AllocCall.accepted).Perm (c.accepted ++ s.inFlight i) := by
  obtain ⟨hi, rfl⟩ := List.getElem?_eq_some_iff.mp h
  exact ((List.getElem_cons_eraseIdx_perm hi).symm.flatMap_right _)

/-- The rows the database holds with those of a call apart from the other statements. -/
theorem AllocInv.apart (h : AllocInv s) (hc : s.calls[i]? = some c) :
    UniqueKeys (s.rows ++ (c.accepted ++ s.inFlight i)) :=
  h.unique.perm ((accepted_perm hc).append_left _)

theorem AllocInv.turn (h : AllocInv s) (hc : s.calls[i]? = some c)
    (hu : UniqueKeys (rows ++ (c'.accepted ++ s.inFlight i))) (hp : c'.Planned) :
    AllocInv ⟨rows, s.calls.set i c'⟩ := by
  have hi := (List.getElem?_eq_some_iff.mp hc).1
  have hset : (s.calls.set i c')[i]? = some c' := by simp [hi]
  constructor
  · have hperm := accepted_perm (s := ⟨rows, s.calls.set i c'⟩) hset
    simp only [AllocState.inFlight, List.eraseIdx_set_eq] at hperm
    exact hu.perm (hperm.symm.append_left rows)
  · intro d hd
    rcases List.mem_or_eq_of_mem_set hd with hd | rfl
    · exact h.planned d hd
    · exact hp

theorem AllocInv.quiet (h : AllocInv s) (hc : s.calls[i]? = some c)
    (hs : c'.accepted.Sublist c.accepted) (hp : c'.Planned) :
    AllocInv ⟨s.rows, s.calls.set i c'⟩ := by
  refine h.turn hc ((h.apart hc).sublist ?_) hp
  exact List.Sublist.append_left (List.Sublist.append_right hs _) _

theorem planned_of_phase (h : ∀ st, c.phase ≠ .inserting st) : c.Planned :=
  fun st hst => absurd hst (h st)

theorem accepted_of_phase (h : ∀ st, c.phase ≠ .inserting st) : c.accepted = [] := by
  unfold AllocCall.accepted
  split
  · exact absurd ‹_› (h _)
  · rfl

theorem afterInsert_ne (c : AllocCall) (st : InsertStatement) :
    ∀ st', afterInsert c st ≠ .inserting st' := by
  intro st'
  unfold afterInsert
  split
  · split <;> simp
  · simp

theorem AllocInv.start (h : AllocInv s) (p cidr : String) (job : AllocJob) :
    AllocInv (s.start p cidr job) := by
  unfold AllocState.start
  split
  · exact h
  · constructor
    · simpa [AllocCall.accepted] using h.unique
    · intro d hd
      rcases List.mem_append.mp hd with hd | hd
      · exact h.planned d hd
      · rw [List.mem_singleton.mp hd]
        exact planned_of_phase (by simp)

theorem AllocInv.snapshot (h : AllocInv s) (hc : s.calls[i]? = some c) :
    AllocInv ⟨s.rows, s.calls.set i (takeSnapshot s.rows c)⟩ := by
  unfold takeSnapshot
  split
  · rename_i hphase
    refine h.quiet hc (by simp [AllocCall.accepted]) ?_
    intro st hst
    cases hst
    exact ⟨rfl, fun row hrow => hrow, fun row hrow => by cases hrow⟩
  · exact h.quiet hc (List.Sublist.refl _) (h.planned c (List.mem_of_getElem? hc))

theorem AllocInv.insertRow (h : AllocInv s) (hc : s.calls[i]? = some c) (j : Nat) :
    AllocInv ⟨s.rows, s.calls.set i (insertRow s i j c)⟩ := by
  have hplan := h.planned c (List.mem_of_getElem? hc)
  have hsame : AllocInv ⟨s.rows, s.calls.set i c⟩ := h.quiet hc (List.Sublist.refl _) hplan
  unfold Iceslab.insertRow
  split
  swap
  · exact hsame
  rename_i st hphase
  obtain ⟨hchosen, htodo, haccepted⟩ := hplan st hphase
  split
  · exact hsame
  rename_i row hrow
  have hskip : AllocInv ⟨s.rows, s.calls.set i
      { c with phase := .inserting { st with todo := st.todo.eraseIdx j } }⟩ := by
    refine h.quiet hc (by simp [AllocCall.accepted, hphase]) ?_
    intro st' hst'
    cases hst'
    exact ⟨hchosen, fun r hr => htodo r (List.mem_of_mem_eraseIdx hr), haccepted⟩
  dsimp only
  split
  · exact hsame
  rename_i hwait
  split
  · exact hskip
  rename_i hip
  split
  · split
    · exact h.quiet hc (by simp [AllocCall.accepted]) (planned_of_phase (by simp))
    · exact hskip
  rename_i huser
  -- the row is apart from the table, the call's own rows and those of the others
  have hrowIn : row ∈ st.chosen := htodo row (List.mem_of_getElem? hrow)
  have hnew : ∀ r ∈ s.rows ++ (st.accepted ++ s.inFlight i), row.conflicts r = false := by
    intro r hr
    simp only [List.any_eq_true, not_exists, not_and, Bool.not_eq_true] at hwait hip huser
    rw [← List.append_assoc] at hr
    rcases List.mem_append.mp hr with hr | hr
    · simp [AmneziawgPeer.conflicts, hip r hr, huser r hr]
    · exact hwait r hr
  have happart := h.apart hc
  simp only [AllocCall.accepted, hphase] at happart
  refine h.turn hc ?_ ?_
  · have hcons : UniqueKeys (row :: (s.rows ++ (st.accepted ++ s.inFlight i))) :=
      List.pairwise_cons.mpr ⟨hnew, happart⟩
    refine hcons.perm ?_
    simp only [AllocCall.accepted, List.append_assoc, List.singleton_append]
    rw [← List.append_assoc, ← List.append_assoc]
    exact List.perm_middle.symm
  · intro st' hst'
    cases hst'
    refine ⟨hchosen, fun r hr => htodo r (List.mem_of_mem_eraseIdx hr), fun r hr => ?_⟩
    rcases List.mem_append.mp hr with hr | hr
    · exact haccepted r hr
    · rw [List.mem_singleton.mp hr]
      exact hrowIn

theorem AllocInv.commit (h : AllocInv s) (hc : s.calls[i]? = some c) :
    AllocInv ⟨(commitInsert s.rows c).1, s.calls.set i (commitInsert s.rows c).2⟩ := by
  have hsame : AllocInv ⟨s.rows, s.calls.set i c⟩ :=
    h.quiet hc (List.Sublist.refl _) (h.planned c (List.mem_of_getElem? hc))
  unfold commitInsert
  split
  swap
  · exact hsame
  rename_i st hphase
  split
  · exact hsame
  have happart := h.apart hc
  simp only [AllocCall.accepted, hphase] at happart
  have hphase' := afterInsert_ne c st
  refine h.turn hc ?_ (planned_of_phase hphase')
  rw [accepted_of_phase hphase', List.nil_append, List.append_assoc]
  exact happart

theorem AllocInv.ended (h : AllocInv s) (hc : s.calls[i]? = some c)
    (h' : c' = c ∨ ∀ st, c'.phase ≠ .inserting st) : AllocInv ⟨s.rows, s.calls.set i c'⟩ := by
  rcases h' with rfl | h'
  · exact h.quiet hc (List.Sublist.refl _) (h.planned _ (List.mem_of_getElem? hc))
  · refine h.quiet hc ?_ (planned_of_phase h')
    rw [accepted_of_phase h']
    exact List.nil_sublist _

theorem countTaken_ended (rows : List AmneziawgPeer) (c : AllocCall) :
    countTaken rows c = c ∨ ∀ st, (countTaken rows c).phase ≠ .inserting st := by
  unfold countTaken
  split
  · right
    split
    · simp
    · split <;> simp
  · exact .inl rfl

theorem readRows_ended (rows : List AmneziawgPeer) (c : AllocCall) :
    readRows rows c = c ∨ ∀ st, (readRows rows c).phase ≠ .inserting st := by
  unfold readRows
  split
  · exact .inr (by simp)
  · exact .inl rfl

theorem abortCall_ended (c : AllocCall) :
    abortCall c = c ∨ ∀ st, (abortCall c).phase ≠ .inserting st := by
  unfold abortCall
  split
  · exact .inl rfl
  · exact .inr (by simp)

theorem AllocInv.turnOf {f : AllocCall → List AmneziawgPeer × AllocCall} (h : AllocInv s)
    (hf : ∀ c, s.calls[i]? = some c → AllocInv ⟨(f c).1, s.calls.set i (f c).2⟩) :
    AllocInv (s.turn i f) := by
  unfold AllocState.turn
  split
  · exact h
  · exact hf _ ‹_›

/-- **One step keeps the keys and the plans.** -/
theorem AllocInv.step (h : AllocInv s) (e : AllocEvent) : AllocInv (s.step e) := by
  cases e with
  | allocatePeer p u cidr => exact h.start p cidr _
  | preallocatePeers p us cidr =>
    simp only [AllocState.step]
    split
    · exact h
    · exact h.start p cidr _
  | releasePeer p u =>
    exact ⟨h.unique.sublist (List.Sublist.append_right List.filter_sublist _), h.planned⟩
  | snapshot i => exact h.turnOf fun c hc => h.snapshot hc
  | insertRow i j => exact h.turnOf fun c hc => h.insertRow hc j
  | commit i => exact h.turnOf fun c hc => h.commit hc
  | count i => exact h.turnOf fun c hc => h.ended hc (countTaken_ended s.rows c)
  | read i => exact h.turnOf fun c hc => h.ended hc (readRows_ended s.rows c)
  | abort i => exact h.turnOf fun c hc => h.ended hc (abortCall_ended c)

theorem allocInv_reachable (h : peers.Reachable s) : AllocInv s := by
  refine h.invariant ?_ ?_
  · rintro s ⟨hu, hc⟩
    exact ⟨by simpa [hc] using hu, by simp [hc]⟩
  · rintro s e s' - h rfl
    exact h.step e

end Invariant

/-! ## One step -/

section Step

variable {s : AllocState} {i k : Nat} {c c' : AllocCall} {e : AllocEvent} {p u ip : String}
  {f : AllocCall → List AmneziawgPeer × AllocCall}

theorem getElem?_turn (h : (s.turn i f).calls[k]? = some c') :
    s.calls[k]? = some c' ∨ (k = i ∧ ∃ c, s.calls[i]? = some c ∧ c' = (f c).2) := by
  unfold AllocState.turn at h
  split at h
  · exact .inl h
  · rename_i c hc
    rw [List.getElem?_set] at h
    split at h
    · rename_i hik
      split at h
      · exact .inr ⟨hik.symm, c, hc, (Option.some.inj h).symm⟩
      · cases h
    · exact .inl h

theorem getElem?_start {cidr : String} {job : AllocJob}
    (h : (s.start p cidr job).calls[k]? = some c') :
    s.calls[k]? = some c' ∨ c'.phase = .querying := by
  unfold AllocState.start at h
  split at h
  · exact .inl h
  · rw [List.getElem?_append] at h
    split at h
    · exact .inl h
    · right
      have := List.mem_of_getElem? h
      rw [List.mem_singleton.mp this]

theorem rows_step (s : AllocState) (e : AllocEvent) : (∀ row ∈ (s.step e).rows, row ∈ s.rows) ∨
    ∃ i c st, e = .commit i ∧ s.calls[i]? = some c ∧ c.phase = .inserting st ∧
      (s.step e).rows = s.rows ++ st.accepted := by
  have hstart : ∀ p cidr job, (s.start p cidr job).rows = s.rows := by
    intro p cidr job
    unfold AllocState.start
    split <;> rfl
  have hturn : ∀ i (g : AllocCall → AllocCall),
      (s.turn i fun c => (s.rows, g c)).rows = s.rows := by
    intro i g
    unfold AllocState.turn
    split <;> rfl
  cases e with
  | allocatePeer p u cidr => left; simp only [AllocState.step, hstart, imp_self, implies_true]
  | preallocatePeers p us cidr =>
    left
    simp only [AllocState.step]
    split <;> simp [hstart]
  | releasePeer p u =>
    left
    intro row hrow
    exact (List.mem_filter.mp hrow).1
  | commit i =>
    simp only [AllocState.step, AllocState.turn]
    split
    · exact .inl fun row hrow => hrow
    · rename_i c hc
      dsimp only
      unfold commitInsert
      split
      · rename_i st hphase
        split
        · exact .inl fun row hrow => hrow
        · exact .inr ⟨i, c, st, rfl, hc, hphase, rfl⟩
      · exact .inl fun row hrow => hrow
  | snapshot i => left; simp only [AllocState.step, hturn, imp_self, implies_true]
  | insertRow i j => left; simp only [AllocState.step, hturn, imp_self, implies_true]
  | count i => left; simp only [AllocState.step, hturn, imp_self, implies_true]
  | read i => left; simp only [AllocState.step, hturn, imp_self, implies_true]
  | abort i => left; simp only [AllocState.step, hturn, imp_self, implies_true]

theorem allocStepKept (h : AllocInv s) (e : AllocEvent) : AllocStepKept s e (s.step e) where
  inserted row hrow hnew := by
    rcases rows_step s e with hsub | ⟨i, c, st, -, hc, hphase, hrows⟩
    · exact absurd (hsub row hrow) hnew
    · have hacc : row ∈ st.accepted := by
        rw [hrows] at hrow
        exact (List.mem_append.mp hrow).resolve_left hnew
      obtain ⟨hchosen, -, haccepted⟩ := h.planned c (List.mem_of_getElem? hc) st hphase
      have hin := haccepted row hacc
      exact ⟨c, List.mem_of_getElem? hc, st, hphase, hacc, chosen_profile (hchosen ▸ hin),
        chosen_lowest hchosen hin⟩
  scanned i c _ _ _ := chosen_findsFree c s.rows

/-- A call is refused for an exhausted subnet by the count of its rows. -/
theorem exhausted_step (h : (s.step e).calls[k]? = some c') (hx : c'.phase = .done .ipExhausted) :
    (∃ c : AllocCall, s.calls[k]? = some c ∧ c.phase = .done .ipExhausted) ∨
      (e = .count k ∧ ∃ c, s.calls[k]? = some c ∧ c.phase = .counting ∧ c'.range = c.range ∧
        c'.profileId = c.profileId ∧
        c.range.capacity ≤ (takenIps s.rows c.profileId).length) := by
  have hold : s.calls[k]? = some c' →
      ∃ c : AllocCall, s.calls[k]? = some c ∧ c.phase = .done .ipExhausted :=
    fun hc => ⟨c', hc, hx⟩
  have hstart : ∀ p cidr job, (s.start p cidr job).calls[k]? = some c' →
      s.calls[k]? = some c' := by
    intro p cidr job hk
    rcases getElem?_start hk with hc | hq
    · exact hc
    · rw [hx] at hq
      cases hq
  have hturn : ∀ i f, (s.turn i f).calls[k]? = some c' →
      (∀ c, (f c).2.phase = .done .ipExhausted → c.phase = .done .ipExhausted) →
      ∃ c : AllocCall, s.calls[k]? = some c ∧ c.phase = .done .ipExhausted := by
    intro i f hk hf
    rcases getElem?_turn hk with hc | ⟨rfl, c, hc, rfl⟩
    · exact hold hc
    · exact ⟨c, hc, hf c hx⟩
  cases e with
  | allocatePeer p u cidr => exact .inl (hold (hstart _ _ _ h))
  | preallocatePeers p us cidr =>
    simp only [AllocState.step] at h
    split at h
    · exact .inl (hold h)
    · exact .inl (hold (hstart _ _ _ h))
  | releasePeer p u => exact .inl (hold h)
  | count i =>
    rcases getElem?_turn h with hc | ⟨rfl, c, hc, rfl⟩
    · exact .inl (hold hc)
    · unfold countTaken at hx ⊢
      split at hx
      · rename_i hphase
        split at hx
        · rename_i hle
          exact .inr ⟨rfl, c, hc, hphase, by simp [hle], by simp [hle], hle⟩
        · split at hx <;> cases hx
      · exact .inl ⟨c, hc, hx⟩
  | snapshot i =>
    refine .inl (hturn _ _ h fun c hc => ?_)
    dsimp only [takeSnapshot] at hc
    split at hc
    · cases hc
    · exact hc
  | insertRow i j =>
    refine .inl (hturn _ _ h fun c hc => ?_)
    dsimp only [insertRow] at hc
    grind
  | commit i =>
    refine .inl (hturn _ _ h fun c hc => ?_)
    dsimp only [commitInsert] at hc
    split at hc
    · split at hc
      · exact hc
      · simp only [afterInsert] at hc
        split at hc
        · split at hc <;> cases hc
        · cases hc
    · exact hc
  | read i =>
    refine .inl (hturn _ _ h fun c hc => ?_)
    dsimp only [readRows] at hc
    split at hc
    · cases hc
    · exact hc
  | abort i =>
    refine .inl (hturn _ _ h fun c hc => ?_)
    dsimp only [abortCall] at hc
    split at hc
    · exact hc
    · cases hc

/-- **An exhausted subnet is exhausted, exactly where the count says how full it is.** -/
theorem exhaustedRightly_iff (h : AllocInv s) (e : AllocEvent) :
    ExhaustedRightly s (s.step e) ↔ CountsHonestly s e := by
  have hkeys : UniqueKeys s.rows := h.unique.sublist (List.sublist_append_left _ _)
  constructor
  · rintro hx i c rfl hc hphase
    by_cases hcap : c.range.capacity ≤ (takenIps s.rows c.profileId).length
    · have hi := (List.getElem?_eq_some_iff.mp hc).1
      have hset : (s.step (.count i)).calls[i]? = some { c with phase := .done .ipExhausted } := by
        simp only [AllocState.step, AllocState.turn, hc, countTaken, hphase, hcap, if_true]
        simp [hi]
      rcases hx i _ hset rfl with ⟨d, hd, hdone⟩ | hfree
      · rw [hc] at hd
        cases hd
        rw [hphase] at hdone
        cases hdone
      · exact .inl hfree
    · right
      rw [exhausted_iff (parseSubnet_spec c.parsed) c.profileId hkeys] at hcap
      omega
  · intro hh k c' hc' hx
    rcases exhausted_step hc' hx with hold | ⟨he, c, hc, hphase, hrange, hprofile, hcap⟩
    · exact .inl hold
    · right
      rw [hrange, hprofile]
      rw [exhausted_iff (parseSubnet_spec c.parsed) c.profileId hkeys] at hcap
      rcases hh k c he hc hphase with hfree | hlt
      · exact hfree
      · omega

end Step

/-! ## Calls for one user -/

section Repeated

variable {s : AllocState} {i n : Nat} {c : AllocCall} {p u : String}
  {rows rows' : List AmneziawgPeer}

/-- What a call of the profile knows of the user is still in the table. -/
structure AllocCall.Remembers (c : AllocCall) (p u : String) (rows : List AmneziawgPeer) :
    Prop where
  seen : ∀ st, c.phase = .inserting st →
    ∀ r ∈ st.seen, r.profileId = p → r.userId = u → r ∈ rows
  answered : ∀ ip, c.Answers u ip → ⟨p, u, ip⟩ ∈ rows

/-- The rows of the user stay. -/
def Stays (p u : String) (rows rows' : List AmneziawgPeer) : Prop :=
  ∀ r ∈ rows, r.profileId = p → r.userId = u → r ∈ rows'

theorem AllocCall.Remembers.mono (h : c.Remembers p u rows) (hs : Stays p u rows rows') :
    c.Remembers p u rows' :=
  ⟨fun st hst r hr hp hu => hs r (h.seen st hst r hr hp hu) hp hu,
    fun ip hip => hs _ (h.answered ip hip) rfl rfl⟩

theorem remembers_of_phase (hi : ∀ st, c.phase ≠ .inserting st)
    (hd : ∀ ip, c.phase ≠ .done (.address ip)) (hm : ∀ m, c.phase ≠ .done (.addresses m)) :
    c.Remembers p u rows := by
  refine ⟨fun st hst => absurd hst (hi st), ?_⟩
  rintro ip (⟨-, h⟩ | ⟨m, h, -⟩)
  · exact absurd h (hd ip)
  · exact absurd h (hm m)

theorem remembers_takeSnapshot (h : c.Remembers p u rows) :
    (takeSnapshot rows c).Remembers p u rows := by
  unfold takeSnapshot
  split
  · constructor
    · intro st hst r hr _ _
      cases hst
      exact hr
    · rintro ip (⟨-, h⟩ | ⟨m, h, -⟩) <;> cases h
  · exact h

theorem remembers_insertRow {j : Nat} (h : c.Remembers p u s.rows) :
    (insertRow s i j c).Remembers p u s.rows := by
  have hinserting : ∀ st st' : InsertStatement, c.phase = .inserting st → st'.seen = st.seen →
      AllocCall.Remembers { c with phase := .inserting st' } p u s.rows := by
    intro st st' hphase hseen
    constructor
    · intro st'' hst r hr
      cases hst
      exact h.seen st hphase r (hseen ▸ hr)
    · rintro ip (⟨-, h⟩ | ⟨m, h, -⟩) <;> cases h
  unfold insertRow
  split
  swap
  · exact h
  rename_i st hphase
  split
  · exact h
  dsimp only
  split
  · exact h
  split
  · exact hinserting st _ hphase rfl
  split
  · split
    · exact remembers_of_phase (by simp) (by simp) (by simp)
    · exact hinserting st _ hphase rfl
  · exact hinserting st _ hphase rfl

theorem remembers_commitInsert (h : c.Remembers p u rows) (hp : c.profileId = p)
    (hplan : c.Planned) : (commitInsert rows c).2.Remembers p u (commitInsert rows c).1 := by
  unfold commitInsert
  split
  swap
  · exact h
  rename_i st hphase
  split
  · exact h
  obtain ⟨hchosen, -, haccepted⟩ := hplan st hphase
  refine ⟨fun st' hst' => absurd hst' (afterInsert_ne c st st'), ?_⟩
  rintro ip (⟨hjob, hdone⟩ | ⟨m, hdone, -⟩)
  · have hjob' : c.job = .allocatePeer u := hjob
    simp only [afterInsert, hjob', hp] at hdone
    split at hdone
    · rename_i row hrow
      cases hdone
      refine List.mem_append.mpr ?_
      rcases Option.or_eq_some_iff.mp hrow with hhead | ⟨-, hexist⟩
      · right
        have hacc := List.mem_of_head? hhead
        have hin : row ∈ c.chosen st.seen := hchosen ▸ haccepted row hacc
        have hprofile : row.profileId = p := (chosen_profile hin).trans hp
        have huser := chosen_user hjob' hin
        rwa [← hprofile, ← huser]
      · left
        obtain ⟨hseen, hprofile, huser⟩ := existing_eq_some hexist
        have := h.seen st hphase row hseen hprofile huser
        rwa [← hprofile, ← huser]
    · cases hdone
  · simp only [afterInsert] at hdone
    split at hdone
    · split at hdone <;> cases hdone
    · cases hdone

theorem remembers_countTaken (h : c.Remembers p u rows) :
    (countTaken rows c).Remembers p u rows := by
  unfold countTaken
  split
  · split
    · exact remembers_of_phase (by simp) (by simp) (by simp)
    · split <;> exact remembers_of_phase (by simp) (by simp) (by simp)
  · exact h

theorem remembers_readRows (h : c.Remembers p u rows) (hp : c.profileId = p) :
    (readRows rows c).Remembers p u rows := by
  unfold readRows
  split
  · refine ⟨by simp, ?_⟩
    rintro ip (⟨-, hdone⟩ | ⟨m, hdone, hm⟩)
    · cases hdone
    · cases hdone
      obtain ⟨r, hr, heq⟩ := List.mem_map.mp hm
      obtain ⟨hin, hof⟩ := List.mem_filter.mp hr
      simp only [decide_eq_true_eq] at hof
      simp only [Prod.mk.injEq] at heq
      obtain ⟨rfl, rfl⟩ := heq
      rw [← hp, ← hof.1]
      exact hin
  · exact h

theorem remembers_abortCall (h : c.Remembers p u rows) : (abortCall c).Remembers p u rows := by
  unfold abortCall
  split
  · exact h
  · exact remembers_of_phase (by simp) (by simp) (by simp)

/-- What the calls of the profile from the `n`-th on know of the user. -/
def Remembered (p u : String) (n : Nat) (s : AllocState) : Prop :=
  ∀ i c, n ≤ i → s.calls[i]? = some c → c.profileId = p → c.Remembers p u s.rows

theorem stays_step {e : AllocEvent} (he : e ≠ .releasePeer p u) :
    Stays p u s.rows (s.step e).rows := by
  intro r hr hp hu
  have hstart : ∀ p cidr job, r ∈ (s.start p cidr job).rows := by
    intro p cidr job
    unfold AllocState.start
    split <;> exact hr
  have hturn : ∀ i f, (∀ c : AllocCall, r ∈ (f c).1) → r ∈ (s.turn i f).rows := by
    intro i f hf
    unfold AllocState.turn
    split
    · exact hr
    · exact hf _
  cases e with
  | allocatePeer p u cidr => exact hstart _ _ _
  | preallocatePeers p us cidr =>
    simp only [AllocState.step]
    split
    · exact hr
    · exact hstart _ _ _
  | releasePeer p' u' =>
    refine List.mem_filter.mpr ⟨hr, ?_⟩
    simp only [Bool.not_eq_true', decide_eq_false_iff_not]
    rintro ⟨rfl, rfl⟩
    subst hp hu
    exact he rfl
  | commit i =>
    refine hturn i _ fun c => ?_
    unfold commitInsert
    split
    · split
      · exact hr
      · exact List.mem_append_left _ hr
    · exact hr
  | snapshot i => exact hturn i _ fun c => hr
  | insertRow i j => exact hturn i _ fun c => hr
  | count i => exact hturn i _ fun c => hr
  | read i => exact hturn i _ fun c => hr
  | abort i => exact hturn i _ fun c => hr

theorem Remembered.turn {f : AllocCall → List AmneziawgPeer × AllocCall}
    (h : Remembered p u n s) (hs : Stays p u s.rows (s.turn i f).rows)
    (hprofile : ∀ c, (f c).2.profileId = c.profileId)
    (hf : ∀ c, s.calls[i]? = some c → c.profileId = p → c.Remembers p u s.rows →
      (f c).2.Remembers p u (f c).1) : Remembered p u n (s.turn i f) := by
  intro k c' hk hc' hp
  rcases getElem?_turn hc' with hc | ⟨rfl, c, hc, rfl⟩
  · exact (h k c' hk hc hp).mono hs
  · have hp' : c.profileId = p := (hprofile c).symm.trans hp
    have hrows : (s.turn k f).rows = (f c).1 := by simp only [AllocState.turn, hc]
    rw [hrows]
    exact hf c hc hp' (h k c hk hc hp')

theorem Remembered.start (h : Remembered p u n s) (p' cidr : String) (job : AllocJob) :
    Remembered p u n (s.start p' cidr job) := by
  intro k c hk hc hp
  have hrows : (s.start p' cidr job).rows = s.rows := by
    unfold AllocState.start
    split <;> rfl
  rw [hrows]
  rcases getElem?_start hc with hc | hq
  · exact h k c hk hc hp
  · exact remembers_of_phase (by simp [hq]) (by simp [hq]) (by simp [hq])

theorem Remembered.step {e : AllocEvent} (h : Remembered p u n s) (hinv : AllocInv s)
    (he : e ≠ .releasePeer p u) : Remembered p u n (s.step e) := by
  have hs := stays_step (s := s) he
  cases e with
  | allocatePeer p' u' cidr => exact h.start p' cidr _
  | preallocatePeers p' us cidr =>
    simp only [AllocState.step]
    split
    · exact h
    · exact h.start p' cidr _
  | releasePeer p' u' =>
    intro k c hk hc hp
    exact (h k c hk hc hp).mono hs
  | snapshot i =>
    refine h.turn hs (fun c => ?_) fun c _ _ hc => remembers_takeSnapshot hc
    unfold takeSnapshot
    split <;> rfl
  | insertRow i j =>
    refine h.turn hs (fun c => ?_) fun c _ _ hc => remembers_insertRow hc
    unfold insertRow
    grind
  | commit i =>
    refine h.turn hs (fun c => ?_) fun c hi hp hc =>
      remembers_commitInsert hc hp (hinv.planned c (List.mem_of_getElem? hi))
    unfold commitInsert
    split
    · split <;> rfl
    · rfl
  | count i =>
    refine h.turn hs (fun c => ?_) fun c _ _ hc => remembers_countTaken hc
    unfold countTaken
    grind
  | read i =>
    refine h.turn hs (fun c => ?_) fun c _ hp hc => remembers_readRows hc hp
    unfold readRows
    split <;> rfl
  | abort i =>
    refine h.turn hs (fun c => ?_) fun c _ _ hc => remembers_abortCall hc
    unfold abortCall
    split <;> rfl

end Repeated

/-! ## Whole runs -/

/-- What a call answers stays in the table for as long as the user is not released. -/
theorem remembered_of_run {p u : String} {s₀ s : AllocState}
    {steps : List (AllocState × AllocEvent × AllocState)} (h₀ : peers.Reachable s₀)
    (hrun : peers.Run s₀ steps s) (hrel : ∀ st ∈ steps, st.2.1 ≠ .releasePeer p u) :
    Remembered p u s₀.calls.length s := by
  refine hrun.keeps (P := Remembered p u s₀.calls.length) (fun st hst h => ?_) ?_
  · rw [hrun.step_of_mem st hst]
    exact h.step (allocInv_reachable (hrun.reachable_of_mem h₀ st hst)) (hrel st hst)
  · intro k c hk hc
    have := (List.getElem?_eq_some_iff.mp hc).1
    omega

/-- **The allocation of peers, over every run.**  From any state a history reaches: one address a
user and profile, one user an address; every new address is the lowest free one of its snapshot,
strictly inside the subnet; the bounded scan finds what is free; any two calls for a user that is
not released in between return the same address.  And a subnet is refused as exhausted only when it
is, exactly where every check of the capacity counts honestly. -/
theorem peers_allocated {s₀ s : AllocState} {steps : List (AllocState × AllocEvent × AllocState)}
    (h₀ : peers.Reachable s₀) (hrun : peers.Run s₀ steps s) :
    AllocationsKept s₀ steps s ↔ ∀ st ∈ steps, CountsHonestly st.1 st.2.1 := by
  have hstep : ∀ st ∈ steps, st.2.2 = st.1.step st.2.1 := hrun.step_of_mem
  have hinv : ∀ st ∈ steps, AllocInv st.1 := fun st hst =>
    allocInv_reachable (hrun.reachable_of_mem h₀ st hst)
  have hend := allocInv_reachable (hrun.reachable h₀)
  have hkeys : UniqueKeys s.rows := hend.unique.sublist (List.sublist_append_left _ _)
  constructor
  · intro h st hst
    refine (exhaustedRightly_iff (hinv st hst) st.2.1).mp ?_
    rw [← hstep st hst]
    exact h.exhausted st hst
  intro hcounts
  refine ⟨hkeys, ?_, ?_, ?_⟩
  · intro st hst
    rw [hstep st hst]
    exact allocStepKept (hinv st hst) st.2.1
  · intro st hst
    rw [hstep st hst]
    exact (exhaustedRightly_iff (hinv st hst) st.2.1).mpr (hcounts st hst)
  · intro p u hrel i j c c' ip ip' hi hj hc hc' hp hp' ha ha'
    have hrem := remembered_of_run h₀ hrun hrel
    have hrow := (hrem i c hi hc hp).answered ip ha
    have hrow' := (hrem j c' hj hc' hp').answered ip' ha'
    have := hkeys.eq_of_user hrow hrow' rfl rfl
    simpa using this

instance (s : AllocState) (e : AllocEvent) : Decidable (CountsHonestly s e) :=
  match e with
  | .count i =>
    match hi : s.calls[i]? with
    | none => isTrue fun j c he hc => by
        cases he
        rw [hi] at hc
        cases hc
    | some c => decidable_of_iff (c.phase = .counting → c.range.free s.rows c.profileId = [] ∨
          (c.range.outside s.rows c.profileId).length <
            (c.range.free s.rows c.profileId).length) <| by
        constructor
        · intro h j d he hd
          cases he
          rw [hi] at hd
          cases hd
          exact h
        · intro h
          exact h i c rfl hi
  | .allocatePeer _ _ _ => isTrue fun _ _ he => by cases he
  | .preallocatePeers _ _ _ => isTrue fun _ _ he => by cases he
  | .releasePeer _ _ => isTrue fun _ _ he => by cases he
  | .snapshot _ => isTrue fun _ _ he => by cases he
  | .insertRow _ _ => isTrue fun _ _ he => by cases he
  | .commit _ => isTrue fun _ _ he => by cases he
  | .read _ => isTrue fun _ _ he => by cases he
  | .abort _ => isTrue fun _ _ he => by cases he

def noPeers : AllocState := ⟨[], []⟩

theorem noPeers_start : peers.start noPeers := ⟨List.Pairwise.nil, rfl⟩

/-- Two users of a fresh subnet at once: the second one loses the race for the first address, and
the count leaves it four others to try again for. -/
def freshSubnet : List AllocEvent :=
  [.allocatePeer "p" "e" "10.99.0.0/29", .allocatePeer "p" "f" "10.99.0.0/29", .snapshot 0,
    .snapshot 1, .insertRow 0 0, .commit 0, .insertRow 1 0, .commit 1, .count 1, .snapshot 1,
    .insertRow 1 0, .commit 1]

theorem peers_allocated_freshSubnet :
    AllocationsKept noPeers (Machine.trace AllocState.step noPeers freshSubnet)
      (freshSubnet.foldl AllocState.step noPeers) :=
  (peers_allocated (.start noPeers_start)
    (Machine.run_trace _ _ noPeers freshSubnet)).mpr (by decide)

/-- The same race after four users were given addresses in the subnet the profile had before. -/
def movedSubnet : List AllocEvent :=
  [.preallocatePeers "p" ["a", "b", "c", "d"] "10.66.66.0/24", .snapshot 0, .insertRow 0 0,
    .insertRow 0 0, .insertRow 0 0, .insertRow 0 0, .commit 0, .read 0,
    .allocatePeer "p" "e" "10.99.0.0/29", .allocatePeer "p" "f" "10.99.0.0/29", .snapshot 1,
    .snapshot 2, .insertRow 1 0, .commit 1, .insertRow 2 0, .commit 2, .count 2]

/-- **A subnet is refused with four of its addresses free**: the peers of the subnet before count
against it. -/
theorem free_address_refused :
    ∃ steps s, peers.start noPeers ∧ peers.Run noPeers steps s ∧
      s.calls[2]?.map (·.phase) = some (.done .ipExhausted) ∧
      s.calls[2]?.map (fun c => c.range.free s.rows c.profileId) =
        some ["10.99.0.3", "10.99.0.4", "10.99.0.5", "10.99.0.6"] ∧
      ∃ st ∈ steps, ¬ ExhaustedRightly st.1 st.2.2 := by
  have hrun := Machine.run_trace peers.start AllocState.step noPeers movedSubnet
  have hlast := List.getLast_mem (show Machine.trace AllocState.step noPeers movedSubnet ≠ [] by
    simp [movedSubnet, Machine.trace])
  refine ⟨_, _, noPeers_start, hrun, by decide, by decide, _, hlast, fun h => ?_⟩
  rw [hrun.step_of_mem _ hlast] at h
  have hinv := allocInv_reachable (hrun.reachable_of_mem (.start noPeers_start) _ hlast)
  exact absurd ((exhaustedRightly_iff hinv _).mp h) (by decide)

end Iceslab
