import Iceslab.UserSync

/-!
# The nodes end with the users of the database, where no call comes late

* `Inv` — what every state of such a run keeps: what the newest call made of a user is right once
  the call is of the latest version, and until then a job that will make such a call is outstanding.
* `Moved`, `inv_of_moved` — what a change of the database does to it.
* `nodes_agree` — every state of a run in order agrees with the database.
* `late_add_revives` — a run with one late call leaves a disabled user on a node.
-/

set_option autoImplicit false

namespace Iceslab.UserSync

variable {υ ν γ : Type} [DecidableEq γ] {F : Fleet υ ν} {u : υ} {user : υ} {s s' : State υ ν γ}
  {all g squad : γ} {squads : List γ}

/-- The attempt has still to tell the node. -/
def Attempt.Due (a : Attempt υ ν) (n : ν) : Prop :=
  match a.phase with
  | .reading => True
  | .calling waiting => n ∈ waiting

/-- A job that will tell the node what the database says of the user. -/
def Covered (F : Fleet υ ν) (s : State υ ν γ) (u : υ) (n : ν) : Prop :=
  (∃ o ∈ s.owed, s.rightJob u ∈ s.jobsOf F o) ∨ s.rightJob u ∈ s.queue ∨ s.rightJob u ∈ s.lost ∨
    ∃ a ∈ s.running, a.job = s.rightJob u ∧ a.version = s.version u ∧ a.Due n

structure Inv (F : Fleet υ ν) (s : State υ ν γ) : Prop where
  newest_le : ∀ n u, s.newest n u ≤ s.version u
  net : ∀ c ∈ s.net, c.version ≤ s.version c.user ∧ c.attempt < s.nextId
  right : ∀ c ∈ s.net, c.user ∈ F.roster → c.version = s.version c.user →
    F.synced c.node = true → c.put = s.want c.user c.node
  running : ∀ a ∈ s.running, a.version ≤ s.version a.job.user ∧ a.id < s.nextId
  /-- an attempt of the latest version is of the right job -/
  gate : ∀ a ∈ s.running, a.version = s.version a.job.user → a.job = s.rightJob a.job.user
  reading : ∀ a ∈ s.running, a.phase = .reading → a.job.kind = .addUser
  calls : ∀ c ∈ s.net, ∀ a ∈ s.running, c.attempt = a.id →
    c.user = a.job.user ∧ c.version = a.version
  ids : ∀ a ∈ s.running, ∀ a' ∈ s.running, a.id = a'.id → a.job = a'.job ∧ a.version = a'.version
  held : ∀ u ∈ F.roster, ∀ n, F.synced n = true → s.newest n u = s.version u →
    s.held n u = s.want u n
  covered : ∀ u ∈ F.roster, ∀ n ∈ F.nodes, F.synced n = true →
    s.newest n u = s.version u ∨ Covered F s u n

theorem inv_start (h : Start F s) : Inv F s where
  newest_le n u := by rw [h.newest, h.version]
  net := by rw [h.net]; exact nofun
  right := by rw [h.net]; exact nofun
  running := by rw [h.running]; exact nofun
  gate := by rw [h.running]; exact nofun
  reading := by rw [h.running]; exact nofun
  calls := by rw [h.net]; exact nofun
  ids := by rw [h.running]; exact nofun
  held u _ n hn _ := h.held u n hn
  covered u _ n _ _ := .inl (by rw [h.newest, h.version])

theorem mem_jobsOf_squadChanged {j : Job υ} :
    j ∈ s.jobsOf F (.squadChanged g) ↔
      ∃ u ∈ F.roster, g ∈ (s.rows u).squads ∧ (s.rows u).served = true ∧ j = ⟨.addUser, u⟩ := by
  constructor
  · intro h
    obtain ⟨u, hu, rfl⟩ := List.mem_map.mp h
    obtain ⟨hu, hmember⟩ := List.mem_filter.mp hu
    simp only [Bool.and_eq_true, decide_eq_true_eq] at hmember
    exact ⟨u, hu, hmember.1, hmember.2, rfl⟩
  · rintro ⟨u, hu, hg, hserved, rfl⟩
    exact List.mem_map.mpr ⟨u, List.mem_filter.mpr ⟨hu, by simp [hg, hserved]⟩, rfl⟩

omit [DecidableEq γ] in
theorem rightJob_congr
    (h : (s'.rows u).served = (s.rows u).served) : s'.rightJob u = s.rightJob u := by
  unfold State.rightJob
  rw [h]

omit [DecidableEq γ] in
theorem rightJob_of_served (h : (s.rows u).served = true) : s.rightJob u = ⟨.addUser, u⟩ := by
  unfold State.rightJob
  rw [if_pos h]

omit [DecidableEq γ] in
theorem rightJob_of_not_served (h : (s.rows u).served = false) :
    s.rightJob u = ⟨.removeUser, u⟩ := by
  unfold State.rightJob
  rw [h]
  rfl

/-- An event that brings the right job goes on doing so while the user is served as before, in the
squads they were in. -/
theorem rightJob_mem_jobsOf {o : Owed υ γ} (hserved : (s'.rows u).served = (s.rows u).served)
    (hsquads : (s.rows u).served = true → ∀ g, o = .squadChanged g → g ∈ (s.rows u).squads →
      g ∈ (s'.rows u).squads)
    (h : s.rightJob u ∈ s.jobsOf F o) : s'.rightJob u ∈ s'.jobsOf F o := by
  rw [rightJob_congr hserved]
  cases o with
  | statusChanged user old new => exact h
  | deleted user => exact h
  | updated user => exact h
  | squadChanged g =>
    obtain ⟨u', hu', hg, hs, hjob⟩ := mem_jobsOf_squadChanged.mp h
    have huser : u = u' := congrArg Job.user hjob
    subst huser
    exact mem_jobsOf_squadChanged.mpr ⟨u, hu', hsquads hs g rfl hg, hserved.trans hs, hjob⟩

/-! ## Changes of the database -/

/-- A change of the database: who is served anew gets a version, and an event brings their job. -/
structure Moved (F : Fleet υ ν) (s s' : State υ ν γ) : Prop where
  version_le : ∀ u, s.version u ≤ s'.version u
  served : ∀ u, s'.version u = s.version u → (s'.rows u).served = (s.rows u).served
  want : ∀ u ∈ F.roster, s'.version u = s.version u → ∀ n, s'.want u n = s.want u n
  owed : ∀ u ∈ F.roster, s'.version u = s.version u → ∀ o ∈ s.owed,
    s.rightJob u ∈ s.jobsOf F o → ∃ o ∈ s'.owed, s'.rightJob u ∈ s'.jobsOf F o
  fresh : ∀ u ∈ F.roster, s'.version u ≠ s.version u →
    ∃ o ∈ s'.owed, s'.rightJob u ∈ s'.jobsOf F o
  rest : s'.queue = s.queue ∧ s'.running = s.running ∧ s'.lost = s.lost ∧ s'.net = s.net ∧
    s'.nextId = s.nextId ∧ s'.held = s.held ∧ s'.newest = s.newest

theorem inv_of_moved (h : Inv F s) (hm : Moved F s s') : Inv F s' := by
  obtain ⟨hqueue, hrunning, hlost, hnet, hid, hheld, hnewest⟩ := hm.rest
  have hnow : ∀ {u : υ} {v : Nat}, v ≤ s.version u → v = s'.version u →
      s'.version u = s.version u := fun {u v} hle heq =>
    Nat.le_antisymm (heq ▸ hle) (hm.version_le u)
  refine ⟨?_, ?_, ?_, ?_, ?_, ?_, ?_, ?_, ?_, ?_⟩
  · intro n u
    rw [hnewest]
    exact (h.newest_le n u).trans (hm.version_le u)
  · intro c hc
    rw [hnet] at hc
    rw [hid]
    exact ⟨(h.net c hc).1.trans (hm.version_le _), (h.net c hc).2⟩
  · intro c hc hu hv hsynced
    rw [hnet] at hc
    have hsame := hnow (h.net c hc).1 hv
    rw [hm.want _ hu hsame]
    exact h.right c hc hu (hv.trans hsame) hsynced
  · intro a ha
    rw [hrunning] at ha
    rw [hid]
    exact ⟨(h.running a ha).1.trans (hm.version_le _), (h.running a ha).2⟩
  · intro a ha hv
    rw [hrunning] at ha
    have hsame := hnow (h.running a ha).1 hv
    rw [rightJob_congr (hm.served _ hsame)]
    exact h.gate a ha (hv.trans hsame)
  · rw [hrunning]
    exact h.reading
  · rw [hnet, hrunning]
    exact h.calls
  · rw [hrunning]
    exact h.ids
  · intro u hu n hsynced hv
    rw [hnewest] at hv
    have hsame := hnow (h.newest_le n u) hv
    rw [hheld, hm.want u hu hsame]
    exact h.held u hu n hsynced (hv.trans hsame)
  · intro u hu n hn hsynced
    by_cases hsame : s'.version u = s.version u
    · have hright := rightJob_congr (hm.served u hsame)
      rcases h.covered u hu n hn hsynced with hdone | hcov
      · rw [hnewest, hsame]
        exact .inl hdone
      · refine .inr ?_
        unfold Covered
        rw [hqueue, hlost, hrunning, hsame]
        rcases hcov with ⟨o, ho, hjob⟩ | hcov
        · exact .inl (hm.owed u hu hsame o ho hjob)
        · rw [hright]
          exact .inr hcov
    · exact .inr (.inl (hm.fresh u hu hsame))

theorem bump_eq {version : υ → Nat} {moved : υ → Bool} :
    bump version moved u = version u ↔ moved u = false := by
  unfold bump
  cases moved u <;> simp

theorem le_bump (version : υ → Nat) (moved : υ → Bool) (u : υ) :
    version u ≤ bump version moved u := by
  unfold bump
  split <;> omega

omit [DecidableEq γ] in
theorem want_congr (hserved : (s'.rows u).served = (s.rows u).served)
    (hreach : (s.rows u).served = true → ∀ n, s'.reach u n = s.reach u n) (n : ν) :
    s'.want u n = s.want u n := by
  unfold State.want
  rw [hserved]
  cases hs : (s.rows u).served with
  | false => simp
  | true => rw [hreach hs n]

theorem moved_of_row [DecidableEq υ] (user : υ) (row : Row γ) (moved : Bool)
    (hrows : s'.rows = Function.update s.rows user row) (hgrants : s'.grants = s.grants)
    (hversion : s'.version = bump s.version fun u => decide (u = user) && moved)
    (hkeep : moved = false → row.served = (s.rows user).served ∧
      (row.served = true → row.squads = (s.rows user).squads)) (howed : ∀ o ∈ s.owed, o ∈ s'.owed)
    (hfresh : moved = true → ∃ o ∈ s'.owed, s'.rightJob user ∈ s'.jobsOf F o)
    (hrest : s'.queue = s.queue ∧ s'.running = s.running ∧ s'.lost = s.lost ∧ s'.net = s.net ∧
      s'.nextId = s.nextId ∧ s'.held = s.held ∧ s'.newest = s.newest) : Moved F s s' := by
  have hrow : ∀ u, s'.version u = s.version u → (s'.rows u).served = (s.rows u).served ∧
      ((s.rows u).served = true → (s'.rows u).squads = (s.rows u).squads) := by
    intro u hu
    rw [hversion, bump_eq] at hu
    rw [hrows]
    by_cases huser : u = user
    · subst huser
      rw [Function.update_self]
      obtain ⟨hserved, hsquads⟩ := hkeep (by simpa using hu)
      exact ⟨hserved, fun h => hsquads (hserved.trans h)⟩
    · rw [Function.update_of_ne huser]
      exact ⟨rfl, fun _ => rfl⟩
  refine ⟨?_, fun u hu => (hrow u hu).1, ?_, ?_, ?_, hrest⟩
  · intro u
    rw [hversion]
    exact le_bump _ _ u
  · intro u _ hu n
    refine want_congr (hrow u hu).1 (fun hserved n => ?_) n
    unfold State.reach
    rw [(hrow u hu).2 hserved, hgrants]
  · intro u _ hu o ho hjob
    refine ⟨o, howed o ho, rightJob_mem_jobsOf (hrow u hu).1 (fun hserved g _ hg => ?_) hjob⟩
    rw [(hrow u hu).2 hserved]
    exact hg
  · intro u _ hu
    rw [hversion, Ne, bump_eq] at hu
    have hboth : u = user ∧ moved = true := by simpa using hu
    rw [hboth.1]
    exact hfresh hboth.2

theorem moved_setStatus [DecidableEq υ] {old new : UserStatus}
    (hread : { s.rows user with status := new }.served ≠ (s.rows user).served → old ≠ new) :
    Moved F s (s.setStatus user old new) := by
  refine moved_of_row user { s.rows user with status := new } _ rfl rfl rfl ?_ ?_ ?_
    ⟨rfl, rfl, rfl, rfl, rfl, rfl, rfl⟩
  · intro hkeep
    exact ⟨by simpa using hkeep, fun _ => rfl⟩
  · intro o ho
    show o ∈ if new ≠ old then _ else _
    split
    · exact List.mem_append_left _ ho
    · exact ho
  · intro hmoved
    have hne : { s.rows user with status := new }.served ≠ (s.rows user).served := by
      simpa using hmoved
    have hold := hread hne
    refine ⟨.statusChanged user old new, ?_, ?_⟩
    · show _ ∈ if new ≠ old then _ else _
      rw [if_pos hold.symm]
      exact List.mem_append_right _ List.mem_cons_self
    · have hrow : (s.setStatus user old new).rows user = { s.rows user with status := new } := by
        simp [State.setStatus]
      have hjobs : (s.setStatus user old new).jobsOf F (.statusChanged user old new)
          = if new = .active then (if old ≠ .active then [⟨.addUser, user⟩] else [])
            else [⟨.removeUser, user⟩] := rfl
      rw [hjobs]
      by_cases hactive : new = .active
      · subst hactive
        have hserved : ((s.setStatus user old .active).rows user).served = true := by
          rw [hrow]
          have hdeleted : (s.rows user).deleted = false := by
            cases hd : (s.rows user).deleted with
            | false => rfl
            | true => exact absurd (by simp [Row.served, hd]) hne
          simp [Row.served, hdeleted]
        rw [rightJob_of_served hserved, if_pos rfl, if_pos hold]
        exact List.mem_cons_self
      · have hserved : ((s.setStatus user old new).rows user).served = false := by
          rw [hrow]
          simp [Row.served, hactive]
        rw [rightJob_of_not_served hserved, if_neg hactive]
        exact List.mem_cons_self

theorem moved_delete [DecidableEq υ] : Moved F s (s.delete user) := by
  have hgone : ((s.delete user).rows user).served = false := by simp [State.delete, Row.served]
  refine moved_of_row user { s.rows user with deleted := true } (s.rows user).served
    rfl rfl rfl ?_ (fun o ho => List.mem_append_left _ ho) ?_ ⟨rfl, rfl, rfl, rfl, rfl, rfl, rfl⟩
  · intro hkeep
    exact ⟨by rw [hkeep]; simp [Row.served], fun _ => rfl⟩
  · intro _
    refine ⟨.deleted user, List.mem_append_right _ List.mem_cons_self, ?_⟩
    rw [rightJob_of_not_served hgone]
    exact List.mem_cons_self

theorem moved_setSquads [DecidableEq υ] : Moved F s (s.setSquads user squads) := by
  refine moved_of_row user { s.rows user with squads := squads } (s.rows user).served
    rfl rfl rfl ?_ (fun o ho => List.mem_append_left _ ho) ?_
    ⟨rfl, rfl, rfl, rfl, rfl, rfl, rfl⟩
  · intro hkeep
    refine ⟨rfl, fun hserved => ?_⟩
    have hserved : (s.rows user).served = true := hserved
    rw [hkeep] at hserved
    cases hserved
  · intro hserved
    have hstill : ((s.setSquads user squads).rows user).served = true := by
      simpa [State.setSquads, Row.served] using hserved
    refine ⟨.updated user, List.mem_append_right _ List.mem_cons_self, ?_⟩
    rw [rightJob_of_served hstill]
    exact List.mem_cons_self

theorem moved_reissue : Moved F s { s with owed := s.owed ++ [.updated user] } := by
  refine ⟨fun _ => Nat.le_refl _, fun _ _ => rfl, fun _ _ _ _ => rfl, ?_, ?_,
    ⟨rfl, rfl, rfl, rfl, rfl, rfl, rfl⟩⟩
  · intro u _ _ o ho hjob
    exact ⟨o, List.mem_append_left _ ho, rightJob_mem_jobsOf rfl (fun _ _ _ hg => hg) hjob⟩
  · intro u _ hu
    exact absurd rfl hu

theorem flatMap_grants_of_notMem (h : squad ∉ squads)
    (granted : γ → ν → List String) (grants : ν → List String) (n : ν) :
    (squads.flatMap fun g => Function.update granted squad grants g n)
      = squads.flatMap fun g => granted g n := by
  refine List.flatMap_congr fun g hg => ?_
  have hne : g ≠ squad := fun heq => h (heq ▸ hg)
  rw [Function.update_of_ne hne]

theorem moved_setGrants {grants : ν → List String} : Moved F s (s.setGrants squad grants) := by
  refine ⟨le_bump s.version _, fun _ _ => rfl, ?_, ?_, ?_, ⟨rfl, rfl, rfl, rfl, rfl, rfl, rfl⟩⟩
  · intro u _ hu n
    have hu : bump s.version (fun u => decide (squad ∈ (s.rows u).squads) && (s.rows u).served) u
        = s.version u := hu
    rw [bump_eq] at hu
    have hsame : ((s.setGrants squad grants).rows u).served = (s.rows u).served := rfl
    refine want_congr hsame (fun hserved n => ?_) n
    have hother : squad ∉ (s.rows u).squads := by
      intro hmem
      simp [hmem, hserved] at hu
    exact congrArg (fun l => JsText.sortTexts (l.foldl JsText.setAdd []))
      (flatMap_grants_of_notMem hother s.grants grants n)
  · intro u _ _ o ho hjob
    exact ⟨o, List.mem_append_left _ ho, rightJob_mem_jobsOf rfl (fun _ _ _ hg => hg) hjob⟩
  · intro u hu hmoved
    have hmoved : bump s.version
        (fun u => decide (squad ∈ (s.rows u).squads) && (s.rows u).served) u ≠ s.version u := hmoved
    rw [Ne, bump_eq] at hmoved
    have hmember : squad ∈ (s.rows u).squads ∧ (s.rows u).served = true := by simpa using hmoved
    refine ⟨.squadChanged squad, List.mem_append_right _ List.mem_cons_self, ?_⟩
    exact mem_jobsOf_squadChanged.mpr
      ⟨u, hu, hmember.1, hmember.2, rightJob_of_served (s := s.setGrants squad grants) hmember.2⟩

theorem mem_withoutSquad (h : g ∈ squads) (hne : g ≠ squad) :
    g ∈ withoutSquad squads squad all := by
  unfold withoutSquad
  have hrest : g ∈ squads.filter fun g => decide (g ≠ squad) :=
    List.mem_filter.mpr ⟨h, decide_eq_true hne⟩
  split
  · dsimp only
    split
    · rename_i hnil
      rw [hnil] at hrest
      cases hrest
    · exact hrest
  · exact h

theorem moved_deleteSquad
    (h : InOrder F s (.deleteSquad squad all)) : Moved F s (s.deleteSquad squad all) := by
  refine ⟨fun _ => Nat.le_refl _, fun _ _ => rfl, ?_, ?_, ?_, ⟨rfl, rfl, rfl, rfl, rfl, rfl, rfl⟩⟩
  · intro u hu _ n
    by_cases hmember : (s.rows u).served = true ∧ squad ∈ (s.rows u).squads
    · exact (h u hu hmember.1 hmember.2).1 n
    · have hserved : ((s.deleteSquad squad all).rows u).served = (s.rows u).served := rfl
      refine want_congr hserved (fun hs n => ?_) n
      have hother : squad ∉ (s.rows u).squads := fun hmem => hmember ⟨hs, hmem⟩
      have hsquads : ((s.deleteSquad squad all).rows u).squads = (s.rows u).squads :=
        if_neg hother
      unfold State.reach
      rw [hsquads]
      exact congrArg (fun l => JsText.sortTexts (l.foldl JsText.setAdd []))
        (flatMap_grants_of_notMem hother s.grants (fun _ => []) n)
  · intro u hu _ o ho hjob
    have hserved : ((s.deleteSquad squad all).rows u).served = (s.rows u).served := rfl
    refine ⟨o, ho, rightJob_mem_jobsOf hserved (fun hs g hg hmem => mem_withoutSquad hmem ?_) hjob⟩
    rintro rfl
    exact (h u hu hs hmem).2 o ho hg
  · intro u _ hmoved
    exact absurd rfl hmoved

/-! ## Jobs -/

section Lists

variable {β : Type} {l : List β} {i : Nat} {a b : β}

theorem eq_or_mem_eraseIdx (hi : l[i]? = some a) (hb : b ∈ l) : b = a ∨ b ∈ l.eraseIdx i := by
  obtain ⟨j, hj⟩ := List.mem_iff_getElem?.mp hb
  by_cases hij : j = i
  · subst hij
    rw [hi] at hj
    exact .inl (Option.some.inj hj).symm
  · exact .inr (List.mem_eraseIdx_iff_getElem?.mpr ⟨j, hij, hj⟩)

theorem eq_or_mem_set (hi : l[i]? = some a) (hb : b ∈ l) (c : β) : b = a ∨ b ∈ l.set i c := by
  obtain ⟨j, hj⟩ := List.mem_iff_getElem?.mp hb
  by_cases hij : i = j
  · subst hij
    rw [hi] at hj
    exact .inl (Option.some.inj hj).symm
  · exact .inr (List.mem_iff_getElem?.mpr ⟨j, by rw [List.getElem?_set_ne hij]; exact hj⟩)

theorem mem_set_self (hi : l[i]? = some a) (c : β) : c ∈ l.set i c := by
  obtain ⟨hlt, -⟩ := List.getElem?_eq_some_iff.mp hi
  exact List.mem_set hlt c

end Lists

theorem inv_handle (h : Inv F s) (i : Nat) : Inv F (s.handle F i) := by
  unfold State.handle
  split
  · exact h
  · rename_i o ho
    refine ⟨h.newest_le, h.net, h.right, h.running, h.gate, h.reading, h.calls, h.ids, h.held, ?_⟩
    intro u hu n hn hsynced
    refine (h.covered u hu n hn hsynced).imp_right ?_
    rintro (⟨o', ho', hjob⟩ | hq | hl | hr)
    · rcases eq_or_mem_eraseIdx ho ho' with rfl | ho'
      · exact .inr (.inl (List.mem_append_right _ hjob))
      · exact .inl ⟨o', ho', hjob⟩
    · exact .inr (.inl (List.mem_append_left _ hq))
    · exact .inr (.inr (.inl hl))
    · exact .inr (.inr (.inr hr))

/-- A job that the gate turns away is not the right one. -/
theorem inv_turnAway (h : Inv F s) {i : Nat} {job : Job υ} (hi : s.queue[i]? = some job)
    (hjob : job ≠ s.rightJob job.user) : Inv F { s with queue := s.queue.eraseIdx i } := by
  refine ⟨h.newest_le, h.net, h.right, h.running, h.gate, h.reading, h.calls, h.ids, h.held, ?_⟩
  intro u hu n hn hsynced
  refine (h.covered u hu n hn hsynced).imp_right ?_
  rintro (ho | hq | hl | hr)
  · exact .inl ho
  · rcases eq_or_mem_eraseIdx hi hq with rfl | hq
    · exact absurd rfl hjob
    · exact .inr (.inl hq)
  · exact .inr (.inr (.inl hl))
  · exact .inr (.inr (.inr hr))

/-- A job that passes the gate becomes an attempt, with the calls it makes at once. -/
theorem inv_begin (h : Inv F s) {i : Nat} {job : Job υ} (hi : s.queue[i]? = some job)
    (hjob : job = s.rightJob job.user) (phase : Phase ν)
    (hreading : phase = .reading → job.kind = .addUser)
    (hdue : ∀ n ∈ F.nodes, Attempt.Due ⟨s.nextId, job, s.version job.user, phase⟩ n)
    {net : List (Call υ ν)}
    (hnet : ∀ c ∈ net, c ∈ s.net ∨ (c.attempt = s.nextId ∧ c.user = job.user ∧
      c.version = s.version job.user ∧ c.put = s.want c.user c.node)) :
    Inv F { s with
      queue := s.queue.eraseIdx i
      running := s.running ++ [⟨s.nextId, job, s.version job.user, phase⟩]
      net := net
      nextId := s.nextId + 1 } := by
  have hrun : ∀ a ∈ s.running ++ [⟨s.nextId, job, s.version job.user, phase⟩],
      a ∈ s.running ∨ a = ⟨s.nextId, job, s.version job.user, phase⟩ := fun a ha => by
    simpa using ha
  refine ⟨h.newest_le, ?_, ?_, ?_, ?_, ?_, ?_, ?_, h.held, ?_⟩
  · intro c hc
    rcases hnet c hc with hc | ⟨hid, huser, hversion, -⟩
    · exact ⟨(h.net c hc).1, Nat.lt_succ_of_lt (h.net c hc).2⟩
    · exact ⟨by rw [hversion, huser], by rw [hid]; exact Nat.lt_succ_self _⟩
  · intro c hc hu hv hsynced
    rcases hnet c hc with hc | ⟨-, -, -, hput⟩
    · exact h.right c hc hu hv hsynced
    · exact hput
  · intro a ha
    rcases hrun a ha with ha | rfl
    · exact ⟨(h.running a ha).1, Nat.lt_succ_of_lt (h.running a ha).2⟩
    · exact ⟨Nat.le_refl _, Nat.lt_succ_self _⟩
  · intro a ha hv
    rcases hrun a ha with ha | rfl
    · exact h.gate a ha hv
    · exact hjob
  · intro a ha hphase
    rcases hrun a ha with ha | rfl
    · exact h.reading a ha hphase
    · exact hreading hphase
  · intro c hc a ha hid
    rcases hnet c hc with hc | ⟨hid', huser, hversion, -⟩
    · rcases hrun a ha with ha | rfl
      · exact h.calls c hc a ha hid
      · exact absurd (h.net c hc).2 (by rw [hid]; exact Nat.lt_irrefl _)
    · rcases hrun a ha with ha | rfl
      · exact absurd (h.running a ha).2 (by rw [← hid, hid']; exact Nat.lt_irrefl _)
      · exact ⟨huser, hversion⟩
  · intro a ha a' ha' hid
    rcases hrun a ha with ha | rfl
    · rcases hrun a' ha' with ha' | rfl
      · exact h.ids a ha a' ha' hid
      · exact absurd (h.running a ha).2 (by rw [hid]; exact Nat.lt_irrefl _)
    · rcases hrun a' ha' with ha' | rfl
      · exact absurd (h.running a' ha').2 (by rw [← hid]; exact Nat.lt_irrefl _)
      · exact ⟨rfl, rfl⟩
  · intro u hu n hn hsynced
    refine (h.covered u hu n hn hsynced).imp_right ?_
    rintro (ho | hq | hl | ⟨a, ha, hright⟩)
    · exact .inl ho
    · rcases eq_or_mem_eraseIdx hi hq with hsame | hq
      · have huser : job.user = u := congrArg Job.user hsame.symm
        refine .inr (.inr (.inr ⟨_, List.mem_append_right _ List.mem_cons_self, ?_, ?_, hdue n hn⟩))
        · exact hsame.symm
        · exact congrArg s.version huser
      · exact .inr (.inl hq)
    · exact .inr (.inr (.inl hl))
    · exact .inr (.inr (.inr ⟨a, List.mem_append_left _ ha, hright⟩))

theorem inv_take (h : Inv F s) (i : Nat) : Inv F (s.take F i) := by
  unfold State.take
  split
  · exact h
  · rename_i job hi
    dsimp only
    split
    · rename_i hkind
      split
      · rename_i hserved
        refine inv_begin h hi ?_ .reading (fun _ => hkind) (fun _ _ => trivial) fun c hc => .inl hc
        rw [rightJob_of_served hserved, ← hkind]
      · rename_i hserved
        refine inv_turnAway h hi fun hjob => ?_
        rw [rightJob_of_not_served (by simpa using hserved)] at hjob
        rw [hjob] at hkind
        cases hkind
    · rename_i hkind
      split
      · rename_i hserved
        refine inv_turnAway h hi fun hjob => ?_
        rw [rightJob_of_served hserved] at hjob
        rw [hjob] at hkind
        cases hkind
      · rename_i hserved
        have hserved : (s.rows job.user).served = false := by simpa using hserved
        refine inv_begin h hi ?_ (.calling F.nodes) nofun (fun _ hn => hn) fun c hc => ?_
        · rw [rightJob_of_not_served hserved, ← hkind]
        · rcases List.mem_append.mp hc with hc | hc
          · exact .inl hc
          · obtain ⟨n, -, rfl⟩ := List.mem_map.mp hc
            refine .inr ⟨rfl, rfl, rfl, ?_⟩
            unfold State.want
            rw [hserved]
            exact (if_neg (by simp)).symm

/-- Attempts that go on keep what is known of attempts; a new call is one of theirs. -/
theorem Inv.follow (h : Inv F s) {running : List (Attempt υ ν)} {net : List (Call υ ν)}
    (hrunning : ∀ b ∈ running, ∃ b₀ ∈ s.running, b.id = b₀.id ∧ b.job = b₀.job ∧
      b.version = b₀.version ∧ (b.phase = .reading → b₀.phase = .reading))
    (hnet : ∀ c ∈ net, c ∈ s.net ∨ ∃ a ∈ s.running, c.attempt = a.id ∧ c.user = a.job.user ∧
      c.version = a.version) :
    (∀ b ∈ running, b.version ≤ s.version b.job.user ∧ b.id < s.nextId) ∧
      (∀ b ∈ running, b.version = s.version b.job.user → b.job = s.rightJob b.job.user) ∧
      (∀ b ∈ running, b.phase = .reading → b.job.kind = .addUser) ∧
      (∀ c ∈ net, ∀ b ∈ running, c.attempt = b.id → c.user = b.job.user ∧ c.version = b.version) ∧
      ∀ b ∈ running, ∀ b' ∈ running, b.id = b'.id → b.job = b'.job ∧ b.version = b'.version := by
  refine ⟨fun b hb => ?_, fun b hb => ?_, fun b hb hreading => ?_, fun c hc b hb hid => ?_,
    fun b hb b' hb' hid => ?_⟩
  all_goals obtain ⟨b₀, hb₀, hid₀, hjob, hversion, hphase⟩ := hrunning b hb
  · rw [hid₀, hjob, hversion]
    exact h.running b₀ hb₀
  · rw [hjob, hversion]
    exact h.gate b₀ hb₀
  · rw [hjob]
    exact h.reading b₀ hb₀ (hphase hreading)
  · rw [hid₀] at hid
    rw [hjob, hversion]
    rcases hnet c hc with hc | ⟨a, ha, hid', huser, hversion'⟩
    · exact h.calls c hc b₀ hb₀ hid
    · obtain ⟨hjob', hv⟩ := h.ids a ha b₀ hb₀ (hid'.symm.trans hid)
      rw [huser, hversion', hjob', hv]
      exact ⟨rfl, rfl⟩
  · obtain ⟨b₀', hb₀', hid₀', hjob', hversion', -⟩ := hrunning b' hb'
    rw [hjob, hversion, hjob', hversion']
    exact h.ids b₀ hb₀ b₀' hb₀' (by rw [← hid₀, hid, hid₀'])

theorem inv_readReach (h : Inv F s) (i : Nat) (torn : ν → List String) :
    Inv F (s.readReach F i torn) := by
  unfold State.readReach
  split
  · exact h
  · rename_i a hi
    split
    · exact h
    · rename_i hphase
      dsimp only
      generalize hreach : (if s.version a.job.user = a.version then s.reach a.job.user
        else torn) = reach
      have ha : a ∈ s.running := List.mem_of_getElem? hi
      have hcall : ∀ {n : ν} {c : Call υ ν}, addCall F a reach n = some c →
          c.attempt = a.id ∧ c.user = a.job.user ∧ c.version = a.version ∧ c.node = n ∧
            c.put = if reach n = [] then none else some (reach n) := by
        intro n c hc
        unfold addCall at hc
        split at hc
        · rename_i hnil
          cases hc
          exact ⟨rfl, rfl, rfl, rfl, (if_pos hnil).symm⟩
        · rename_i hne
          split at hc
          · cases hc
            exact ⟨rfl, rfl, rfl, rfl, (if_neg hne).symm⟩
          · cases hc
      have hmem : ∀ c ∈ s.net ++ F.nodes.filterMap (addCall F a reach), c ∈ s.net ∨
          (c.attempt = a.id ∧ c.user = a.job.user ∧ c.version = a.version ∧
            c.put = if reach c.node = [] then none else some (reach c.node)) := by
        intro c hc
        rcases List.mem_append.mp hc with hc | hc
        · exact .inl hc
        · obtain ⟨n, -, hc⟩ := List.mem_filterMap.mp hc
          obtain ⟨hid, huser, hversion, hnode, hput⟩ := hcall hc
          exact .inr ⟨hid, huser, hversion, by rw [hput, hnode]⟩
      have hset : ∀ b ∈ s.running.set i
          { a with phase := .calling ((F.nodes.filterMap (addCall F a reach)).map Call.node) },
          ∃ b₀ ∈ s.running, b.id = b₀.id ∧ b.job = b₀.job ∧ b.version = b₀.version ∧
            (b.phase = .reading → b₀.phase = .reading) := by
        intro b hb
        rcases List.mem_or_eq_of_mem_set hb with hb | rfl
        · exact ⟨b, hb, rfl, rfl, rfl, id⟩
        · exact ⟨a, ha, rfl, rfl, rfl, nofun⟩
      obtain ⟨hrunning, hgate, hreading, hcalls, hids⟩ := h.follow hset fun c hc =>
        (hmem c hc).imp_right fun hnew => ⟨a, ha, hnew.1, hnew.2.1, hnew.2.2.1⟩
      refine ⟨h.newest_le, ?_, ?_, hrunning, hgate, hreading, hcalls, hids, h.held, ?_⟩
      · intro c hc
        rcases hmem c hc with hc | ⟨hid, huser, hversion, -⟩
        · exact h.net c hc
        · rw [hid, huser, hversion]
          exact h.running a ha
      · intro c hc hu hv hsynced
        rcases hmem c hc with hc | ⟨-, huser, hversion, hput⟩
        · exact h.right c hc hu hv hsynced
        · have hnow : a.version = s.version a.job.user := by
            rw [← hversion, ← huser]
            exact hv
          have hserved : (s.rows a.job.user).served = true := by
            have hjob := congrArg Job.kind (h.gate a ha hnow)
            rw [h.reading a ha hphase] at hjob
            by_contra hno
            rw [rightJob_of_not_served (by simpa using hno)] at hjob
            cases hjob
          rw [if_pos hnow.symm] at hreach
          subst hreach
          show c.put = s.want c.user c.node
          rw [hput, huser]
          unfold State.want
          by_cases hnil : s.reach a.job.user c.node = []
          · rw [if_pos hnil, if_neg fun hboth => hboth.2 hnil]
          · rw [if_neg hnil, if_pos ⟨hserved, hnil⟩]
      · intro u hu n hn hsynced
        refine (h.covered u hu n hn hsynced).imp_right ?_
        rintro (ho | hq | hl | ⟨b, hb, hjob, hversion, hdue⟩)
        · exact .inl ho
        · exact .inr (.inl hq)
        · exact .inr (.inr (.inl hl))
        · refine .inr (.inr (.inr ?_))
          rcases eq_or_mem_set hi hb
            { a with phase := .calling ((F.nodes.filterMap (addCall F a reach)).map Call.node) }
            with rfl | hb
          · refine ⟨_, mem_set_self hi _, hjob, hversion, ?_⟩
            -- a node that has taken a push is called either way
            have hsome : ∃ c, addCall F b reach n = some c := by
              unfold addCall
              rw [hsynced]
              split
              · exact ⟨_, rfl⟩
              · exact ⟨_, rfl⟩
            obtain ⟨c, hc⟩ := hsome
            exact List.mem_map.mpr ⟨c, List.mem_filterMap.mpr ⟨n, hn, hc⟩, (hcall hc).2.2.2.1⟩
          · exact ⟨b, hb, hjob, hversion, hdue⟩

theorem arrived_same [DecidableEq ν] (a : Attempt υ ν) (c : Call υ ν) :
    (a.arrived c).id = a.id ∧ (a.arrived c).job = a.job ∧ (a.arrived c).version = a.version ∧
      ((a.arrived c).phase = .reading → a.phase = .reading) := by
  unfold Attempt.arrived
  split
  · exact ⟨rfl, rfl, rfl, id⟩
  · split
    · exact ⟨rfl, rfl, rfl, nofun⟩
    · exact ⟨rfl, rfl, rfl, id⟩

theorem due_arrived [DecidableEq ν] {a : Attempt υ ν} {c : Call υ ν} {n : ν} (h : a.Due n) :
    (a.arrived c).Due n ∨ (c.attempt = a.id ∧ c.node = n) := by
  unfold Attempt.arrived
  split
  · exact .inl h
  · rename_i waiting hphase
    split
    · rename_i hid
      by_cases hn : n = c.node
      · exact .inr ⟨hid.symm, hn.symm⟩
      · refine .inl (List.mem_filter.mpr ⟨?_, decide_eq_true hn⟩)
        unfold Attempt.Due at h
        rw [hphase] at h
        exact h
    · exact .inl h

theorem update_update {α β δ : Type*} [DecidableEq α] [DecidableEq β] (f : α → β → δ) (a : α) (b : β)
    (v : δ) (x : α) (y : β) : Function.update f a (Function.update (f a) b v) x y =
      if x = a ∧ y = b then v else f x y := by
  by_cases hx : x = a
  · subst hx
    by_cases hy : y = b
    · simp [hy]
    · simp [hy]
  · simp [hx]

theorem inv_deliver [DecidableEq υ] [DecidableEq ν] (h : Inv F s) (k : Nat)
    (hok : InOrder F s (.deliver k)) : Inv F (s.deliver k) := by
  unfold State.deliver
  split
  · exact h
  · rename_i c hk
    have hc : c ∈ s.net := List.mem_of_getElem? hk
    have hmap : ∀ b ∈ s.running.map (fun a => a.arrived c), ∃ b₀ ∈ s.running, b.id = b₀.id ∧
        b.job = b₀.job ∧ b.version = b₀.version ∧ (b.phase = .reading → b₀.phase = .reading) := by
      intro b hb
      obtain ⟨b₀, hb₀, rfl⟩ := List.mem_map.mp hb
      exact ⟨b₀, hb₀, arrived_same b₀ c⟩
    have hnewest := update_update s.newest c.node c.user
      (max (s.newest c.node c.user) c.version)
    have hheld := update_update s.held c.node c.user c.put
    obtain ⟨hrunning, hgate, hreading, hcalls, hids⟩ :=
      h.follow hmap fun d (hd : d ∈ s.net.eraseIdx k) => .inl (List.mem_of_mem_eraseIdx hd)
    refine ⟨?_, ?_, ?_, hrunning, hgate, hreading, hcalls, hids, ?_, ?_⟩
    · intro n u
      show Function.update s.newest c.node _ n u ≤ _
      rw [hnewest]
      split
      · rename_i hboth
        rw [hboth.2]
        exact max_le (h.newest_le _ _) (h.net c hc).1
      · exact h.newest_le n u
    · exact fun d hd => h.net d (List.mem_of_mem_eraseIdx hd)
    · exact fun d hd => h.right d (List.mem_of_mem_eraseIdx hd)
    · intro u hu n hsynced hv
      show Function.update s.held c.node _ n u = s.want u n
      have hv : Function.update s.newest c.node _ n u = s.version u := hv
      rw [hnewest] at hv
      rw [hheld]
      by_cases hboth : n = c.node ∧ u = c.user
      · obtain ⟨rfl, rfl⟩ := hboth
        rw [if_pos ⟨rfl, rfl⟩] at hv ⊢
        by_cases hlate : c.version < s.newest c.node c.user
        · -- a late call that changes nothing
          rw [← hok c hk hlate]
          exact h.held _ hu _ hsynced (by omega)
        · exact h.right c hc hu (by omega) hsynced
      · rw [if_neg hboth] at hv ⊢
        exact h.held u hu n hsynced hv
    · intro u hu n hn hsynced
      show Function.update s.newest c.node _ n u = s.version u ∨ _
      rw [hnewest]
      rcases h.covered u hu n hn hsynced with hdone | ho | hq | hl | ⟨b, hb, hjob, hversion, hdue⟩
      · left
        split
        · rename_i hboth
          have hle := (h.net c hc).1
          rw [hboth.1, hboth.2] at hdone
          rw [hboth.2]
          omega
        · exact hdone
      · exact .inr (.inl ho)
      · exact .inr (.inr (.inl hq))
      · exact .inr (.inr (.inr (.inl hl)))
      · obtain ⟨-, hjob', hversion', -⟩ := arrived_same b c
        rcases due_arrived (c := c) hdue with hdue | ⟨hid, hnode⟩
        · exact .inr (.inr (.inr (.inr ⟨b.arrived c, List.mem_map.mpr ⟨b, hb, rfl⟩,
            hjob'.trans hjob, hversion'.trans hversion, hdue⟩)))
        · left
          obtain ⟨huser, hv⟩ := h.calls c hc b hb hid
          have hu : u = c.user := by rw [huser, hjob]; rfl
          have hle := h.newest_le c.node c.user
          rw [if_pos ⟨hnode.symm, hu⟩, hv, hversion, hu]
          omega

theorem inv_drop (h : Inv F s) (k : Nat) : Inv F { s with net := s.net.eraseIdx k } :=
  ⟨h.newest_le, fun c hc => h.net c (List.mem_of_mem_eraseIdx hc),
    fun c hc => h.right c (List.mem_of_mem_eraseIdx hc), h.running, h.gate, h.reading,
    fun c hc => h.calls c (List.mem_of_mem_eraseIdx hc), h.ids, h.held, h.covered⟩

/-- An attempt that ends with nothing to tell, or leaves its job behind. -/
theorem inv_end (h : Inv F s) {i : Nat} {a : Attempt υ ν} (hi : s.running[i]? = some a)
    {queue lost : List (Job υ)} (hqueue : ∀ j ∈ s.queue, j ∈ queue) (hlost : ∀ j ∈ s.lost, j ∈ lost)
    (hleft : (∀ n, ¬ a.Due n) ∨ a.job ∈ queue ∨ a.job ∈ lost) :
    Inv F { s with running := s.running.eraseIdx i, queue := queue, lost := lost } := by
  have hsub : ∀ b ∈ s.running.eraseIdx i, b ∈ s.running := fun b => List.mem_of_mem_eraseIdx
  refine ⟨h.newest_le, h.net, h.right, fun b hb => h.running b (hsub b hb),
    fun b hb => h.gate b (hsub b hb), fun b hb => h.reading b (hsub b hb),
    fun c hc b hb => h.calls c hc b (hsub b hb),
    fun b hb b' hb' => h.ids b (hsub b hb) b' (hsub b' hb'), h.held, ?_⟩
  intro u hu n hn hsynced
  refine (h.covered u hu n hn hsynced).imp_right ?_
  rintro (ho | hq | hl | ⟨b, hb, hjob, hversion, hdue⟩)
  · exact .inl ho
  · exact .inr (.inl (hqueue _ hq))
  · exact .inr (.inr (.inl (hlost _ hl)))
  · rcases eq_or_mem_eraseIdx hi hb with rfl | hb
    · rcases hleft with hnone | hq | hl
      · exact absurd hdue (hnone n)
      · exact .inr (.inl (show s.rightJob u ∈ queue from hjob ▸ hq))
      · exact .inr (.inr (.inl (show s.rightJob u ∈ lost from hjob ▸ hl)))
    · exact .inr (.inr (.inr ⟨b, hb, hjob, hversion, hdue⟩))

theorem inv_finish (h : Inv F s) (i : Nat) : Inv F (s.finish i) := by
  unfold State.finish
  split
  · rename_i hi
    exact inv_end h hi (fun _ hj => hj) (fun _ hj => hj) (.inl fun n hdue => by cases hdue)
  · exact h

theorem inv_retry (h : Inv F s) (i : Nat) : Inv F (s.retry i) := by
  unfold State.retry
  split
  · exact h
  · rename_i a hi
    exact inv_end h hi (fun _ hj => List.mem_append_left _ hj) (fun _ hj => hj)
      (.inr (.inl (List.mem_append_right _ List.mem_cons_self)))

theorem inv_giveUp (h : Inv F s) (i : Nat) : Inv F (s.giveUp i) := by
  unfold State.giveUp
  split
  · exact h
  · rename_i a hi
    exact inv_end h hi (fun _ hj => hj) (fun _ hj => List.mem_append_left _ hj)
      (.inr (.inr (List.mem_append_right _ List.mem_cons_self)))

theorem inv_step [DecidableEq υ] [DecidableEq ν] (h : Inv F s) (event : Event υ ν γ)
    (hok : InOrder F s event) : Inv F (s.step F event) := by
  cases event with
  | setStatus user old new => exact inv_of_moved h (moved_setStatus hok)
  | delete user => exact inv_of_moved h moved_delete
  | setSquads user squads => exact inv_of_moved h moved_setSquads
  | reissue user => exact inv_of_moved h moved_reissue
  | setGrants squad grants => exact inv_of_moved h moved_setGrants
  | deleteSquad squad all => exact inv_of_moved h (moved_deleteSquad hok)
  | handle i => exact inv_handle h i
  | take i => exact inv_take h i
  | readReach i torn => exact inv_readReach h i torn
  | deliver k => exact inv_deliver h k hok
  | drop k => exact inv_drop h k
  | finish i => exact inv_finish h i
  | retry i => exact inv_retry h i
  | giveUp i => exact inv_giveUp h i

end Iceslab.UserSync
