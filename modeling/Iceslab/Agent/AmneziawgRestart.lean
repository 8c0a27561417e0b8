import Iceslab.Agent.AmneziawgReplay

/-!
# An agent restart costs an AmneziaWG interface nothing

* `Kept` — what is asked of the adapter at every moment.
* `Saves` — the calls after which the state file says what memory holds.
* `restart_as_asked` — **in every run of such calls every state is as asked**.
* `removed_user_returns` — a user removed while the 3.1 interface is down is a peer again after a
  restart.
-/

set_option autoImplicit false

namespace Iceslab.Agent.Amneziawg

/-! ## What is asked -/

section Asked

variable {κ : Type} (env : Env κ) (inst : Install)

/-- The condition holds of each call where it is made. -/
def Along (P : State κ → Event → Prop) (s : State κ) : List Event → Prop
  | [] => True
  | e :: es => P s e ∧ Along P (s.step env inst e) es

/-! ## When memory is saved -/

def AddUserKept (s : State κ) (user : User) : Prop :=
  AddKept s.one user ∧
    if user.amneziaWGPublicKey = "" ∨ user.amneziaWGAllowedIP3 = "" then
      RemovalKept s.three user.userID
    else AddKept s.three user.on3

/-- **When a call leaves memory saved.**  Peers, a hand-off and a binding id change only where the
change is written, and a pushed inbound is stored only if it renders. -/
def Saves (s : State κ) : Event → Prop
  | .applyInbound port (some wire) => InboundKept (s.iface (genOf wire)) port wire
  | .applyCascade raw =>
    match readCascade raw with
    | .error _ => True
    | .ok next => HandOffKept s.one next.one ∧ HandOffKept s.three next.three
  | .retainInbounds keep => RetainKept s.one keep ∧ RetainKept s.three keep
  | .addUser user => AddUserKept s user
  | .addUserOn user inboundIDs =>
    (s.one.inboundID ∉ inboundIDs → RemovalKept s.one user.userID) ∧
      AddUserKept s (user.scoped inboundIDs s.one.inboundID s.three.inboundID)
  | .removeUser userID => RemovalKept s.three userID ∧ RemovalKept s.one userID
  | _ => True

/-- A push that was accepted, any calls about users, and then users added who were all accepted:
after a restart the push and these users change nothing. -/
def Replayed (s : State κ) : Prop :=
  ∀ (p : Push) (ws us : List Event), p.Plain → (∀ e ∈ ws, e.user.isSome) →
    (∀ e ∈ us, e.added.isSome) → (us.filterMap Event.added).Nodup →
    Along env inst Saves s (p.calls ++ (ws ++ us)) → Accepted env inst s p.calls →
    Accepted env inst (s.run env inst (p.calls ++ ws)) us →
    ∀ e ∈ p.calls ++ us,
      Quiet env inst ((s.run env inst (p.calls ++ (ws ++ us))).step env inst .restart) e

/-- The adapter, with the users that were removed and not added again. -/
structure Watched (κ : Type) where
  state : State κ
  removed : List String

def Watched.step (w : Watched κ) (e : Event) : Watched κ where
  state := w.state.step env inst e
  removed :=
    match e with
    | .removeUser userID =>
      if (w.state.call env inst e).2 = none then userID :: w.removed else w.removed
    | .addUser user => w.removed.filter (· ≠ user.userID)
    | .addUserOn user _ => w.removed.filter (· ≠ user.userID)
    | _ => w.removed

def watched : Machine (Watched κ) Event :=
  Machine.ofFun (fun w => IsNew inst w.state ∧ w.removed = []) (Watched.step env inst)

structure Kept (w : Watched κ) : Prop where
  /-- a new adapter holds per interface the same inbound, hand-off, binding id and peers -/
  restored : ∀ g, ((w.state.step env inst .restart).iface g).state = (w.state.iface g).state
  replayed : Replayed env inst w.state
  removed : ∀ userID ∈ w.removed, ∀ g, (w.state.iface g).peers.get? userID = none
  /-- what the last call brought up has exactly the peers held -/
  broughtUp : ∀ c ∈ w.state.issued, ∀ b, c.bringsUp = some b →
    ∃ g, b.1 = (inst.inbound g).interface ∧
      b.2.map Conf.peers = some (sortedPeers (w.state.iface g).peers)

end Asked

section Decidable

instance (i : Iface) (user : User) : Decidable (AddKept i user) :=
  inferInstanceAs (Decidable (_ ∨ _))

instance (i : Iface) (userID : String) : Decidable (RemovalKept i userID) :=
  inferInstanceAs (Decidable (_ ∨ _))

instance (i : Iface) (next : Option ChainTProxy) : Decidable (HandOffKept i next) :=
  inferInstanceAs (Decidable (_ ∨ _))

instance (i : Iface) (keep : List String) : Decidable (RetainKept i keep) :=
  inferInstanceAs (Decidable (_ ∨ _))

variable {κ : Type} (s : State κ)

instance (user : User) : Decidable (AddUserKept s user) := inferInstanceAs (Decidable (_ ∧ _))

instance (e : Event) : Decidable (Saves s e) := by
  unfold Saves
  split
  · infer_instance
  · split <;> infer_instance
  all_goals infer_instance

end Decidable

/-! ## One interface after the other -/

section Interfaces

variable {κ : Type} {s : State κ} {g g' : Gen} {f : Session κ → Result κ}

/-- Memory is saved on both interfaces, and what the call brought up is on one of `gs`, from a file
with the peers it holds. -/
structure Good (inst : Install) (gs : List Gen) (s : State κ) : Prop where
  loaded : ∀ g, Loaded (inst.inbound g) (s.iface g)
  issued : ∀ c ∈ s.issued, ∀ b, c.bringsUp = some b → ∃ g ∈ gs, b.1 = (inst.inbound g).interface ∧
    b.2.map Conf.peers = some (sortedPeers (s.iface g).peers)

variable {inst : Install} {gs : List Gen}

theorem Good.on (h : Good inst gs s) (hg : g ∉ gs)
    (hm : Moved (inst.inbound g) (s.session g) (f (s.session g)).1) :
    Good inst (g :: gs) (s.on g f).1 := by
  refine ⟨fun g' => ?_, ?_⟩
  · by_cases hg' : g' = g
    · subst hg'
      rw [on_iface_self]
      exact hm.loaded
    · rw [on_iface_ne hg']
      exact h.loaded g'
  · intro c hc b hb
    obtain ⟨cs, hcs, hfits⟩ := hm.issued
    rw [on_issued, hcs] at hc
    rcases List.mem_append.mp hc with hc | hc
    · obtain ⟨g', hg', hfit⟩ := h.issued c hc b hb
      refine ⟨g', List.mem_cons_of_mem g hg', ?_⟩
      rw [on_iface_ne (by rintro rfl; exact hg hg')]
      exact hfit
    · refine ⟨g, List.mem_cons_self, ?_⟩
      rw [on_iface_self]
      exact hfits c hc b hb

theorem Good.mono (h : Good inst gs s) {gs' : List Gen} (hgs : ∀ g ∈ gs, g ∈ gs') :
    Good inst gs' s := by
  refine ⟨h.loaded, fun c hc b hb => ?_⟩
  obtain ⟨g, hg, hfit⟩ := h.issued c hc b hb
  exact ⟨g, hgs g hg, hfit⟩

end Interfaces

/-! ## What a call keeps -/

variable {e : Event}

section Calls

variable {κ : Type} {env : Env κ} {inst : Install} {s : State κ}

theorem good_start (h : ∀ g, Loaded (inst.inbound g) (s.iface g)) :
    Good inst [] { s with issued := [] } :=
  ⟨h, by simp⟩

variable (hw : env.Writes)
include hw

theorem good_addUser3 {gs : List Gen} (h : Good inst gs s) (hgs : Gen.three ∉ gs) {user : User}
    (hk : if user.amneziaWGPublicKey = "" ∨ user.amneziaWGAllowedIP3 = "" then
      RemovalKept s.three user.userID else AddKept s.three user.on3) :
    Good inst (.three :: gs) (addUser3 env inst user s).1 := by
  unfold addUser3
  split
  · rename_i hnone
    rw [if_pos hnone] at hk
    exact h.on hgs (removeOne_moved hw inst .three (h.loaded .three) hk)
  · rename_i hsome
    rw [if_neg hsome] at hk
    exact h.on hgs (addPeer_moved hw inst .three (h.loaded .three) hk)

theorem good_addUser (h : Good inst [] s) {user : User} (hk : AddUserKept s user) :
    Good inst [.three, .one] (addUser env inst user s).1 := by
  have hone := h.on (List.not_mem_nil) (addPeer_moved hw inst .one (h.loaded .one) hk.1)
  have hsame : (s.on .one (addPeer env inst .one user)).1.three = s.three := rfl
  refine andThen_fst (P := Good inst [.three, .one]) (hone.mono (by simp)) fun _ => ?_
  refine good_addUser3 hw hone (by simp) ?_
  rw [hsame]
  exact hk.2

omit hw in
theorem good_both {g g' : Gen} (hne : g' ≠ g) {f f' : Session κ → Result κ}
    (h : Good inst [] s) (hf : Moved (inst.inbound g) (s.session g) (f (s.session g)).1)
    (hf' : ∀ t : State κ, t.iface g' = s.iface g' →
      Moved (inst.inbound g') (t.session g') (f' (t.session g')).1) :
    Good inst [g', g] (andThen (s.on g f) fun t => t.on g' f').1 := by
  have hfirst := h.on (List.not_mem_nil) hf
  refine andThen_fst (P := Good inst [g', g]) (hfirst.mono (by simp)) fun _ => ?_
  exact hfirst.on (by simpa using hne) (hf' _ (on_iface_ne hne))

theorem step_good (h : ∀ g, Loaded (inst.inbound g) (s.iface g)) (hk : Saves s e) :
    Good inst [.three, .one] (s.step env inst e) := by
  have hs := good_start h
  have hthree : Gen.three ≠ Gen.one := by simp
  unfold State.step State.call
  cases e with
  | applyInbound port cfg =>
    cases cfg with
    | none => exact hs.mono (by simp)
    | some wire =>
      refine (hs.on (List.not_mem_nil)
        (applyInboundOne_moved hw inst (genOf wire) (h _) hk)).mono ?_
      cases genOf wire <;> simp
  | applyCascade raw =>
    simp only [applyCascade, Saves] at hk ⊢
    cases hread : readCascade raw with
    | error e => exact hs.mono (by simp)
    | ok next =>
      rw [hread] at hk
      refine good_both hthree hs (applyCascadeOne_moved hw inst .one (h .one) hk.1) ?_
      intro t ht
      exact applyCascadeOne_moved hw inst .three (by rw [session_iface, ht]; exact h .three)
        (by rw [session_iface, ht]; exact hk.2)
  | retainInbounds keep =>
    refine good_both hthree hs (retainOne_moved hw inst .one (h .one) hk.1) ?_
    intro t ht
    exact retainOne_moved hw inst .three (by rw [session_iface, ht]; exact h .three)
      (by rw [session_iface, ht]; exact hk.2)
  | idle =>
    refine good_both hthree hs (idleOne_moved hw inst .one (h .one)) ?_
    intro t ht
    exact idleOne_moved hw inst .three (by rw [session_iface, ht]; exact h .three)
  | addUser user => exact good_addUser hw hs hk
  | addUserOn user ids =>
    obtain ⟨hremoval, hadd⟩ := hk
    simp only [addUserOn]
    split
    · exact good_addUser hw hs hadd
    · rename_i hid
      have hone := hs.on (List.not_mem_nil)
        (removeOne_moved hw inst .one (h .one) (hremoval hid))
      refine andThen_fst (P := Good inst [.three, .one]) (hone.mono (by simp)) fun _ => ?_
      rw [addUser_three (by simp [User.scoped, hid])]
      refine good_addUser3 hw hone (by simp) ?_
      have hsame : (State.on { s with issued := [] } .one
          (removeOne env inst .one user.userID)).1.three = s.three := rfl
      rw [hsame]
      exact hadd.2
  | removeUser userID =>
    refine (good_both hthree.symm hs (removeOne_moved hw inst .three (h .three) hk.1) ?_).mono ?_
    · intro t ht
      exact removeOne_moved hw inst .one (by rw [session_iface, ht]; exact h .one)
        (by rw [session_iface, ht]; exact hk.2)
    · simp
  | start =>
    refine good_both hthree hs (startOne_moved hw inst .one (h .one)) ?_
    intro t ht
    exact startOne_moved hw inst .three (by rw [session_iface, ht]; exact h .three)
  | restart => exact ⟨fun g => by cases g <;> rfl, by simp [renew]⟩

/-! ### Peers -/

omit hw in
theorem peers_both {g g' : Gen} {f f' : Session κ → Result κ}
    (hf : ∀ t : Session κ, (f t).1.iface.peers = t.iface.peers)
    (hf' : ∀ t : Session κ, (f' t).1.iface.peers = t.iface.peers) (i : Gen) :
    ((andThen (s.on g f) fun t => t.on g' f').1.iface i).peers = (s.iface i).peers := by
  have hon : ∀ (j : Gen) {h : Session κ → Result κ} (t : State κ),
      (∀ t : Session κ, (h t).1.iface.peers = t.iface.peers) →
      ((t.on j h).1.iface i).peers = (t.iface i).peers := by
    intro j h t hh
    by_cases hi : i = j
    · subst hi
      rw [on_iface_self]
      exact hh _
    · rw [on_iface_ne hi]
  exact andThen_fst (P := fun r : State κ => (r.iface i).peers = (s.iface i).peers) (hon g s hf)
    fun _ => (hon g' _ hf').trans (hon g s hf)

theorem peers_step (he : e.user = none) (h : ∀ g, Loaded (inst.inbound g) (s.iface g)) (g : Gen) :
    ((s.step env inst e).iface g).peers = (s.iface g).peers := by
  have hfresh : (State.iface { s with issued := [] } g).peers = (s.iface g).peers := by
    cases g <;> rfl
  unfold State.step State.call
  rw [← hfresh]
  cases e with
  | applyInbound port cfg =>
    cases cfg with
    | none => rfl
    | some wire =>
      simp only [applyInbound]
      by_cases hg : g = genOf wire
      · subst hg
        rw [on_iface_self]
        exact applyInboundOne_peers hw inst (genOf wire) port wire _
      · rw [on_iface_ne hg]
  | applyCascade raw =>
    simp only [applyCascade]
    cases readCascade raw with
    | error e => rfl
    | ok next =>
      exact peers_both (applyCascadeOne_peers hw inst .one next.one)
        (applyCascadeOne_peers hw inst .three next.three) g
  | retainInbounds keep =>
    have hkept : ∀ g (t : Session κ), (retainOne env inst g keep t).iface.peers = t.iface.peers := by
      intro g t
      have hstate := congrArg SavedState.peers (retainOne_state env inst g keep t)
      refine hstate.trans ?_
      split <;> rfl
    exact peers_both (hkept .one) (hkept .three) g
  | idle =>
    have hkept : ∀ g (t : Session κ), (idleOne env inst g t).iface.peers = t.iface.peers :=
      fun g t => congrArg SavedState.peers (idleOne_state inst g)
    exact peers_both (hkept .one) (hkept .three) g
  | start =>
    have hkept : ∀ g (t : Session κ), (startOne env inst g t).1.iface.peers = t.iface.peers :=
      fun g t => congrArg SavedState.peers (startOne_state hw inst g)
    exact peers_both (hkept .one) (hkept .three) g
  | restart =>
    have hg := congrArg SavedState.peers (h g)
    cases g <;> exact hg
  | addUser user => simp [Event.user] at he
  | addUserOn user ids => simp [Event.user] at he
  | removeUser userID => simp [Event.user] at he

/-- A user who is no peer of either interface becomes one by being added alone. -/
theorem gone_step {userID : String} (he : e.added ≠ some userID)
    (h : ∀ g, Loaded (inst.inbound g) (s.iface g))
    (hgone : ∀ g, (s.iface g).peers.get? userID = none) (g : Gen) :
    ((s.step env inst e).iface g).peers.get? userID = none := by
  cases huser : e.user with
  | none =>
    rw [peers_step hw huser h]
    exact hgone g
  | some id =>
    by_cases hid : userID = id
    · subst hid
      cases e with
      | removeUser userID' =>
        obtain rfl := Option.some.inj huser
        have hoff : ∀ g' (t : State κ), (∀ g, (t.iface g).peers.get? userID' = none) →
            ∀ g, ((t.on g' (removeOne env inst g' userID')).1.iface g).peers.get? userID' =
              none := by
          intro g' t ht g
          by_cases hg : g = g'
          · subst hg
            rw [on_iface_self]
            exact removeOne_gone hw inst g userID' _
          · rw [on_iface_ne hg]
            exact ht g
        have hfresh : ∀ g, (State.iface { s with issued := [] } g).peers.get? userID' = none := by
          intro g
          cases g with
          | one => exact hgone .one
          | three => exact hgone .three
        exact andThen_fst (P := fun t : State κ => ∀ g, (t.iface g).peers.get? userID' = none)
          (hoff .three _ hfresh) (fun _ => hoff .one _ (hoff .three _ hfresh)) g
      | addUser user => exact absurd huser he
      | addUserOn user ids => exact absurd huser he
      | _ => simp [Event.user] at huser
    · rw [((onlyUserOf_call inst hw huser s) g).peers userID hid]
      exact hgone g

/-- A removal that is answered nil took the user off both interfaces. -/
theorem gone_of_removed {userID : String}
    (h : (s.call env inst (.removeUser userID)).2 = none) (g : Gen) :
    ((s.step env inst (.removeUser userID)).iface g).peers.get? userID = none := by
  obtain ⟨hthree, -⟩ := andThen_eq_none.mp h
  have heq : s.step env inst (.removeUser userID) =
      ((State.on { s with issued := [] } .three (removeOne env inst .three userID)).1.on .one
        (removeOne env inst .one userID)).1 := by
    unfold State.step State.call
    exact congrArg Prod.fst (andThen_of_none hthree)
  rw [heq]
  cases g with
  | one => exact removeOne_gone hw inst .one userID _
  | three => exact removeOne_gone hw inst .three userID _

end Calls

/-! ## Runs -/

section Runs

variable {κ : Type} {env : Env κ} {inst : Install} {s : State κ}

theorem restart_state (h : ∀ g, Loaded (inst.inbound g) (s.iface g)) (g : Gen) :
    ((s.step env inst .restart).iface g).state = (s.iface g).state := by
  cases g with
  | one => exact h .one
  | three => exact h .three

theorem restart_started (g : Gen) : ((s.step env inst .restart).iface g).started = false := by
  cases g <;> rfl

variable (hw : env.Writes)
include hw

theorem loaded_run {es : List Event} (h : ∀ g, Loaded (inst.inbound g) (s.iface g))
    (hk : Along env inst Saves s es) (g : Gen) :
    Loaded (inst.inbound g) ((s.run env inst es).iface g) := by
  induction es generalizing s with
  | nil => exact h g
  | cons e es ih => exact ih (step_good hw h hk.1).loaded hk.2

variable (inst) in
/-- Calls about users leave the inbounds and the ids alone, and the peers of every other user. -/
theorem onlyUsers_run {es : List Event} (hes : ∀ e ∈ es, e.user.isSome) (g : Gen) :
    ((s.run env inst es).iface g).inbound = (s.iface g).inbound ∧
      ((s.run env inst es).iface g).inboundID = (s.iface g).inboundID ∧
      ∀ id, (∀ e ∈ es, e.user ≠ some id) →
        ((s.run env inst es).iface g).peers.get? id = (s.iface g).peers.get? id := by
  induction es generalizing s with
  | nil => exact ⟨rfl, rfl, fun _ _ => rfl⟩
  | cons e es ih =>
    obtain ⟨id', hid'⟩ := Option.isSome_iff_exists.mp (hes e List.mem_cons_self)
    obtain ⟨hin, hinID, hpeers⟩ := ih (s := s.step env inst e)
      fun e' he' => hes e' (List.mem_cons_of_mem e he')
    have honly := onlyUserOf_call inst hw hid' s g
    refine ⟨hin.trans honly.inbound, hinID.trans honly.inboundID, fun id hid => ?_⟩
    refine (hpeers id fun e' he' => hid e' (List.mem_cons_of_mem e he')).trans ?_
    exact honly.peers id fun heq => hid e List.mem_cons_self (heq ▸ hid')

omit hw in
theorem user_of_added {id : String} (h : e.added = some id) : e.user = some id := by
  cases e <;> simp_all [Event.added, Event.user]

variable (inst) in
/-- Different users do not disturb one another. -/
theorem settled_run {us : List Event} (hus : ∀ e ∈ us, e.added.isSome)
    (hnodup : (us.filterMap Event.added).Nodup) (h : Accepted env inst s us) :
    ∀ e ∈ us, Settled (s.run env inst us) e := by
  induction us generalizing s with
  | nil => simp
  | cons e us ih =>
    obtain ⟨hnil, hrest⟩ := h
    obtain ⟨id, hid⟩ := Option.isSome_iff_exists.mp (hus e List.mem_cons_self)
    have hus' : ∀ e' ∈ us, e'.added.isSome := fun e' he' => hus e' (List.mem_cons_of_mem e he')
    rw [List.filterMap_cons_some hid, List.nodup_cons] at hnodup
    intro e' he'
    rcases List.mem_cons.mp he' with rfl | he'
    · have hset := settled_of_accepted inst hw hnil
      have huser : ∀ e ∈ us, e.user.isSome := by
        intro e he
        obtain ⟨id', hid'⟩ := Option.isSome_iff_exists.mp (hus' e he)
        simp [user_of_added hid']
      have hother : ∀ e ∈ us, e.user ≠ some id := by
        intro e he heq
        obtain ⟨id', hid'⟩ := Option.isSome_iff_exists.mp (hus' e he)
        rw [user_of_added hid'] at heq
        exact hnodup.1 (List.mem_filterMap.mpr ⟨e, he, hid'.trans heq⟩)
      have hrun := onlyUsers_run inst hw (s := s.step env inst e') huser
      exact hset.congr hid (fun g => (hrun g).2.1) (fun g => (hrun g).2.2 id hother)
    · exact ih hus' hnodup.2 hrest e' he'

theorem replayed (h : ∀ g, Loaded (inst.inbound g) (s.iface g)) : Replayed env inst s := by
  intro p ws us hp hws hus hnodup hk hpush haccepted
  obtain ⟨t, ht⟩ : ∃ t, t = s.run env inst (p.calls ++ ws) := ⟨_, rfl⟩
  have hrun : s.run env inst (p.calls ++ (ws ++ us)) = t.run env inst us := by
    rw [ht, ← List.append_assoc, run_append]
  have hloaded := loaded_run hw h hk
  rw [hrun] at hloaded ⊢
  rw [← ht] at haccepted
  obtain ⟨r, hr⟩ : ∃ r, r = (t.run env inst us).step env inst .restart := ⟨_, rfl⟩
  have hstate : ∀ g, (r.iface g).state = ((t.run env inst us).iface g).state := by
    rw [hr]
    exact restart_state hloaded
  have hissued : r.issued = [] := by rw [hr]; rfl
  have huser : ∀ e ∈ us, e.user.isSome := by
    intro e he
    obtain ⟨id, hid⟩ := Option.isSome_iff_exists.mp (hus e he)
    simp [user_of_added hid]
  rw [← hr]
  intro e he
  rcases List.mem_append.mp he with he | he
  · have hholds := holds_of_accepted hw hp hpush
    have hsame : ∀ g, (r.iface g).inbound = ((s.run env inst p.calls).iface g).inbound ∧
        (r.iface g).inboundID = ((s.run env inst p.calls).iface g).inboundID := by
      intro g
      have hw' := onlyUsers_run inst hw (s := s.run env inst p.calls) hws g
      have hu' := onlyUsers_run inst hw (s := t) huser g
      rw [ht, run_append] at hu'
      have hin := congrArg SavedState.inbound (hstate g)
      have hid := congrArg SavedState.inboundID (hstate g)
      rw [ht, run_append] at hin hid
      exact ⟨hin.trans (hu'.1.trans hw'.1), hid.trans (hu'.2.1.trans hw'.2.1)⟩
    refine Holds.quiet hp (hholds.congr (fun g => (hsame g).1) fun g => (hsame g).2) hissued ?_ e he
    rw [hr]
    exact restart_started
  · obtain ⟨id, hid⟩ := Option.isSome_iff_exists.mp (hus e he)
    have hset := settled_run inst hw hus hnodup haccepted e he
    refine Settled.quiet ?_ (hus e he) (hset.congr hid
      (fun g => congrArg SavedState.inboundID (hstate g))
      fun g => congrArg (fun st => st.peers.get? id) (hstate g)) hissued
    intro g e' he'
    have hpeers : (r.iface g).peers = ((t.run env inst us).iface g).peers :=
      congrArg SavedState.peers (hstate g)
    rw [hpeers] at he'
    exact (hloaded g).sane.peers e' he'

/-- What the machine keeps of itself. -/
structure WatchedInv (env : Env κ) (inst : Install) (w : Watched κ) : Prop where
  good : Good inst [.three, .one] w.state
  removed : ∀ userID ∈ w.removed, ∀ g, (w.state.iface g).peers.get? userID = none

theorem watchedInv_step {w : Watched κ} (h : WatchedInv env inst w)
    (hk : Saves w.state e) : WatchedInv env inst (w.step env inst e) := by
  refine ⟨step_good hw h.good.loaded hk, ?_⟩
  intro userID hu g
  have hkept : userID ∈ w.removed → e.added ≠ some userID →
      ((w.state.step env inst e).iface g).peers.get? userID = none :=
    fun hu he => gone_step hw he h.good.loaded (h.removed userID hu) g
  cases e with
  | removeUser id =>
    simp only [Watched.step] at hu ⊢
    split at hu
    · rename_i hnil
      rcases List.mem_cons.mp hu with rfl | hu
      · exact gone_of_removed hw hnil g
      · exact hkept hu (by simp [Event.added])
    · exact hkept hu (by simp [Event.added])
  | addUser user =>
    obtain ⟨hu, hne⟩ := List.mem_filter.mp hu
    exact hkept hu fun h => by simp [Option.some.inj h] at hne
  | addUserOn user ids =>
    obtain ⟨hu, hne⟩ := List.mem_filter.mp hu
    exact hkept hu fun h => by simp [Option.some.inj h] at hne
  | applyInbound port cfg => exact hkept hu (by simp [Event.added])
  | applyCascade raw => exact hkept hu (by simp [Event.added])
  | retainInbounds keep => exact hkept hu (by simp [Event.added])
  | idle => exact hkept hu (by simp [Event.added])
  | start => exact hkept hu (by simp [Event.added])
  | restart => exact hkept hu (by simp [Event.added])

omit hw in
theorem watchedInv_start {w : Watched κ} (h : (watched env inst).start w) :
    WatchedInv env inst w := by
  obtain ⟨⟨hone, hthree, hissued⟩, hremoved⟩ := h
  refine ⟨⟨fun g => ?_, by simp [hissued]⟩, by simp [hremoved]⟩
  cases g with
  | one =>
    show Loaded (inst.inbound .one) w.state.one
    rw [hone]
    rfl
  | three =>
    show Loaded (inst.inbound .three) w.state.three
    rw [hthree]
    rfl

/-- **An agent restart costs an interface nothing**, in every run of calls that leave memory
saved. -/
theorem restart_as_asked {w₀ w : Watched κ} {steps : List (Watched κ × Event × Watched κ)}
    (h : (watched env inst).Run w₀ steps w) (h₀ : (watched env inst).start w₀)
    (hk : ∀ st ∈ steps, Saves st.1.state st.2.1) : Kept env inst w := by
  have hinv : WatchedInv env inst w := by
    refine h.keeps (fun st hst hst₁ => ?_) (watchedInv_start h₀)
    have hstep : st.2.2 = st.1.step env inst st.2.1 := h.step_of_mem st hst
    rw [hstep]
    exact watchedInv_step hw hst₁ (hk st hst)
  refine ⟨restart_state hinv.good.loaded, replayed hw hinv.good.loaded, hinv.removed, ?_⟩
  intro c hc b hb
  obtain ⟨g, -, hfit⟩ := hinv.good.issued c hc b hb
  exact ⟨g, hfit⟩

end Runs

/-! ## Two runs -/

/-- A system on which everything goes well. -/
def calmEnv : Env Unit where
  run _ _ := ((), ⟨true, false⟩)
  interfaceExists _ _ := false
  writeConf _ _ := ((), .done)
  writeState _ _ := ((), .done)

theorem calmEnv_writes : calmEnv.Writes := ⟨fun _ _ => rfl, fun _ _ => rfl⟩

def freshInstall : Install where
  managed := true
  systemctl := true
  one := ⟨"awg0", 51820, "", "", .zero, [], [], none, none⟩
  interface := by decide

/-- A node no push has reached yet. -/
def freshNode : Watched Unit :=
  ⟨⟨newOne (freshInstall.inbound .one) none none, newOne (freshInstall.inbound .three) none none, (),
    []⟩, []⟩

theorem freshNode_start : (watched calmEnv freshInstall).start freshNode :=
  ⟨⟨rfl, rfl, rfl⟩, rfl⟩

def someKey : String := "EAAAAAAAAAAAAAAAAAAAAAAAAAAAAAAAAAAAAAAAAAA="

def inboundOne : InboundCfgWire where
  subnet := "10.66.66.0/24"
  serverPrivateKey := someKey
  obfuscation := { Obfuscation.zero with h1 := 5, h2 := 6, h3 := 7, h4 := 8 }
  listenPort := 443
  inboundId := "binding-1"
  awgProtocol := 1
  geometry3 := none

def savedCalls : List Event := [.applyInbound 443 (some inboundOne), .restart, .start]

theorem restart_as_asked_savedCalls :
    Kept calmEnv freshInstall (savedCalls.foldl (Watched.step calmEnv freshInstall) freshNode) :=
  restart_as_asked calmEnv_writes (Machine.run_trace _ _ freshNode savedCalls) freshNode_start
    (by decide)

/-- The 3.1 interface is down, and one user is remembered for when it comes back. -/
def idleThree : SavedState where
  inbound := freshInstall.inbound .three
  inboundID := "binding-3"
  peers := OrderedMap.empty.set "user" ⟨someKey, "10.77.77.2/32"⟩

def idleNode : Watched Unit :=
  ⟨⟨newOne (freshInstall.inbound .one) none none,
    newOne (freshInstall.inbound .three) none (some idleThree), (), []⟩, []⟩

theorem idleThree_loads : loadState (freshInstall.inbound .three) (some idleThree) = idleThree := by
  refine loadState_some ⟨rfl, rfl, rfl, id, ?_⟩
  intro e he
  obtain rfl := List.mem_singleton.mp he
  decide

/-- A removal on a 3.1 interface without a key is not written: a restart undoes it. -/
theorem removal_forgotten {κ : Type} {env : Env κ} {inst : Install} {s : State κ} {userID : String}
    (hone : s.one.peers.get? userID = none) (hthree : s.three.peers.get? userID ≠ none)
    (hkey : s.three.inbound.privateKey = "") (hloaded : Loaded (inst.inbound .three) s.three) :
    (s.call env inst (.removeUser userID)).2 = none ∧
      ((s.step env inst (.removeUser userID)).step env inst .restart).three.peers =
        s.three.peers := by
  have hoff : removeOne env inst .three userID (State.session { s with issued := [] } .three) =
      ((State.session { s with issued := [] } .three).setPeers
        (s.three.peers.filter (· ≠ userID)), none) := by
    have hheld : ¬ (State.session { s with issued := [] } .three).iface.peers.get? userID = none :=
      hthree
    have hno : remembered .three ((State.session { s with issued := [] } .three).setPeers
        ((State.session { s with issued := [] } .three).iface.peers.filter (· ≠ userID))) = true :=
      decide_eq_true ⟨rfl, hkey⟩
    unfold removeOne
    rw [if_neg hheld]
    dsimp only
    rw [if_pos hno]
    rfl
  have hcall : s.call env inst (.removeUser userID) =
      ({ s with
          issued := []
          three := { s.three with peers := s.three.peers.filter (· ≠ userID) } }, none) := by
    unfold State.call removeUser
    dsimp only
    have hnil : (State.on { s with issued := [] } .three
        (removeOne env inst .three userID)).2 = none := by
      rw [on_snd, hoff]
    rw [andThen_of_none hnil]
    simp only [State.on, hoff]
    exact on_of_eq (removeOne_quiet inst .one hone)
  refine ⟨by rw [hcall], ?_⟩
  unfold State.step
  rw [hcall]
  exact congrArg SavedState.peers hloaded

/-- **A user removed while the 3.1 interface is down is a peer of it again** after a restart, though
the removal was answered nil and every write succeeds. -/
theorem removed_user_returns :
    ∃ steps w, (watched calmEnv freshInstall).Run idleNode steps w ∧
      (watched calmEnv freshInstall).start idleNode ∧
      Accepted calmEnv freshInstall idleNode.state [.removeUser "user", .restart] ∧
      "user" ∈ w.removed ∧ w.state.three.peers.get? "user" ≠ none ∧
      ¬ Kept calmEnv freshInstall w := by
  have hget : idleThree.peers.get? "user" ≠ none := by decide
  have hstate : idleNode.state.three.state = idleThree := idleThree_loads
  have hpeers : idleNode.state.three.peers = idleThree.peers := congrArg SavedState.peers hstate
  have hkey : idleNode.state.three.inbound.privateKey = "" :=
    congrArg (fun st => st.inbound.privateKey) hstate
  obtain ⟨hnil, hback⟩ := @removal_forgotten _ calmEnv freshInstall idleNode.state "user" rfl
    (by rw [hpeers]; exact hget) hkey rfl
  have hremoved : "user" ∈ (Watched.step calmEnv freshInstall
      (Watched.step calmEnv freshInstall idleNode (.removeUser "user")) .restart).removed := by
    simp only [Watched.step]
    rw [if_pos hnil]
    exact List.mem_cons_self
  have hheld : ((idleNode.state.step calmEnv freshInstall (.removeUser "user")).step calmEnv
      freshInstall .restart).three.peers.get? "user" ≠ none := by
    rw [hback, hpeers]
    exact hget
  let es : List Event := [.removeUser "user", .restart]
  refine ⟨_, es.foldl (Watched.step calmEnv freshInstall) idleNode, Machine.run_trace _ _ idleNode es,
    ⟨⟨rfl, rfl, rfl⟩, rfl⟩, ⟨hnil, rfl, trivial⟩, hremoved, hheld, fun hkept => ?_⟩
  exact hheld (hkept.removed "user" hremoved .three)

end Iceslab.Agent.Amneziawg
