import Iceslab.Agent.AmneziawgSaved

/-!
# A push and its users made again

What an accepted push and an accepted user leave in memory, and that the same push and the same
user change nothing where memory says so.

* `Push.calls` — what the agent's server calls on the adapter for one push.
* `Holds`, `Takes` — memory is as a push left it; `holds_of_accepted`, `Holds.quiet`.
* `Settled` — memory is as an added user left it; `settled_of_accepted`, `Settled.quiet`.
-/

set_option autoImplicit false

namespace Iceslab.Agent.Amneziawg

/-! ## Pushes -/

/-- An inbound as a push carries it. -/
structure PushedInbound where
  id : String
  port : Int
  cfg : InboundCfgWire
deriving DecidableEq

structure Push where
  cascade : Option (Option CascadeWire)
  inbounds : List PushedInbound

def Push.ids (p : Push) : List String := p.inbounds.map PushedInbound.id

/-- The push names no AmneziaWG inbound and no hand-off. -/
def Push.Unnamed (p : Push) : Prop := p.inbounds = [] ∧ p.cascade = none

instance (p : Push) : Decidable p.Unnamed := inferInstanceAs (Decidable (_ ∧ _))

/-- What `applyPushKept` calls on this adapter, in its order. -/
def Push.calls (p : Push) : List Event :=
  .applyCascade p.cascade :: ((if p.Unnamed then [.idle] else []) ++
    (p.inbounds.map (fun i => .applyInbound i.port (some i.cfg)) ++ [.retainInbounds p.ids]))

/-- One inbound of a generation, each under its own id: of two the agent keeps the last. -/
structure Push.Plain (p : Push) : Prop where
  ids : ∀ i ∈ p.inbounds, i.id ≠ "" ∧ i.cfg.inboundId = i.id
  gens : (p.inbounds.map fun i => genOf i.cfg).Nodup

/-- The user a call is about. -/
def Event.user : Event → Option String
  | .addUser user => some user.userID
  | .addUserOn user _ => some user.userID
  | .removeUser userID => some userID
  | _ => none

/-- The user a call adds. -/
def Event.added : Event → Option String
  | .addUser user => some user.userID
  | .addUserOn user _ => some user.userID
  | _ => none

section Runs

variable {κ : Type} (env : Env κ) (inst : Install)

def State.run (s : State κ) (es : List Event) : State κ := es.foldl (State.step env inst) s

/-- Each call is answered nil. -/
def Accepted (s : State κ) : List Event → Prop
  | [] => True
  | e :: es => (s.call env inst e).2 = none ∧ Accepted (s.step env inst e) es

/-- The call is answered nil, changes nothing and issues no command. -/
def Quiet (s : State κ) (e : Event) : Prop := s.call env inst e = (s, none)

end Runs

/-! ## One interface -/

section Interfaces

variable {κ : Type} {s : State κ} {g g' : Gen} {f : Session κ → Result κ}

@[simp] theorem on_iface_self : (s.on g f).1.iface g = (f (s.session g)).1.iface := by
  cases g <;> rfl

theorem on_iface_ne (h : g' ≠ g) : (s.on g f).1.iface g' = s.iface g' := by
  cases g <;> cases g' <;> first | rfl | contradiction

@[simp] theorem on_issued : (s.on g f).1.issued = (f (s.session g)).1.issued := rfl

@[simp] theorem on_snd : (s.on g f).2 = (f (s.session g)).2 := rfl

@[simp] theorem session_iface : (s.session g).iface = s.iface g := rfl

theorem on_id : s.on g (fun t => (t, none)) = (s, none) := by
  cases g <;> rfl

theorem on_of_eq (h : f (s.session g) = (s.session g, none)) : s.on g f = (s, none) := by
  have := on_id (s := s) (g := g)
  simp only [State.on] at this ⊢
  rw [h]
  exact this

end Interfaces

/-! ## Users -/

section Users

variable {κ : Type} {env : Env κ} {inst : Install} {s r : State κ} {user : User} {e : Event}
  {id userID : String}

/-- The user is on the interfaces they have an address for, and off the 3.1 one without it. -/
def UserSettled (s : State κ) (user : User) : Prop :=
  AddSettled s.one user ∧
    if user.amneziaWGPublicKey = "" ∨ user.amneziaWGAllowedIP3 = "" then
      s.three.peers.get? user.userID = none
    else AddSettled s.three user.on3

/-- Memory is as the call left it. -/
def Settled (s : State κ) : Event → Prop
  | .addUser user => UserSettled s user
  | .addUserOn user inboundIDs =>
    (s.one.inboundID ∉ inboundIDs → s.one.peers.get? user.userID = none) ∧
      UserSettled s (user.scoped inboundIDs s.one.inboundID s.three.inboundID)
  | _ => True

theorem UserSettled.congr (h : UserSettled s user)
    (hpeers : ∀ g, (r.iface g).peers.get? user.userID = (s.iface g).peers.get? user.userID) :
    UserSettled r user := by
  have h1 : r.one.peers.get? user.userID = s.one.peers.get? user.userID := hpeers .one
  have h3 : r.three.peers.get? user.userID = s.three.peers.get? user.userID := hpeers .three
  have h3' : r.three.peers.get? user.on3.userID = s.three.peers.get? user.on3.userID := h3
  unfold UserSettled AddSettled at h ⊢
  rw [h1, h3, h3']
  exact h

theorem Settled.congr (he : e.added = some id) (h : Settled s e)
    (hid : ∀ g, (r.iface g).inboundID = (s.iface g).inboundID)
    (hpeers : ∀ g, (r.iface g).peers.get? id = (s.iface g).peers.get? id) : Settled r e := by
  have hid1 : r.one.inboundID = s.one.inboundID := hid .one
  have hid3 : r.three.inboundID = s.three.inboundID := hid .three
  cases e with
  | addUser user =>
    obtain rfl := Option.some.inj he
    exact UserSettled.congr h hpeers
  | addUserOn user ids =>
    obtain rfl := Option.some.inj he
    simp only [Settled, hid1, hid3] at h ⊢
    have h1 : r.one.peers.get? user.userID = s.one.peers.get? user.userID := hpeers .one
    refine ⟨?_, UserSettled.congr h.2 hpeers⟩
    rw [h1]
    exact h.1
  | _ => trivial

/-- Nothing but the peers of one user change, on either interface. -/
def OnlyUserOf (userID : String) (s r : State κ) : Prop :=
  ∀ g, OnlyUser userID (s.iface g) (r.iface g)

theorem OnlyUserOf.refl (userID : String) (s : State κ) : OnlyUserOf userID s s :=
  fun _ => .of_state rfl

theorem OnlyUserOf.trans {t : State κ} (h : OnlyUserOf userID s r)
    (h' : OnlyUserOf userID r t) : OnlyUserOf userID s t :=
  fun g => (h g).trans (h' g)

theorem onlyUserOf_on (g : Gen) {f : Session κ → Result κ}
    (hf : ∀ t : Session κ, OnlyUser userID t.iface (f t).1.iface) (s : State κ) :
    OnlyUserOf userID s (s.on g f).1 := by
  intro g'
  by_cases hg : g' = g
  · subst hg
    rw [on_iface_self]
    exact hf (s.session g')
  · rw [on_iface_ne hg]
    exact .of_state rfl

variable (hw : env.Writes)
include hw

theorem onlyUserOf_addUser3 (user : User) (s : State κ) :
    OnlyUserOf user.userID s (addUser3 env inst user s).1 := by
  unfold addUser3
  split
  · exact onlyUserOf_on .three (removeOne_only hw inst .three user.userID) s
  · exact onlyUserOf_on .three (addPeer_only hw inst .three user.on3) s

variable (inst) in
theorem onlyUserOf_addUser (user : User) (s : State κ) :
    OnlyUserOf user.userID s (addUser env inst user s).1 := by
  have hone := onlyUserOf_on .one (addPeer_only hw inst .one user) s
  exact andThen_fst (P := OnlyUserOf user.userID s) hone
    fun _ => hone.trans (onlyUserOf_addUser3 hw user _)

variable (inst) in
theorem onlyUserOf_call (he : e.user = some id) (s : State κ) :
    OnlyUserOf id s (s.step env inst e) := by
  unfold State.step State.call
  cases e with
  | addUser user =>
    obtain rfl := Option.some.inj he
    exact onlyUserOf_addUser inst hw user { s with issued := [] }
  | addUserOn user ids =>
    obtain rfl := Option.some.inj he
    simp only [addUserOn]
    refine andThen_fst (P := OnlyUserOf user.userID s) ?_ fun _ => ?_
    · split
      · exact .refl _ _
      · exact onlyUserOf_on .one (removeOne_only hw inst .one user.userID) { s with issued := [] }
    · split
      · exact onlyUserOf_addUser inst hw (user.scoped ids _ _) { s with issued := [] }
      · exact (onlyUserOf_on .one (removeOne_only hw inst .one user.userID)
          { s with issued := [] }).trans (onlyUserOf_addUser inst hw (user.scoped ids _ _) _)
  | removeUser userID =>
    obtain rfl := Option.some.inj he
    have hthree := onlyUserOf_on .three (removeOne_only hw inst .three userID) { s with issued := [] }
    exact andThen_fst (P := OnlyUserOf userID s) hthree
      fun _ => hthree.trans (onlyUserOf_on .one (removeOne_only hw inst .one userID) _)
  | _ => simp [Event.user] at he

/-! ### Accepted -/

theorem addUser3_settled (h : (addUser3 env inst user s).2 = none) :
    if user.amneziaWGPublicKey = "" ∨ user.amneziaWGAllowedIP3 = "" then
      (addUser3 env inst user s).1.three.peers.get? user.userID = none
    else AddSettled (addUser3 env inst user s).1.three user.on3 := by
  unfold addUser3 at h ⊢
  split
  · exact removeOne_gone hw inst .three user.userID (s.session .three)
  · rename_i hsome
    rw [if_neg hsome] at h
    exact addPeer_settled hw inst .three h

omit hw in
theorem addUser3_one (user : User) (t : State κ) : (addUser3 env inst user t).1.one = t.one := by
  unfold addUser3
  split <;> rfl

omit hw in
/-- A user without a 1.x address leaves the 1.x interface alone. -/
theorem addUser_three (h : user.amneziaWGAllowedIP = "") :
    addUser env inst user s = addUser3 env inst user s := by
  have hone : s.on .one (addPeer env inst .one user) = (s, none) :=
    on_of_eq (by simp [addPeer, h])
  unfold addUser
  rw [hone]
  exact andThen_of_none rfl

theorem addUser_settled (h : (addUser env inst user s).2 = none) :
    UserSettled (addUser env inst user s).1 user := by
  obtain ⟨hone, hthree⟩ := andThen_eq_none.mp h
  have hpeer := addPeer_settled hw inst .one hone
  unfold addUser
  rw [andThen_of_none hone]
  refine ⟨?_, addUser3_settled hw hthree⟩
  rw [addUser3_one]
  exact hpeer

variable (inst) in
/-- **An accepted user is settled.** -/
theorem settled_of_accepted (h : (s.call env inst e).2 = none) : Settled (s.step env inst e) e := by
  unfold State.step
  unfold State.call at h ⊢
  cases e with
  | addUser user => exact addUser_settled hw h
  | addUserOn user ids =>
    obtain ⟨hremoved, hadded⟩ := andThen_eq_none.mp h
    -- the state the addition starts from
    obtain ⟨t, ht⟩ : ∃ t, t = (if s.one.inboundID ∈ ids then ({ s with issued := [] }, none)
      else State.on { s with issued := [] } .one (removeOne env inst .one user.userID)).1 := ⟨_, rfl⟩
    have hids : ∀ g, (t.iface g).inboundID = (s.iface g).inboundID := by
      intro g
      rw [ht]
      split
      · cases g <;> rfl
      · exact ((onlyUserOf_on .one (removeOne_only hw inst .one user.userID)
          { s with issued := [] }) g).inboundID
    have hgone : s.one.inboundID ∉ ids → t.one.peers.get? user.userID = none := by
      intro hid
      rw [ht, if_neg hid]
      exact removeOne_gone hw inst .one user.userID _
    simp only [addUserOn]
    rw [andThen_of_none hremoved]
    simp only at hadded ⊢
    rw [← ht] at hadded ⊢
    have hid3 : t.three.inboundID = s.three.inboundID := hids .three
    rw [hid3] at hadded ⊢
    have honly := onlyUserOf_addUser inst hw
      (user.scoped ids s.one.inboundID s.three.inboundID) t
    have hone : (addUser env inst (user.scoped ids s.one.inboundID s.three.inboundID) t).1.one.inboundID
        = s.one.inboundID := ((honly .one).inboundID).trans (hids .one)
    have hthree : (addUser env inst (user.scoped ids s.one.inboundID s.three.inboundID)
        t).1.three.inboundID = s.three.inboundID := ((honly .three).inboundID).trans (hids .three)
    simp only [Settled]
    rw [hone, hthree]
    refine ⟨fun hid => ?_, addUser_settled hw hadded⟩
    rw [addUser_three (by simp [User.scoped, hid]), addUser3_one]
    exact hgone hid
  | _ => trivial

/-! ### Made again -/

omit hw

variable (hpeers : ∀ g, ∀ e ∈ (s.iface g).peers.entries, validatePeer e.2 = .ok ())
include hpeers

theorem UserSettled.quiet (h : UserSettled s user) : addUser env inst user s = (s, none) := by
  have hone : s.on .one (addPeer env inst .one user) = (s, none) :=
    on_of_eq (addPeer_quiet inst .one (hpeers .one) h.1)
  unfold addUser
  rw [hone, andThen_of_none rfl]
  unfold addUser3
  split
  · rename_i hnone
    have hoff := h.2
    rw [if_pos hnone] at hoff
    exact on_of_eq (removeOne_quiet inst .three hoff)
  · rename_i hsome
    have hon := h.2
    rw [if_neg hsome] at hon
    exact on_of_eq (addPeer_quiet inst .three (hpeers .three) hon)

/-- **A settled user changes nothing.** -/
theorem Settled.quiet (he : e.added.isSome) (h : Settled s e) (hs : s.issued = []) :
    Quiet env inst s e := by
  have hfresh : { s with issued := [] } = s := by
    obtain ⟨one, three, kernel, issued⟩ := s
    simp only at hs
    rw [hs]
  unfold Quiet State.call
  rw [hfresh]
  cases e with
  | addUser user => exact UserSettled.quiet hpeers h
  | addUserOn user ids =>
    simp only [addUserOn]
    have hfirst : (if s.one.inboundID ∈ ids then (s, none)
        else s.on .one (removeOne env inst .one user.userID)) = (s, none) := by
      split
      · rfl
      · rename_i hid
        exact on_of_eq (removeOne_quiet inst .one (h.1 hid))
    rw [hfirst, andThen_of_none rfl]
    exact UserSettled.quiet hpeers h.2
  | _ => simp [Event.added] at he

end Users

/-! ## Pushes -/

section Pushes

variable {κ : Type} {env : Env κ} {inst : Install} {s r : State κ} {p : Push}

theorem run_append (es es' : List Event) :
    s.run env inst (es ++ es') = (s.run env inst es).run env inst es' :=
  List.foldl_append

theorem accepted_append {es es' : List Event} :
    Accepted env inst s (es ++ es') ↔
      Accepted env inst s es ∧ Accepted env inst (s.run env inst es) es' := by
  induction es generalizing s with
  | nil => simp [Accepted, State.run]
  | cons e es ih =>
    simp only [List.cons_append, Accepted, ih, State.run, List.foldl_cons]
    exact and_assoc.symm

/-- The interface holds what this inbound makes of it. -/
def Takes (s : State κ) (i : PushedInbound) : Prop :=
  pushedInbound (s.iface (genOf i.cfg)).inbound i.port i.cfg =
      .ok (s.iface (genOf i.cfg)).inbound ∧
    (s.iface (genOf i.cfg)).inboundID = i.id

/-- Memory is as the push left it. -/
structure Holds (p : Push) (s : State κ) : Prop where
  cascade : ∃ next, readCascade p.cascade = .ok next ∧
    ∀ g, (s.iface g).inbound.chain = next.on g
  idle : p.Unnamed → ∀ g, (s.iface g).inbound.privateKey = ""
  inbounds : ∀ i ∈ p.inbounds, Takes s i
  retained : ∀ g, (s.iface g).inboundID = "" ∨ (s.iface g).inboundID ∈ p.ids

theorem Takes.congr {i : PushedInbound} (h : Takes s i)
    (hin : (r.iface (genOf i.cfg)).inbound = (s.iface (genOf i.cfg)).inbound)
    (hid : (r.iface (genOf i.cfg)).inboundID = (s.iface (genOf i.cfg)).inboundID) : Takes r i := by
  unfold Takes
  rw [hin, hid]
  exact h

theorem Holds.congr (h : Holds p s) (hin : ∀ g, (r.iface g).inbound = (s.iface g).inbound)
    (hid : ∀ g, (r.iface g).inboundID = (s.iface g).inboundID) : Holds p r := by
  obtain ⟨⟨next, hread, hchain⟩, hidle, hinb, hret⟩ := h
  refine ⟨⟨next, hread, fun g => ?_⟩, fun hp g => ?_, fun i hi => ?_, fun g => ?_⟩
  · rw [hin]
    exact hchain g
  · rw [hin]
    exact hidle hp g
  · exact (hinb i hi).congr (hin _) (hid _)
  · rw [hid]
    exact hret g

/-! ### Accepted -/

variable (hw : env.Writes)
include hw

theorem cascade_accepted {raw : Option (Option CascadeWire)}
    (h : (s.call env inst (.applyCascade raw)).2 = none) :
    ∃ next, readCascade raw = .ok next ∧
      ∀ g, ((s.step env inst (.applyCascade raw)).iface g).state =
        { (s.iface g).state with
          inbound := { (s.iface g).inbound with chain := next.on g } } := by
  unfold State.step
  simp only [State.call, applyCascade] at h ⊢
  cases hread : readCascade raw with
  | error e => simp [hread] at h
  | ok next =>
    rw [hread] at h
    obtain ⟨hone, hthree⟩ := andThen_eq_none.mp h
    refine ⟨next, rfl, fun g => ?_⟩
    dsimp only
    rw [andThen_of_none hone]
    cases g with
    | one => exact applyCascadeOne_state hw inst .one hone
    | three => exact applyCascadeOne_state hw inst .three hthree

omit hw in
theorem idle_state (g : Gen) :
    ((s.step env inst .idle).iface g).state =
      { (s.iface g).state with inbound := { (s.iface g).inbound with privateKey := "" } } := by
  cases g with
  | one => exact idleOne_state inst .one
  | three => exact idleOne_state inst .three

variable (env inst) in
omit hw in
theorem retain_state (keep : List String) (g : Gen) :
    ((s.step env inst (.retainInbounds keep)).iface g).state =
      if (s.iface g).inboundID = "" ∨ (s.iface g).inboundID ∈ keep then (s.iface g).state
      else { (s.iface g).state with
        inboundID := "", inbound := { (s.iface g).inbound with privateKey := "" } } := by
  cases g with
  | one => exact retainOne_state env inst .one keep _
  | three => exact retainOne_state env inst .three keep _

theorem inbound_accepted {i : PushedInbound} (hid : i.id ≠ "") (hcfg : i.cfg.inboundId = i.id)
    (h : (s.call env inst (.applyInbound i.port (some i.cfg))).2 = none) :
    Takes (s.step env inst (.applyInbound i.port (some i.cfg))) i ∧
      ∀ g, ((s.step env inst (.applyInbound i.port (some i.cfg))).iface g).inbound.chain =
          (s.iface g).inbound.chain ∧
        (g ≠ genOf i.cfg →
          (s.step env inst (.applyInbound i.port (some i.cfg))).iface g = s.iface g) := by
  obtain ⟨new, hnew, hstate⟩ := applyInboundOne_state hw inst (genOf i.cfg)
    (s := State.session { s with issued := [] } (genOf i.cfg)) h
  have hself : ((s.step env inst (.applyInbound i.port (some i.cfg))).iface (genOf i.cfg)).state =
      ⟨new, pushedID (s.iface (genOf i.cfg)) i.cfg, (s.iface (genOf i.cfg)).peers⟩ := by
    unfold State.step State.call applyInbound
    dsimp only
    rw [on_iface_self]
    exact hstate
  have hother : ∀ g, g ≠ genOf i.cfg →
      (s.step env inst (.applyInbound i.port (some i.cfg))).iface g = s.iface g := by
    intro g hg
    unfold State.step State.call applyInbound
    dsimp only
    rw [on_iface_ne hg]
    cases g <;> rfl
  have hinbound := congrArg SavedState.inbound hself
  have hinboundID := congrArg SavedState.inboundID hself
  simp only [Iface.state] at hinbound hinboundID
  refine ⟨⟨?_, ?_⟩, fun g => ⟨?_, hother g⟩⟩
  · rw [hinbound]
    exact pushedInbound_again hnew
  · rw [hinboundID, pushedID, hcfg, if_pos hid]
  · by_cases hg : g = genOf i.cfg
    · subst hg
      rw [hinbound]
      exact (pushedInbound_ok hnew).2.2.2.1
    · rw [hother g hg]

def applies (is : List PushedInbound) : List Event :=
  is.map fun i => .applyInbound i.port (some i.cfg)

/-- Inbounds of different generations do not disturb one another. -/
theorem inbounds_accepted {is : List PushedInbound}
    (hids : ∀ i ∈ is, i.id ≠ "" ∧ i.cfg.inboundId = i.id)
    (hgens : (is.map fun i => genOf i.cfg).Nodup) (h : Accepted env inst s (applies is)) :
    (∀ i ∈ is, Takes (s.run env inst (applies is)) i) ∧
      ∀ g, ((s.run env inst (applies is)).iface g).inbound.chain = (s.iface g).inbound.chain ∧
        ((∀ i ∈ is, g ≠ genOf i.cfg) → (s.run env inst (applies is)).iface g = s.iface g) := by
  induction is generalizing s with
  | nil => exact ⟨by simp, fun g => ⟨rfl, fun _ => rfl⟩⟩
  | cons i is ih =>
    obtain ⟨hi, his⟩ := h
    obtain ⟨hid, hcfg⟩ := hids i List.mem_cons_self
    obtain ⟨htakes, hkept⟩ := inbound_accepted hw hid hcfg hi
    simp only [List.map_cons, List.nodup_cons, List.mem_map, not_exists, not_and] at hgens
    obtain ⟨hrest, hfinal⟩ := ih (fun j hj => hids j (List.mem_cons_of_mem i hj)) hgens.2 his
    refine ⟨?_, fun g => ⟨(hfinal g).1.trans (hkept g).1, fun hg => ?_⟩⟩
    · intro j hj
      rcases List.mem_cons.mp hj with rfl | hj
      · have hsame := (hfinal (genOf j.cfg)).2 fun k hk heq => hgens.1 k hk heq.symm
        exact htakes.congr (congrArg Iface.inbound hsame) (congrArg Iface.inboundID hsame)
      · exact hrest j hj
    · exact ((hfinal g).2 fun j hj => hg j (List.mem_cons_of_mem i hj)).trans
        ((hkept g).2 (hg i List.mem_cons_self))

/-- **What an accepted push leaves.** -/
theorem holds_of_accepted (hp : p.Plain) (h : Accepted env inst s p.calls) :
    Holds p (s.run env inst p.calls) := by
  obtain ⟨hcascade, h⟩ := h
  obtain ⟨hidle, h⟩ := accepted_append.mp h
  obtain ⟨hinbounds, -⟩ := accepted_append.mp h
  obtain ⟨next, hread, hchain⟩ := cascade_accepted hw hcascade
  -- the states between: after the hand-off, after the idle, after the inbounds
  obtain ⟨t, ht⟩ : ∃ t, t = s.step env inst (.applyCascade p.cascade) := ⟨_, rfl⟩
  obtain ⟨u, hu⟩ : ∃ u, u = t.run env inst (if p.Unnamed then [.idle] else []) := ⟨_, rfl⟩
  obtain ⟨v, hv⟩ : ∃ v, v = u.run env inst (applies p.inbounds) := ⟨_, rfl⟩
  have hrun : s.run env inst p.calls = v.step env inst (.retainInbounds p.ids) := by
    rw [hv, hu, ht]
    simp only [Push.calls, State.run, List.foldl_cons, List.foldl_append, List.foldl_nil, applies]
  rw [← ht] at hchain hinbounds
  rw [← hu] at hinbounds
  have huchain : ∀ g, (u.iface g).inbound.chain = next.on g := by
    intro g
    have htchain := congrArg (fun st => st.inbound.chain) (hchain g)
    rw [hu]
    split
    · exact (congrArg (fun st => st.inbound.chain) (idle_state (s := t) g)).trans htchain
    · exact htchain
  obtain ⟨htakes, hkept⟩ := inbounds_accepted hw hp.ids hp.gens hinbounds
  rw [← hv] at htakes hkept
  have hfinal := fun g => retain_state env inst (s := v) p.ids g
  rw [hrun]
  refine ⟨⟨next, hread, fun g => ?_⟩, fun hun g => ?_, fun i hi => ?_, fun g => ?_⟩
  · have hg := congrArg (fun st => st.inbound.chain) (hfinal g)
    refine hg.trans ?_
    split
    · exact (hkept g).1.trans (huchain g)
    · exact (hkept g).1.trans (huchain g)
  · have hvu : v = u := by
      rw [hv, hun.1]
      rfl
    have hukey : (u.iface g).inbound.privateKey = "" := by
      rw [hu, if_pos hun]
      exact congrArg (fun st => st.inbound.privateKey) (idle_state (s := t) g)
    refine (congrArg (fun st => st.inbound.privateKey) (hfinal g)).trans ?_
    split
    · rw [hvu]
      exact hukey
    · rfl
  · have hheld : (v.iface (genOf i.cfg)).inboundID ∈ p.ids := by
      rw [(htakes i hi).2]
      exact List.mem_map.mpr ⟨i, hi, rfl⟩
    have hg := hfinal (genOf i.cfg)
    rw [if_pos (.inr hheld)] at hg
    exact (htakes i hi).congr (congrArg SavedState.inbound hg) (congrArg SavedState.inboundID hg)
  · have hg := congrArg SavedState.inboundID (hfinal g)
    simp only [Iface.state] at hg
    rw [hg]
    split
    · assumption
    · exact .inl rfl

/-! ### Made again -/

omit hw

/-- **A push changes nothing where memory is as it left it**, in an adapter that has brought nothing
up since its start. -/
theorem Holds.quiet (hp : p.Plain) (h : Holds p s) (hs : s.issued = [])
    (hdown : ∀ g, (s.iface g).started = false) : ∀ e ∈ p.calls, Quiet env inst s e := by
  obtain ⟨⟨next, hread, hchain⟩, hidle, hinbounds, hretained⟩ := h
  have hfresh : { s with issued := [] } = s := by
    obtain ⟨one, three, kernel, issued⟩ := s
    simp only at hs
    rw [hs]
  have hboth : ∀ {f f' : Session κ → Result κ}, f (s.session .one) = (s.session .one, none) →
      f' (s.session .three) = (s.session .three, none) →
      (andThen (s.on .one f) fun t => t.on .three f') = (s, none) := by
    intro f f' hf hf'
    rw [on_of_eq hf, andThen_of_none rfl]
    exact on_of_eq hf'
  intro e he
  unfold Quiet State.call
  rw [hfresh]
  simp only [Push.calls, List.mem_cons, List.mem_append, List.not_mem_nil, or_false] at he
  rcases he with rfl | he | he | rfl
  · simp only [applyCascade, hread]
    exact hboth (applyCascadeOne_quiet inst .one (hchain .one))
      (applyCascadeOne_quiet inst .three (hchain .three))
  · split at he
    · rename_i hun
      obtain rfl := List.mem_singleton.mp he
      have hno : ∀ g, idleOne env inst g (s.session g) = s.session g := by
        intro g
        unfold idleOne
        rw [if_pos ⟨hidle hun g, hdown g⟩]
      exact hboth (by rw [hno]) (by rw [hno])
    · cases he
  · obtain ⟨i, hi, rfl⟩ := List.mem_map.mp he
    obtain ⟨hid, hcfg⟩ := hp.ids i hi
    have hpushed : pushedID (s.iface (genOf i.cfg)) i.cfg = (s.iface (genOf i.cfg)).inboundID := by
      rw [pushedID, hcfg, if_pos hid]
      exact (hinbounds i hi).2.symm
    exact on_of_eq (applyInboundOne_quiet inst (genOf i.cfg) (hinbounds i hi).1 hpushed)
  · have hno : ∀ g, retainOne env inst g p.ids (s.session g) = s.session g := by
      intro g
      unfold retainOne
      exact if_pos (hretained g)
    exact hboth (by rw [hno]) (by rw [hno])

end Pushes

end Iceslab.Agent.Amneziawg
