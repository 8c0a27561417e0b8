import Iceslab.Agent.HysteriaUsers

/-!
# A hysteria password works while it is the user's

The map is right whatever becomes of the kicks.  A session of a forgotten password is kicked or
owed a kick, as long as no kick is skipped that somebody needed.

* `UsersInv` — the map is what the last calls say, and what is not kicked is owed.
* `Dealt` — what a call does to the passwords and the kicks, `dealt_addUser`, `dealt_removeUser`.
* `Event.Right`, `Event.Sound` — what a call promises, and when hysteria is asked in time.
* `right_iff` — after any run of sound calls, the next keeps its promise exactly if it is sound.
* `session_lives` — a stale verdict leaves the session of a removed user open.
-/

set_option autoImplicit false

namespace Iceslab.Agent.HysteriaUsers

/-! ## What a call promises -/

section Promise

variable (cfg : Config) (s : State)

/-- A password answers its user, and nobody else's does. -/
def LookupRight : Prop :=
  ∀ password userID, lookupByPassword s.adapter password = some userID ↔
    s.last userID = some password

/-- Every session of the user with a password that is not valid any more was sent a kick. -/
def Kicked (userID : String) : Prop :=
  ∀ x ∈ s.sessions, x.userID = userID → s.valid x = false → x.kicked = true

/-- The lookup is right after the event, and a call that returned nil while hysteria served has
kicked. -/
def Event.Right (e : Event) : Prop :=
  LookupRight (apply cfg s e) ∧
    match e with
    | .addUser user ans =>
        (HysteriaUsers.addUser cfg ans user s.adapter).2 ≠ .failed → s.up = true →
        Kicked (apply cfg s e) user.userID
    | .removeUser userID ans =>
        (HysteriaUsers.removeUser cfg ans userID s.adapter).2 ≠ .failed → s.up = true →
        Kicked (apply cfg s e) userID
    | _ => True

/-- Hysteria has an open session of the user, not kicked yet, that the password is not for. -/
def State.Open (userID : String) (password : Option String) : Prop :=
  s.up = true ∧ ∃ x ∈ s.sessions, x.userID = userID ∧ x.kicked = false ∧ some x.password ≠ password

/-- Hysteria has a traffic API and is taken to serve. -/
def verdict (ans : Answers) (a : Adapter) : Bool :=
  cfg.trafficStatsListen ≠ "" ∧ cfg.trafficStatsSecret ≠ "" ∧ (serving cfg ans a).2 = true

/-- Where a session is to be kicked, hysteria is asked; and a user without a password had none. -/
def Event.Sound : Event → Prop
  | .addUser user ans =>
    (user.password = none → s.last user.userID = none ∧ ¬ s.Open user.userID none) ∧
      (s.Open user.userID user.password → verdict cfg ans s.adapter = true)
  | .removeUser userID ans => s.Open userID none → verdict cfg ans s.adapter = true
  | _ => True

/-- Runs whose calls are all sound. -/
def soundHysteria : Machine State Event where
  start := (hysteria cfg).start
  step s e s' := (hysteria cfg).step s e s' ∧ e.Sound cfg s

end Promise

/-! ## The invariant -/

structure UsersInv (s : State) : Prop where
  lookup : LookupRight s
  owed : ∀ x ∈ s.sessions, s.valid x = false → x.kicked = true ∨ x.userID ∈ s.adapter.kickPending
  down : s.up = false → s.sessions = []

variable {user : User}

section Calls

variable {cfg : Config} {ans : Answers} {a : Adapter} {s : State} {userID : String}
variable {password : Option String} {r : Adapter × Kick}

theorem valid_iff (h : LookupRight s) (x : Session) :
    s.valid x = true ↔ s.last x.userID = some x.password := by
  unfold State.valid
  rw [decide_eq_true_iff]
  exact h x.password x.userID

/-! ### Kicks -/

variable (cfg ans a) in
theorem users_serving : (serving cfg ans a).1.users = a.users ∧
    (serving cfg ans a).1.kickPending = a.kickPending := by
  unfold serving
  split
  · exact ⟨rfl, rfl⟩
  · split
    · exact ⟨rfl, rfl⟩
    · split
      · unfold unitActive
        split
        · exact ⟨rfl, rfl⟩
        · exact ⟨rfl, rfl⟩
      · exact ⟨rfl, rfl⟩

variable (cfg ans a) in
/-- The verdict does not look at the users. -/
theorem verdict_users (users : OrderedMap String UserEntry) :
    verdict cfg ans { a with users } = verdict cfg ans a := by
  have hserves : (serving cfg ans { a with users }).2 = (serving cfg ans a).2 := by
    unfold serving unitActive
    by_cases hbinary : cfg.binaryPath = ""
    · simp [hbinary]
    · by_cases happlied : a.applied = true
      · by_cases hunit : cfg.serviceUnit = ""
        · simp [hbinary, happlied, hunit]
        · cases a.unitHealthy <;> simp [hbinary, happlied, hunit]
      · simp [hbinary, happlied]
  unfold verdict
  rw [hserves]

/-- What a kick does: the users stay, and what is owed changes for the one user. -/
structure KickSpec (cfg : Config) (ans : Answers) (userID : String) (a : Adapter)
    (r : Adapter × Kick) : Prop where
  users : r.1.users = a.users
  skipped : verdict cfg ans a = false → r.2 = .skipped ∧ r.1.kickPending = a.kickPending
  asked : verdict cfg ans a = true →
    (ans.kicked = true ∧ r.2 = .sent ∧
      r.1.kickPending = a.kickPending.filter fun id => decide (id ≠ userID)) ∨
    (r.2 = .failed ∧ r.1.kickPending = userID :: a.kickPending)

variable (cfg ans userID a) in
theorem kick_spec : KickSpec cfg ans userID a (kick cfg ans userID a) := by
  obtain ⟨husers, hpending⟩ := users_serving cfg ans a
  unfold kick
  dsimp only
  split
  · rename_i hnone
    have hno : verdict cfg ans a = false := by
      unfold verdict
      rcases hnone with hlisten | hsecret
      · simp [hlisten]
      · simp [hsecret]
    exact ⟨rfl, fun _ => ⟨rfl, rfl⟩, fun hyes => absurd hyes (Bool.eq_false_iff.mp hno)⟩
  · rename_i hapi
    obtain ⟨hlisten, hsecret⟩ := not_or.mp hapi
    have hverdict : verdict cfg ans a = (serving cfg ans a).2 := by
      unfold verdict
      simp [hlisten, hsecret]
    split
    · rename_i hserves
      have hno : (serving cfg ans a).2 = false := by simpa using hserves
      refine ⟨husers, fun _ => ⟨rfl, hpending⟩, fun hyes => ?_⟩
      rw [hverdict, hno] at hyes
      cases hyes
    · rename_i hserves
      have hyes : (serving cfg ans a).2 = true := by simpa using hserves
      have hskip : verdict cfg ans a = false → False := fun hno => by
        rw [hverdict, hyes] at hno
        cases hno
      split
      · rename_i hkicked
        refine ⟨husers, fun hno => (hskip hno).elim, fun _ => .inl ⟨hkicked, rfl, ?_⟩⟩
        exact congrArg (List.filter fun id => decide (id ≠ userID)) hpending
      · refine ⟨husers, fun hno => (hskip hno).elim, fun _ => .inr ⟨rfl, ?_⟩⟩
        exact congrArg (userID :: ·) hpending

/-! ### Passwords -/

/-- What a call does: the passwords as they are to be, and the kick where something was held. -/
structure Dealt (cfg : Config) (ans : Answers) (s : State) (userID : String)
    (password : Option String) (r : Adapter × Kick) : Prop where
  lookup : ∀ p v, lookupByPassword r.1 p = some v ↔
    Function.update s.last userID password v = some p
  skipped : verdict cfg ans s.adapter = false →
    (r.2 = .unneeded ∨ r.2 = .skipped) ∧ r.1.kickPending = s.adapter.kickPending
  asked : verdict cfg ans s.adapter = true →
    userID ∈ s.adapter.kickPending ∨ (∃ p, s.last userID = some p ∧ some p ≠ password) →
      (ans.kicked = true ∧ r.2 = .sent) ∨ (r.2 = .failed ∧ userID ∈ r.1.kickPending)
  pending : ∀ v, v ≠ userID → (v ∈ r.1.kickPending ↔ v ∈ s.adapter.kickPending)

/-- A call that kicks if something was held, after the passwords are dealt with. -/
theorem dealt_of_kick {users : OrderedMap String UserEntry} {held : Bool}
    (hlookup : ∀ p v, (users.get? p).map (·.userID) = some v ↔
      Function.update s.last userID password v = some p)
    (hheld : userID ∈ s.adapter.kickPending ∨ (∃ p, s.last userID = some p ∧ some p ≠ password) →
      held = true) :
    Dealt cfg ans s userID password
      (if !held then ({ s.adapter with users }, .unneeded)
        else kick cfg ans userID { s.adapter with users }) := by
  have hspec := kick_spec cfg ans { s.adapter with users } userID
  have hverdict := verdict_users cfg ans s.adapter users
  cases held with
  | false =>
    refine ⟨hlookup, fun _ => ⟨.inl rfl, rfl⟩, fun _ hyes => ?_, fun _ _ => Iff.rfl⟩
    exact absurd (hheld hyes) Bool.false_ne_true
  | true =>
    rw [Bool.not_true, if_neg Bool.false_ne_true]
    refine ⟨fun p v => ?_, fun hno => ?_, fun hyes _ => ?_, fun v hv => ?_⟩
    · unfold lookupByPassword
      rw [hspec.users]
      exact hlookup p v
    · obtain ⟨hkick, hpending⟩ := hspec.skipped (hverdict.trans hno)
      exact ⟨.inr hkick, hpending⟩
    · rcases hspec.asked (hverdict.trans hyes) with ⟨hk, hsent, -⟩ | ⟨hfailed, hpending⟩
      · exact .inl ⟨hk, hsent⟩
      · exact .inr ⟨hfailed, hpending ▸ List.mem_cons_self⟩
    · cases hv' : verdict cfg ans { s.adapter with users } with
      | false => rw [(hspec.skipped hv').2]
      | true =>
        rcases hspec.asked hv' with ⟨-, -, hpending⟩ | ⟨-, hpending⟩
        · rw [hpending, List.mem_filter]
          simp [hv]
        · rw [hpending, List.mem_cons]
          simp [hv]

theorem lookup_iff (h : LookupRight s) {p v : String} :
    (s.adapter.users.get? p).map (·.userID) = some v ↔ s.last v = some p := h p v

variable (cfg ans userID) in
theorem dealt_removeUser (h : LookupRight s) :
    Dealt cfg ans s userID none (removeUser cfg ans userID s.adapter) := by
  refine dealt_of_kick (fun p v => ?_) fun hheld => ?_
  · rw [OrderedMap.get?_filter]
    have hgone : p ∈ (s.adapter.users.entries.filter
        fun e => decide (e.2.userID = userID)).map Prod.fst ↔ s.last userID = some p := by
      rw [← lookup_iff h, List.mem_map, Option.map_eq_some_iff]
      constructor
      · rintro ⟨⟨q, entry⟩, he, rfl⟩
        obtain ⟨he, huser⟩ := List.mem_filter.mp he
        exact ⟨entry, (OrderedMap.get?_eq_some_iff _ _ _).mpr he, of_decide_eq_true huser⟩
      · rintro ⟨entry, he, huser⟩
        exact ⟨(p, entry), List.mem_filter.mpr
          ⟨(OrderedMap.get?_eq_some_iff _ _ _).mp he, decide_eq_true huser⟩, rfl⟩
    by_cases hp : s.last userID = some p
    · rw [if_neg (by simpa using hgone.mpr hp)]
      by_cases hv : v = userID
      · subst hv
        simp
      · rw [Function.update_of_ne hv]
        refine ⟨fun hno => (Option.some_ne_none v hno.symm).elim, fun hother => ?_⟩
        have hsame := ((lookup_iff h).mpr hother).symm.trans ((lookup_iff h).mpr hp)
        exact absurd (Option.some.inj hsame) hv
    · rw [if_pos (by simpa using mt hgone.mp hp)]
      by_cases hv : v = userID
      · subst hv
        rw [Function.update_self, lookup_iff h]
        exact ⟨fun hyes => absurd hyes hp, fun hno => by cases hno⟩
      · rw [Function.update_of_ne hv]
        exact lookup_iff h
  · rw [Bool.or_eq_true, decide_eq_true_iff]
    refine hheld.imp id ?_
    rintro ⟨p, hp, -⟩
    obtain ⟨entry, he, huser⟩ := Option.map_eq_some_iff.mp ((lookup_iff h).mpr hp)
    have hmem : (p, entry) ∈ s.adapter.users.entries.filter
        fun e => decide (e.2.userID = userID) := List.mem_filter.mpr
      ⟨(OrderedMap.get?_eq_some_iff _ _ _).mp he, decide_eq_true huser⟩
    rw [Bool.not_eq_true', List.isEmpty_eq_false_iff]
    exact List.ne_nil_of_mem (List.mem_map_of_mem hmem)

theorem password_eq (h : user.hysteriaPassword ≠ "") :
    user.password = some user.hysteriaPassword := if_neg h

variable (cfg ans) in
theorem dealt_addUser (h : LookupRight s) (hpassword : user.hysteriaPassword ≠ "")
    (hdistinct : ∀ other, other ≠ user.userID → s.last other ≠ some user.hysteriaPassword) :
    Dealt cfg ans s user.userID user.password (addUser cfg ans user s.adapter) := by
  rw [password_eq hpassword]
  unfold addUser
  rw [if_neg hpassword]
  have hold : ∀ p, p ∈ s.adapter.others user.userID user.hysteriaPassword ↔
      s.last user.userID = some p ∧ p ≠ user.hysteriaPassword := by
    intro p
    unfold Adapter.others
    rw [← lookup_iff h, List.mem_map, Option.map_eq_some_iff]
    constructor
    · rintro ⟨⟨q, entry⟩, he, rfl⟩
      obtain ⟨he, huser⟩ := List.mem_filter.mp he
      obtain ⟨huser, hne⟩ := of_decide_eq_true huser
      exact ⟨⟨entry, (OrderedMap.get?_eq_some_iff _ _ _).mpr he, huser⟩, hne⟩
    · rintro ⟨⟨entry, he, huser⟩, hne⟩
      exact ⟨(p, entry), List.mem_filter.mpr
        ⟨(OrderedMap.get?_eq_some_iff _ _ _).mp he, decide_eq_true ⟨huser, hne⟩⟩, rfl⟩
  refine dealt_of_kick (fun p v => ?_) fun hheld => ?_
  · rw [OrderedMap.get?_set]
    by_cases hp : p = user.hysteriaPassword
    · subst hp
      rw [if_pos rfl]
      by_cases hv : v = user.userID
      · subst hv
        simp
      · rw [Function.update_of_ne hv]
        exact ⟨fun hyes => absurd (Option.some.inj hyes).symm hv,
          fun hyes => absurd hyes (hdistinct v hv)⟩
    · rw [if_neg hp]
      unfold Adapter.forget
      rw [OrderedMap.get?_filter]
      by_cases hmine : s.last user.userID = some p
      · rw [if_neg (by simpa using (hold p).mpr ⟨hmine, hp⟩)]
        by_cases hv : v = user.userID
        · subst hv
          rw [Function.update_self]
          exact ⟨fun hno => (Option.some_ne_none _ hno.symm).elim,
            fun hyes => absurd (Option.some.inj hyes).symm hp⟩
        · rw [Function.update_of_ne hv]
          refine ⟨fun hno => (Option.some_ne_none v hno.symm).elim, fun hother => ?_⟩
          have hsame := ((lookup_iff h).mpr hother).symm.trans ((lookup_iff h).mpr hmine)
          exact absurd (Option.some.inj hsame) hv
      · rw [if_pos (by simpa using fun hmem => hmine ((hold p).mp hmem).1)]
        by_cases hv : v = user.userID
        · subst hv
          rw [Function.update_self, lookup_iff h]
          exact ⟨fun hyes => absurd hyes hmine,
            fun hyes => absurd (Option.some.inj hyes).symm hp⟩
        · rw [Function.update_of_ne hv]
          exact lookup_iff h
  · rw [Bool.or_eq_true, decide_eq_true_iff]
    refine hheld.imp id ?_
    rintro ⟨p, hp, hne⟩
    have hmem := (hold p).mpr ⟨hp, fun he => hne (congrArg some he)⟩
    rw [Bool.not_eq_true', List.isEmpty_eq_false_iff]
    exact List.ne_nil_of_mem hmem

/-! ### The sessions -/

variable (h : UsersInv s) (hd : Dealt cfg ans s userID password r)

/-- The state after the passwords are dealt with, before the kick. -/
def State.dealt (s : State) (userID : String) (password : Option String) (r : Adapter × Kick) :
    State :=
  { s with adapter := r.1, last := Function.update s.last userID password }

variable (ans) in
include hd in
theorem lookupRight_called : LookupRight (s.called userID password ans r) := hd.lookup

variable (ans) in
include hd in
theorem valid_called_iff (x : Session) : (s.called userID password ans r).valid x = true ↔
    Function.update s.last userID password x.userID = some x.password :=
  valid_iff (lookupRight_called ans hd) x

include h in
/-- A session that is to be kicked was held by its password, or owed a kick already. -/
theorem held_of_open {x : Session} (hx : x ∈ s.sessions) (huser : x.userID = userID)
    (hkicked : x.kicked = false) (hne : some x.password ≠ password) :
    userID ∈ s.adapter.kickPending ∨ ∃ p, s.last userID = some p ∧ some p ≠ password := by
  cases hvalid : s.valid x with
  | true =>
    have hlast := (valid_iff h.lookup x).mp hvalid
    rw [huser] at hlast
    exact .inr ⟨x.password, hlast, hne⟩
  | false =>
    rcases h.owed x hx hvalid with hyes | howed
    · rw [hkicked] at hyes
      cases hyes
    · exact .inl (huser ▸ howed)

/-- What becomes of a session. -/
theorem mem_called {x : Session} : x ∈ (s.called userID password ans r).sessions ↔
    ∃ x₀ ∈ s.sessions,
      (if reaches r.2 ans = true ∧ x₀.userID = userID ∧
          (s.dealt userID password r).valid x₀ = false
        then { x₀ with kicked := true } else x₀) = x :=
  List.mem_map

include h hd in
/-- **Hysteria is asked in time**, or the call does not keep its promise. -/
theorem kicked_called_iff :
    (r.2 ≠ .failed → s.up = true → Kicked (s.called userID password ans r) userID) ↔
      (s.Open userID password → verdict cfg ans s.adapter = true) := by
  constructor
  · rintro hright ⟨hup, x, hx, huser, hkicked, hne⟩
    by_contra hverdict
    obtain ⟨hkick, -⟩ := hd.skipped (Bool.eq_false_iff.mpr hverdict)
    have hreach : reaches r.2 ans = false := by
      rcases hkick with hkick | hkick <;> rw [hkick] <;> rfl
    have hfailed : r.2 ≠ .failed := by
      rcases hkick with hkick | hkick <;> rw [hkick] <;> decide
    have hmem : x ∈ (s.called userID password ans r).sessions :=
      mem_called.mpr ⟨x, hx, if_neg fun hyes => by rw [hreach] at hyes; cases hyes.1⟩
    have hinvalid : (s.called userID password ans r).valid x = false := by
      refine Bool.eq_false_iff.mpr fun hvalid => hne ?_
      have hlast := (valid_called_iff ans hd x).mp hvalid
      rw [huser, Function.update_self] at hlast
      exact hlast.symm
    have hyes := hright hfailed hup x hmem huser hinvalid
    rw [hkicked] at hyes
    cases hyes
  · intro hsound hfailed hup x hx huser hinvalid
    obtain ⟨x₀, hx₀, rfl⟩ := mem_called.mp hx
    split at huser
    · rename_i hreached
      rw [if_pos hreached]
    · rename_i hreached
      rw [if_neg hreached] at hinvalid ⊢
      refine Bool.of_not_eq_false fun hkicked => hreached ?_
      have hne : some x₀.password ≠ password := by
        intro he
        have hvalid := (valid_called_iff ans hd x₀).mpr (by
          rw [huser, Function.update_self, he])
        rw [hinvalid] at hvalid
        cases hvalid
      have hheld := held_of_open h hx₀ huser hkicked hne
      have hopen : s.Open userID password := ⟨hup, x₀, hx₀, huser, hkicked, hne⟩
      rcases hd.asked (hsound hopen) hheld with ⟨-, hsent⟩ | ⟨hfail, -⟩
      · refine ⟨?_, huser, hinvalid⟩
        rw [hsent]
        rfl
      · exact absurd hfail hfailed

include h hd in
theorem inv_called (hsound : s.Open userID password → verdict cfg ans s.adapter = true) :
    UsersInv (s.called userID password ans r) where
  lookup := lookupRight_called _ hd
  owed x hx hinvalid := by
    obtain ⟨x₀, hx₀, rfl⟩ := mem_called.mp hx
    split
    · exact .inl rfl
    · rename_i hreached
      rw [if_neg hreached] at hinvalid
      have hup : s.up = true := Bool.of_not_eq_false fun hdown => by
        rw [h.down hdown] at hx₀
        cases hx₀
      by_cases huser : x₀.userID = userID
      · cases hkicked : x₀.kicked with
        | true => exact .inl rfl
        | false =>
          have hne : some x₀.password ≠ password := by
            intro he
            have hvalid := (valid_called_iff ans hd x₀).mpr (by
              rw [huser, Function.update_self, he])
            rw [hinvalid] at hvalid
            cases hvalid
          have hheld := held_of_open h hx₀ huser hkicked hne
          rcases hd.asked (hsound ⟨hup, x₀, hx₀, huser, hkicked, hne⟩) hheld with
            ⟨-, hsent⟩ | ⟨-, howed⟩
          · refine absurd ⟨?_, huser, hinvalid⟩ hreached
            rw [hsent]
            rfl
          · exact .inr (huser ▸ howed)
      · have hbefore : s.valid x₀ = false := by
          refine Bool.eq_false_iff.mpr fun hvalid => ?_
          have hlast := (valid_iff h.lookup x₀).mp hvalid
          have hafter := (valid_called_iff ans hd x₀).mpr (by
            rw [Function.update_of_ne huser]
            exact hlast)
          rw [hinvalid] at hafter
          cases hafter
        rcases h.owed x₀ hx₀ hbefore with hkicked | howed
        · exact .inl hkicked
        · exact .inr ((hd.pending x₀.userID huser).mpr howed)
  down hdown := by
    have hnil := h.down hdown
    unfold State.called State.afterKick
    rw [hnil]
    rfl

end Calls

/-! ## Runs -/

section Runs

variable {cfg : Config} {s : State} {ans : Answers} {e : Event}

/-- A user without credentials who had none: nothing happens. -/
theorem called_unneeded {userID : String} (h : s.last userID = none) :
    s.called userID none ans (s.adapter, .unneeded) = s := by
  have hlast : Function.update s.last userID none = s.last := by
    rw [← h, Function.update_eq_self]
  have hreach : reaches .unneeded ans = false := rfl
  unfold State.called State.afterKick
  simp [hlast, hreach]

theorem addUser_empty {a : Adapter} (h : user.hysteriaPassword = "") :
    addUser cfg ans user a = (a, .unneeded) := if_pos h

theorem password_none (h : user.hysteriaPassword = "") : user.password = none :=
  if_pos h

/-- Without a valid password, every session of the user is one of a forgotten one. -/
theorem kicked_iff (h : LookupRight s) {userID : String} (hnone : s.last userID = none) :
    (s.up = true → Kicked s userID) ↔ ¬ s.Open userID none := by
  constructor
  · rintro hkicked ⟨hup, x, hx, huser, hno, -⟩
    have hinvalid : s.valid x = false := by
      refine Bool.eq_false_iff.mpr fun hvalid => ?_
      rw [valid_iff h, huser, hnone] at hvalid
      cases hvalid
    have hyes := hkicked hup x hx huser hinvalid
    rw [hno] at hyes
    cases hyes
  · intro hopen hup x hx huser _
    refine Bool.of_not_eq_false fun hno => hopen ⟨hup, x, hx, huser, hno, ?_⟩
    exact Option.some_ne_none x.password

theorem right_addUser_empty (h : UsersInv s) (hempty : user.hysteriaPassword = "") :
    (Event.addUser user ans).Right cfg s ↔
      s.last user.userID = none ∧ ¬ s.Open user.userID none := by
  unfold Event.Right apply
  simp only [addUser_empty hempty, password_none hempty]
  constructor
  · rintro ⟨hlookup, hkicked⟩
    have hnone : s.last user.userID = none := by
      cases hlast : s.last user.userID with
      | none => rfl
      | some p =>
        have hyes := (hlookup p user.userID).mp ((h.lookup p user.userID).mpr hlast)
        have hafter : Function.update s.last user.userID none user.userID = some p := hyes
        rw [Function.update_self] at hafter
        cases hafter
    rw [called_unneeded hnone] at hkicked
    exact ⟨hnone, (kicked_iff h.lookup hnone).mp (hkicked (by decide))⟩
  · rintro ⟨hnone, hopen⟩
    rw [called_unneeded hnone]
    exact ⟨h.lookup, fun _ => (kicked_iff h.lookup hnone).mpr hopen⟩

theorem right_of_same (h : LookupRight (apply cfg s e)) (hcall : ∀ user ans, e ≠ .addUser user ans)
    (hcall' : ∀ userID ans, e ≠ .removeUser userID ans) : e.Right cfg s := by
  refine ⟨h, ?_⟩
  cases e with
  | addUser user ans => exact absurd rfl (hcall user ans)
  | removeUser userID ans => exact absurd rfl (hcall' userID ans)
  | connect | hysteria | probed | applied | idled => trivial

theorem lookupRight_connect (h : LookupRight s) (password : String) :
    LookupRight (apply cfg s (.connect password)) := by
  unfold apply
  dsimp only
  split
  · exact h
  · exact h

/-- After a run of sound calls, a call keeps its promise exactly if it is sound. -/
theorem right_iff_of_inv (h : UsersInv s) (hp : e.Possible s) : e.Right cfg s ↔ e.Sound cfg s := by
  cases e with
  | addUser user ans =>
    by_cases hempty : user.hysteriaPassword = ""
    · rw [right_addUser_empty h hempty]
      unfold Event.Sound
      dsimp only
      rw [password_none hempty]
      constructor
      · rintro ⟨hnone, hopen⟩
        exact ⟨fun _ => ⟨hnone, hopen⟩, fun hyes => absurd hyes hopen⟩
      · exact fun hsound => hsound.1 rfl
    · have hd := dealt_addUser cfg ans h.lookup hempty hp.2
      have hiff := kicked_called_iff h hd
      constructor
      · intro hright
        refine ⟨fun hnone => ?_, hiff.mp hright.2⟩
        rw [password_eq hempty] at hnone
        cases hnone
      · exact fun hsound => ⟨lookupRight_called _ hd, hiff.mpr hsound.2⟩
  | removeUser userID ans =>
    have hd := dealt_removeUser cfg ans userID h.lookup
    have hiff := kicked_called_iff h hd
    exact ⟨fun hright => hiff.mp hright.2, fun hsound => ⟨lookupRight_called _ hd, hiff.mpr hsound⟩⟩
  | connect password =>
    exact ⟨fun _ => trivial, fun _ => right_of_same (lookupRight_connect h.lookup password)
      (fun _ _ => nofun) fun _ _ => nofun⟩
  | hysteria up =>
    exact ⟨fun _ => trivial, fun _ => right_of_same h.lookup (fun _ _ => nofun) fun _ _ => nofun⟩
  | probed healthy =>
    exact ⟨fun _ => trivial, fun _ => right_of_same h.lookup (fun _ _ => nofun) fun _ _ => nofun⟩
  | applied =>
    exact ⟨fun _ => trivial, fun _ => right_of_same h.lookup (fun _ _ => nofun) fun _ _ => nofun⟩
  | idled =>
    exact ⟨fun _ => trivial, fun _ => right_of_same h.lookup (fun _ _ => nofun) fun _ _ => nofun⟩

theorem inv_connect (h : UsersInv s) (hup : s.up = true) (password : String) :
    UsersInv (apply cfg s (.connect password)) := by
  unfold apply
  dsimp only
  split
  · rename_i userID hlookup
    refine ⟨h.lookup, fun x hx hinvalid => ?_, fun hdown => ?_⟩
    · rcases List.mem_cons.mp hx with rfl | hx
      · have hvalid : s.valid ⟨userID, password, false⟩ = true := decide_eq_true hlookup
        exact absurd (hvalid.symm.trans hinvalid) Bool.noConfusion
      · exact h.owed x hx hinvalid
    · exact absurd (hup.symm.trans hdown) Bool.noConfusion
  · exact h

theorem inv_step {s' : State} (h : UsersInv s)
    (hs : (soundHysteria cfg).step s e s') : UsersInv s' := by
  obtain ⟨⟨hp, rfl⟩, hsound⟩ := hs
  cases e with
  | addUser user ans =>
    by_cases hempty : user.hysteriaPassword = ""
    · unfold apply
      dsimp only
      rw [addUser_empty hempty, password_none hempty,
        called_unneeded (hsound.1 (password_none hempty)).1]
      exact h
    · exact inv_called h (dealt_addUser cfg ans h.lookup hempty hp.2) hsound.2
  | removeUser userID ans => exact inv_called h (dealt_removeUser cfg ans userID h.lookup) hsound
  | connect password => exact inv_connect h hp password
  | hysteria up =>
    cases up with
    | true => exact ⟨h.lookup, h.owed, fun hdown => by cases hdown⟩
    | false => exact ⟨h.lookup, fun x hx => absurd hx List.not_mem_nil, fun _ => rfl⟩
  | probed healthy => exact ⟨h.lookup, h.owed, h.down⟩
  | applied => exact ⟨h.lookup, h.owed, h.down⟩
  | idled => exact ⟨h.lookup, h.owed, h.down⟩

theorem inv_fresh : UsersInv fresh where
  lookup _ _ := ⟨nofun, nofun⟩
  owed _ hx := absurd hx List.not_mem_nil
  down _ := rfl

theorem inv_reachable (h : (soundHysteria cfg).Reachable s) : UsersInv s :=
  h.invariant (fun s hstart => by
    obtain rfl : s = fresh := hstart
    exact inv_fresh) fun _ _ _ _ hinv => inv_step hinv

/-- **After any run of sound calls the next call keeps its promise exactly if it is sound.** -/
theorem right_iff (h : (soundHysteria cfg).Reachable s) {e : Event} (hp : e.Possible s) :
    e.Right cfg s ↔ e.Sound cfg s := right_iff_of_inv (inv_reachable h) hp

end Runs

/-! ## A stale verdict -/

/-- What the bootstrap writes: systemd runs hysteria, and the traffic API is there. -/
def bootstrapped : Config :=
  ⟨"/usr/local/bin/hysteria", "hysteria-server.service", "127.0.0.1:9999", "5f2c"⟩

def subscriber : User := ⟨"1c8a1f0e", "alice", "9b7d"⟩

/-- systemd would say active, and a kick is taken. -/
def allWell : Answers := ⟨true, true, true, false⟩

/-- The user is added and connects; the unit was probed before. -/
def connectedAfter (healthy : Bool) : State :=
  [.applied, .probed healthy, .hysteria true, .addUser subscriber allWell, .connect "9b7d"].foldl
    (apply bootstrapped) fresh

/-- Probed while it served, hysteria is asked, and the session is kicked. -/
theorem right_removed : (soundHysteria bootstrapped).Reachable (connectedAfter true) ∧
    (Event.removeUser "1c8a1f0e" allWell).Right bootstrapped (connectedAfter true) := by
  have hadded : ∀ s : State, s.sessions = [] →
      (Event.addUser subscriber allWell).Sound bootstrapped s := by
    refine fun s hnil => ⟨nofun, fun hopen => ?_⟩
    obtain ⟨-, x, hx, -⟩ := hopen
    rw [hnil] at hx
    cases hx
  have hrun : (soundHysteria bootstrapped).Reachable (connectedAfter true) :=
    .step (e := .connect "9b7d") (.step (e := .addUser subscriber allWell)
      (.step (e := .hysteria true) (.step (e := .probed true) (.step (e := .applied) (.start rfl)
        ⟨⟨trivial, rfl⟩, trivial⟩) ⟨⟨trivial, rfl⟩, trivial⟩) ⟨⟨trivial, rfl⟩, trivial⟩)
      ⟨⟨⟨fun _ => rfl, fun _ _ => nofun⟩, rfl⟩, hadded _ rfl⟩) ⟨⟨rfl, rfl⟩, trivial⟩
  have hpossible : (Event.removeUser "1c8a1f0e" allWell).Possible (connectedAfter true) :=
    fun _ => rfl
  exact ⟨hrun, (right_iff hrun hpossible).mpr fun _ => by decide⟩

/-- Probed before it came up, hysteria is taken not to serve: the removal returns nil, and the
session of the removed user goes on. -/
theorem session_lives : (hysteria bootstrapped).Reachable (connectedAfter false) ∧
    (Event.removeUser "1c8a1f0e" allWell).Possible (connectedAfter false) ∧
    ¬ (Event.removeUser "1c8a1f0e" allWell).Right bootstrapped (connectedAfter false) := by
  have hrun : (hysteria bootstrapped).Reachable (connectedAfter false) :=
    .step (e := .connect "9b7d") (.step (e := .addUser subscriber allWell)
      (.step (e := .hysteria true) (.step (e := .probed false) (.step (e := .applied) (.start rfl)
        ⟨trivial, rfl⟩) ⟨trivial, rfl⟩) ⟨trivial, rfl⟩)
      ⟨⟨fun _ => rfl, fun _ _ => nofun⟩, rfl⟩) ⟨rfl, rfl⟩
  refine ⟨hrun, fun _ => rfl, fun hright => ?_⟩
  have hkicked := hright.2 (by decide) rfl ⟨"1c8a1f0e", "9b7d", false⟩
    (by decide) rfl (by decide)
  cases hkicked

end Iceslab.Agent.HysteriaUsers
