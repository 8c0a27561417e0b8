import Iceslab.AuthRequests

/-!
# What the requests of an admin may call

Every request, whatever its calls are answered, makes calls of a few kinds only.

* `AuthFact`, `authRules` — what a request learns and what it may then write.
* `obeys_run` — the requests obey the rules; `keeps_authRules` — what they learn stays true.
* `obeying` — both, in every run.
* `Writes`, `row_of_writes`, `row_of_no_write` — what a step does to the row.
-/

set_option autoImplicit false

namespace Iceslab.Auth

open Async

/-! ## The rules -/

inductive AuthFact
  /-- the clock has shown the time -/
  | clock (ms : Nat)
  /-- the mark was written -/
  | marked (mark : Nat)
  | hashed (plaintext hash : String)
  /-- the token was signed -/
  | signed (t : Token)
  /-- the token is revoked until it expires -/
  | revoked (t : Token)
  /-- the password change of the mark reached the row -/
  | stored (mark : Nat)

/-- The code is one of the secret, for the step. -/
def Spent.Verified (crypto : Crypto) (spent : Spent) : Prop :=
  ∃ code nowSec, Totp.verifyTotpStep crypto.hmacSha1 spent.secret code nowSec =
    .ok (some spent.step)

/-- The updates of the program, and what each follows from. -/
inductive Written (crypto : Crypto) (known : AuthFact → Prop) : AdminUpdate → Why → Prop
  | setup (secret : String) : Written crypto known (setupData secret) .setup
  | step (spent : Spent) (h : spent.Verified crypto) :
      Written crypto known { totpLastUsedStep := some spent.step } (.code spent)
  | enable (spent : Spent) (h : spent.Verified crypto) :
      Written crypto known (enableData spent.step) (.code spent)
  | disable (spent : Spent) (h : spent.Verified crypto) :
      Written crypto known (disableData spent.step) (.code spent)
  | password (hash : String) (mark : Nat) (newPassword : String) (hmark : known (.marked mark))
      (hclock : known (.clock mark)) (hhash : known (.hashed newPassword hash)) :
      Written crypto known { passwordHash := some hash } (.change mark newPassword)

/-- The keys that count failures. -/
def CountsFailures (key : String) : Prop :=
  ∃ rest, key = "auth:fail:" ++ rest ∨ key = "auth:2fa-fail:" ++ rest

section Rules

variable (cfg : AuthConfig) (crypto : Crypto) (adminId : String)

/-- What a request may set. -/
inductive Sets (known : AuthFact → Prop) : String → Nat → Nat → Prop
  | revoked (t : Token) (ms : Nat) (hclock : known (.clock ms)) (hsigned : known (.signed t)) :
      Sets known (revokedKey t.jti) 1 (t.exp cfg.jwtExpiresIn - ms / 1000)
  | ended (mark : Nat) (hclock : known (.clock mark)) :
      Sets known (endedKey adminId) mark (cfg.jwtExpiresIn + 60)

/-- The token is revoked, and stays so until it expires. -/
def Revoked (s : AuthState) (t : Token) : Prop :=
  ∃ v goesAt, s.redis.slot (revokedKey t.jti) = some ⟨v, some goesAt⟩ ∧
    t.exp cfg.jwtExpiresIn * 1000 ≤ goesAt

def AuthFact.holds (s : AuthState) : AuthFact → Prop
  | .clock ms => ms ≤ s.now
  | .marked mark => mark ∈ s.marks
  | .hashed plaintext hash => ∃ salt, hash = crypto.hash salt plaintext
  | .signed t => t ∈ s.issued
  | .revoked t => t ∈ s.issued ∧ Revoked cfg s t
  | .stored mark => ∃ n, (n, mark) ∈ s.changes

def authAllowed (known : AuthFact → Prop) {β : Type} : AuthOp β → Prop
  | .incr key => CountsFailures key
  | .expire key _ => CountsFailures key
  | .del key => CountsFailures key
  | .setEx key value seconds => Sets cfg adminId known key value seconds
  | .updateAdmin data why => Written crypto known data why
  | _ => True

/-- What the answer of a call says. -/
def authLearn (known : AuthFact → Prop) {β : Type} : AuthOp β → β → AuthFact → Prop
  | .dateNow, now, f => f = .clock now
  | .hash plaintext, r, f => ∃ hash, r = .ok hash ∧ f = .hashed plaintext hash
  | .jwtVerify t, r, f => r = true ∧ f = .signed t
  | .setEx key value seconds, r, f => r = .ok () ∧
      ((key = endedKey adminId ∧ f = .marked value) ∨
        ∃ t ms, key = revokedKey t.jti ∧ known (.clock ms) ∧ known (.signed t) ∧
          seconds = t.exp cfg.jwtExpiresIn - ms / 1000 ∧ f = .revoked t)
  | .updateAdmin _ (.change mark _), r, f => r = .ok () ∧ f = .stored mark
  | _, _, _ => False

def authRules : Rules AuthState AuthOp AuthFact where
  inv s := (s.issued.map Token.jti).Nodup
  holds f s := f.holds cfg crypto s
  allowed known op := authAllowed cfg crypto adminId known op
  learn known op b f := authLearn cfg adminId known op b f

end Rules

/-! ## The requests obey them -/

variable {data : AdminUpdate} {why : Why} {t : Token}

section Requests

variable {cfg : AuthConfig} {crypto : Crypto} {adminId : String} {known : AuthFact → Prop}
variable {α β : Type} {post : (AuthFact → Prop) → α → Prop}

theorem obeys_call {op : AuthOp (Answer α)} (h : authAllowed cfg crypto adminId known op)
    (hpost : ∀ a, post (fun f => known f ∨ authLearn cfg adminId known op (.ok a) f) a) :
    Throws (authRules cfg crypto adminId) known post (call op) := by
  refine ⟨h, fun r => ?_⟩
  cases r with
  | ok a =>
    rintro _ ⟨⟩
    exact hpost a
  | error e => exact nofun

theorem obeys_ask {op : AuthOp α} (h : authAllowed cfg crypto adminId known op)
    (hpost : ∀ a, post (fun f => known f ∨ authLearn cfg adminId known op a f) a) :
    Throws (authRules cfg crypto adminId) known post (ask op) := by
  refine ⟨h, fun a => ?_⟩
  rintro _ ⟨⟩
  exact hpost a

theorem obeys_any {op : AuthOp (Answer α)} (h : authAllowed cfg crypto adminId known op) :
    Throws (authRules cfg crypto adminId) known (fun _ _ => True) (call op) :=
  obeys_call h fun _ => trivial

theorem obeys_dateNow : Throws (authRules cfg crypto adminId) known
    (fun learned now => learned (.clock now)) (ask .dateNow) := by
  refine obeys_ask (by trivial) fun now => ?_
  exact .inr rfl

theorem obeys_jwtVerify (t : Token) : Throws (authRules cfg crypto adminId) known
    (fun learned ok => ok = true → learned (.signed t)) (ask (.jwtVerify t)) := by
  refine obeys_ask (by trivial) fun ok hok => ?_
  exact .inr ⟨hok, rfl⟩

theorem obeys_hash (plaintext : String) : Throws (authRules cfg crypto adminId) known
    (fun learned hash => learned (.hashed plaintext hash)) (call (.hash plaintext)) := by
  refine obeys_call (by trivial) fun hash => ?_
  exact .inr ⟨hash, rfl, rfl⟩

theorem obeys_checkLocked (key : String) :
    Throws (authRules cfg crypto adminId) known (fun _ _ => True) (checkLocked cfg key) := by
  unfold checkLocked
  refine (obeys_any (by trivial)).bind fun _ r _ _ => ?_
  cases r with
  | none => exact throws_pure trivial
  | some count =>
    dsimp only
    split
    · exact (obeys_any (by trivial)).bind fun _ _ _ _ => throws_throw _
    · exact throws_pure trivial

theorem obeys_recordFailure {key : String} (h : CountsFailures key) :
    Throws (authRules cfg crypto adminId) known (fun _ _ => True) (recordFailure cfg key) := by
  have hexpire (c : Prop) [Decidable c] (seconds : Nat) (learned : AuthFact → Prop) :
      Throws (authRules cfg crypto adminId) learned (fun _ _ => True)
        (if c then call (.expire key seconds) else pure ()) := by
    split
    · exact obeys_any h
    · exact throws_pure trivial
  unfold recordFailure
  refine (obeys_any (by exact h)).bind fun _ n _ _ => ?_
  refine (hexpire _ _ _).bind fun _ _ _ _ => ?_
  refine (hexpire _ _ _).bind fun _ _ _ _ => ?_
  exact throws_pure trivial

theorem obeys_verifyNow (secret code : String) :
    Throws (authRules cfg crypto adminId) known
      (fun _ step => ∀ n ∈ step, Spent.Verified crypto ⟨secret, n⟩)
      (verifyNow crypto secret code) := by
  unfold verifyNow
  refine (obeys_ask (by trivial) fun _ => trivial : Throws _ _ (fun _ _ => True) _).bind
    fun _ now _ _ => ?_
  cases hstep : Totp.verifyTotpStep crypto.hmacSha1 secret code (now / 1000) with
  | error e => exact throws_throw _
  | ok step =>
    refine throws_pure ?_
    rintro n ⟨⟩
    exact ⟨code, _, hstep⟩

theorem obeys_secondFactor {key : String} (h : CountsFailures key) (admin : AdminRow)
    (totpCode : Option String) :
    Throws (authRules cfg crypto adminId) known (fun _ _ => True)
      (secondFactor cfg crypto key admin totpCode) := by
  unfold secondFactor
  split
  · split
    · exact throws_throw _
    · refine (obeys_verifyNow _ _).bind fun _ step _ hstep => ?_
      cases step with
      | none => exact (obeys_recordFailure h).bind fun _ _ _ _ => throws_throw _
      | some step =>
        dsimp only
        split
        · exact obeys_any (.step _ (hstep step rfl))
        · exact (obeys_recordFailure h).bind fun _ _ _ _ => throws_throw _
  · exact throws_pure trivial

theorem countsFailures_failKey (clientIp username : String) :
    CountsFailures (failKey crypto clientIp username) := by
  refine ⟨(if clientIp = "" then "unknown" else clientIp) ++ ":" ++ crypto.lower username, .inl ?_⟩
  simp only [failKey, String.append_assoc]

theorem countsFailures_twofaFailKey (adminId : String) : CountsFailures (twofaFailKey adminId) :=
  ⟨adminId, .inr rfl⟩

theorem obeys_login (input : LoginInput) (clientIp : String) :
    Throws (authRules cfg crypto adminId) known (fun _ _ => True)
      (login cfg crypto input clientIp) := by
  have hkey := @countsFailures_failKey crypto clientIp input.username
  unfold login
  refine (obeys_checkLocked _).bind fun _ _ _ _ => ?_
  refine (obeys_any (by trivial)).bind fun _ row _ _ => ?_
  cases row with
  | none =>
    refine (obeys_any (by trivial)).bind fun _ _ _ _ => ?_
    exact (obeys_recordFailure hkey).bind fun _ _ _ _ => throws_throw _
  | some admin =>
    refine (obeys_any (by trivial)).bind fun _ ok _ _ => ?_
    split
    · refine (obeys_secondFactor hkey _ _).bind fun _ _ _ _ => ?_
      refine (obeys_any (by exact hkey)).bind fun _ _ _ _ => ?_
      exact throws_pure trivial
    · exact (obeys_recordFailure hkey).bind fun _ _ _ _ => throws_throw _

theorem obeys_checkPasswordChange (admin : AdminRow) (input : ChangePasswordInput)
    (clientIp : String) :
    Throws (authRules cfg crypto adminId) known (fun _ _ => True)
      (checkPasswordChange cfg crypto admin input clientIp) := by
  have hkey := @countsFailures_failKey crypto clientIp admin.username
  unfold checkPasswordChange
  refine (obeys_checkLocked _).bind fun _ _ _ _ => ?_
  refine (obeys_any (by trivial)).bind fun _ ok _ _ => ?_
  split
  · refine (obeys_secondFactor hkey _ _).bind fun _ _ _ _ => ?_
    split
    · exact throws_throw _
    · exact obeys_any hkey
  · exact (obeys_recordFailure hkey).bind fun _ _ _ _ => throws_throw _

theorem obeys_setupTotp :
    Throws (authRules cfg crypto adminId) known (fun _ _ => True) setupTotp := by
  unfold setupTotp
  refine (obeys_any (by trivial)).bind fun _ row _ _ => ?_
  cases row with
  | none => exact throws_throw _
  | some admin =>
    dsimp only
    split
    · exact throws_throw _
    · refine (obeys_ask (by trivial) fun _ => trivial : Throws _ _ (fun _ _ => True) _).bind
        fun _ secret _ _ => ?_
      refine (obeys_any (by exact .setup secret)).bind fun _ _ _ _ => ?_
      exact throws_pure trivial

theorem obeys_spendCode (id secret : String) (last : Option Nat) (code : String) :
    Throws (authRules cfg crypto adminId) known (fun _ spent => spent.Verified crypto)
      (spendCode cfg crypto id secret last code) := by
  have hkey := countsFailures_twofaFailKey id
  unfold spendCode
  refine (obeys_checkLocked _).bind fun _ _ _ _ => ?_
  refine (obeys_verifyNow _ _).bind fun _ step _ hstep => ?_
  cases step with
  | none => exact (obeys_recordFailure hkey).bind fun _ _ _ _ => throws_throw _
  | some step =>
    dsimp only
    split
    · refine (obeys_any (by exact hkey)).bind fun _ _ _ _ => ?_
      exact throws_pure (hstep step rfl)
    · exact (obeys_recordFailure hkey).bind fun _ _ _ _ => throws_throw _

theorem obeys_enableTotp (id code : String) :
    Throws (authRules cfg crypto adminId) known (fun _ _ => True)
      (enableTotp cfg crypto id code) := by
  unfold enableTotp
  refine (obeys_any (by trivial)).bind fun _ row _ _ => ?_
  cases row with
  | none => exact throws_throw _
  | some admin =>
    dsimp only
    split
    · exact throws_throw _
    · split
      · exact throws_throw _
      · refine (obeys_spendCode _ _ _ _).bind fun _ spent _ hspent => ?_
        exact obeys_any (.enable spent hspent)

theorem obeys_disableTotp (id code : String) :
    Throws (authRules cfg crypto adminId) known (fun _ _ => True)
      (disableTotp cfg crypto id code) := by
  unfold disableTotp
  refine (obeys_any (by trivial)).bind fun _ row _ _ => ?_
  cases row with
  | none => exact throws_throw _
  | some admin =>
    dsimp only
    split
    · refine (obeys_spendCode _ _ _ _).bind fun _ spent _ hspent => ?_
      exact obeys_any (.disable spent hspent)
    · exact throws_throw _

theorem obeys_requireAuth (session : Token) :
    Throws (authRules cfg crypto adminId) known (fun _ _ => True)
      (requireAuth adminId session) := by
  unfold requireAuth sessionState
  refine (obeys_ask (by trivial) fun _ => trivial : Throws _ _ (fun _ _ => True) _).bind
    fun _ ok _ _ => ?_
  split
  · have hstate (learned : AuthFact → Prop) :
        Throws (authRules cfg crypto adminId) learned (fun _ _ => True)
          (sessionState adminId session) :=
      (obeys_any (by trivial)).bind fun _ _ _ _ => throws_pure trivial
    refine (hstate _).bind fun _ st _ _ => ?_
    cases st with
    | signedOut => exact throws_throw _
    | ended => exact throws_throw _
    | live =>
      refine (obeys_any (by trivial)).bind fun _ row _ _ => ?_
      cases row with
      | none => exact throws_throw _
      | some _ => exact throws_pure trivial
  · exact throws_throw _

/-- A token signed before that is revoked is so until it expires. -/
theorem obeys_revokeToken (h : known (.signed t)) :
    Throws (authRules cfg crypto adminId) known
      (fun learned _ => learned (.revoked t) ∨
        ∃ ms, learned (.clock ms) ∧ t.exp cfg.jwtExpiresIn ≤ ms / 1000) (revokeToken cfg t) := by
  unfold revokeToken
  refine obeys_dateNow.bind fun _ now hle hclock => ?_
  split
  · rename_i hexp
    exact throws_pure (.inr ⟨now, hclock, hexp⟩)
  · refine obeys_call (.revoked t now hclock (hle _ h)) fun _ => .inl (.inr ⟨rfl, .inr ?_⟩)
    exact ⟨t, now, rfl, hclock, hle _ h, rfl, rfl⟩

/-- What a sign-out has ended: each token is revoked, or has expired. -/
def SignedOut (cfg : AuthConfig) (learned : AuthFact → Prop) (revoked : List Token) : Prop :=
  ∀ t ∈ revoked, learned (.revoked t) ∨
    ∃ ms, learned (.clock ms) ∧ t.exp cfg.jwtExpiresIn ≤ ms / 1000

theorem obeys_logout (tokens : List Token) :
    Throws (authRules cfg crypto adminId) known (SignedOut cfg) (logout cfg tokens) := by
  induction tokens generalizing known with
  | nil => exact throws_pure fun t ht => absurd ht List.not_mem_nil
  | cons t tokens ih =>
    unfold logout
    refine (obeys_jwtVerify t).bind fun _ ok _ hsigned => ?_
    split
    · rename_i hok
      refine (obeys_revokeToken (hsigned hok)).bind fun learned _ _ hrevoked => ?_
      refine ih.bind fun learned' revoked hle hrest => throws_pure ?_
      refine List.forall_mem_cons.mpr ⟨?_, hrest⟩
      exact hrevoked.imp (hle _) fun ⟨ms, hms, hexp⟩ => ⟨ms, hle _ hms, hexp⟩
    · exact ih

theorem obeys_setAdminPassword (newPassword : String) {mark : Nat} (hclock : known (.clock mark))
    (hmark : known (.marked mark)) :
    Throws (authRules cfg crypto adminId) known (fun learned _ => learned (.stored mark))
      (setAdminPassword newPassword mark) := by
  unfold setAdminPassword
  refine (obeys_hash _).bind fun _ hash hle hhash => ?_
  refine obeys_call (.password hash mark newPassword (hle _ hmark) (hle _ hclock) hhash) fun _ => ?_
  exact .inr ⟨rfl, rfl⟩

theorem obeys_changePassword (session : Token) (input : ChangePasswordInput) (clientIp : String) :
    Throws (authRules cfg crypto adminId) known (fun learned mark => learned (.stored mark))
      (changePassword cfg crypto adminId session input clientIp) := by
  unfold changePassword
  refine (obeys_requireAuth _).bind fun _ _ _ _ => ?_
  refine (obeys_any (by trivial)).bind fun _ row _ _ => ?_
  cases row with
  | none => exact throws_throw _
  | some admin =>
    refine (obeys_checkPasswordChange _ _ _).bind fun _ _ _ _ => ?_
    refine obeys_dateNow.bind fun learned mark _ hclock => ?_
    have hlife : max 1 (session.exp cfg.jwtExpiresIn - session.iat + 60) =
        cfg.jwtExpiresIn + 60 := by
      unfold Token.exp
      omega
    have hended : Throws (authRules cfg crypto adminId) learned
        (fun learned _ => learned (.clock mark) ∧ learned (.marked mark))
        (endSessionsBefore adminId mark (session.exp cfg.jwtExpiresIn - session.iat + 60)) := by
      unfold endSessionsBefore
      rw [hlife]
      exact obeys_call (.ended mark hclock) fun _ => ⟨.inl hclock, .inr ⟨rfl, .inl ⟨rfl, rfl⟩⟩⟩
    refine hended.bind fun _ _ _ hmark => ?_
    refine (obeys_setAdminPassword input.newPassword hmark.1 hmark.2).bind fun _ _ _ hstored => ?_
    exact throws_pure hstored

/-- What a reply promises. -/
def Promised (cfg : AuthConfig) (learned : AuthFact → Prop) : Reply → Prop
  | .signedOut revoked => SignedOut cfg learned revoked
  | .passwordChanged mark => learned (.stored mark)
  | _ => True

/-- **The requests obey the rules.** -/
theorem obeys_run (request : AuthRequest) :
    Throws (authRules cfg crypto adminId) known (Promised cfg)
      (request.run cfg crypto adminId) := by
  cases request with
  | login input clientIp =>
    have hroute : Throws (authRules cfg crypto adminId) known (fun _ _ => True)
        (loginRoute cfg crypto input clientIp) :=
      (obeys_login input clientIp).bind fun _ _ _ _ => obeys_any (by trivial)
    exact hroute.map _ fun _ _ _ => trivial
  | logout tokens => exact (obeys_logout tokens).map _ fun _ _ h => h
  | session token => exact (obeys_requireAuth token).map _ fun _ _ _ => trivial
  | changePassword t input clientIp =>
    exact (obeys_changePassword t input clientIp).map _ fun _ _ h => h
  | setupTotp => exact obeys_setupTotp.map _ fun _ _ _ => trivial
  | enableTotp code => exact (obeys_enableTotp _ code).map _ fun _ _ _ => trivial
  | disableTotp code => exact (obeys_disableTotp _ code).map _ fun _ _ _ => trivial

end Requests

/-! ## What they learn stays true -/

section Kept

variable {cfg : AuthConfig} {crypto : Crypto} {adminId : String} {s : AuthState} {key : String}
  {c : Choice} {f : AuthFact} {known : AuthFact → Prop} {value seconds : Nat}

theorem getElem?_append_text {a : String} {i : Nat} (h : i < a.toList.length) (rest : String) :
    (a ++ rest).toList[i]? = a.toList[i]? := by
  rw [String.toList_append, List.getElem?_append_left h]

/-- The keys of the program differ right after `auth:`. -/
theorem append_ne_append {a b : String} (ha : 5 < a.toList.length) (hb : 5 < b.toList.length)
    (hne : a.toList[5]? ≠ b.toList[5]?) (rest rest' : String) : a ++ rest ≠ b ++ rest' := by
  intro h
  have hfifth := congrArg (fun key : String => key.toList[5]?) h
  rw [getElem?_append_text ha, getElem?_append_text hb] at hfifth
  exact hne hfifth

theorem endedKey_ne_revokedKey (adminId jti : String) : endedKey adminId ≠ revokedKey jti :=
  append_ne_append (by decide) (by decide) (by decide) _ _

theorem CountsFailures.ne_revokedKey (h : CountsFailures key) (jti : String) :
    revokedKey jti ≠ key := by
  obtain ⟨rest, rfl | rfl⟩ := h
  · exact append_ne_append (by decide) (by decide) (by decide) _ _
  · exact append_ne_append (by decide) (by decide) (by decide) _ _

theorem CountsFailures.ne_endedKey (h : CountsFailures key) (adminId : String) :
    endedKey adminId ≠ key := by
  obtain ⟨rest, rfl | rfl⟩ := h
  · exact append_ne_append (by decide) (by decide) (by decide) _ _
  · exact append_ne_append (by decide) (by decide) (by decide) _ _

theorem revokedKey_inj {jti jti' : String} (h : revokedKey jti = revokedKey jti') : jti = jti' := by
  exact String.append_right_inj _ |>.mp h

theorem eq_of_jti {l : List Token} (h : (l.map Token.jti).Nodup) {t t' : Token} (ht : t ∈ l)
    (ht' : t' ∈ l) (heq : t.jti = t'.jti) : t = t' :=
  List.inj_on_of_nodup_map h ht ht' heq

theorem AuthFact.holds_frame {s' : AuthState} (h : f.holds cfg crypto s)
    (hissued : ∀ t ∈ s.issued, t ∈ s'.issued) (hnow : s.now ≤ s'.now)
    (hmarks : ∀ m ∈ s.marks, m ∈ s'.marks) (hchanges : ∀ c ∈ s.changes, c ∈ s'.changes)
    (hslot : ∀ jti, s'.redis.slot (revokedKey jti) = s.redis.slot (revokedKey jti)) :
    f.holds cfg crypto s' := by
  cases f with
  | clock ms => exact le_trans h hnow
  | marked mark => exact hmarks mark h
  | hashed plaintext hash => exact h
  | signed t => exact hissued t h
  | revoked t =>
    obtain ⟨hsigned, v, goesAt, hgoes, hexp⟩ := h
    exact ⟨hissued t hsigned, v, goesAt, (hslot t.jti).trans hgoes, hexp⟩
  | stored mark => exact h.imp fun n hn => hchanges _ hn

theorem holds_write {redis : Expiring String Nat}
    (hslot : ∀ jti, redis.slot (revokedKey jti) = s.redis.slot (revokedKey jti))
    (h : f.holds cfg crypto s) : f.holds cfg crypto (s.write c redis) := by
  unfold AuthState.write
  split
  · exact AuthFact.holds_frame h (fun _ ht => ht) le_rfl (fun _ hm => hm)
      (fun _ hc => hc) hslot
  · exact h

/-- A revocation stands at least as long as its token. -/
theorem revoked_until {ms : Nat} (h : ms ≤ s.now) : t.exp cfg.jwtExpiresIn * 1000 ≤
    s.now + (t.exp cfg.jwtExpiresIn - ms / 1000) * 1000 := by
  omega

theorem setEx_applied (h : c.applies = true) :
    s.setEx c adminId key value seconds = { s with
      redis := s.redis.set key value (some (s.now + seconds * 1000))
      marks := if key = endedKey adminId then s.marks ++ [value] else s.marks } :=
  if_pos h

theorem holds_setEx
    (hinv : (s.issued.map Token.jti).Nodup) (hknown : ∀ f, known f → f.holds cfg crypto s)
    (hsets : Sets cfg adminId known key value seconds)
    (h : f.holds cfg crypto s) : f.holds cfg crypto (s.setEx c adminId key value seconds) := by
  by_cases happ : c.applies = true
  · rw [setEx_applied happ]
    have hmarks : ∀ m ∈ s.marks,
        m ∈ if key = endedKey adminId then s.marks ++ [value] else s.marks := by
      intro m hm
      split
      · exact List.mem_append_left _ hm
      · exact hm
    cases hsets with
    | ended mark hclock =>
      refine AuthFact.holds_frame h (fun _ ht => ht) le_rfl hmarks (fun _ hc => hc)
        fun jti => ?_
      exact Expiring.put_slot_of_ne (endedKey_ne_revokedKey _ _).symm
    | revoked t ms hclock hsigned =>
      by_cases hf : ∃ t', f = .revoked t' ∧ t'.jti = t.jti
      · obtain ⟨t', rfl, hjti⟩ := hf
        obtain rfl := eq_of_jti hinv h.1 (hknown _ hsigned) hjti
        refine ⟨h.1, _, _, Expiring.put_slot_self, ?_⟩
        exact revoked_until (hknown _ hclock)
      · cases f with
        | revoked t' =>
          obtain ⟨hsigned', v, goesAt, hgoes, hexp⟩ := h
          refine ⟨hsigned', v, goesAt, ?_, hexp⟩
          refine Eq.trans (Expiring.put_slot_of_ne fun heq => ?_) hgoes
          exact hf ⟨t', rfl, revokedKey_inj heq⟩
        | clock ms' => exact h
        | marked mark => exact hmarks mark h
        | hashed plaintext hash => exact h
        | signed t' => exact h
        | stored mark => exact h
  · rw [AuthState.setEx, if_neg happ]
    exact h

/-- A call that is answered took effect. -/
theorem applies_of_answer {α : Type} {a b : α} (h : c.answer a = .ok b) : c.applies = true := by
  unfold Choice.answer at h
  split at h
  · cases h
  · rename_i hfails
    simp [Choice.applies, hfails]

theorem learned_setEx (hknown : ∀ f, known f → f.holds cfg crypto s)
    (h : authLearn cfg adminId known (.setEx key value seconds) (c.answer ()) f) :
    f.holds cfg crypto (s.setEx c adminId key value seconds) := by
  obtain ⟨hok, h⟩ := h
  rw [setEx_applied (applies_of_answer hok)]
  rcases h with ⟨rfl, rfl⟩ | ⟨t, ms, rfl, hclock, hsigned, rfl, rfl⟩
  · show value ∈ ite _ _ _
    rw [if_pos rfl]
    exact List.mem_append_right _ (List.mem_singleton_self _)
  · refine ⟨hknown _ hsigned, _, _, Expiring.put_slot_self, ?_⟩
    exact revoked_until (hknown _ hclock)

theorem holds_update (h : f.holds cfg crypto s) : f.holds cfg crypto (s.update c data why) := by
  unfold AuthState.update
  split
  · refine AuthFact.holds_frame h (fun _ ht => ht) le_rfl (fun _ hm => hm) (fun _ hc => ?_)
      fun _ => rfl
    unfold AuthState.changed
    split
    · exact List.mem_append_left _ hc
    · exact hc
  · exact h

theorem learned_update (h : authLearn cfg adminId known (.updateAdmin data why) (c.answer ()) f) :
    f.holds cfg crypto (s.update c data why) := by
  cases why with
  | setup => cases h
  | code spent => cases h
  | change mark newPassword =>
    obtain ⟨hok, rfl⟩ := h
    rw [AuthState.update, if_pos (applies_of_answer hok)]
    exact ⟨_, List.mem_append_right _ (List.mem_singleton_self _)⟩

theorem holds_sign (h : f.holds cfg crypto s) : f.holds cfg crypto (s.sign c t) := by
  unfold AuthState.sign
  split
  · exact AuthFact.holds_frame h (fun _ ht => List.mem_append_left _ ht) le_rfl (fun _ hm => hm)
      (fun _ hc => hc) fun _ => rfl
  · exact h

theorem nodup_sign (hinv : (s.issued.map Token.jti).Nodup)
    (hnew : t.jti ∉ s.issued.map Token.jti) : ((s.sign c t).issued.map Token.jti).Nodup := by
  unfold AuthState.sign
  split
  · rw [List.map_append, List.nodup_append_comm]
    exact List.nodup_cons.mpr ⟨hnew, hinv⟩
  · exact hinv

/-- **What the requests learn stays true.** -/
theorem keeps_authRules :
    (authHost cfg crypto adminId).Keeps (authRules cfg crypto adminId) where
  world ms s hinv := by
    refine ⟨hinv, fun f hf =>
      AuthFact.holds_frame hf (fun _ ht => ht) ?_ (fun _ hm => hm) (fun _ hc => hc)
        fun _ => rfl⟩
    exact Nat.le_add_right _ _
  exec known _ op c s r hexec hinv hknown hallowed := by
    have hmade : s.exec cfg crypto adminId op c = some r := hexec
    -- what an update of the counters leaves
    have hcount (c : Choice) (redis : Expiring String Nat)
        (hslot : ∀ jti, redis.slot (revokedKey jti) = s.redis.slot (revokedKey jti)) :
        ((s.write c redis).issued.map Token.jti).Nodup ∧
          ∀ f : AuthFact, f.holds cfg crypto s → f.holds cfg crypto (s.write c redis) := by
      refine ⟨?_, fun f hf => holds_write hslot hf⟩
      unfold AuthState.write
      split <;> exact hinv
    rename_i c
    cases op with
    | updateAdmin data why =>
      cases hmade
      refine ⟨?_, fun f hf => hf.elim holds_update fun hf => ?_⟩
      rotate_left
      · exact learned_update hf
      show ((s.update c data why).issued.map Token.jti).Nodup
      unfold AuthState.update
      split <;> exact hinv
    | jwtSign passwords =>
      simp only [AuthState.exec] at hmade
      split at hmade
      · cases hmade
      · rename_i hnew
        cases hmade
        exact ⟨nodup_sign hinv hnew, fun f hf => hf.elim holds_sign nofun⟩
    | setEx key value seconds =>
      cases hmade
      refine ⟨?_, fun f hf => hf.elim (holds_setEx hinv hknown hallowed) fun hf => ?_⟩
      rotate_left
      · exact learned_setEx hknown hf
      show ((s.setEx c adminId key value seconds).issued.map Token.jti).Nodup
      unfold AuthState.setEx
      split <;> exact hinv
    | incr key =>
      cases hmade
      have hkept := hcount c (s.redis.incr s.now key) fun jti =>
        Expiring.incr_slot_of_ne (CountsFailures.ne_revokedKey hallowed jti)
      exact ⟨hkept.1, fun f hf => hf.elim (hkept.2 f) nofun⟩
    | expire key seconds =>
      cases hmade
      have hkept := hcount c (s.redis.expire s.now key (s.now + seconds * 1000)) fun jti =>
        Expiring.expire_slot_of_ne (CountsFailures.ne_revokedKey hallowed jti)
      exact ⟨hkept.1, fun f hf => hf.elim (hkept.2 f) nofun⟩
    | del key =>
      cases hmade
      have hkept := hcount c (s.redis.del key) fun jti =>
        Expiring.put_slot_of_ne (CountsFailures.ne_revokedKey hallowed jti)
      exact ⟨hkept.1, fun f hf => hf.elim (hkept.2 f) nofun⟩
    | dateNow =>
      cases hmade
      refine ⟨hinv, fun f hf => hf.elim id ?_⟩
      rintro rfl
      exact le_rfl
    | hash plaintext =>
      cases hmade
      refine ⟨hinv, fun f hf => hf.elim id ?_⟩
      rintro ⟨hash, hanswer, rfl⟩
      unfold Choice.answer at hanswer
      split at hanswer
      · cases hanswer
      · cases hanswer
        exact ⟨c.fresh, rfl⟩
    | jwtVerify t =>
      cases hmade
      refine ⟨hinv, fun f hf => hf.elim id ?_⟩
      rintro ⟨hok, rfl⟩
      simp only [Bool.and_eq_true, decide_eq_true_eq] at hok
      exact hok.1
    | _ =>
      cases hmade
      exact ⟨hinv, fun f hf => hf.elim id nofun⟩

/-- **The requests of every run obey the rules, and know nothing that is not so.** -/
theorem obeying {pool : AuthPool} (h : (authMachine cfg crypto adminId).Reachable pool) :
    Host.Obeying (authRules cfg crypto adminId)
      (fun learned r => ∀ reply, r = .ok reply → Promised cfg learned reply) pool := by
  refine Host.obeys_of_reachable (fun s hs => ?_) keeps_authRules (fun request s p hp => ?_) h
  · show (s.issued.map Token.jti).Nodup
    rw [hs.1]
    exact List.nodup_nil
  · rw [List.mem_singleton.mp hp]
    exact obeys_run request

end Kept

/-! ## The row -/

/-- The write that the event makes. -/
def Writes (pool : AuthPool) (e : AuthEvent) (data : AdminUpdate) (why : Why) : Prop :=
  ∃ (i : Nat) (c : Choice) (rest : Answer Unit → Async AuthOp (Except AuthError Reply)),
    e = .turn i c ∧ c.applies = true ∧ pool.procs[i]? = some (.call (.updateAdmin data why) rest)

section Row

variable {cfg : AuthConfig} {crypto : Crypto} {adminId : String} {pool : AuthPool} {e : AuthEvent}

theorem row_of_writes (h : Writes pool e data why) :
    ((authHost cfg crypto adminId).step pool e).shared.row = data.apply pool.shared.row := by
  obtain ⟨i, c, rest, rfl, happ, hproc⟩ := h
  have hturn : (authHost cfg crypto adminId).turn i c pool =
      ⟨pool.shared.update c data why, pool.procs.set i (rest (c.answer ()))⟩ := by
    unfold Host.turn
    rw [hproc]
    rfl
  show ((authHost cfg crypto adminId).turn i c pool).shared.row = _
  rw [hturn]
  show (pool.shared.update c data why).row = _
  rw [AuthState.update, if_pos happ]

theorem row_of_no_write (h : ∀ data why, ¬ Writes pool e data why) :
    ((authHost cfg crypto adminId).step pool e).shared.row = pool.shared.row := by
  cases e with
  | start r => rfl
  | world ms => rfl
  | turn i c =>
    rcases (authHost cfg crypto adminId).turn_cases i c pool with heq |
      ⟨β, op, rest, b, hasked, hmade, -⟩
    · exact congrArg (fun p => p.shared.row) heq
    · obtain ⟨s', hs'⟩ : ∃ s', s' = ((authHost cfg crypto adminId).step pool (.turn i c)).shared :=
        ⟨_, rfl⟩
      have hexec : pool.shared.exec cfg crypto adminId op c = some (b, s') := hs' ▸ hmade
      rw [← hs']
      cases op with
      | updateAdmin data why =>
        cases hexec
        have hlost : c.applies ≠ true := fun happ => h data why ⟨i, c, rest, rfl, happ, hasked⟩
        rw [AuthState.update, if_neg hlost]
      | jwtSign passwords =>
        simp only [AuthState.exec] at hexec
        split at hexec
        · cases hexec
        · cases hexec
          exact sign_row
      | setEx key value seconds =>
        cases hexec
        exact setEx_row
      | incr key =>
        cases hexec
        exact write_row
      | expire key seconds =>
        cases hexec
        exact write_row
      | del key =>
        cases hexec
        exact write_row
      | _ =>
        cases hexec
        rfl

theorem written_of_writes (h : (authMachine cfg crypto adminId).Reachable pool)
    (hw : Writes pool e data why) :
    ∃ known, (∀ f : AuthFact, known f → f.holds cfg crypto pool.shared) ∧
      Written crypto known data why := by
  obtain ⟨i, c, rest, -, -, hproc⟩ := hw
  obtain ⟨known, hknown, hobeys⟩ := (obeying h).procs _ (List.mem_of_getElem? hproc)
  exact ⟨known, hknown, hobeys.1⟩

end Row

end Iceslab.Auth
