import Iceslab.AuthCalls

/-!
# A password change ends the sessions before it

What runs of the requests keep of the sessions.

* `AuthOp.InOrder` — **when sign-ins and changes keep their order.**
* `SessionsInv` — a session of an earlier password is over: expired, revoked, or under the mark.
* `SessionsKept`, `sessions_kept` — **what a run in that order keeps.**
* `old_session_lives` — a session signed between a change's mark and its hash outlives the change.
-/

set_option autoImplicit false

namespace Iceslab.Auth

open Async

/-! ## What is asked of a run -/

section Claim

variable (cfg : AuthConfig) (crypto : Crypto) (adminId : String)

/-- What `sessionState` would answer of a token now. -/
def AuthState.session (s : AuthState) (t : Token) : SessionState :=
  stateOf (s.redis.get s.now (revokedKey t.jti)) (s.redis.get s.now (endedKey adminId)) t.iatMs

/-- A request with the token is let in. -/
def Live (s : AuthState) (t : Token) : Prop :=
  t ∈ s.issued ∧ s.now < t.exp cfg.jwtExpiresIn * 1000 ∧ s.session adminId t = .live

/-- What a run keeps of the sessions. -/
structure SessionsKept (steps : List (AuthPool × AuthEvent × AuthPool)) (pool : AuthPool) :
    Prop where
  /-- a change that was answered is one of those the next field is about -/
  answered : ∀ (i : Nat) (mark : Nat), pool.procs[i]? = some (.done (.ok (.passwordChanged mark))) →
    ∃ n, (n, mark) ∈ pool.shared.changes
  /-- once a change is in the row, answered or not, no session of an earlier password is live -/
  ended : ∀ c ∈ pool.shared.changes, ∀ t, t.passwords < c.1 → ¬ Live cfg adminId pool.shared t
  signedOut : ∀ (i : Nat) (revoked : List Token),
    pool.procs[i]? = some (.done (.ok (.signedOut revoked))) →
    ∀ t ∈ revoked, ¬ Live cfg adminId pool.shared t
  /-- the password in the row is the old one, or the new one of a change -/
  stored : ∀ st ∈ steps, st.2.2.shared.row.passwordHash = st.1.shared.row.passwordHash ∨
    ∃ data mark newPassword salt, Writes st.1 st.2.1 data (.change mark newPassword) ∧
      st.2.2.shared.row.passwordHash = crypto.hash salt newPassword
  /-- a session of the new password was signed after the change's mark -/
  spared : ∀ c ∈ pool.shared.changes, ∀ t ∈ pool.shared.issued, c.1 ≤ t.passwords → c.2 < t.iatMs

/-- **When sign-ins and changes keep their order.**  A session is signed while the password it was
verified against is in force; a mark does not go back; and a hash is stored some time after its
mark, with no session in between. -/
def AuthOp.InOrder (s : AuthState) {β : Type} : AuthOp β → Prop
  | .jwtSign passwords => passwords = s.row.passwords
  | .setEx key mark _ => key = endedKey adminId → ∀ m ∈ s.redis.get s.now key, m ≤ mark
  | .updateAdmin _ (.change mark _) => mark < s.now ∧ ∀ t ∈ s.issued,
      s.now < t.exp cfg.jwtExpiresIn * 1000 → ¬ Revoked cfg s t → t.iatMs ≤ mark
  | _ => True

/-- The call of the event is made in order. -/
def InOrder (pool : AuthPool) : AuthEvent → Prop
  | .turn i c =>
    match pool.procs[i]? with
    | some (.call op _) => c.applies = true → op.InOrder cfg adminId pool.shared
    | _ => True
  | _ => True

end Claim

/-! ## The invariant -/

section Invariant

variable {cfg : AuthConfig} {crypto : Crypto} {adminId : String} {s s' : AuthState} {t : Token}
  {c : Choice}

/-- The token is under a mark that stands until it expires. -/
def Ended (cfg : AuthConfig) (adminId : String) (s : AuthState) (t : Token) : Prop :=
  ∃ mark goesAt, s.redis.slot (endedKey adminId) = some ⟨mark, some goesAt⟩ ∧ t.iatMs ≤ mark ∧
    t.exp cfg.jwtExpiresIn * 1000 ≤ goesAt

/-- The token is never live again. -/
def Over (cfg : AuthConfig) (adminId : String) (s : AuthState) (t : Token) : Prop :=
  t.exp cfg.jwtExpiresIn * 1000 ≤ s.now ∨ Revoked cfg s t ∨ Ended cfg adminId s t

theorem Over.not_live (h : Over cfg adminId s t) : ¬ Live cfg adminId s t := by
  rintro ⟨-, hexp, hlive⟩
  unfold AuthState.session stateOf at hlive
  rcases h with h | ⟨v, goesAt, hslot, hgoes⟩ | ⟨mark, goesAt, hslot, hmark, hgoes⟩
  · omega
  · rw [Expiring.get_of_slot hslot (by omega)] at hlive
    cases hlive
  · rw [Expiring.get_of_slot hslot (by omega)] at hlive
    split at hlive
    · cases hlive
    · rw [if_pos (by simpa using hmark)] at hlive
      cases hlive

/-- A mark no token under it outlives, or one in force. -/
def MarkStands (cfg : AuthConfig) (adminId : String) (s : AuthState) (mark : Nat) : Prop :=
  mark + (cfg.jwtExpiresIn + 60) * 1000 < s.now ∨ ∃ m goesAt,
    s.redis.slot (endedKey adminId) = some ⟨m, some goesAt⟩ ∧ mark ≤ m ∧
    m + (cfg.jwtExpiresIn + 60) * 1000 ≤ goesAt

structure SessionsInv (cfg : AuthConfig) (adminId : String) (s : AuthState) : Prop where
  signed : ∀ t ∈ s.issued, t.iatMs ≤ s.now ∧ t.passwords ≤ s.row.passwords
  older : ∀ t ∈ s.issued, t.passwords < s.row.passwords → Over cfg adminId s t
  marks : ∀ mark ∈ s.marks, MarkStands cfg adminId s mark
  changes : ∀ c ∈ s.changes, c.1 ≤ s.row.passwords ∧ c.2 < s.now
  spared : ∀ c ∈ s.changes, ∀ t ∈ s.issued, c.1 ≤ t.passwords → c.2 < t.iatMs

/-- A token expires within the life of a session after it was signed. -/
theorem exp_le (t : Token) : t.exp cfg.jwtExpiresIn * 1000 ≤ t.iatMs + cfg.jwtExpiresIn * 1000 := by
  unfold Token.exp Token.iat
  omega

/-- What a mark that was written says of the tokens it is for. -/
theorem MarkStands.over {mark : Nat} (h : MarkStands cfg adminId s mark) (ht : t.iatMs ≤ mark) :
    Over cfg adminId s t := by
  have hexp := @exp_le cfg t
  rcases h with h | ⟨m, goesAt, hslot, hm, hgoes⟩
  · exact .inl (by omega)
  · exact .inr (.inr ⟨m, goesAt, hslot, by omega, by omega⟩)

theorem Over.frame (h : Over cfg adminId s t) (hnow : s.now ≤ s'.now)
    (hrevoked : Revoked cfg s t → Revoked cfg s' t)
    (hended : s'.redis.slot (endedKey adminId) = s.redis.slot (endedKey adminId)) :
    Over cfg adminId s' t := by
  rcases h with h | h | ⟨mark, goesAt, hslot, h⟩
  · exact .inl (h.trans hnow)
  · exact .inr (.inl (hrevoked h))
  · exact .inr (.inr ⟨mark, goesAt, hended.trans hslot, h⟩)

theorem MarkStands.frame {mark : Nat} (h : MarkStands cfg adminId s mark) (hnow : s.now ≤ s'.now)
    (hended : s'.redis.slot (endedKey adminId) = s.redis.slot (endedKey adminId)) :
    MarkStands cfg adminId s' mark := by
  rcases h with h | ⟨m, goesAt, hslot, h⟩
  · exact .inl (h.trans_le hnow)
  · exact .inr ⟨m, goesAt, hended.trans hslot, h⟩

theorem SessionsInv.frame (h : SessionsInv cfg adminId s) (hnow : s.now ≤ s'.now)
    (hissued : s'.issued = s.issued) (hrow : s'.row.passwords = s.row.passwords)
    (hmarks : s'.marks = s.marks) (hchanges : s'.changes = s.changes)
    (hrevoked : ∀ t ∈ s.issued, Revoked cfg s t → Revoked cfg s' t)
    (hended : s'.redis.slot (endedKey adminId) = s.redis.slot (endedKey adminId)) :
    SessionsInv cfg adminId s' := by
  constructor
  · rw [hissued, hrow]
    exact fun t ht => ⟨(h.signed t ht).1.trans hnow, (h.signed t ht).2⟩
  · rw [hissued, hrow]
    exact fun t ht hold => (h.older t ht hold).frame hnow (hrevoked t ht) hended
  · rw [hmarks]
    exact fun mark hm => (h.marks mark hm).frame hnow hended
  · rw [hchanges, hrow]
    exact fun c hc => ⟨(h.changes c hc).1, (h.changes c hc).2.trans_le hnow⟩
  · rw [hchanges, hissued]
    exact h.spared

/-! ## One call -/

theorem SessionsInv.tick (h : SessionsInv cfg adminId s) (ms : Nat) :
    SessionsInv cfg adminId { s with now := s.now + ms } :=
  h.frame (Nat.le_add_right _ _) rfl rfl rfl rfl (fun _ _ hr => hr) rfl

theorem SessionsInv.mark (h : SessionsInv cfg adminId s) {mark : Nat}
    (hclock : mark ≤ s.now) (hlast : c.applies = true → ∀ m ∈ s.redis.get s.now (endedKey adminId),
      m ≤ mark) :
    SessionsInv cfg adminId
      (s.setEx c adminId (endedKey adminId) mark (cfg.jwtExpiresIn + 60)) := by
  by_cases happ : c.applies = true
  · rw [setEx_applied happ, if_pos rfl]
    have hslot : ((s.redis.set (endedKey adminId) mark
        (some (s.now + (cfg.jwtExpiresIn + 60) * 1000))).slot (endedKey adminId)) =
        some ⟨mark, some (s.now + (cfg.jwtExpiresIn + 60) * 1000)⟩ := Expiring.put_slot_self
    have hbefore {m goesAt : Nat}
        (hold : s.redis.slot (endedKey adminId) = some ⟨m, some goesAt⟩) (hgoes : s.now ≤ goesAt) :
        m ≤ mark := hlast happ m (Expiring.get_of_slot hold hgoes)
    refine ⟨h.signed, fun t ht hold => ?_, fun mk hm => ?_, h.changes, h.spared⟩
    · have hsigned := (h.signed t ht).1
      have hexp := @exp_le cfg t
      rcases h.older t ht hold with hover | ⟨v, goesAt, hr, hgoes⟩ | ⟨m, goesAt, hm, hle, hgoes⟩
      · exact .inl hover
      · refine .inr (.inl ⟨v, goesAt, Eq.trans ?_ hr, hgoes⟩)
        exact Expiring.put_slot_of_ne (endedKey_ne_revokedKey _ _).symm
      · by_cases hnow : s.now ≤ goesAt
        · have hmark := hbefore hm hnow
          exact .inr (.inr ⟨mark, _, hslot, by omega, by omega⟩)
        · exact .inl (show _ ≤ s.now by omega)
    · rcases List.mem_append.mp hm with hm | hm
      · rcases h.marks mk hm with hgone | ⟨m, goesAt, hold, hle, hgoes⟩
        · exact .inl hgone
        · by_cases hnow : s.now ≤ goesAt
          · have hmark := hbefore hold hnow
            exact .inr ⟨mark, _, hslot, by omega, by omega⟩
          · exact .inl (show _ < s.now by omega)
      · rw [List.mem_singleton.mp hm]
        exact .inr ⟨mark, _, hslot, le_rfl, by omega⟩
  · rw [AuthState.setEx, if_neg happ]
    exact h

theorem SessionsInv.store (h : SessionsInv cfg adminId s) {hash newPassword : String}
    {mark : Nat} (hmark : mark ∈ s.marks)
    (horder : c.applies = true → mark < s.now ∧ ∀ t ∈ s.issued,
      s.now < t.exp cfg.jwtExpiresIn * 1000 → ¬ Revoked cfg s t → t.iatMs ≤ mark) :
    SessionsInv cfg adminId
      (s.update c { passwordHash := some hash } (.change mark newPassword)) := by
  by_cases happ : c.applies = true
  · obtain ⟨hlater, hnone⟩ := horder happ
    rw [AuthState.update, if_pos happ]
    have hrow : (AdminUpdate.apply { passwordHash := some hash } s.row).passwords =
        s.row.passwords + 1 := rfl
    constructor
    · intro t ht
      exact ⟨(h.signed t ht).1, (h.signed t ht).2.trans (Nat.le_succ _)⟩
    · intro t ht _
      have hover : Over cfg adminId s t := by
        by_cases hexp : s.now < t.exp cfg.jwtExpiresIn * 1000
        · by_cases hr : Revoked cfg s t
          · exact .inr (.inl hr)
          · exact (h.marks mark hmark).over (hnone t ht hexp hr)
        · exact .inl (by omega)
      exact hover.frame le_rfl id rfl
    · exact fun mk hm => (h.marks mk hm).frame le_rfl rfl
    · intro e he
      rcases List.mem_append.mp he with he | he
      · exact ⟨(h.changes e he).1.trans (Nat.le_succ _), (h.changes e he).2⟩
      · rw [List.mem_singleton.mp he]
        exact ⟨le_rfl, hlater⟩
    · intro e he t ht hle
      rcases List.mem_append.mp he with he | he
      · exact h.spared e he t ht hle
      · rw [List.mem_singleton.mp he] at hle
        have hsigned := (h.signed t ht).2
        simp only [hrow] at hle
        omega
  · rw [AuthState.update, if_neg happ]
    exact h

theorem SessionsInv.sign (h : SessionsInv cfg adminId s) {passwords : Nat}
    (horder : c.applies = true → passwords = s.row.passwords) :
    SessionsInv cfg adminId (s.sign c ⟨c.fresh, s.now, passwords⟩) := by
  by_cases happ : c.applies = true
  · obtain rfl := horder happ
    rw [AuthState.sign, if_pos happ]
    constructor
    · intro t ht
      rcases List.mem_append.mp ht with ht | ht
      · exact h.signed t ht
      · rw [List.mem_singleton.mp ht]
        exact ⟨le_rfl, le_rfl⟩
    · intro t ht hold
      rcases List.mem_append.mp ht with ht | ht
      · exact (h.older t ht hold).frame le_rfl id rfl
      · rw [List.mem_singleton.mp ht] at hold
        exact absurd hold (lt_irrefl _)
    · exact fun mk hm => (h.marks mk hm).frame le_rfl rfl
    · exact h.changes
    · intro e he t ht hle
      rcases List.mem_append.mp ht with ht | ht
      · exact h.spared e he t ht hle
      · rw [List.mem_singleton.mp ht]
        exact (h.changes e he).2
  · rw [AuthState.sign, if_neg happ]
    exact h

theorem SessionsInv.write (h : SessionsInv cfg adminId s) {redis : Expiring String Nat}
    (hrevoked : ∀ jti, redis.slot (revokedKey jti) = s.redis.slot (revokedKey jti))
    (hended : redis.slot (endedKey adminId) = s.redis.slot (endedKey adminId)) :
    SessionsInv cfg adminId (s.write c redis) := by
  unfold AuthState.write
  split
  · refine h.frame le_rfl rfl rfl rfl rfl (fun t _ => ?_) hended
    rintro ⟨v, goesAt, hslot, hgoes⟩
    exact ⟨v, goesAt, (hrevoked t.jti).trans hslot, hgoes⟩
  · exact h

theorem SessionsInv.revoke (h : SessionsInv cfg adminId s) {t : Token} {value seconds : Nat}
    (hrevoked : ∀ t' ∈ s.issued, Revoked cfg s t' →
      Revoked cfg (s.setEx c adminId (revokedKey t.jti) value seconds) t') :
    SessionsInv cfg adminId (s.setEx c adminId (revokedKey t.jti) value seconds) := by
  by_cases happ : c.applies = true
  · rw [setEx_applied happ] at hrevoked ⊢
    rw [if_neg (endedKey_ne_revokedKey adminId t.jti).symm] at hrevoked ⊢
    refine h.frame le_rfl rfl rfl rfl rfl hrevoked ?_
    exact Expiring.put_slot_of_ne (endedKey_ne_revokedKey _ _)
  · rw [AuthState.setEx, if_neg happ]
    exact h

end Invariant

/-! ## Runs -/

section Runs

variable {cfg : AuthConfig} {crypto : Crypto} {adminId : String} {pool : AuthPool}

/-- **One step in order keeps the invariant.** -/
theorem SessionsInv.step (h : SessionsInv cfg adminId pool.shared)
    (hobeying : Host.Obeying (authRules cfg crypto adminId)
      (fun learned r => ∀ reply, r = .ok reply → Promised cfg learned reply) pool)
    {e : AuthEvent} (horder : InOrder cfg adminId pool e) :
    SessionsInv cfg adminId ((authHost cfg crypto adminId).step pool e).shared := by
  have hcases := @Host.step_cases _ _ _ _ _ _ _ (authHost cfg crypto adminId) _ _ _ hobeying e
  rcases hcases with heq | ⟨ms, -, heq⟩ |
    ⟨i, c, β, op, rest, b, known, rfl, hknown, hallowed, hasked, hmade, -⟩
  · rw [heq]
    exact h
  · rw [heq]
    exact h.tick ms
  · obtain ⟨s', hs'⟩ : ∃ s', s' = ((authHost cfg crypto adminId).step pool (.turn i c)).shared :=
      ⟨_, rfl⟩
    have hexec : pool.shared.exec cfg crypto adminId op c = some (b, s') := hs' ▸ hmade
    rw [← hs']
    have hin : c.applies = true → op.InOrder cfg adminId pool.shared := by
      simpa only [InOrder, hasked] using horder
    cases op with
    | updateAdmin data why =>
      cases hexec
      cases hallowed with
      | password hash mark newPassword hmark _ _ => exact h.store (hknown _ hmark) hin
      | _ =>
        unfold AuthState.update
        split
        · exact h.frame le_rfl rfl rfl rfl rfl (fun _ _ hr => hr) rfl
        · exact h
    | setEx key value seconds =>
      cases hexec
      have hkeep {f : AuthFact} (hf : f.holds cfg crypto pool.shared) :=
        holds_setEx (c := c) hobeying.inv hknown hallowed hf
      cases hallowed with
      | ended mark hclock => exact h.mark (hknown _ hclock) fun happ => hin happ rfl
      | revoked t ms _ _ =>
        refine h.revoke fun t' ht' hr => ?_
        exact (hkeep (f := .revoked t') ⟨ht', hr⟩).2
    | jwtSign passwords =>
      simp only [AuthState.exec] at hexec
      split at hexec
      · cases hexec
      · cases hexec
        exact h.sign hin
    | incr key =>
      cases hexec
      exact h.write (fun jti => Expiring.incr_slot_of_ne (CountsFailures.ne_revokedKey hallowed jti))
        (Expiring.incr_slot_of_ne (CountsFailures.ne_endedKey hallowed adminId))
    | expire key seconds =>
      cases hexec
      exact h.write
        (fun jti => Expiring.expire_slot_of_ne (CountsFailures.ne_revokedKey hallowed jti))
        (Expiring.expire_slot_of_ne (CountsFailures.ne_endedKey hallowed adminId))
    | del key =>
      cases hexec
      exact h.write (fun jti => Expiring.put_slot_of_ne (CountsFailures.ne_revokedKey hallowed jti))
        (Expiring.put_slot_of_ne (CountsFailures.ne_endedKey hallowed adminId))
    | _ =>
      cases hexec
      exact h

theorem stored_step (h : (authMachine cfg crypto adminId).Reachable pool) (e : AuthEvent) :
    ((authHost cfg crypto adminId).step pool e).shared.row.passwordHash =
        pool.shared.row.passwordHash ∨
      ∃ data mark newPassword salt, Writes pool e data (.change mark newPassword) ∧
        ((authHost cfg crypto adminId).step pool e).shared.row.passwordHash =
          crypto.hash salt newPassword := by
  by_cases hw : ∃ data why, Writes pool e data why
  · obtain ⟨data, why, hw⟩ := hw
    obtain ⟨known, hknown, hwritten⟩ := written_of_writes h hw
    rw [row_of_writes hw]
    cases hwritten with
    | password hash mark newPassword _ _ hhash =>
      obtain ⟨salt, rfl⟩ := hknown _ hhash
      exact .inr ⟨_, mark, newPassword, salt, hw, rfl⟩
    | _ => exact .inl rfl
  · rw [row_of_no_write fun data why hw' => hw ⟨data, why, hw'⟩]
    exact .inl rfl

/-- **What a run in order keeps of the sessions.** -/
theorem sessions_kept {pool₀ : AuthPool} {steps : List (AuthPool × AuthEvent × AuthPool)}
    (h : (authMachine cfg crypto adminId).Run pool₀ steps pool)
    (h₀ : (authMachine cfg crypto adminId).start pool₀)
    (horder : ∀ st ∈ steps, InOrder cfg adminId st.1 st.2.1) :
    SessionsKept cfg crypto adminId steps pool := by
  have hreach := h.reachable_of_mem (.start h₀)
  have hstep : ∀ st ∈ steps, st.2.2 = (authHost cfg crypto adminId).step st.1 st.2.1 :=
    h.step_of_mem
  have hinv : SessionsInv cfg adminId pool.shared := by
    refine h.keeps (P := fun p => SessionsInv cfg adminId p.shared) (fun st hst hinv => ?_) ?_
    · rw [hstep st hst]
      exact hinv.step (obeying (hreach st hst)) (horder st hst)
    · obtain ⟨⟨hissued, hmarks, hchanges⟩, -⟩ := h₀
      constructor
      · simp [hissued]
      · simp [hissued]
      · simp [hmarks]
      · simp [hchanges]
      · simp [hchanges]
  have hobeying := obeying (h.reachable (.start h₀))
  constructor
  · intro i mark hdone
    obtain ⟨known, hknown, hpost⟩ := hobeying.done hdone
    exact hknown _ (hpost _ rfl)
  · intro c hc t hold hlive
    exact (hinv.older t hlive.1 (hold.trans_le (hinv.changes c hc).1)).not_live hlive
  · intro i revoked hdone t ht
    obtain ⟨known, hknown, hpost⟩ := hobeying.done hdone
    refine Over.not_live ?_
    rcases hpost _ rfl t ht with hr | ⟨ms, hms, hexp⟩
    · exact .inr (.inl (hknown _ hr).2)
    · have hnow : ms ≤ pool.shared.now := hknown _ hms
      exact .inl (by omega)
  · intro st hst
    rw [hstep st hst]
    exact stored_step (hreach st hst) _
  · exact hinv.spared

end Runs

/-! ## A session signed while the new hash is made -/

instance (cfg : AuthConfig) (s : AuthState) (t : Token) : Decidable (Revoked cfg s t) :=
  decidable_of_iff (∃ slot ∈ s.redis.slot (revokedKey t.jti), ∃ goesAt ∈ slot.goesAt,
      t.exp cfg.jwtExpiresIn * 1000 ≤ goesAt) (by
    constructor
    · rintro ⟨⟨v, _⟩, hslot, goesAt, rfl, hexp⟩
      exact ⟨v, goesAt, hslot, hexp⟩
    · rintro ⟨v, goesAt, hslot, hexp⟩
      exact ⟨_, hslot, goesAt, rfl, hexp⟩)

instance (cfg : AuthConfig) (adminId : String) (s : AuthState) {β : Type} (op : AuthOp β) :
    Decidable (op.InOrder cfg adminId s) :=
  match op with
  | .jwtSign passwords => inferInstanceAs (Decidable (passwords = s.row.passwords))
  | .setEx key mark _ =>
    inferInstanceAs (Decidable (key = endedKey adminId → ∀ m ∈ s.redis.get s.now key, m ≤ mark))
  | .updateAdmin _ (.change mark _) => inferInstanceAs (Decidable (mark < s.now ∧ ∀ t ∈ s.issued,
      s.now < t.exp cfg.jwtExpiresIn * 1000 → ¬ Revoked cfg s t → t.iatMs ≤ mark))
  | .updateAdmin _ .setup | .updateAdmin _ (.code _) => .isTrue trivial
  | .dateNow | .get _ | .ttl _ | .incr _ | .expire _ _ | .del _ | .mget _ _
  | .findAdminByUsername _ | .findAdmin | .compare _ _ | .hash _ | .generateSecret
  | .jwtVerify _ => .isTrue trivial

instance (cfg : AuthConfig) (adminId : String) (pool : AuthPool) (e : AuthEvent) :
    Decidable (InOrder cfg adminId pool e) :=
  match e with
  | .turn i c =>
    match h : pool.procs[i]? with
    | some (.call op _) =>
      decidable_of_iff (c.applies = true → op.InOrder cfg adminId pool.shared)
        (by simp only [InOrder, h])
    | some (.done _) => .isTrue (by simp only [InOrder, h])
    | none => .isTrue (by simp only [InOrder, h])
  | .start _ | .world _ => .isTrue trivial

/-- An admin without a second factor. -/
def plainAdmin : AuthPool where
  shared := ⟨60000, ⟨"admin", "old password", none, false, none, false, 0⟩, .empty, [], [], []⟩
  procs := []

theorem plainAdmin_start : (authMachine plainConfig zeroCrypto "id").start plainAdmin :=
  ⟨⟨rfl, rfl, rfl⟩, rfl⟩

/-- A whole sign-in, as request `i`. -/
def wholeSignIn (i : Nat) (password jti : String) : List AuthEvent :=
  .start (.login ⟨"admin", password, none⟩ "127.0.0.1") :: List.replicate 4 (turnOf i) ++
    [.turn i { fresh := jti }]

/-- A password change up to its mark, as request `i`. -/
def changeToMark (i : Nat) : List AuthEvent :=
  .start (.changePassword ⟨"a", 60000, 0⟩ ⟨"old password", "new password", none⟩ "127.0.0.1") ::
    List.replicate 9 (turnOf i)

/-- A change, and a sign-in with the new password. -/
def changeAlone : List AuthEvent :=
  wholeSignIn 0 "old password" "a" ++ changeToMark 1 ++ [.world 250, turnOf 1, turnOf 1] ++
    wholeSignIn 2 "new password" "b"

/-- A sign-in with the old password while the change makes the new hash. -/
def changeOvertaken : List AuthEvent :=
  wholeSignIn 0 "old password" "a" ++ changeToMark 1 ++ [.world 1] ++
    wholeSignIn 2 "old password" "b" ++ [.world 250, turnOf 1, turnOf 1]

theorem sessions_kept_changeAlone :
    SessionsKept plainConfig zeroCrypto "id" (authTrace plainAdmin changeAlone)
      (changeAlone.foldl (authHost plainConfig zeroCrypto "id").step plainAdmin) :=
  sessions_kept (Machine.run_trace _ _ plainAdmin changeAlone) plainAdmin_start
    (by decide)

/-- **The change is answered, and the session of the old password lives on.** -/
theorem old_session_lives :
    ¬ SessionsKept plainConfig zeroCrypto "id" (authTrace plainAdmin changeOvertaken)
      (changeOvertaken.foldl (authHost plainConfig zeroCrypto "id").step plainAdmin) := by
  intro h
  have hlive : Live plainConfig "id"
      (changeOvertaken.foldl (authHost plainConfig zeroCrypto "id").step plainAdmin).shared
      ⟨"b", 60001, 0⟩ := by
    unfold Live
    decide
  exact h.ended (1, 60000) (by decide) ⟨"b", 60001, 0⟩ (by decide) hlive

end Iceslab.Auth
