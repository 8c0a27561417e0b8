import Mathlib.Algebra.GroupWithZero.Nat
import Mathlib.Data.List.Dedup
import Mathlib.Data.List.Perm.Subperm

/-!
# The roster to a node

`sendRoster` of `inbounds.queue.ts`: the users of a push, many to a request, and one by one to an
agent without the route.

* `sendBatches`, `sendSingles`, `sendRoster` — what is sent, and the number answered.
* `Delivers` — every request is sent once, in order, and again after a 404 alone.
* `Answered`, `mem_log_sendBatches` — the answers a roster gets, batch by batch.
* `count_sent` — the number answered, against what was reported.
* `roster_counted` — **that number is the number of users not reported ok** where no user is in the
  roster twice and every answer names each user of its batch once at most.
-/

set_option autoImplicit false

namespace Iceslab.RosterSend

/-! ## Requests and answers -/

structure AddUserRequest where
  userId : String
  shortId : String
  username : String
  credentials : List (String × String)
  inboundIds : Option (List String)
deriving DecidableEq

structure AddUsersResult where
  userId : String
  ok : Bool
  error : Option String
deriving DecidableEq

/-- What one `/addUsers` comes to. -/
inductive BatchAnswer
  | results (results : List AddUsersResult)
  /-- a `NodeRequestError` of status 404 -/
  | notFound
  /-- anything else that is thrown -/
  | failed
deriving DecidableEq

/-- The agent, by how it answers the calls one after another. -/
structure Transport where
  addUsers : Nat → List AddUserRequest → BatchAnswer
  addUser : Nat → AddUserRequest → Bool

/-- A request as it was sent, and what became of it. -/
inductive Attempt
  | batch (users : List AddUserRequest) (answer : BatchAnswer)
  | single (user : AddUserRequest) (ok : Bool)
deriving DecidableEq

def addUsersBatch : Nat := 250

def addUserChunk : Nat := 25

/-! ## Sending -/

/-- What was counted and sent, and what is left to send. -/
structure Sent where
  failed : Nat
  log : List Attempt
  rest : List AddUserRequest

section Send

variable (transport : Transport)

/-- The loop over the batches, from the `k`-th on; it stops at a 404. -/
def sendBatches : Nat → Nat → List AddUserRequest → Sent
  | 0, _, requests => ⟨0, [], requests⟩
  | fuel + 1, k, requests =>
    if requests = [] then ⟨0, [], []⟩
    else
      let batch := requests.take addUsersBatch
      let answer := transport.addUsers k batch
      let next := sendBatches fuel (k + 1) (requests.drop addUsersBatch)
      match answer with
      | .notFound => ⟨0, [.batch batch answer], requests⟩
      | .results results =>
        ⟨results.countP (fun r => !r.ok) + (batch.length - results.length) + next.failed,
          .batch batch answer :: next.log, next.rest⟩
      | .failed => ⟨batch.length + next.failed, .batch batch answer :: next.log, next.rest⟩

/-- The calls of one chunk, which are waited for together. -/
def sendChunk : Nat → List AddUserRequest → List Attempt
  | _, [] => []
  | k, r :: chunk => .single r (transport.addUser k r) :: sendChunk (k + 1) chunk

/-- A call that was rejected. -/
def Attempt.rejected : Attempt → Bool
  | .single _ ok => !ok
  | .batch _ _ => false

/-- The loop over the chunks of users that are sent one by one. -/
def sendSingles : Nat → Nat → List AddUserRequest → Sent
  | 0, _, requests => ⟨0, [], requests⟩
  | fuel + 1, k, requests =>
    if requests = [] then ⟨0, [], []⟩
    else
      let chunk := sendChunk transport k (requests.take addUserChunk)
      let next := sendSingles fuel (k + chunk.length) (requests.drop addUserChunk)
      ⟨chunk.countP Attempt.rejected + next.failed, chunk ++ next.log, next.rest⟩

/-- `sendRoster`: how many users did not land, with everything that was sent. -/
def sendRoster (requests : List AddUserRequest) : Sent :=
  let batches := sendBatches transport requests.length 0 requests
  if batches.rest = [] then batches
  else
    let singles := sendSingles transport batches.rest.length 0 batches.rest
    ⟨batches.failed + singles.failed, batches.log ++ singles.log, singles.rest⟩

end Send

/-! ## Statements -/

def Attempt.users : Attempt → List AddUserRequest
  | .batch users _ => users
  | .single user _ => [user]

/-- The agent knows the route: the attempt is a delivery, successful or failed. -/
def Attempt.delivers : Attempt → Bool
  | .batch _ .notFound => false
  | _ => true

/-- The users that are ok by the results. -/
def okNames (results : List AddUsersResult) : List String :=
  (results.filter AddUsersResult.ok).map AddUsersResult.userId

/-- The users an attempt reports ok. -/
def Attempt.reports : Attempt → List String
  | .batch _ (.results results) => okNames results
  | .batch _ _ => []
  | .single user ok => if ok then [user.userId] else []

/-- Each request is in one delivery, in order; a 404 comes at most once, and from its batch on every
request is sent on its own. -/
structure Delivers (requests : List AddUserRequest) (log : List Attempt) : Prop where
  once : (log.filter Attempt.delivers).flatMap Attempt.users = requests
  fallback : ∀ before b after, log = before ++ b :: after → b.delivers = false →
    ∃ rest, requests = before.flatMap Attempt.users ++ rest ∧ rest ≠ [] ∧
      b = .batch (rest.take addUsersBatch) .notFound ∧
      after.map Attempt.users = rest.map fun r => [r]

def users (requests : List AddUserRequest) : List String :=
  (requests.map AddUserRequest.userId).dedup

def reports (log : List Attempt) : List String := log.flatMap Attempt.reports

/-- The users of whom no delivery was reported ok. -/
def unreported (requests : List AddUserRequest) (log : List Attempt) : List String :=
  (users requests).filter (· ∉ reports log)

/-- What a send comes to. -/
structure Right (transport : Transport) (requests : List AddUserRequest) : Prop where
  delivers : Delivers requests (sendRoster transport requests).log
  counted : (sendRoster transport requests).failed =
    (unreported requests (sendRoster transport requests).log).length

/-! ### The answers of a roster -/

def batchAt (requests : List AddUserRequest) (k : Nat) : List AddUserRequest :=
  (requests.drop (addUsersBatch * k)).take addUsersBatch

/-- The `k`-th batch is sent, no batch before it came to a 404, and the agent answers it. -/
structure Answered (transport : Transport) (requests : List AddUserRequest) (k : Nat)
    (results : List AddUsersResult) : Prop where
  inRoster : addUsersBatch * k < requests.length
  known : ∀ j < k, transport.addUsers j (batchAt requests j) ≠ .notFound
  answer : transport.addUsers k (batchAt requests k) = .results results

/-- No more results than the batch has users, and none ok for another. -/
structure KeepsTo (batch : List AddUserRequest) (results : List AddUsersResult) : Prop where
  within : results.length ≤ batch.length
  own : ∀ id ∈ okNames results, id ∈ batch.map AddUserRequest.userId

/-- No user is in the roster twice, and every answer keeps to its batch and names nobody twice as
ok. -/
structure NamesOnce (transport : Transport) (requests : List AddUserRequest) : Prop where
  distinct : (requests.map AddUserRequest.userId).Nodup
  keepsTo : ∀ k results, Answered transport requests k results →
    KeepsTo (batchAt requests k) results
  once : ∀ k results, Answered transport requests k results → (okNames results).Nodup

/-- A user is in the roster twice, or an answer does not keep to its batch. -/
def Astray (transport : Transport) (requests : List AddUserRequest) : Prop :=
  ¬ (requests.map AddUserRequest.userId).Nodup ∨
    ∃ k results, Answered transport requests k results ∧ ¬ KeepsTo (batchAt requests k) results

variable {transport : Transport} {fuel k : Nat} {requests : List AddUserRequest} {a : Attempt}

/-! ## What is sent -/

theorem users_sendChunk (transport : Transport) (k : Nat) (chunk : List AddUserRequest) :
    (sendChunk transport k chunk).map Attempt.users = chunk.map fun r => [r] := by
  induction chunk generalizing k with
  | nil => rfl
  | cons r chunk ih => rw [sendChunk, List.map_cons, ih, List.map_cons, Attempt.users]

def Attempt.isSingle : Attempt → Bool
  | .single _ _ => true
  | .batch _ _ => false

theorem Attempt.delivers_of_isSingle (h : a.isSingle = true) : a.delivers = true := by
  cases a with
  | single => rfl
  | batch => cases h

theorem isSingle_sendChunk (transport : Transport) (k : Nat) (chunk : List AddUserRequest) :
    ∀ a ∈ sendChunk transport k chunk, a.isSingle = true := by
  induction chunk generalizing k with
  | nil => exact fun a ha => absurd ha List.not_mem_nil
  | cons r chunk ih => exact List.forall_mem_cons.mpr ⟨rfl, ih (k + 1)⟩

theorem log_sendSingles (h : requests.length ≤ fuel) :
    (sendSingles transport fuel k requests).log.map Attempt.users = requests.map (fun r => [r]) ∧
      (∀ a ∈ (sendSingles transport fuel k requests).log, a.isSingle = true) ∧
      (sendSingles transport fuel k requests).rest = [] := by
  induction fuel generalizing k requests with
  | zero =>
    obtain rfl := List.length_eq_zero_iff.mp (Nat.le_zero.mp h)
    exact ⟨rfl, fun a ha => absurd ha List.not_mem_nil, rfl⟩
  | succ fuel ih =>
    unfold sendSingles
    split
    · rename_i hnil
      rw [hnil]
      exact ⟨rfl, fun a ha => absurd ha List.not_mem_nil, rfl⟩
    · rename_i hne
      have hpos := List.length_pos_of_ne_nil hne
      have hleft : (requests.drop addUserChunk).length ≤ fuel := by
        rw [List.length_drop, addUserChunk]
        omega
      obtain ⟨husers, hsingle, hrest⟩ :=
        ih (k := k + (sendChunk transport k (requests.take addUserChunk)).length) hleft
      refine ⟨?_, fun a ha => ?_, hrest⟩
      · rw [List.map_append, users_sendChunk, husers, ← List.map_append, List.take_append_drop]
      · exact (List.mem_append.mp ha).elim (isSingle_sendChunk transport k _ a) (hsingle a)

/-- What the loop over the batches leaves: everything sent, or a 404 and the users from its batch
on. -/
inductive Batched (requests : List AddUserRequest) : Sent → Prop
  | whole {s : Sent} (hdelivers : ∀ a ∈ s.log, a.delivers = true)
      (husers : s.log.flatMap Attempt.users = requests) (hrest : s.rest = []) : Batched requests s
  | stopped {s : Sent} {before : List Attempt} (hdelivers : ∀ a ∈ before, a.delivers = true)
      (hlog : s.log = before ++ [.batch (s.rest.take addUsersBatch) .notFound])
      (husers : before.flatMap Attempt.users ++ s.rest = requests) (hrest : s.rest ≠ []) :
      Batched requests s

theorem Batched.cons {rest : List AddUserRequest} {s : Sent} {n : Nat}
    (h : Batched rest s) (ha : a.delivers = true) :
    Batched (a.users ++ rest) ⟨n, a :: s.log, s.rest⟩ := by
  cases h with
  | whole hdelivers hsent hrest =>
    refine .whole (fun b hb => ?_) ?_ hrest
    · exact (List.mem_cons.mp hb).elim (fun hb => hb ▸ ha) (hdelivers b)
    · rw [List.flatMap_cons, hsent]
  | @stopped before hdelivers hlog hsent hrest =>
    have hlog' : a :: s.log = (a :: before) ++ [.batch (s.rest.take addUsersBatch) .notFound] :=
      congrArg (List.cons a) hlog
    refine .stopped (fun b hb => ?_) hlog' ?_ hrest
    · exact (List.mem_cons.mp hb).elim (fun hb => hb ▸ ha) (hdelivers b)
    · rw [List.flatMap_cons, List.append_assoc, hsent]

theorem batched (h : requests.length ≤ fuel) :
    Batched requests (sendBatches transport fuel k requests) := by
  induction fuel generalizing k requests with
  | zero =>
    obtain rfl := List.length_eq_zero_iff.mp (Nat.le_zero.mp h)
    exact .whole (fun a ha => absurd ha List.not_mem_nil) rfl rfl
  | succ fuel ih =>
    unfold sendBatches
    split
    · rename_i hnil
      rw [hnil]
      exact .whole (fun a ha => absurd ha List.not_mem_nil) rfl rfl
    rename_i hne
    have hleft : (requests.drop addUsersBatch).length ≤ fuel := by
      have hpos := List.length_pos_of_ne_nil hne
      rw [List.length_drop, addUsersBatch]
      omega
    have hnext := ih (k := k + 1) hleft
    -- a delivery of the first batch, before what the rest comes to
    have hcons (answer : BatchAnswer) (n : Nat)
        (ha : (Attempt.batch (requests.take addUsersBatch) answer).delivers = true) :
        Batched requests ⟨n, .batch (requests.take addUsersBatch) answer ::
          (sendBatches transport fuel (k + 1) (requests.drop addUsersBatch)).log,
          (sendBatches transport fuel (k + 1) (requests.drop addUsersBatch)).rest⟩ := by
      have hwhole : Batched (requests.take addUsersBatch ++ requests.drop addUsersBatch) _ :=
        hnext.cons (n := n) ha
      rwa [List.take_append_drop] at hwhole
    dsimp only
    split
    · rename_i hanswer
      rw [hanswer]
      exact .stopped (fun a ha => absurd ha List.not_mem_nil) (List.nil_append _).symm rfl hne
    · rename_i results hanswer
      rw [hanswer]
      exact hcons _ _ rfl
    · rename_i hanswer
      rw [hanswer]
      exact hcons _ _ rfl

/-- **Every request is delivered once, and again after a 404 alone.** -/
theorem delivers (transport : Transport) (requests : List AddUserRequest) :
    Delivers requests (sendRoster transport requests).log := by
  have hbatched : Batched requests (sendBatches transport requests.length 0 requests) :=
    batched (Nat.le_refl requests.length)
  unfold sendRoster
  dsimp only
  generalize sendBatches transport requests.length 0 requests = s at hbatched
  cases hbatched with
  | whole hdelivers husers hrest =>
    rw [if_pos hrest]
    refine ⟨?_, fun before b after hlog hb => ?_⟩
    · rw [List.filter_eq_self.mpr hdelivers, husers]
    · have hmem : b ∈ s.log := by
        rw [hlog]
        exact List.mem_append_right _ List.mem_cons_self
      rw [hdelivers b hmem] at hb
      cases hb
  | @stopped before hdelivers hlog husers hrest =>
    have hall := @log_sendSingles transport s.rest.length 0 s.rest (Nat.le_refl s.rest.length)
    obtain ⟨hsingles, hsingle, -⟩ := hall
    have hsent := fun a ha => Attempt.delivers_of_isSingle (hsingle a ha)
    clear hsingle
    rw [if_neg hrest]
    dsimp only
    generalize (sendSingles transport s.rest.length 0 s.rest).log = singles at hsingles hsent
    rw [hlog]
    refine ⟨?_, fun before' b after hwhole hb => ?_⟩
    · rw [List.append_assoc, List.filter_append, List.filter_eq_self.mpr hdelivers,
        List.singleton_append, List.filter_cons_of_neg (by nofun), List.filter_eq_self.mpr hsent,
        List.flatMap_append, ← husers]
      congr 1
      rw [List.flatMap_def, hsingles, ← List.flatMap_def, List.flatMap_singleton']
    · -- the 404 is the only attempt that delivers nothing
      have hplace : before' = before ∧ b = .batch (s.rest.take addUsersBatch) .notFound ∧
          after = singles := by
        rw [List.append_assoc, List.singleton_append] at hwhole
        rcases List.append_eq_append_iff.mp hwhole with ⟨mid, hmid, hrest'⟩ | ⟨mid, hmid, hrest'⟩
        · cases mid with
          | nil =>
            rw [List.nil_append] at hrest'
            obtain ⟨h₁, h₂⟩ := List.cons.inj hrest'
            exact ⟨by rw [hmid, List.append_nil], h₁.symm, h₂.symm⟩
          | cons m mid =>
            have hb' : b ∈ singles := by
              rw [(List.cons.inj hrest').2]
              exact List.mem_append_right _ List.mem_cons_self
            rw [hsent b hb'] at hb
            cases hb
        · cases mid with
          | nil =>
            rw [List.nil_append] at hrest'
            obtain ⟨h₁, h₂⟩ := List.cons.inj hrest'
            exact ⟨by rw [hmid, List.append_nil], h₁, h₂⟩
          | cons m mid =>
            have hb' : b ∈ before := by
              rw [hmid, (List.cons.inj hrest').1]
              exact List.mem_append_right _ List.mem_cons_self
            rw [hdelivers b hb'] at hb
            cases hb
      obtain ⟨rfl, rfl, rfl⟩ := hplace
      exact ⟨s.rest, husers.symm, hrest, rfl, hsingles⟩

/-! ## What is answered -/

theorem log_sendBatches_succ (h : requests ≠ []) :
    (sendBatches transport (fuel + 1) k requests).log =
      .batch (requests.take addUsersBatch) (transport.addUsers k (requests.take addUsersBatch)) ::
        if transport.addUsers k (requests.take addUsersBatch) = .notFound then []
        else (sendBatches transport fuel (k + 1) (requests.drop addUsersBatch)).log := by
  rw [sendBatches, if_neg h]
  dsimp only
  split <;> rename_i hanswer <;> rw [hanswer] <;> simp

/-- The attempts of the loop are its batches, up to the first that comes to a 404. -/
theorem mem_log_sendBatches (h : requests.length ≤ fuel + addUsersBatch * k) :
    a ∈ (sendBatches transport fuel k (requests.drop (addUsersBatch * k))).log ↔
      ∃ j, k ≤ j ∧ addUsersBatch * j < requests.length ∧
        (∀ i, k ≤ i → i < j → transport.addUsers i (batchAt requests i) ≠ .notFound) ∧
        a = .batch (batchAt requests j) (transport.addUsers j (batchAt requests j)) := by
  have hmul {k j : Nat} (hj : k ≤ j) : addUsersBatch * k ≤ addUsersBatch * j :=
    Nat.mul_le_mul_left _ hj
  induction fuel generalizing k with
  | zero =>
    refine iff_of_false List.not_mem_nil ?_
    rintro ⟨j, hj, hlt, -⟩
    have := hmul hj
    omega
  | succ fuel ih =>
    by_cases hnil : requests.drop (addUsersBatch * k) = []
    · rw [hnil, sendBatches, if_pos rfl]
      refine iff_of_false List.not_mem_nil ?_
      rintro ⟨j, hj, hlt, -⟩
      have := hmul hj
      have := List.drop_eq_nil_iff.mp hnil
      omega
    · have hlt : addUsersBatch * k < requests.length :=
        Nat.lt_of_not_le fun hle => hnil (List.drop_eq_nil_iff.mpr hle)
      have hsucc : addUsersBatch * (k + 1) = addUsersBatch * k + addUsersBatch := Nat.mul_succ _ _
      have hleft : requests.length ≤ fuel + addUsersBatch * (k + 1) := by
        rw [hsucc, addUsersBatch] at *
        omega
      have hnext := ih hleft
      rw [log_sendBatches_succ hnil, List.drop_drop, ← hsucc, List.mem_cons]
      change a = .batch (batchAt requests k) (transport.addUsers k (batchAt requests k)) ∨ _ ↔ _
      constructor
      · rintro (rfl | hmem)
        · exact ⟨k, Nat.le_refl k, hlt, fun i hi hik => absurd hik (Nat.not_lt.mpr hi), rfl⟩
        · split at hmem
          · cases hmem
          · rename_i hknown
            obtain ⟨j, hj, hjlt, hbefore, ha⟩ := hnext.mp hmem
            refine ⟨j, Nat.le_of_succ_le hj, hjlt, fun i hi hij => ?_, ha⟩
            rcases Nat.eq_or_lt_of_le hi with rfl | hi
            · exact hknown
            · exact hbefore i hi hij
      · rintro ⟨j, hj, hjlt, hbefore, ha⟩
        rcases Nat.eq_or_lt_of_le hj with rfl | hj
        · exact .inl ha
        · refine .inr ?_
          have hknown : transport.addUsers k
              ((requests.drop (addUsersBatch * k)).take addUsersBatch) ≠ .notFound :=
            hbefore k (Nat.le_refl k) hj
          rw [if_neg hknown]
          exact hnext.mpr ⟨j, hj, hjlt, fun i hi => hbefore i (Nat.le_of_succ_le hi), ha⟩

/-- What is answered with results, in the log and by the agent. -/
theorem mem_log_sendRoster {batch : List AddUserRequest} {results : List AddUsersResult} :
    .batch batch (.results results) ∈ (sendRoster transport requests).log ↔
      ∃ k, Answered transport requests k results ∧ batch = batchAt requests k := by
  have hbatches : .batch batch (.results results) ∈ (sendRoster transport requests).log ↔
      .batch batch (.results results)
        ∈ (sendBatches transport requests.length 0 (requests.drop (addUsersBatch * 0))).log := by
    unfold sendRoster
    rw [Nat.mul_zero, List.drop_zero]
    dsimp only
    split
    · exact Iff.rfl
    · rw [List.mem_append]
      refine or_iff_left fun hmem => ?_
      cases (log_sendSingles (Nat.le_refl _)).2.1 _ hmem
  rw [hbatches, mem_log_sendBatches (Nat.le_add_right _ _)]
  constructor
  · rintro ⟨j, -, hlt, hknown, heq⟩
    obtain ⟨rfl, hanswer⟩ := Attempt.batch.inj heq
    exact ⟨j, ⟨hlt, fun i hi => hknown i (Nat.zero_le i) hi, hanswer.symm⟩, rfl⟩
  · rintro ⟨j, ⟨hlt, hknown, hanswer⟩, rfl⟩
    exact ⟨j, Nat.zero_le j, hlt, fun i _ hi => hknown i hi, by rw [hanswer]⟩

/-! ## What is counted -/

def Attempt.Within : Attempt → Prop
  | .batch users (.results results) => results.length ≤ users.length
  | _ => True

theorem reports_append (log log' : List Attempt) :
    reports (log ++ log') = reports log ++ reports log' := List.flatMap_append

/-- A result counts as refused or as reported. -/
theorem countP_results (results : List AddUsersResult) :
    results.countP (fun r => !r.ok) + (okNames results).length = results.length := by
  rw [okNames, List.length_map]
  induction results with
  | nil => rfl
  | cons r results ih =>
    cases hr : r.ok <;> simp [hr] <;> omega

theorem count_sendBatches (h : requests.length ≤ fuel)
    (hwithin : ∀ a ∈ (sendBatches transport fuel k requests).log, a.Within) :
    (sendBatches transport fuel k requests).failed +
        (reports (sendBatches transport fuel k requests).log).length +
        (sendBatches transport fuel k requests).rest.length = requests.length := by
  induction fuel generalizing k requests with
  | zero =>
    obtain rfl := List.length_eq_zero_iff.mp (Nat.le_zero.mp h)
    rfl
  | succ fuel ih =>
    unfold sendBatches at hwithin ⊢
    split
    · rename_i hnil
      rw [hnil]
      rfl
    rename_i hne
    rw [if_neg hne] at hwithin
    have hpos := List.length_pos_of_ne_nil hne
    have hleft : (requests.drop addUsersBatch).length ≤ fuel := by
      rw [List.length_drop, addUsersBatch]
      omega
    have hwhole : (requests.take addUsersBatch).length + (requests.drop addUsersBatch).length =
        requests.length := by
      rw [← List.length_append, List.take_append_drop]
    dsimp only at hwithin ⊢
    split
    · rename_i hanswer
      rw [hanswer]
      show 0 + 0 + requests.length = requests.length
      omega
    · rename_i results hanswer
      rw [hanswer] at hwithin ⊢
      obtain ⟨hfirst, hrest⟩ := List.forall_mem_cons.mp hwithin
      have hnext := ih (k := k + 1) hleft hrest
      have hresults := countP_results results
      have hle : results.length ≤ (requests.take addUsersBatch).length := hfirst
      simp only [reports, List.flatMap_cons, List.length_append, Attempt.reports] at hnext ⊢
      omega
    · rename_i hanswer
      rw [hanswer] at hwithin ⊢
      have hnext := ih (k := k + 1) hleft (List.forall_mem_cons.mp hwithin).2
      simp only [reports, List.flatMap_cons, List.length_append, Attempt.reports,
        List.length_nil] at hnext ⊢
      omega

theorem count_sendChunk (transport : Transport) (k : Nat) (chunk : List AddUserRequest) :
    (sendChunk transport k chunk).countP Attempt.rejected +
        (reports (sendChunk transport k chunk)).length = chunk.length := by
  induction chunk generalizing k with
  | nil => rfl
  | cons r chunk ih =>
    rw [sendChunk, List.countP_cons, reports, List.flatMap_cons, List.length_append,
      List.length_cons, ← ih (k + 1), Attempt.reports, Attempt.rejected]
    rw [reports]
    cases transport.addUser k r <;> simp <;> omega

theorem count_sendSingles (h : requests.length ≤ fuel) :
    (sendSingles transport fuel k requests).failed +
        (reports (sendSingles transport fuel k requests).log).length = requests.length := by
  induction fuel generalizing k requests with
  | zero =>
    obtain rfl := List.length_eq_zero_iff.mp (Nat.le_zero.mp h)
    rfl
  | succ fuel ih =>
    unfold sendSingles
    split
    · rename_i hnil
      rw [hnil]
      rfl
    rename_i hne
    have hpos := List.length_pos_of_ne_nil hne
    have hleft : (requests.drop addUserChunk).length ≤ fuel := by
      rw [List.length_drop, addUserChunk]
      omega
    have hcount := ih (k := k + (sendChunk transport k (requests.take addUserChunk)).length) hleft
    have hchunk := count_sendChunk transport k (requests.take addUserChunk)
    have hwhole : (requests.take addUserChunk).length + (requests.drop addUserChunk).length =
        requests.length := by
      rw [← List.length_append, List.take_append_drop]
    dsimp only
    rw [reports_append, List.length_append]
    omega

/-- **The number answered and the reports together are the requests**, where no answer has more
results than its batch has users. -/
theorem count_sent (hwithin : ∀ a ∈ (sendRoster transport requests).log, a.Within) :
    (sendRoster transport requests).failed +
      (reports (sendRoster transport requests).log).length = requests.length := by
  unfold sendRoster at hwithin ⊢
  dsimp only at hwithin ⊢
  split
  · rename_i hrest
    rw [if_pos hrest] at hwithin
    have hbatches := count_sendBatches (Nat.le_refl requests.length) hwithin
    rwa [hrest] at hbatches
  · rename_i hrest
    rw [if_neg hrest] at hwithin
    have hbatches := count_sendBatches (Nat.le_refl requests.length)
      (List.forall_mem_append.mp hwithin).1
    have hsingles := @count_sendSingles transport _ 0
      (sendBatches transport requests.length 0 requests).rest (Nat.le_refl _)
    dsimp only
    rw [reports_append, List.length_append]
    omega

/-! ## Who is reported -/

theorem reports_of_not_delivers (h : a.delivers = false) : a.reports = [] := by
  match a, h with
  | .batch _ .notFound, _ => rfl

/-- Where attempts report users of their own alone, what they report together is of the roster, and
repeats a user just when one of them does. -/
theorem reports_nodup {log : List Attempt}
    (hdistinct : (((log.filter Attempt.delivers).flatMap Attempt.users).map
      AddUserRequest.userId).Nodup)
    (hown : ∀ a ∈ log, a.reports ⊆ a.users.map AddUserRequest.userId) :
    reports log ⊆ ((log.filter Attempt.delivers).flatMap Attempt.users).map AddUserRequest.userId ∧
      ((reports log).Nodup ↔ ∀ a ∈ log, a.reports.Nodup) := by
  induction log with
  | nil => simp [reports]
  | cons a log ih =>
    obtain ⟨ha, hlog⟩ := List.forall_mem_cons.mp hown
    have hcons : reports (a :: log) = a.reports ++ reports log := List.flatMap_cons
    rw [hcons, List.forall_mem_cons]
    cases hdel : a.delivers with
    | false =>
      rw [List.filter_cons_of_neg (by simp [hdel])] at hdistinct ⊢
      rw [reports_of_not_delivers hdel, List.nil_append]
      obtain ⟨hsub, hiff⟩ := ih hdistinct hlog
      exact ⟨hsub, hiff.trans (and_iff_right .nil).symm⟩
    | true =>
      rw [List.filter_cons_of_pos hdel, List.flatMap_cons, List.map_append] at hdistinct ⊢
      obtain ⟨-, hrest, hapart⟩ := List.nodup_append.mp hdistinct
      obtain ⟨hsub, hiff⟩ := ih hrest hlog
      refine ⟨List.append_subset.mpr ⟨?_, ?_⟩, ?_⟩
      · exact List.Subset.trans ha (List.subset_append_left _ _)
      · exact List.Subset.trans hsub (List.subset_append_right _ _)
      · rw [List.nodup_append, ← hiff]
        refine ⟨fun h => ⟨h.1, h.2.1⟩, fun h => ⟨h.1, h.2, fun id hid id' hid' => ?_⟩⟩
        exact hapart id (ha hid) id' (hsub hid')

/-- Reports of a roster without repetitions are as many as the users reported just when none repeats
another. -/
theorem length_reported {ids reported : List String} (hids : ids.Nodup) (hsub : reported ⊆ ids) :
    reported.length = (ids.filter (· ∈ reported)).length ↔ reported.Nodup := by
  have hperm : (ids.filter (· ∈ reported)).Perm reported.dedup := by
    rw [List.perm_ext_iff_of_nodup (hids.filter _) (List.nodup_dedup _)]
    intro id
    simp only [List.mem_filter, decide_eq_true_eq, List.mem_dedup]
    exact ⟨And.right, fun h => ⟨hsub h, h⟩⟩
  rw [hperm.length_eq]
  constructor
  · intro h
    rw [← List.dedup_eq_self]
    exact (List.dedup_sublist reported).eq_of_length h.symm
  · intro h
    rw [List.dedup_eq_self.mpr h]

/-- Where nobody is twice in the roster and every answer keeps to its batch, the number is right
just when no answer names a user ok twice. -/
theorem counted_iff (hdistinct : (requests.map AddUserRequest.userId).Nodup)
    (hkeeps : ∀ k results, Answered transport requests k results →
      KeepsTo (batchAt requests k) results) :
    (sendRoster transport requests).failed =
        (unreported requests (sendRoster transport requests).log).length ↔
      ∀ k results, Answered transport requests k results → (okNames results).Nodup := by
  have hlog {batch results}
      (h : .batch batch (.results results) ∈ (sendRoster transport requests).log) :
      KeepsTo batch results := by
    obtain ⟨k, hk, rfl⟩ := mem_log_sendRoster.mp h
    exact hkeeps k results hk
  have hwithin : ∀ a ∈ (sendRoster transport requests).log, a.Within := by
    intro a ha
    match a, ha with
    | .batch _ (.results _), ha => exact (hlog ha).within
    | .batch _ .notFound, _ | .batch _ .failed, _ | .single _ _, _ => trivial
  have hown : ∀ a ∈ (sendRoster transport requests).log,
      a.reports ⊆ a.users.map AddUserRequest.userId := by
    intro a ha
    match a, ha with
    | .batch _ (.results _), ha => exact fun id hid => (hlog ha).own id hid
    | .batch _ .notFound, _ | .batch _ .failed, _ | .single _ false, _ => exact List.nil_subset _
    | .single _ true, _ => exact fun _ => id
  have hcount := count_sent hwithin
  have honce := (delivers transport requests).once
  obtain ⟨hsub, hnodup⟩ := reports_nodup (by rw [honce]; exact hdistinct) hown
  rw [honce] at hsub
  have hattempts : (∀ a ∈ (sendRoster transport requests).log, a.reports.Nodup) ↔
      ∀ k results, Answered transport requests k results → (okNames results).Nodup := by
    constructor
    · exact fun h k results hk => h _ (mem_log_sendRoster.mpr ⟨k, hk, rfl⟩)
    · intro h a ha
      match a, ha with
      | .batch _ (.results results), ha =>
        obtain ⟨k, hk, -⟩ := mem_log_sendRoster.mp ha
        exact h k results hk
      | .batch _ .notFound, _ | .batch _ .failed, _ | .single _ false, _ => exact .nil
      | .single _ true, _ => exact List.nodup_singleton _
  rw [← hattempts, ← hnodup, ← length_reported hdistinct hsub]
  have husers : users requests = requests.map AddUserRequest.userId :=
    List.dedup_eq_self.mpr hdistinct
  have hsplit := List.length_eq_length_filter_add (l := requests.map AddUserRequest.userId)
    (fun u => decide (u ∈ reports (sendRoster transport requests).log))
  have hunreported : (unreported requests (sendRoster transport requests).log).length =
      ((requests.map AddUserRequest.userId).filter fun u =>
        !decide (u ∈ reports (sendRoster transport requests).log)).length := by
    rw [unreported, husers]
    simp only [decide_not]
  rw [hunreported]
  rw [List.length_map] at hsplit
  omega

/-- **Every request is delivered once, and the number answered is that of the users not reported
ok** where nobody is in the roster twice and every answer keeps to its batch and names nobody twice;
beyond that two miscounts may make up for each other, no more. -/
theorem roster_counted (transport : Transport) (requests : List AddUserRequest) :
    Delivers requests (sendRoster transport requests).log ∧
      (NamesOnce transport requests → Right transport requests) ∧
      (Right transport requests → NamesOnce transport requests ∨ Astray transport requests) := by
  refine ⟨delivers transport requests, fun h => ?_, fun h => ?_⟩
  · exact ⟨delivers transport requests, (counted_iff h.distinct h.keepsTo).mpr h.once⟩
  · by_cases hastray : Astray transport requests
    · exact .inr hastray
    · obtain ⟨hdistinct, hkeeps⟩ := not_or.mp hastray
      have hdistinct := not_not.mp hdistinct
      have hkeeps : ∀ k results, Answered transport requests k results →
          KeepsTo (batchAt requests k) results :=
        fun k results hk => not_not.mp fun hnot => hkeeps ⟨k, results, hk, hnot⟩
      exact .inl ⟨hdistinct, hkeeps, (counted_iff hdistinct hkeeps).mp h.counted⟩

def exampleUser (id : String) : AddUserRequest := ⟨id, "s-" ++ id, "user-" ++ id, [], none⟩

/-- An agent that answers for each user of a batch, and refuses `b`. -/
def namesEach : Transport where
  addUsers _ batch := .results (batch.map fun r => ⟨r.userId, r.userId != "b", none⟩)
  addUser _ _ := true

theorem roster_counted_two : NamesOnce namesEach [exampleUser "a", exampleUser "b"] ∧
    Right namesEach [exampleUser "a", exampleUser "b"] ∧
    (sendRoster namesEach [exampleUser "a", exampleUser "b"]).failed = 1 := by
  have hanswered {k results} (h : Answered namesEach [exampleUser "a", exampleUser "b"] k results) :
      k = 0 ∧ results = [⟨"a", true, none⟩, ⟨"b", false, none⟩] := by
    have hk : k = 0 := by
      have hlt : 250 * k < 2 := h.inRoster
      omega
    subst hk
    exact ⟨rfl, (BatchAnswer.results.inj h.answer).symm⟩
  have honce : NamesOnce namesEach [exampleUser "a", exampleUser "b"] := by
    refine ⟨by decide, fun k results h => ?_, fun k results h => ?_⟩
    · obtain ⟨rfl, rfl⟩ := hanswered h
      exact ⟨by decide, by decide⟩
    · obtain ⟨rfl, rfl⟩ := hanswered h
      decide
  exact ⟨honce, (roster_counted namesEach [exampleUser "a", exampleUser "b"]).2.1 honce, by decide⟩

/-! ### A user named twice -/

/-- An agent that answers for the first user of a batch alone, as often as there are users. -/
def namesFirst : Transport where
  addUsers _ batch :=
    .results (batch.filterMap fun _ => batch.head?.map fun r => ⟨r.userId, true, none⟩)
  addUser _ _ := true

theorem named_twice : (sendRoster namesFirst [exampleUser "a", exampleUser "b"]).failed = 0 ∧
    unreported [exampleUser "a", exampleUser "b"]
      (sendRoster namesFirst [exampleUser "a", exampleUser "b"]).log = ["b"] ∧
    ¬ Right namesFirst [exampleUser "a", exampleUser "b"] := by
  have hfailed : (sendRoster namesFirst [exampleUser "a", exampleUser "b"]).failed = 0 := by
    decide
  have hunreported : unreported [exampleUser "a", exampleUser "b"]
      (sendRoster namesFirst [exampleUser "a", exampleUser "b"]).log = ["b"] := by
    decide
  refine ⟨hfailed, hunreported, fun h => ?_⟩
  have hcounted := h.counted
  rw [hfailed, hunreported] at hcounted
  cases hcounted

end Iceslab.RosterSend
