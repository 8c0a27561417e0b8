import Iceslab.Heartbeat

/-!
# What the heartbeat's runs keep

* `verifyHeartbeatToken_sign` — a minted token is taken, for the node it was minted for.
* `NodesKept` — a row stays, and so do its secret and its tombstone.
* `Own` — what the panel has under way for the agent, and what the agent's count says.
* `ended_only_deleted` — **an agent takes itself down only when its node was deleted**.
* `ended_after_delete` — **once it is, the answers it takes until then are counted**.
-/

set_option autoImplicit false

namespace Iceslab.Heartbeat

open JsText

/-! ## A minted token -/

variable {r : Request} {id : String} {polled : Polled} {row : Node} {nodes : Nodes}
  {answer : Answer} {l : Loop} {e : Event}

section Minted

variable {hmac : List Nat → String → List Nat} {node : String}
  {lookupSecret : String → Option (List Nat)}

theorem isUuidV4_chars (h : isUuidV4 node = true) :
    ∀ c ∈ node.toList, c.isAlphanum = true ∨ c = '-' := by
  unfold isUuidV4 at h
  simp only [Bool.and_eq_true, decide_eq_true_eq, List.all_eq_true] at h
  obtain ⟨hlen, hfit⟩ := h
  intro c hc
  rw [← List.map_fst_zip (Nat.le_of_eq hlen), List.mem_map] at hc
  obtain ⟨⟨c', p⟩, hx, rfl⟩ := hc
  have hp : p ∈ uuidPattern := (List.of_mem_zip hx).2
  have hcp := hfit _ hx
  unfold fits at hcp
  split at hcp
  · exact .inl (isAlphanum_of_isHex hcp)
  · rename_i hne
    split at hcp
    · have hmem : c' ∈ "89abAB".toList := by simpa using hcp
      have : ∀ d ∈ "89abAB".toList, d.isAlphanum = true := by decide
      exact .inl (this c' hmem)
    · rename_i hne'
      have hc' : c' = p := by simpa using hcp
      have : ∀ d ∈ uuidPattern, d ≠ 'h' → d ≠ 'v' → d.isAlphanum = true ∨ d = '-' := by decide
      exact hc' ▸ this p hp hne hne'

theorem dot_notMem (h : isUuidV4 node = true) : '.' ∉ node.toList := by
  intro hdot
  rcases isUuidV4_chars h '.' hdot with h | h
  · exact absurd h (by decide)
  · exact absurd h (by decide)

theorem ne_empty_of_isUuidV4 (h : isUuidV4 node = true) : node ≠ "" := by
  rintro rfl
  exact absurd h (by decide)

theorem urlDigit_chars (n : Nat) :
    (Base64.urlDigit n).isAlphanum = true ∨ Base64.urlDigit n = '-' ∨ Base64.urlDigit n = '_' := by
  have hall : ∀ c ∈ Base64.alphabet, c.isAlphanum = true ∨ c = '+' ∨ c = '/' := by decide
  unfold Base64.urlDigit
  split
  · exact .inr (.inl rfl)
  · split
    · exact .inr (.inr rfl)
    · have := hall _ (Base64.digit_mem n)
      tauto

theorem signHeartbeatToken_noSpace (h : isUuidV4 node = true) (secret : List Nat) :
    ∀ c ∈ (signHeartbeatToken hmac node secret).toList, isSpace c = false := by
  intro c hc
  unfold signHeartbeatToken Base64.encodeUrl at hc
  simp only [String.toList_append, String.toList_ofList, List.mem_append, List.mem_map] at hc
  rcases hc with (hc | hc) | ⟨n, -, rfl⟩
  · rcases isUuidV4_chars h c hc with hc | rfl
    · exact isSpace_of_isAlphanum hc
    · decide
  · have : c = '.' := by simpa using hc
    subst this
    decide
  · rcases urlDigit_chars n with hd | hd | hd
    · exact isSpace_of_isAlphanum hd
    · rw [hd]
      decide
    · rw [hd]
      decide

theorem signHeartbeatToken_toList (secret : List Nat) :
    (signHeartbeatToken hmac node secret).toList =
      node.toList ++ '.' :: (Base64.encodeUrl (hmac secret node)).toList := by
  simp [signHeartbeatToken]

theorem verifyHeartbeatToken_sign_eq (h : isUuidV4 node = true) (secret : List Nat)
    (hv : verifyHeartbeatToken hmac (signHeartbeatToken hmac node secret) lookupSecret = some id) :
    id = node := by
  unfold verifyHeartbeatToken at hv
  rw [signHeartbeatToken_toList, takeWhile_ne (dot_notMem h)] at hv
  simp only [String.ofList_toList] at hv
  repeat' split at hv
  all_goals first | exact (Option.some.inj hv).symm | exact absurd hv (by simp)

/-- A minted token is taken, for the node it was minted for. -/
theorem verifyHeartbeatToken_sign (h : isUuidV4 node = true) {secret : List Nat}
    (hs : lookupSecret node = some secret) (hne : hmac secret node ≠ []) :
    verifyHeartbeatToken hmac (signHeartbeatToken hmac node secret) lookupSecret = some node := by
  unfold verifyHeartbeatToken
  rw [signHeartbeatToken_toList, takeWhile_ne (dot_notMem h), dropWhile_ne (dot_notMem h)]
  have hsig : (Base64.encodeUrl (hmac secret node)).toList ≠ [] := by
    unfold Base64.encodeUrl
    rw [String.toList_ofList]
    intro hnil
    generalize hmac secret node = bytes at hne hnil
    match bytes with
    | [] => exact hne rfl
    | [_] => simp [Base64.sextets] at hnil
    | [_, _] => simp [Base64.sextets] at hnil
    | _ :: _ :: _ :: _ => simp [Base64.sextets] at hnil
  have hlen := List.length_pos_iff.mpr hsig
  simp only [String.ofList_toList, h, hs, List.tail_cons, List.length_cons, if_true]
  rw [if_neg (by
    rintro (hn | hn)
    · exact ne_empty_of_isUuidV4 h hn
    · omega)]
  simp

theorem verifyRequest_sign_eq (h : isUuidV4 node = true) (secret : List Nat)
    (hv : verifyRequest hmac nodes (some ("Bearer " ++ signHeartbeatToken hmac node secret)) =
      .ok id) : id = node := by
  unfold verifyRequest at hv
  rw [Option.bind_some, afterPrefix_append] at hv
  simp only [trim_of_noSpace (signHeartbeatToken_noSpace h secret)] at hv
  split at hv
  · cases hv
  · rename_i hv'
    cases hv
    exact verifyHeartbeatToken_sign_eq h secret hv'

theorem verifyRequest_sign (h : isUuidV4 node = true)
    (hrow : nodes.get? node = some row) (hne : hmac row.heartbeatSecret node ≠ []) :
    verifyRequest hmac nodes
      (some ("Bearer " ++ signHeartbeatToken hmac node row.heartbeatSecret)) = .ok node := by
  unfold verifyRequest
  rw [Option.bind_some, afterPrefix_append]
  have hs : (fun id => (nodes.get? id).map (·.heartbeatSecret)) node =
      some row.heartbeatSecret := by
    simp [hrow]
  simp only [trim_of_noSpace (signHeartbeatToken_noSpace h row.heartbeatSecret)]
  rw [verifyHeartbeatToken_sign h hs hne]

end Minted

/-! ## The rows -/

section Rows

variable {hmac : List Nat → String → List Nat} {node : String} {threshold : Nat} {s s' : State}

def Deleted (node : String) (s : State) : Prop :=
  ∃ row, s.nodes.get? node = some row ∧ row.deleted = true

/-- A row stays, and so do its secret and its tombstone. -/
def NodesKept (node : String) (s s' : State) : Prop :=
  ∀ row, s.nodes.get? node = some row → ∃ row', s'.nodes.get? node = some row' ∧
    row'.heartbeatSecret = row.heartbeatSecret ∧ (row.deleted = true → row'.deleted = true)

theorem NodesKept.of_eq (h : s'.nodes = s.nodes) : NodesKept node s s' := by
  intro row hrow
  exact ⟨row, h ▸ hrow, rfl, id⟩

theorem NodesKept.set {row row' : Node} (hs' : s'.nodes = s.nodes.set id row')
    (hrow : s.nodes.get? id = some row) (hsec : row'.heartbeatSecret = row.heartbeatSecret)
    (hdel : row.deleted = true → row'.deleted = true) : NodesKept node s s' := by
  intro x hx
  rw [hs', OrderedMap.get?_set]
  split
  · rename_i hid
    subst hid
    rw [hrow, Option.some.injEq] at hx
    subst hx
    exact ⟨row', rfl, hsec, hdel⟩
  · exact ⟨x, hx, rfl, fun h => h⟩

theorem Deleted.kept (h : Deleted node s) (hn : NodesKept node s s') : Deleted node s' := by
  obtain ⟨row, hrow, hdel⟩ := h
  obtain ⟨row', hrow', -, hkeep⟩ := hn row hrow
  exact ⟨row', hrow', hkeep hdel⟩

theorem verify_same (hmac : List Nat → String → List Nat) (r : Request) :
    (verify hmac r s).nodes = s.nodes ∧ (verify hmac r s).agent = s.agent ∧
      (verify hmac r s).polls = s.polls := by
  unfold verify
  simp only
  split <;> exact ⟨rfl, rfl, rfl⟩

theorem judge_same (r : Request) (id : String) : (judge r id s).nodes = s.nodes ∧
    (judge r id s).agent = s.agent ∧ (judge r id s).polls = s.polls ∧
    (judge r id s).requests = s.requests.erase r ∧
    (judge r id s).answers = (r.poll, meStatus s.nodes id) :: s.answers := by
  unfold judge
  simp only
  split
  · exact ⟨rfl, rfl, rfl, rfl, rfl⟩
  · split <;> exact ⟨rfl, rfl, rfl, rfl, rfl⟩

theorem track_same (t : Tracker) : (track t s).nodes = s.nodes ∧ (track t s).agent = s.agent ∧
    (track t s).polls = s.polls ∧ (track t s).requests = s.requests ∧
    (track t s).answers = s.answers := by
  unfold track
  simp only
  split
  · exact ⟨rfl, rfl, rfl, rfl, rfl⟩
  · split <;> exact ⟨rfl, rfl, rfl, rfl, rfl⟩
  · exact ⟨rfl, rfl, rfl, rfl, rfl⟩

theorem NodesKept.deleteNode (id : String) (inCascade : Bool) :
    NodesKept node s { s with nodes := deleteNode s.nodes id inCascade } := by
  unfold Heartbeat.deleteNode
  split
  · exact .of_eq rfl
  · rename_i row hrow
    split
    · exact .of_eq rfl
    · exact .set rfl hrow rfl fun _ => rfl

theorem NodesKept.step (hs : Step hmac node threshold s e s') : NodesKept node s s' := by
  cases hs with
  | create id secret h =>
    intro row hrow
    refine ⟨row, ?_, rfl, fun h => h⟩
    rw [OrderedMap.get?_set, if_neg ?_]
    · exact hrow
    · rintro rfl
      rw [h] at hrow
      cases hrow
  | setStatus id status row h => exact .set rfl h rfl fun h => h
  | delete id inCascade => exact .deleteNode id inCascade
  | boot startTime row h => exact .of_eq rfl
  | poll a h hw hrun => exact .of_eq rfl
  | stray authorization startTime => exact .of_eq rfl
  | verify r h hv => exact .of_eq (verify_same hmac r).1
  | judge r id h hv => exact .of_eq (judge_same r id).1
  | fails r => exact .of_eq rfl
  | deliver a p answer h ha hw => exact .of_eq rfl
  | lose a h => exact .of_eq rfl
  | track t h => exact .of_eq (track_same t).1
  | trackFails t => exact .of_eq rfl
  | forget id => exact .of_eq rfl

end Rows

/-! ## What is under way for the agent -/

section Agent

variable {hmac : List Nat → String → List Nat} {node : String} {threshold : Nat} {s s' : State}
  {a : Agent}

/-- A request of the agent's, as far as the panel has it. -/
def Asked (node : String) (a : Agent) (r : Request) : Prop :=
  r.authorization = some ("Bearer " ++ a.token) ∧ ∀ id, r.nodeId = some id → id = node

/-- The count of a loop, and when it is ended. -/
structure Counted (threshold : Nat) (l : Loop) : Prop where
  below : l.seenActive = true → l.ended = true ∨ l.gone < threshold
  ended : l.ended = true → l.seenActive = true ∧ threshold ≤ l.gone

/-- What the panel has under way for the agent, and what the agent's count says. -/
structure Own (hmac : List Nat → String → List Nat) (node : String) (threshold : Nat) (s : State)
    (a : Agent) : Prop where
  token : ∃ row, s.nodes.get? node = some row ∧
    a.token = signHeartbeatToken hmac node row.heartbeatSecret
  waiting_lt : ∀ w, a.waiting = some w → w < s.polls
  asked : ∀ w, a.waiting = some w → ∀ r ∈ s.requests, r.poll = w → Asked node a r
  answered : ∀ w, a.waiting = some w → (w, .gone) ∈ s.answers → Deleted node s
  deleted : 0 < a.loop.gone → Deleted node s
  counted : Counted threshold a.loop
  idle : a.loop.ended = true → a.waiting = none

/-- Of every reachable state. -/
structure Traced (hmac : List Nat → String → List Nat) (node : String) (threshold : Nat)
    (s : State) : Prop where
  requests_lt : ∀ r ∈ s.requests, r.poll < s.polls
  answers_lt : ∀ x ∈ s.answers, x.1 < s.polls
  own : ∀ a, s.agent = some a → Own hmac node threshold s a

theorem Counted.heard (polled : Polled) (h : Counted threshold l)
    (hpos : 0 < threshold) (hrun : l.ended = false) :
    Counted threshold (l.heard threshold polled) := by
  cases polled with
  | failed => exact h
  | active =>
    refine ⟨fun _ => .inr hpos, fun ho => ?_⟩
    rw [show (l.heard threshold .active).ended = l.ended from rfl, hrun] at ho
    cases ho
  | disabled =>
    refine ⟨fun _ => .inr hpos, fun ho => ?_⟩
    rw [show (l.heard threshold .disabled).ended = l.ended from rfl, hrun] at ho
    cases ho
  | gone =>
    cases hseen : l.seenActive with
    | false =>
      have hheard : l.heard threshold .gone = { l with gone := l.gone + 1 } := by
        simp [Loop.heard, hseen]
      rw [hheard]
      refine ⟨fun hs => ?_, fun ho => ?_⟩
      · rw [show ({ l with gone := l.gone + 1 } : Loop).seenActive = l.seenActive from rfl,
          hseen] at hs
        cases hs
      · rw [show ({ l with gone := l.gone + 1 } : Loop).ended = l.ended from rfl, hrun] at ho
        cases ho
    | true =>
      have hheard : l.heard threshold .gone =
          ⟨true, l.gone + 1, decide (threshold ≤ l.gone + 1)⟩ := by
        simp [Loop.heard, hseen]
      rw [hheard]
      refine ⟨fun _ => ?_, fun ho => ⟨rfl, by simpa using ho⟩⟩
      by_cases hle : threshold ≤ l.gone + 1
      · exact .inl (by simpa using hle)
      · exact .inr (by simpa using hle)

theorem gone_heard_pos (h : 0 < (l.heard threshold polled).gone) : polled = .gone ∨ 0 < l.gone := by
  cases polled with
  | failed => exact .inr h
  | active => exact absurd h (by simp [Loop.heard])
  | disabled => exact absurd h (by simp [Loop.heard])
  | gone => exact .inl rfl

theorem pollOnce_eq_gone (h : pollOnce (some answer.response) = .gone) : answer = .gone := by
  cases answer with
  | missingBearer => cases h
  | invalidToken => cases h
  | gone => rfl
  | status x =>
    unfold Answer.response pollOnce at h
    split at h <;> simp_all

/-- What does not touch the agent, and gives its poll no request but its own and no `gone` but a
deleted node's, keeps what the panel has of it. -/
theorem Traced.carry (h : Traced hmac node threshold s) (hn : NodesKept node s s')
    (hg : s'.agent = s.agent) (hp : s.polls ≤ s'.polls)
    (hr : ∀ r ∈ s'.requests, r ∈ s.requests ∨ r.poll < s'.polls ∧
      ∀ a, Own hmac node threshold s a → a.waiting = some r.poll → Asked node a r)
    (ha : ∀ x ∈ s'.answers, x ∈ s.answers ∨ x.1 < s'.polls ∧
      ∀ a, Own hmac node threshold s a → a.waiting = some x.1 → x.2 = .gone → Deleted node s') :
    Traced hmac node threshold s' := by
  refine ⟨fun r hmem => ?_, fun x hmem => ?_, fun a hag => ?_⟩
  · rcases hr r hmem with hmem | ⟨hlt, -⟩
    · exact Nat.lt_of_lt_of_le (h.requests_lt r hmem) hp
    · exact hlt
  · rcases ha x hmem with hmem | ⟨hlt, -⟩
    · exact Nat.lt_of_lt_of_le (h.answers_lt x hmem) hp
    · exact hlt
  have hown := h.own a (hg ▸ hag)
  obtain ⟨row, hrow, htok⟩ := hown.token
  refine ⟨?_, fun w hw => Nat.lt_of_lt_of_le (hown.waiting_lt w hw) hp, ?_, ?_,
    fun hpos => (hown.deleted hpos).kept hn, hown.counted, hown.idle⟩
  · obtain ⟨row', hrow', hsec, -⟩ := hn row hrow
    exact ⟨row', hrow', by rw [hsec, htok]⟩
  · rintro w hw r hmem rfl
    rcases hr r hmem with hmem | ⟨-, hasked⟩
    · exact hown.asked _ hw r hmem rfl
    · exact hasked a hown hw
  · intro w hw hmem
    rcases ha _ hmem with hmem | ⟨-, hdel⟩
    · exact (hown.answered w hw hmem).kept hn
    · exact hdel a hown hw rfl

/-- An agent that waits has not ended. -/
theorem Own.running {p : Nat} (h : Own hmac node threshold s a) (hw : a.waiting = some p) :
    a.loop.ended = false := by
  cases ho : a.loop.ended with
  | false => rfl
  | true =>
    rw [h.idle ho] at hw
    cases hw

/-- The agent hears of its poll. -/
theorem Own.heard (h : Own hmac node threshold s a) (hpos : 0 < threshold)
    (hrun : a.loop.ended = false ∨ polled = .failed) (hgone : polled = .gone → Deleted node s)
    (hn : s'.nodes = s.nodes) :
    Own hmac node threshold s'
      { a with waiting := none, loop := a.loop.heard threshold polled } := by
  have hkept : NodesKept node s s' := .of_eq hn
  obtain ⟨row, hrow, htok⟩ := h.token
  refine ⟨⟨row, hn ▸ hrow, htok⟩, fun w hw => (by cases hw), fun w hw => (by cases hw),
    fun w hw => (by cases hw), fun hg => ?_, ?_, fun _ => rfl⟩
  · rcases gone_heard_pos hg with hp | hp
    · exact (hgone hp).kept hkept
    · exact (h.deleted hp).kept hkept
  · rcases hrun with hrun | rfl
    · exact h.counted.heard polled hpos hrun
    · exact h.counted

/-! ### One step -/

theorem verifyRequest_ne_gone {authorization : Option String}
    (h : verifyRequest hmac nodes authorization = .error answer) : answer ≠ .gone := by
  unfold verifyRequest at h
  split at h
  · cases h
    simp
  · simp only at h
    split at h
    · cases h
      simp
    · cases h

theorem meStatus_eq_gone (h : nodes.get? node = some row) :
    meStatus nodes node = .gone ↔ row.deleted = true := by
  unfold meStatus
  rw [h]
  cases hdel : row.deleted with
  | true => simp [hdel]
  | false =>
    simp only [hdel, Bool.false_eq_true, if_false, iff_false]
    split <;> simp

theorem mem_requests_verify {r r' : Request} (h : r' ∈ (verify hmac r s).requests) :
    r' ∈ s.requests ∨ ∃ id, verifyRequest hmac s.nodes r.authorization = .ok id ∧
      r' = { r with nodeId := some id } := by
  unfold verify at h
  simp only at h
  split at h
  · exact .inl (List.mem_of_mem_erase h)
  · rename_i id hok
    rcases List.mem_cons.mp h with rfl | h
    · exact .inr ⟨id, hok, rfl⟩
    · exact .inl (List.mem_of_mem_erase h)

theorem mem_answers_verify {x : Nat × Answer} (h : x ∈ (verify hmac r s).answers) :
    x ∈ s.answers ∨ ∃ answer, verifyRequest hmac s.nodes r.authorization = .error answer ∧
      x = (r.poll, answer) := by
  unfold verify at h
  simp only at h
  split at h
  · rename_i answer herr
    rcases List.mem_cons.mp h with rfl | h
    · exact .inr ⟨answer, herr, rfl⟩
    · exact .inl h
  · exact .inl h

theorem Traced.same (h : Traced hmac node threshold s) (hn : NodesKept node s s')
    (hr : ∀ r ∈ s'.requests, r ∈ s.requests) (ha : s'.answers = s.answers)
    (hg : s'.agent = s.agent) (hp : s'.polls = s.polls) : Traced hmac node threshold s' :=
  h.carry hn hg (Nat.le_of_eq hp.symm) (fun r hmem => .inl (hr r hmem))
    fun _ hmem => .inl (ha ▸ hmem)

theorem Traced.request (h : Traced hmac node threshold s)
    (authorization startTime : Option String) :
    Traced hmac node threshold (request authorization startTime s) := by
  refine h.carry (.of_eq rfl) rfl (Nat.le_succ _) (fun r hmem => ?_) fun x hmem => .inl hmem
  rcases List.mem_cons.mp hmem with rfl | hmem
  · -- the request is not the one the agent waits for
    exact .inr ⟨Nat.lt_succ_self _, fun a hown hw =>
      absurd (hown.waiting_lt _ hw) (Nat.lt_irrefl _)⟩
  · exact .inl hmem

theorem Traced.poll (h : Traced hmac node threshold s) (ha : s.agent = some a)
    (hrun : a.loop.ended = false) : Traced hmac node threshold (poll a s) := by
  have hreq := h.request (some ("Bearer " ++ a.token)) (some a.startTime)
  refine ⟨hreq.requests_lt, hreq.answers_lt, ?_⟩
  intro a' ha'
  cases ha'
  have hown := h.own a ha
  refine ⟨hown.token, ?_, ?_, ?_, hown.deleted, hown.counted, ?_⟩
  · rintro w hw
    cases hw
    exact Nat.lt_succ_self _
  · rintro w hw r hmem hpoll
    cases hw
    rcases List.mem_cons.mp hmem with rfl | hmem
    · exact ⟨rfl, fun id hid => by cases hid⟩
    · exact absurd hpoll (Nat.ne_of_lt (h.requests_lt r hmem))
  · rintro w hw hmem
    cases hw
    exact absurd (h.answers_lt _ hmem) (Nat.lt_irrefl _)
  · intro ho
    rw [show ({ a with waiting := some s.polls } : Agent).loop.ended = a.loop.ended from rfl,
      hrun] at ho
    cases ho

theorem Traced.verify (h : Traced hmac node threshold s) (huuid : isUuidV4 node = true)
    (hr : r ∈ s.requests) : Traced hmac node threshold (verify hmac r s) := by
  obtain ⟨hnodes, hag, hpolls⟩ := verify_same hmac (s := s) r
  have hlt : r.poll < (Heartbeat.verify hmac r s).polls := hpolls ▸ h.requests_lt r hr
  refine h.carry (.of_eq hnodes) hag (Nat.le_of_eq hpolls.symm) (fun r' hmem => ?_)
    fun x hmem => ?_
  · rcases mem_requests_verify hmem with hmem | ⟨id, hok, rfl⟩
    · exact .inl hmem
    · refine .inr ⟨hlt, fun a hown hw => ?_⟩
      obtain ⟨hauth, -⟩ := hown.asked _ hw r hr rfl
      obtain ⟨row, -, htok⟩ := hown.token
      rw [hauth, htok] at hok
      have hid := verifyRequest_sign_eq huuid row.heartbeatSecret hok
      exact ⟨hauth, fun id' hid' => (Option.some.inj hid').symm.trans hid⟩
  · rcases mem_answers_verify hmem with hmem | ⟨answer, herr, rfl⟩
    · exact .inl hmem
    · exact .inr ⟨hlt, fun a _ _ hgone => absurd hgone (verifyRequest_ne_gone herr)⟩

theorem Traced.judge (h : Traced hmac node threshold s)
    (hr : r ∈ s.requests) (hv : r.nodeId = some id) :
    Traced hmac node threshold (judge r id s) := by
  obtain ⟨hnodes, hag, hpolls, hreq, hans⟩ := judge_same (s := s) r id
  refine h.carry (.of_eq hnodes) hag (Nat.le_of_eq hpolls.symm) (fun r' hmem => ?_)
    fun x hmem => ?_
  · rw [hreq] at hmem
    exact .inl (List.mem_of_mem_erase hmem)
  · rw [hans] at hmem
    rcases List.mem_cons.mp hmem with rfl | hmem
    · refine .inr ⟨hpolls ▸ h.requests_lt r hr, fun a hown hw hgone => ?_⟩
      -- the answer to the agent's own poll is about its own node
      obtain ⟨-, hid⟩ := hown.asked _ hw r hr rfl
      obtain ⟨row, hrow, -⟩ := hown.token
      rw [hid id hv] at hgone
      exact ⟨row, hnodes ▸ hrow, (meStatus_eq_gone hrow).mp hgone⟩
    · exact .inl hmem

theorem Traced.heard (h : Traced hmac node threshold s) (hpos : 0 < threshold)
    (ha : s.agent = some a)
    (hrun : a.loop.ended = false ∨ polled = .failed) (hgone : polled = .gone → Deleted node s) :
    Traced hmac node threshold { s with agent := some { a with
      waiting := none
      loop := a.loop.heard threshold polled } } := by
  refine ⟨h.requests_lt, h.answers_lt, ?_⟩
  intro a' ha'
  cases ha'
  exact (h.own a ha).heard hpos hrun hgone rfl

theorem Traced.step (h : Traced hmac node threshold s) (huuid : isUuidV4 node = true)
    (hpos : 0 < threshold) (hs : Step hmac node threshold s e s') :
    Traced hmac node threshold s' := by
  have hn := NodesKept.step hs
  cases hs with
  | create id secret hid => exact h.same hn (fun r hr => hr) rfl rfl rfl
  | setStatus id status row hid => exact h.same hn (fun r hr => hr) rfl rfl rfl
  | delete id inCascade => exact h.same hn (fun r hr => hr) rfl rfl rfl
  | boot startTime row hrow =>
    refine ⟨h.requests_lt, h.answers_lt, ?_⟩
    intro a ha
    cases ha
    refine ⟨⟨row, hrow, rfl⟩, fun w hw => (by cases hw), fun w hw => (by cases hw),
      fun w hw => (by cases hw), fun hg => absurd hg (by simp [Loop.new]), ⟨?_, ?_⟩, fun _ => rfl⟩
    · intro hs
      cases hs
    · intro ho
      cases ho
  | poll a ha hw hrun => exact h.poll ha hrun
  | stray authorization startTime => exact h.request authorization startTime
  | verify r hr hv => exact h.verify huuid hr
  | judge r id hr hv => exact h.judge hr hv
  | fails r => exact h.same hn (fun r' hr => List.mem_of_mem_erase hr) rfl rfl rfl
  | deliver a p answer hmem ha hw =>
    have hown := h.own a ha
    refine h.heard hpos ha (.inl (hown.running hw)) fun hg => ?_
    rw [pollOnce_eq_gone hg] at hmem
    exact hown.answered p hw hmem
  | lose a ha => exact h.heard hpos ha (.inr rfl) fun hg => by cases hg
  | track t ht =>
    obtain ⟨-, hag, hpolls, hreq, hans⟩ := track_same (s := s) t
    exact h.same hn (fun r hr => hreq ▸ hr) hans hag hpolls
  | trackFails t => exact h.same hn (fun r hr => hr) rfl rfl rfl
  | forget id => exact h.same hn (fun r hr => hr) rfl rfl rfl

theorem traced_of_reachable (huuid : isUuidV4 node = true) (hpos : 0 < threshold)
    (h : (machine hmac node threshold).Reachable s) : Traced hmac node threshold s := by
  apply h.invariant
  · rintro s rfl
    exact ⟨fun r hr => (by cases hr), fun x hx => (by cases hx), fun a ha => by cases ha⟩
  · intro s e s' hr hi hs
    exact hi.step huuid hpos hs

/-! ### A poll that nothing delays -/

theorem verify_own (huuid : isUuidV4 node = true)
    (hrow : s.nodes.get? node = some row) (hne : hmac row.heartbeatSecret node ≠ [])
    (hr : r.authorization =
      some ("Bearer " ++ signHeartbeatToken hmac node row.heartbeatSecret)) :
    verify hmac r s = { s with
      requests := { r with nodeId := some node } :: s.requests.erase r } := by
  unfold verify
  simp only [hr, verifyRequest_sign huuid hrow hne]

/-- The agent's next poll, once the panel has verified it. -/
def verified (node : String) (a : Agent) (s : State) : Request :=
  ⟨s.polls, some ("Bearer " ++ a.token), some a.startTime, some node⟩

/-- The agent's next poll, answered. -/
def answered (node : String) (a : Agent) (s : State) : State :=
  judge (verified node a s) node { poll a s with requests := verified node a s :: s.requests }

theorem run_answered (threshold : Nat) {steps : List (State × Event × State)}
    (huuid : isUuidV4 node = true) (ha : s.agent = some a)
    (hw : a.waiting = none) (hrun : a.loop.ended = false) (hrow : s.nodes.get? node = some row)
    (htok : a.token = signHeartbeatToken hmac node row.heartbeatSecret)
    (hne : hmac row.heartbeatSecret node ≠ [])
    (hrest : (machine hmac node threshold).Run (answered node a s) steps s') :
    ∃ s₁ s₂ r, (machine hmac node threshold).Run s ((s, .poll, s₁) :: (s₁, .verify r, s₂) ::
      (s₂, .judge (verified node a s), answered node a s) :: steps) s' := by
  have hv := verify_own (s := poll a s) (r := { verified node a s with nodeId := none }) huuid hrow
    hne (congrArg _ (congrArg _ htok))
  rw [show (poll a s).requests.erase { verified node a s with nodeId := none } = s.requests from
    List.erase_cons_head _ _] at hv
  refine ⟨poll a s, _, { verified node a s with nodeId := none },
    .cons (.poll s a ha hw hrun) (.cons (.verify _ _ List.mem_cons_self rfl) ?_)⟩
  rw [hv]
  exact .cons (.judge _ _ node List.mem_cons_self rfl) hrest

theorem answered_eq (node : String) (a : Agent) (s : State) :
    (answered node a s).agent = some { a with waiting := some s.polls } ∧
      (answered node a s).nodes = s.nodes ∧
      (s.polls, meStatus s.nodes node) ∈ (answered node a s).answers := by
  unfold answered
  obtain ⟨hnodes, hag, -, -, hans⟩ := judge_same
    (s := { poll a s with requests := verified node a s :: s.requests }) (verified node a s) node
  refine ⟨hag, hnodes, ?_⟩
  rw [hans]
  exact List.mem_cons_self

/-- The agent's next poll, answered and heard. -/
def heard (node : String) (threshold : Nat) (a : Agent) (s : State) : State :=
  deliver threshold { a with waiting := some s.polls } (meStatus s.nodes node) (answered node a s)

theorem reachable_heard (h : (machine hmac node threshold).Reachable s)
    (huuid : isUuidV4 node = true) (ha : s.agent = some a) (hw : a.waiting = none)
    (hrun : a.loop.ended = false) (hrow : s.nodes.get? node = some row)
    (htok : a.token = signHeartbeatToken hmac node row.heartbeatSecret)
    (hne : hmac row.heartbeatSecret node ≠ []) :
    (machine hmac node threshold).Reachable (heard node threshold a s) := by
  obtain ⟨hag, -, hmem⟩ := answered_eq node a s
  obtain ⟨s₁, s₂, r, hrun⟩ := run_answered threshold huuid ha hw hrun hrow htok hne
    (.cons (.deliver _ _ _ _ hmem hag rfl) (.nil _))
  exact hrun.reachable h

theorem heard_nodes (a : Agent) : (heard node threshold a s).nodes = s.nodes :=
  (answered_eq node a s).2.1

def Event.delivers : Event → Bool
  | .deliver _ _ => true
  | _ => false

/-! ### A node, and the agent on it -/

def sampleNode : String := "11111111-1111-4111-8111-111111111111"

def sampleStart : String := "1760000000000000000"

def sampleSecret : List Nat := List.replicate 32 7

/-- The digest of `sampleNode` under `sampleSecret`. -/
def sampleHmac : List Nat → String → List Nat := fun _ _ =>
  [186, 112, 209, 126, 99, 71, 46, 74, 223, 157, 0, 233, 232, 163, 184, 22, 233, 113, 98, 128, 129,
    36, 126, 241, 193, 225, 35, 170, 11, 212, 114, 85]

def sampleAgent (startTime : String) (loop : Loop) : Agent :=
  ⟨signHeartbeatToken sampleHmac sampleNode sampleSecret, startTime, loop, none⟩

def sampleBooted : State :=
  { State.new with
    nodes := State.new.nodes.set sampleNode ⟨sampleSecret, false, "unknown"⟩
    agent := some (sampleAgent sampleStart .new) }

/-- It has heard that the node is active. -/
def sampleServed : State := heard sampleNode 1 (sampleAgent sampleStart .new) sampleBooted

def sampleDeleted (s : State) : State := { s with nodes := deleteNode s.nodes sampleNode false }

theorem reachable_sampleBooted : (machine sampleHmac sampleNode threshold).Reachable sampleBooted :=
  .step (.step (.start rfl) (.create _ sampleNode sampleSecret rfl))
    (.boot _ sampleStart ⟨sampleSecret, false, "unknown"⟩ (by decide))

theorem reachable_sampleServed : (machine sampleHmac sampleNode 1).Reachable sampleServed :=
  reachable_heard reachable_sampleBooted (by decide) rfl rfl rfl
    (show _ = some ⟨sampleSecret, false, "unknown"⟩ by decide) rfl (by decide)

theorem sampleServed_nodes : sampleServed.nodes = sampleBooted.nodes := heard_nodes _

/-- The panel's answer to a poll is on its way while the node is deleted. -/
def sampleLate : State :=
  sampleDeleted (answered sampleNode (sampleAgent sampleStart ⟨true, 0, false⟩)
    sampleServed)

theorem reachable_sampleLate : (machine sampleHmac sampleNode 1).Reachable sampleLate := by
  have hrow : sampleServed.nodes.get? sampleNode = some ⟨sampleSecret, false, "unknown"⟩ := by
    rw [sampleServed_nodes]
    decide
  have hag : sampleServed.agent =
      some (sampleAgent sampleStart ⟨true, 0, false⟩) := by
    decide
  obtain ⟨s₁, s₂, r, hans⟩ := run_answered 1 (by decide) hag rfl rfl hrow rfl
    (by decide) (.nil _)
  exact .step (hans.reachable reachable_sampleServed) (.delete _ sampleNode false)

theorem sampleLate_eq : sampleLate.nodes.get? sampleNode = some ⟨sampleSecret, true, "unknown"⟩ ∧
    sampleLate.agent =
      some { sampleAgent sampleStart ⟨true, 0, false⟩ with waiting := some 1 } := by
  have hnodes : sampleLate.nodes = sampleBooted.nodes.set sampleNode
      ⟨sampleSecret, true, "unknown"⟩ := by
    unfold sampleLate sampleDeleted
    simp only
    rw [(answered_eq _ _ _).2.1, sampleServed_nodes]
    rfl
  refine ⟨?_, (answered_eq _ _ _).1⟩
  rw [hnodes]
  decide

/-- It hears of the poll from before the deletion, and of one more. -/
theorem sample_run : ∃ steps s',
    (machine sampleHmac sampleNode (goneThreshold 1)).Run sampleLate steps s' ∧
      steps.countP (fun st => st.2.1.delivers) = 2 ∧
      (∀ st ∈ steps, ∀ startTime, st.2.1 ≠ .boot startTime) ∧
      ∃ a, s'.agent = some a ∧ a.loop.ended = true := by
  obtain ⟨hrow, hag⟩ := sampleLate_eq
  have hans : (1, .status "active") ∈ sampleLate.answers := by
    have hmem := (answered_eq sampleNode
      (sampleAgent sampleStart ⟨true, 0, false⟩) sampleServed).2.2
    rw [sampleServed_nodes] at hmem
    exact hmem
  let told := deliver 1 { sampleAgent sampleStart ⟨true, 0, false⟩ with
    waiting := some 1 } (.status "active") sampleLate
  have hgone : meStatus told.nodes sampleNode = .gone := (meStatus_eq_gone hrow).mpr rfl
  obtain ⟨hag', -, hans'⟩ := answered_eq sampleNode
    (sampleAgent sampleStart ⟨true, 0, false⟩) told
  rw [hgone] at hans'
  obtain ⟨s₁, s₂, r, hrun⟩ := run_answered 1 (by decide) (s := told) rfl rfl rfl
    hrow rfl (by decide) (.cons (.deliver _ _ _ _ hans' hag' rfl) (.nil _))
  refine ⟨_, _, .cons (.deliver _ _ _ _ hans hag rfl) hrun, rfl, ?_, _, rfl, rfl⟩
  intro st hst startTime
  simp only [List.mem_cons, List.not_mem_nil, or_false] at hst
  rcases hst with rfl | rfl | rfl | rfl | rfl <;> simp

theorem goneThreshold_pos (configured : Int) : 0 < goneThreshold configured := by
  unfold goneThreshold
  split <;> omega

/-- **An agent takes itself down only once it has seen its node active, and only when its node has
been deleted.** -/
theorem ended_only_deleted {configured : Int} (huuid : isUuidV4 node = true)
    (h : (machine hmac node (goneThreshold configured)).Reachable s) (ha : s.agent = some a)
    (hover : a.loop.ended = true) :
    a.loop.seenActive = true ∧ ∃ row, s.nodes.get? node = some row ∧ row.deleted = true := by
  have hpos := goneThreshold_pos configured
  have hown := (traced_of_reachable huuid hpos h).own a ha
  obtain ⟨hseen, hgone⟩ := hown.counted.ended hover
  exact ⟨hseen, hown.deleted (Nat.lt_of_lt_of_le hpos hgone)⟩

theorem ended_only_deleted_sample : ∃ s a,
    (machine sampleHmac sampleNode (goneThreshold 1)).Reachable s ∧ s.agent = some a ∧
      a.loop.ended = true ∧ a.loop.seenActive = true ∧
      ∃ row, s.nodes.get? sampleNode = some row ∧ row.deleted = true := by
  obtain ⟨steps, s, hrun, -, -, a, ha, hended⟩ := sample_run
  have hr := hrun.reachable reachable_sampleLate
  exact ⟨s, a, hr, ha, hended, ended_only_deleted (by decide) hr ha hended⟩

end Agent

/-! ## After the deletion -/

section AfterDelete

variable {hmac : List Nat → String → List Nat} {node : String} {threshold : Nat} {s s' : State}
  {a : Agent} {n : Nat}

/-- No answer under way for the agent is from before the deletion. -/
def Settled (a : Agent) (s : State) : Prop :=
  ∀ w, a.waiting = some w → ∀ x ∈ s.answers, x.1 = w → x.2 = .gone

/-- What holds of the agent after `n` answers: one of them may be from before. -/
def Told (a : Agent) (n : Nat) (s : State) : Prop :=
  a.loop.ended = true ∨ n = 0 ∨ (Settled a s ∧ n ≤ a.loop.gone + 1)

structure Dying (hmac : List Nat → String → List Nat) (node : String) (threshold n : Nat)
    (s : State) : Prop where
  traced : Traced hmac node threshold s
  deleted : Deleted node s
  told : ∃ a, s.agent = some a ∧ a.loop.seenActive = true ∧ Told a n s

theorem Told.carry (h : Told a n s) (hans : Settled a s → Settled a s') : Told a n s' := by
  rcases h with h | h | ⟨hset, hle⟩
  · exact .inl h
  · exact .inr (.inl h)
  · exact .inr (.inr ⟨hans hset, hle⟩)

theorem Told.idle {b : Agent} (h : Told a n s) (hw : b.waiting = none)
    (hl : b.loop = a.loop) : Told b n s' := by
  rcases h with h | h | ⟨-, hle⟩
  · exact .inl (hl ▸ h)
  · exact .inr (.inl h)
  · exact .inr (.inr ⟨fun w hw' => by (rw [hw] at hw'; cases hw'), hl ▸ hle⟩)

theorem seenActive_heard (h : l.seenActive = true) :
    (l.heard threshold polled).seenActive = true := by
  cases polled <;> simp [Loop.heard, h]

theorem gone_heard (h : l.seenActive = true) : (l.heard threshold .gone).gone = l.gone + 1 := by
  simp [Loop.heard, h]

theorem Settled.verify (h : Settled a s) (hown : Own hmac node threshold s a)
    (huuid : isUuidV4 node = true) (hhmac : ∀ secret text, hmac secret text ≠ [])
    (hr : r ∈ s.requests) : Settled a (verify hmac r s) := by
  intro w hw x hmem hx
  rcases mem_answers_verify hmem with hmem | ⟨answer, herr, rfl⟩
  · exact h w hw x hmem hx
  · obtain ⟨hauth, -⟩ := hown.asked w hw r hr hx
    obtain ⟨row, hrow, htok⟩ := hown.token
    rw [hauth, htok, verifyRequest_sign huuid hrow (hhmac _ _)] at herr
    cases herr

theorem Settled.judge (h : Settled a s) (hown : Own hmac node threshold s a)
    (hdel : Deleted node s) (hr : r ∈ s.requests)
    (hv : r.nodeId = some id) : Settled a (judge r id s) := by
  intro w hw x hmem hx
  rw [(judge_same r id).2.2.2.2] at hmem
  rcases List.mem_cons.mp hmem with rfl | hmem
  · obtain ⟨-, hid⟩ := hown.asked w hw r hr hx
    obtain ⟨row, hrow, hrowdel⟩ := hdel
    rw [hid id hv]
    exact (meStatus_eq_gone hrow).mpr hrowdel
  · exact h w hw x hmem hx

theorem Told.delivered {n p : Nat} (h : Told a n s)
    (hmem : (p, answer) ∈ s.answers) (hw : a.waiting = some p) (hseen : a.loop.seenActive = true)
    (hrun : a.loop.ended = false) :
    Told { a with
      waiting := none
      loop := a.loop.heard threshold (pollOnce (some answer.response)) } (n + 1) s' := by
  refine .inr (.inr ⟨fun w hw' => (by cases hw'), ?_⟩)
  rcases h with h | h | ⟨hset, hle⟩
  · rw [hrun] at h
    cases h
  · omega
  · have hgone : answer = .gone := hset p hw _ hmem rfl
    subst hgone
    show n + 1 ≤ (a.loop.heard threshold .gone).gone + 1
    rw [gone_heard hseen]
    omega

theorem Dying.step (h : Dying hmac node threshold n s)
    (huuid : isUuidV4 node = true) (hhmac : ∀ secret text, hmac secret text ≠ [])
    (hpos : 0 < threshold) (hs : Step hmac node threshold s e s')
    (hboot : ∀ startTime, e ≠ .boot startTime) :
    Dying hmac node threshold (n + if e.delivers then 1 else 0) s' := by
  obtain ⟨a, ha, hseen, htold⟩ := h.told
  have hown := h.traced.own a ha
  refine ⟨h.traced.step huuid hpos hs, h.deleted.kept (.step hs), ?_⟩
  cases hs with
  | create id secret hid => exact ⟨a, ha, hseen, htold.carry fun hset => hset⟩
  | setStatus id status row hid => exact ⟨a, ha, hseen, htold.carry fun hset => hset⟩
  | delete id inCascade => exact ⟨a, ha, hseen, htold.carry fun hset => hset⟩
  | boot startTime row hrow => exact absurd rfl (hboot startTime)
  | poll b hb hw hrun =>
    rw [ha, Option.some.injEq] at hb
    subst hb
    refine ⟨_, rfl, hseen, ?_⟩
    rcases htold with ho | hn | ⟨-, hle⟩
    · exact .inl ho
    · exact .inr (.inl hn)
    · refine .inr (.inr ⟨?_, hle⟩)
      rintro w hw' x hmem hx
      cases hw'
      exact absurd hx (Nat.ne_of_lt (h.traced.answers_lt x hmem))
  | stray authorization startTime => exact ⟨a, ha, hseen, htold.carry fun hset => hset⟩
  | verify r hr hv =>
    exact ⟨a, (verify_same hmac r).2.1.trans ha, hseen,
      htold.carry fun hset => hset.verify hown huuid hhmac hr⟩
  | judge r id hr hv =>
    exact ⟨a, (judge_same r id).2.1.trans ha, hseen,
      htold.carry fun hset => hset.judge hown h.deleted hr hv⟩
  | fails r => exact ⟨a, ha, hseen, htold.carry fun hset => hset⟩
  | deliver b p answer hmem hb hw =>
    rw [ha, Option.some.injEq] at hb
    subst hb
    exact ⟨_, rfl, seenActive_heard hseen, htold.delivered hmem hw hseen (hown.running hw)⟩
  | lose b hb =>
    rw [ha, Option.some.injEq] at hb
    subst hb
    exact ⟨_, rfl, hseen, htold.idle rfl rfl⟩
  | track t ht =>
    obtain ⟨-, hag, -, -, hans⟩ := track_same (s := s) t
    refine ⟨a, hag.trans ha, hseen, htold.carry fun hset w hw x hmem hx => ?_⟩
    exact hset w hw x (hans ▸ hmem) hx
  | trackFails t => exact ⟨a, ha, hseen, htold.carry fun hset => hset⟩
  | forget id => exact ⟨a, ha, hseen, htold.carry fun hset => hset⟩

/-- **Once its node is deleted an agent that has seen it active ends**, with the answer after the
`goneThreshold`th at the latest. -/
theorem ended_after_delete {configured : Int} {steps : List (State × Event × State)}
    (huuid : isUuidV4 node = true) (hhmac : ∀ secret text, hmac secret text ≠ [])
    (h : (machine hmac node (goneThreshold configured)).Reachable s) (ha : s.agent = some a)
    (hseen : a.loop.seenActive = true)
    (hdel : ∃ row, s.nodes.get? node = some row ∧ row.deleted = true)
    (hrun : (machine hmac node (goneThreshold configured)).Run s steps s')
    (hboot : ∀ st ∈ steps, ∀ startTime, st.2.1 ≠ .boot startTime)
    (hcount : goneThreshold configured < steps.countP fun st => st.2.1.delivers) :
    ∃ a', s'.agent = some a' ∧ a'.loop.ended = true := by
  have hpos := goneThreshold_pos configured
  have htraced := traced_of_reachable huuid hpos h
  have hdying : (∀ st ∈ steps, ∀ startTime, st.2.1 ≠ .boot startTime) →
      Dying hmac node (goneThreshold configured) (steps.countP fun st => st.2.1.delivers) s' := by
    apply hrun.history
    · intro past s e s' hk hs hboot
      have hlast := hboot _ (List.mem_append_right _ List.mem_cons_self)
      have hpast := hk fun st hst => hboot st (List.mem_append_left _ hst)
      have := hpast.step huuid hhmac hpos hs hlast
      rw [List.countP_append]
      simpa [List.countP_cons] using this
    · intro _
      exact ⟨htraced, hdel, a, ha, hseen, .inr (.inl rfl)⟩
  obtain ⟨htraced', -, a', ha', hseen', htold⟩ := hdying hboot
  refine ⟨a', ha', ?_⟩
  rcases htold with ho | hzero | ⟨-, hle⟩
  · exact ho
  · omega
  · rcases (htraced'.own a' ha').counted.below hseen' with ho | hlt
    · exact ho
    · omega

theorem ended_after_delete_sample : ∃ steps s',
    (machine sampleHmac sampleNode (goneThreshold 1)).Run sampleLate steps s' ∧
      ∃ a', s'.agent = some a' ∧ a'.loop.ended = true := by
  obtain ⟨steps, s', hrun, hcount, hboot, -⟩ := sample_run
  obtain ⟨hrow, hag⟩ := sampleLate_eq
  have hdigest : ∀ secret text, sampleHmac secret text ≠ [] := fun _ _ => List.cons_ne_nil _ _
  have hlt : goneThreshold 1 < steps.countP fun st => st.2.1.delivers :=
    hcount ▸ (show 1 < 2 from Nat.one_lt_two)
  exact ⟨steps, s', hrun, ended_after_delete (by decide) hdigest reachable_sampleLate hag rfl
    ⟨_, hrow, rfl⟩ hrun hboot hlt⟩

end AfterDelete

end Iceslab.Heartbeat
