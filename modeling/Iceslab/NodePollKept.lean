import Iceslab.NodePoll
import Mathlib.Data.List.Nodup

/-!
# What overlapping polls keep

The nodes are read once for a run, and a write names its node by id alone.

* `disabled_step`, `checks_step` — what one step does to a status, and to a check.
* `asked_ordered`, `written_asked` — requests are counted in the order they are sent, and what is
  written was asked.
* `poll_kept` — where no run has read a node before the operator disabled it and writes to it after,
  and runs write to it in the order they asked it, a disabled node stays disabled and answers are
  recorded in the order of their requests.
* `disabled_node_comes_back` — a node disabled while it is asked.
-/

set_option autoImplicit false

namespace Iceslab.NodePoll

/-! ## What a step does to a node -/

/-- The check and the request whose answer the step writes to a node. -/
def writes (id : String) (s : Poll) : PollEvent → Option (Nat × Nat)
  | .write i nowMs =>
    match s.checks[i]? with
    | some ⟨row, .answered request result⟩ =>
      if row.id = id ∧ worthWriting row result nowMs = true then some (i, request) else none
    | _ => none
  | _ => none

/-- The check by which the step asks a node. -/
def sends (id : String) (s : Poll) : PollEvent → Option Nat
  | .send i =>
    match s.checks[i]? with
    | some ⟨row, .read⟩ => if row.id = id then some i else none
    | _ => none
  | _ => none

/-- The operator sets the status of the node. -/
def Edits (id : String) : PollEvent → Prop
  | .setStatus other _ => other = id
  | _ => False

instance (id : String) (e : PollEvent) : Decidable (Edits id e) :=
  match e with
  | .setStatus other _ => inferInstanceAs (Decidable (other = id))
  | .run | .send _ | .answer _ _ | .write _ _ | .delete _ => .isFalse nofun

variable {e : PollEvent} {i : Nat} {c : Check}

section Step

variable {s : Poll} {id : String} {f : NodeRow → NodeRow}

def Poll.status? (s : Poll) (id : String) : Option NodeStatus :=
  (s.nodes.find? fun n => decide (n.id = id)).map (·.status)

theorem writes_eq_some {w : Nat × Nat} :
    writes id s e = some w ↔ ∃ nowMs row result, e = .write w.1 nowMs ∧
      s.checks[w.1]? = some ⟨row, .answered w.2 result⟩ ∧ row.id = id ∧
      worthWriting row result nowMs = true := by
  obtain ⟨i, request⟩ := w
  constructor
  · intro h
    unfold writes at h
    split at h
    · split at h
      · rename_i hcheck
        split at h
        · rename_i hworth
          obtain ⟨rfl, rfl⟩ := Prod.mk.inj (Option.some.inj h)
          exact ⟨_, _, _, rfl, hcheck, hworth⟩
        · cases h
      · cases h
    · cases h
  · rintro ⟨nowMs, row, result, rfl, hcheck, hworth⟩
    simp only [writes, hcheck, if_pos hworth]

theorem sends_eq_some :
    sends id s e = some i ↔ e = .send i ∧ ∃ row, s.checks[i]? = some ⟨row, .read⟩ ∧ row.id = id := by
  constructor
  · intro h
    unfold sends at h
    split at h
    · split at h
      · rename_i hcheck
        split at h
        · rename_i hid
          obtain rfl := Option.some.inj h
          exact ⟨rfl, _, hcheck, hid⟩
        · cases h
      · cases h
    · cases h
  · rintro ⟨rfl, row, hcheck, hid⟩
    simp only [sends, hcheck, if_pos hid]

theorem status?_update (other : String) (hid : ∀ n, (f n).id = n.id) :
    (s.update other f).status? id
      = (s.nodes.find? fun n => decide (n.id = id)).map
          fun n => if n.id = other then (f n).status else n.status := by
  have hkeeps : (fun n : NodeRow => decide (n.id = id)) ∘ (fun n => if n.id = other then f n else n)
      = fun n => decide (n.id = id) := by
    funext n
    by_cases h : n.id = other
    · simp only [Function.comp_apply, if_pos h, hid]
    · simp only [Function.comp_apply, if_neg h]
  rw [Poll.status?, Poll.update, List.find?_map, hkeeps, Option.map_map]
  congr 1
  funext n
  simp only [Function.comp_apply]
  split <;> rfl

theorem status?_update_of (other : String) (hid : ∀ n, (f n).id = n.id)
    (h : other ≠ id ∨ ∀ n, (f n).status = n.status) : (s.update other f).status? id = s.status? id := by
  rw [status?_update other hid, Poll.status?]
  cases hfind : s.nodes.find? fun n => decide (n.id = id) with
  | none => rfl
  | some n =>
    have hn : n.id = id := by simpa using List.find?_some hfind
    simp only [Option.map_some, Option.some.injEq]
    split
    · rename_i heq
      rcases h with hne | hsame
      · exact absurd (heq.symm.trans hn) hne
      · exact hsame n
    · rfl

theorem status?_update_to {status : NodeStatus}
    (hid : ∀ n, (f n).id = n.id) (hf : ∀ n, (f n).status = status) {found : NodeStatus}
    (h : (s.update id f).status? id = some found) : found = status := by
  rw [status?_update id hid, Option.map_eq_some_iff] at h
  obtain ⟨n, hn, hs⟩ := h
  have hid' : n.id = id := by simpa using List.find?_some hn
  rw [if_pos hid', hf] at hs
  exact hs.symm

theorem write_cases (i nowMs : Nat) :
    (∀ id, writes id s (.write i nowMs) = none) ∧ (s.write i nowMs).nodes = s.nodes ∨
    ∃ row request result, writes row.id s (.write i nowMs) = some (i, request) ∧
      (s.write i nowMs).nodes = (s.update row.id fun n => n.written row result nowMs).nodes := by
  unfold Poll.write
  split
  · rename_i row request result hcheck
    dsimp only
    split
    · rename_i hworth
      refine .inr ⟨row, request, result, ?_, rfl⟩
      exact writes_eq_some.mpr ⟨nowMs, row, result, rfl, hcheck, rfl, hworth⟩
    · rename_i hworth
      refine .inl ⟨fun id => ?_, rfl⟩
      simp only [writes, hcheck, hworth, Bool.false_eq_true, and_false, if_false]
  · rename_i hnone
    refine .inl ⟨fun id => Option.eq_none_iff_forall_ne_some.mpr fun w hw => ?_, rfl⟩
    obtain ⟨_, row, result, heq, hcheck, -⟩ := writes_eq_some.mp hw
    obtain ⟨rfl, -⟩ := PollEvent.write.inj heq
    exact hnone _ _ _ hcheck

theorem step_frame (hwrites : writes id s e = none) (hedits : ¬ Edits id e) :
    (s.step e).status? id = s.status? id := by
  cases e with
  | run => rfl
  | send i =>
    simp only [Poll.step]
    split <;> rfl
  | answer i result =>
    simp only [Poll.step]
    split <;> rfl
  | write i nowMs =>
    rcases write_cases (s := s) i nowMs with ⟨-, hnodes⟩ | ⟨row, request, result, hw, hnodes⟩
    · rw [Poll.step, Poll.status?, hnodes]
      rfl
    · have hne : row.id ≠ id := by
        rintro rfl
        rw [hw] at hwrites
        cases hwrites
      rw [Poll.step, Poll.status?, hnodes]
      exact status?_update_of row.id (fun _ => rfl) (.inl hne)
  | setStatus other status => exact status?_update_of other (fun _ => rfl) (.inl hedits)
  | delete other => exact status?_update_of other (fun _ => rfl) (.inr fun _ => rfl)

/-- Only the operator disables a node. -/
theorem disabled_step (h : (s.step e).status? id = some .disabled) :
    s.status? id = some .disabled ∨ e = .setStatus id .disabled := by
  by_cases hedits : Edits id e
  · cases e with
    | setStatus other status =>
      obtain rfl : other = id := hedits
      have hstatus : NodeStatus.disabled = status :=
        status?_update_to (f := fun n => { n with status := status }) (fun _ => rfl) (fun _ => rfl) h
      rw [hstatus]
      exact .inr rfl
    | _ => cases hedits
  · cases hw : writes id s e with
    | none => exact .inl ((step_frame hw hedits).symm.trans h)
    | some w =>
      obtain ⟨nowMs, row, result, rfl, hcheck, rfl, hworth⟩ := writes_eq_some.mp hw
      simp only [Poll.step, Poll.write, hcheck, hworth, if_true] at h
      have hstored : NodeStatus.disabled = result.status.stored :=
        status?_update_to (f := fun n => n.written row result nowMs) (fun _ => rfl) (fun _ => rfl) h
      cases hr : result.status <;> rw [hr] at hstored <;> cases hstored

/-! ## What a step does to the checks -/

/-- How the phase of check `i` moves. -/
inductive Moves (s : Poll) (e : PollEvent) (i : Nat) : CheckPhase → CheckPhase → Prop
  | stays (phase : CheckPhase) : Moves s e i phase phase
  | sent (he : e = .send i) : Moves s e i .read (.sent s.requests)
  | answered (request : Nat) (result : PollResult) :
    Moves s e i (.sent request) (.answered request result)
  | ended (request : Nat) (result : PollResult) : Moves s e i (.answered request result) .done

theorem getElem?_setPhase {i j : Nat} {c c' : Check} {phase : CheckPhase}
    (h : (s.setPhase j c phase).checks[i]? = some c') :
    s.checks[i]? = some c' ∨ i = j ∧ c' = ⟨c.row, phase⟩ := by
  rw [Poll.setPhase, List.getElem?_set] at h
  split at h
  · rename_i heq
    split at h
    · exact .inr ⟨heq.symm, (Option.some.inj h).symm⟩
    · cases h
  · exact .inl h

/-- A check is opened for a row the poll reads, or was there and has moved. -/
theorem checks_step (h : (s.step e).checks[i]? = some c) :
    (s.checks.length ≤ i ∧ c.row ∈ s.polled ∧ c.phase = .read) ∨
      ∃ c₀, s.checks[i]? = some c₀ ∧ c₀.row = c.row ∧ Moves s e i c₀.phase c.phase := by
  have hstays (h : s.checks[i]? = some c) : (s.checks.length ≤ i ∧ c.row ∈ s.polled ∧ c.phase = .read)
      ∨ ∃ c₀, s.checks[i]? = some c₀ ∧ c₀.row = c.row ∧ Moves s e i c₀.phase c.phase :=
    .inr ⟨c, h, rfl, .stays _⟩
  cases e with
  | run =>
    rw [Poll.step, List.getElem?_append] at h
    split at h
    · exact hstays h
    · rename_i hge
      rw [List.getElem?_map, Option.map_eq_some_iff] at h
      obtain ⟨n, hn, rfl⟩ := h
      exact .inl ⟨Nat.le_of_not_lt hge, List.mem_of_getElem? hn, rfl⟩
  | send j =>
    rw [Poll.step] at h
    split at h
    · rename_i row hcheck
      rcases getElem?_setPhase h with h | ⟨rfl, rfl⟩
      · exact hstays h
      · exact .inr ⟨_, hcheck, rfl, .sent rfl⟩
    · exact hstays h
  | answer j result =>
    rw [Poll.step] at h
    split at h
    · rename_i row request hcheck
      rcases getElem?_setPhase h with h | ⟨rfl, rfl⟩
      · exact hstays h
      · exact .inr ⟨_, hcheck, rfl, .answered request result⟩
    · exact hstays h
  | write j nowMs =>
    rw [Poll.step, Poll.write] at h
    split at h
    · rename_i row request result hcheck
      have h' : (s.setPhase j ⟨row, .answered request result⟩ .done).checks[i]? = some c := by
        dsimp only at h
        split at h <;> exact h
      rcases getElem?_setPhase h' with h | ⟨rfl, rfl⟩
      · exact hstays h
      · exact .inr ⟨_, hcheck, rfl, .ended request result⟩
    · exact hstays h
  | setStatus => exact hstays h
  | delete => exact hstays h

theorem counts_step (e : PollEvent) :
    s.checks.length ≤ (s.step e).checks.length ∧ s.requests ≤ (s.step e).requests := by
  cases e with
  | run =>
    refine ⟨?_, Nat.le_refl _⟩
    rw [Poll.step, List.length_append]
    exact Nat.le_add_right _ _
  | send i =>
    simp only [Poll.step]
    split
    · exact ⟨by simp [Poll.setPhase], Nat.le_succ _⟩
    · exact ⟨Nat.le_refl _, Nat.le_refl _⟩
  | answer i result =>
    simp only [Poll.step]
    split
    · exact ⟨by simp [Poll.setPhase], Nat.le_refl _⟩
    · exact ⟨Nat.le_refl _, Nat.le_refl _⟩
  | write i nowMs =>
    simp only [Poll.step, Poll.write]
    split
    · split <;> exact ⟨by simp [Poll.setPhase, Poll.update], Nat.le_refl _⟩
    · exact ⟨Nat.le_refl _, Nat.le_refl _⟩
  | setStatus => exact ⟨Nat.le_refl _, Nat.le_refl _⟩
  | delete => exact ⟨Nat.le_refl _, Nat.le_refl _⟩

/-- A check keeps its row, and is sent once. -/
theorem check_step (e : PollEvent) (hc : s.checks[i]? = some c) :
    ∃ c', (s.step e).checks[i]? = some c' ∧ c'.row = c.row ∧ (c'.phase = .read → c.phase = .read) := by
  have hlt : i < s.checks.length := (List.getElem?_eq_some_iff.mp hc).1
  have hc' := List.getElem?_eq_getElem (Nat.lt_of_lt_of_le hlt (counts_step e).1)
  refine ⟨_, hc', ?_⟩
  rcases checks_step hc' with ⟨hge, -⟩ | ⟨c₀, hc₀, hrow, hmoves⟩
  · exact absurd hlt (Nat.not_lt.mpr hge)
  · obtain rfl : c = c₀ := Option.some.inj (hc.symm.trans hc₀)
    obtain ⟨row, phase⟩ := c
    refine ⟨hrow.symm, fun hread => ?_⟩
    rw [hread] at hmoves
    cases hmoves
    rfl

theorem requests_sent (h : sends id s e = some i) : (s.step e).requests = s.requests + 1 := by
  obtain ⟨rfl, row, hcheck, -⟩ := sends_eq_some.mp h
  simp only [Poll.step, hcheck]

theorem ids_step (e : PollEvent) : (s.step e).nodes.map (·.id) = s.nodes.map (·.id) := by
  have hupdate (t : Poll) (other : String) (f : NodeRow → NodeRow) (hid : ∀ n, (f n).id = n.id) :
      (t.update other f).nodes.map (·.id) = t.nodes.map (·.id) := by
    rw [Poll.update, List.map_map]
    refine List.map_congr_left fun n _ => ?_
    simp only [Function.comp_apply]
    split
    · exact hid n
    · rfl
  cases e with
  | run => rfl
  | send i =>
    simp only [Poll.step]
    split <;> rfl
  | answer i result =>
    simp only [Poll.step]
    split <;> rfl
  | write i nowMs =>
    rcases write_cases (s := s) i nowMs with ⟨-, hnodes⟩ | ⟨row, request, result, -, hnodes⟩
    · rw [Poll.step, hnodes]
    · rw [Poll.step, hnodes]
      exact hupdate s _ _ fun _ => rfl
  | setStatus other status => exact hupdate s _ _ fun _ => rfl
  | delete other => exact hupdate s _ _ fun _ => rfl

end Step

/-! ## What is written was asked -/

section Run

variable {s s' : Poll} {steps : List (Poll × PollEvent × Poll)} {id : String}

/-- The requests to a node, each with its check, in the order they are sent. -/
def asked (id : String) (steps : List (Poll × PollEvent × Poll)) : List (Nat × Nat) :=
  steps.filterMap fun st => (sends id st.1 st.2.1).map fun i => (i, st.1.requests)

/-- The answers written to a node, in the order they are written. -/
def written (id : String) (steps : List (Poll × PollEvent × Poll)) : List (Nat × Nat) :=
  steps.filterMap fun st => writes id st.1 st.2.1

/-- The check has not been sent yet, or is not there. -/
def Unsent (s : Poll) (i : Nat) : Prop := ∀ c, s.checks[i]? = some c → c.phase = .read

theorem unsent_step (h : Unsent (s.step e) i) : Unsent s i := by
  intro c hc
  obtain ⟨c', hc', -, hread⟩ := check_step e hc
  exact hread (h c' hc')

theorem unsent_of_sends (h : sends id s e = some i) : Unsent s i ∧ ¬ Unsent (s.step e) i := by
  obtain ⟨rfl, row, hcheck, -⟩ := sends_eq_some.mp h
  refine ⟨fun c hc => ?_, fun hunsent => ?_⟩
  · rw [hcheck] at hc
    cases hc
    rfl
  · have hlt := (List.getElem?_eq_some_iff.mp hcheck).1
    have hsent : (s.step (.send i)).checks[i]? = some ⟨row, .sent s.requests⟩ := by
      simp only [Poll.step, hcheck, Poll.setPhase]
      exact List.getElem?_set_self hlt
    cases hunsent _ hsent

theorem mem_asked {p : Nat × Nat} :
    p ∈ asked id steps ↔ ∃ st ∈ steps, sends id st.1 st.2.1 = some p.1 ∧ st.1.requests = p.2 := by
  obtain ⟨i, request⟩ := p
  simp [asked]

/-- Requests are counted in the order they are sent, and a check is sent once. -/
theorem asked_ordered (h : nodePoll.Run s steps s') :
    (∀ p ∈ asked id steps, Unsent s p.1 ∧ s.requests ≤ p.2) ∧
      (asked id steps).Pairwise fun p p' => p.1 ≠ p'.1 ∧ p.2 < p'.2 := by
  induction h with
  | nil => exact ⟨nofun, .nil⟩
  | @cons s₁ s₂ s₃ e rest hs h ih =>
    obtain rfl : s₂ = s₁.step e := hs
    obtain ⟨hlater, hordered⟩ := ih
    have hbefore : ∀ p ∈ asked id rest, Unsent s₁ p.1 ∧ s₁.requests ≤ p.2 := fun p hp =>
      ⟨unsent_step (hlater p hp).1, Nat.le_trans (counts_step e).2 (hlater p hp).2⟩
    cases hsends : sends id s₁ e with
    | none =>
      have hasked : asked id ((s₁, e, s₁.step e) :: rest) = asked id rest := by
        simp [asked, hsends]
      rw [hasked]
      exact ⟨hbefore, hordered⟩
    | some i =>
      have hasked : asked id ((s₁, e, s₁.step e) :: rest) = (i, s₁.requests) :: asked id rest := by
        simp [asked, hsends]
      obtain ⟨hunsent, hsent⟩ := unsent_of_sends hsends
      rw [hasked]
      refine ⟨List.forall_mem_cons.mpr ⟨⟨hunsent, Nat.le_refl _⟩, hbefore⟩, .cons ?_ hordered⟩
      intro p hp
      obtain ⟨hunsent', hle⟩ := hlater p hp
      rw [requests_sent hsends] at hle
      refine ⟨?_, hle⟩
      rintro rfl
      exact hsent hunsent'

/-- The request a check waits for, or has the answer to. -/
def CheckPhase.request? : CheckPhase → Option Nat
  | .sent request | .answered request _ => some request
  | .read | .done => none

/-- What is written was asked in the run, or before it. -/
theorem written_asked (h : nodePoll.Run s steps s') :
    ∀ st ∈ steps, ∀ w, writes id st.1 st.2.1 = some w → w ∈ asked id steps ∨
      ∃ c, s.checks[w.1]? = some c ∧ c.row.id = id ∧ c.phase.request? = some w.2 := by
  induction h with
  | nil =>
    intro st hst
    cases hst
  | @cons s₁ s₂ s₃ e rest hs h ih =>
    obtain rfl : s₂ = s₁.step e := hs
    have hrest {w : Nat × Nat} : w ∈ asked id rest → w ∈ asked id ((s₁, e, s₁.step e) :: rest) := by
      rw [mem_asked, mem_asked]
      exact fun ⟨st, hst, hasked⟩ => ⟨st, List.mem_cons_of_mem _ hst, hasked⟩
    intro st hst w hw
    rcases List.mem_cons.mp hst with rfl | hst
    · obtain ⟨_, row, result, -, hcheck, hid, -⟩ := writes_eq_some.mp hw
      exact .inr ⟨_, hcheck, hid, rfl⟩
    · rcases ih st hst w hw with hmem | ⟨c, hc, hid, hphase⟩
      · exact .inl (hrest hmem)
      · rcases checks_step hc with ⟨-, -, hread⟩ | ⟨c₀, hc₀, hrow, hmoves⟩
        · rw [hread] at hphase
          cases hphase
        · obtain ⟨row, phase⟩ := c
          obtain ⟨_, phase₀⟩ := c₀
          cases hrow
          cases hmoves with
          | stays => exact .inr ⟨_, hc₀, hid, hphase⟩
          | sent he =>
            have hsends : sends id s₁ e = some w.1 := sends_eq_some.mpr ⟨he, row, hc₀, hid⟩
            have hrequest : s₁.requests = w.2 := Option.some.inj hphase
            exact .inl (mem_asked.mpr ⟨_, List.mem_cons_self, hsends, hrequest⟩)
          | answered request result => exact .inr ⟨_, hc₀, hid, hphase⟩
          | ended => cases hphase

/-! ## A node the operator disabled -/

/-- A row the poll reads is not that of a disabled node. -/
theorem enabled_of_polled (hkeys : (s.nodes.map (·.id)).Nodup) {row : NodeRow}
    (h : row ∈ s.polled) : s.status? row.id ≠ some .disabled := by
  rw [Poll.polled, List.mem_filter] at h
  obtain ⟨hmem, hpolled⟩ := h
  intro hoff
  rw [Poll.status?, Option.map_eq_some_iff] at hoff
  obtain ⟨n, hn, hstatus⟩ := hoff
  have hid : n.id = row.id := by simpa using List.find?_some hn
  obtain rfl : n = row := List.inj_on_of_nodup_map hkeys (List.mem_of_find?_eq_some hn) hmem hid
  simp [hstatus] at hpolled

/-- While the node is disabled, no check of it that is open now writes later. -/
def Quiet (id : String) (s : Poll) (steps : List (Poll × PollEvent × Poll)) : Prop :=
  s.status? id = some .disabled →
    ∀ st ∈ steps, ∀ w, writes id st.1 st.2.1 = some w → s.checks.length ≤ w.1

/-- No run has read the node before the operator disables it and writes to it after. -/
def Apart (id : String) (steps : List (Poll × PollEvent × Poll)) : Prop :=
  steps.Pairwise fun st st' => st.2.1 = .setStatus id .disabled →
    ∀ w ∈ writes id st'.1 st'.2.1, st.1.checks.length ≤ w.1

instance (id : String) (steps : List (Poll × PollEvent × Poll)) : Decidable (Apart id steps) :=
  inferInstanceAs (Decidable (List.Pairwise _ _))

/-- A check keeps its row, so what writes to the node later is a check of it now. -/
theorem row_of_writes (h : nodePoll.Run s steps s') {st : Poll × PollEvent × Poll}
    (hst : st ∈ steps) {w : Nat × Nat} (hw : writes id st.1 st.2.1 = some w)
    (hc : s.checks[w.1]? = some c) : c.row.id = id := by
  induction h generalizing c with
  | nil => cases hst
  | @cons s₁ s₂ s₃ e rest hs h ih =>
    obtain rfl : s₂ = s₁.step e := hs
    rcases List.mem_cons.mp hst with rfl | hst
    · obtain ⟨_, row, _, -, hcheck, hid, -⟩ := writes_eq_some.mp hw
      rw [hc] at hcheck
      rw [Option.some.inj hcheck]
      exact hid
    · obtain ⟨c', hc', hrow, -⟩ := check_step e hc
      exact hrow ▸ ih hst hc'

theorem quiet_step (hkeys : (s.nodes.map (·.id)).Nodup)
    (h : nodePoll.Run (s.step e) steps s') (hq : Quiet id s ((s, e, s.step e) :: steps))
    (hapart : Apart id ((s, e, s.step e) :: steps)) : Quiet id (s.step e) steps := by
  intro hoff st hst w hw
  rcases disabled_step hoff with hbefore | rfl
  · have hle := hq hbefore st (List.mem_cons_of_mem _ hst) w hw
    by_contra hlt
    have hc := List.getElem?_eq_getElem (Nat.lt_of_not_le hlt)
    have hid := row_of_writes h hst hw hc
    rcases checks_step hc with ⟨-, hrow, -⟩ | ⟨c₀, hc₀, -⟩
    · exact absurd hbefore (hid ▸ enabled_of_polled hkeys hrow)
    · exact absurd (List.getElem?_eq_some_iff.mp hc₀).1 (Nat.not_lt.mpr hle)
  · exact (List.pairwise_cons.mp hapart).1 st hst rfl w hw

/-- What is written finds the node not disabled. -/
theorem enabled_of_writes (h : nodePoll.Run s steps s') (hkeys : (s.nodes.map (·.id)).Nodup)
    (hq : Quiet id s steps) (hapart : Apart id steps) :
    ∀ st ∈ steps, ∀ w, writes id st.1 st.2.1 = some w → st.1.status? id ≠ some .disabled := by
  induction h with
  | nil =>
    intro st hst
    cases hst
  | @cons s₁ s₂ s₃ e rest hs h ih =>
    obtain rfl : s₂ = s₁.step e := hs
    have hrest := ih ((ids_step e).symm ▸ hkeys) (quiet_step hkeys h hq hapart)
      (List.pairwise_cons.mp hapart).2
    refine List.forall_mem_cons.mpr ⟨fun w hw hoff => ?_, hrest⟩
    obtain ⟨_, _, _, -, hcheck, -⟩ := writes_eq_some.mp hw
    exact absurd (List.getElem?_eq_some_iff.mp hcheck).1
      (Nat.not_lt.mpr (hq hoff _ List.mem_cons_self w hw))

/-! ## Polls in order -/

/-- The schedule keeps a node's polls apart from the operator who disables it, and in order. -/
structure Scheduled (id : String) (steps : List (Poll × PollEvent × Poll)) : Prop where
  /-- no run has read the node before the operator disables it and writes to it after -/
  apart : Apart id steps
  /-- runs write to the node in the order they have asked it -/
  ordered : ((written id steps).map Prod.fst).Sublist ((asked id steps).map Prod.fst)

/-- What a run owes the operator and the clock, for one node. -/
structure PollKept (id : String) (steps : List (Poll × PollEvent × Poll)) : Prop where
  /-- a disabled node stays disabled until the operator edits it -/
  disabled : ∀ st ∈ steps, ¬ Edits id st.2.1 → st.1.status? id = some .disabled →
    st.2.2.status? id = some .disabled
  /-- of two writes the later one is from the later request -/
  forward : steps.Pairwise fun st st' => ∀ w ∈ writes id st.1 st.2.1,
    ∀ w' ∈ writes id st'.1 st'.2.1, w.2 < w'.2

/-- A list of pairs drawn from one whose keys are distinct, in the order of its keys. -/
theorem sublist_of_keys {l l' : List (Nat × Nat)} (hsub : (l.map Prod.fst).Sublist (l'.map Prod.fst))
    (hmem : ∀ p ∈ l, p ∈ l') (hkeys : (l'.map Prod.fst).Nodup) : l.Sublist l' := by
  obtain ⟨kept, hkept, heq⟩ := List.sublist_map_iff.mp hsub
  have hlen : l.length = kept.length := by simpa using congrArg List.length heq
  have hsame : l = kept := by
    refine List.ext_getElem hlen fun i hi hi' => ?_
    have hkey : l[i].1 = kept[i].1 := by
      simpa [hi, hi'] using congrArg (fun keys : List Nat => keys[i]?) heq
    exact List.inj_on_of_nodup_map hkeys (hmem _ (List.getElem_mem hi))
      (hkept.subset (List.getElem_mem hi')) hkey
  exact hsame ▸ hkept

/-- **What polls that keep to the schedule keep**, over every run. -/
theorem poll_kept (hstart : nodePoll.start s) (h : nodePoll.Run s steps s')
    (hscheduled : Scheduled id steps) : PollKept id steps := by
  obtain ⟨hkeys, hnone⟩ := hstart
  refine ⟨fun st hst hedits hoff => ?_, ?_⟩
  · have hq : Quiet id s steps := fun _ st _ w _ => by simp [hnone]
    have hnowrite : writes id st.1 st.2.1 = none :=
      Option.eq_none_iff_forall_ne_some.mpr fun w hw =>
        enabled_of_writes h hkeys hq hscheduled.apart st hst w hw hoff
    have hs : st.2.2 = st.1.step st.2.1 := h.step_of_mem st hst
    rw [hs, step_frame hnowrite hedits]
    exact hoff
  · have hmem : ∀ w ∈ written id steps, w ∈ asked id steps := by
      intro w hw
      obtain ⟨st, hst, hw⟩ := List.mem_filterMap.mp hw
      rcases written_asked h st hst w hw with hmem | ⟨c, hc, -⟩
      · exact hmem
      · simp [hnone] at hc
    obtain ⟨-, hordered⟩ := @asked_ordered s s' steps id h
    have hdistinct : ((asked id steps).map Prod.fst).Nodup :=
      List.pairwise_map.mpr (hordered.imp And.left)
    have hsub := sublist_of_keys hscheduled.ordered hmem hdistinct
    exact List.pairwise_filterMap.mp ((hordered.sublist hsub).imp And.right)

end Run

/-! ## A node disabled while it is asked -/

/-- One node, last seen online. -/
def oneNode : Poll := ⟨[{ id := "n1", status := .online }], [], 0⟩

def reached : PollResult := { status := .online, message := none, coreVersion := some "26.3.27" }

def unreached : PollResult := { status := .unreachable, message := some "timeout" }

/-- A run reads the node and asks it, and the operator disables it before the answer comes. -/
def disabledMeanwhile : List PollEvent :=
  [.run, .send 0, .setStatus "n1" .disabled, .answer 0 reached, .write 0 60000]

/-- Two runs read the node; the later one is answered first. -/
def lateAnswer : List PollEvent :=
  [.run, .run, .send 0, .send 1, .answer 1 reached, .write 1 60000, .answer 0 unreached,
    .write 0 90000]

/-- Two runs overlap and write in the order they asked; the operator disables the node, which the
next run leaves out, and enables it again. -/
def inTurn : List PollEvent :=
  [.run, .send 0, .run, .send 1, .answer 0 reached, .write 0 60000, .answer 1 unreached,
    .write 1 61000, .setStatus "n1" .disabled, .run, .setStatus "n1" .unknown, .run, .send 2,
    .answer 2 reached, .write 2 180000]

theorem poll_kept_inTurn : PollKept "n1" (Machine.trace Poll.step oneNode inTurn) :=
  poll_kept ⟨by decide, rfl⟩ (Machine.run_trace _ _ oneNode inTurn) ⟨by decide, by decide⟩

/-- **The poll takes a node back from the operator**, and records an answer over a later one. -/
theorem disabled_node_comes_back :
    nodePoll.start oneNode ∧
    (∃ s', nodePoll.Run oneNode (Machine.trace Poll.step oneNode disabledMeanwhile) s' ∧
      s'.status? "n1" = some .online ∧
      ¬ PollKept "n1" (Machine.trace Poll.step oneNode disabledMeanwhile)) ∧
    ∃ s', nodePoll.Run oneNode (Machine.trace Poll.step oneNode lateAnswer) s' ∧
      s'.status? "n1" = some .unreachable ∧
      ¬ PollKept "n1" (Machine.trace Poll.step oneNode lateAnswer) := by
  refine ⟨⟨by decide, rfl⟩, ⟨_, Machine.run_trace _ _ _ _, by decide, fun h => ?_⟩,
    _, Machine.run_trace _ _ _ _, by decide, fun h => ?_⟩
  · exact absurd h.disabled (by decide)
  · exact absurd h.forward (by decide)

end Iceslab.NodePoll
