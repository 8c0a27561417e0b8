import Iceslab.NodePolicies

/-!
# What a save leaves behind

The checks of the attached nodes stand after the commit and before the announcement.

* `assertPolicyFitsNode_ok` — what the check asks of a node.
* `stored_saveTransaction` — the policy a commit leaves.
* `savedWhole_iff` — when a refused save changes nothing and an accepted one reaches every node.
* `refused_save_stays` — a rule a node has no egress for is refused and kept.
-/

set_option autoImplicit false

namespace Iceslab.NodePolicies

/-! ## The checks -/

section Checks

variable {db : PolicyDb}

theorem forM_eq_ok {α ε : Type} (f : α → Except ε Unit) (l : List α) :
    forM l f = .ok () ↔ ∀ a ∈ l, f a = .ok () := by
  induction l with
  | nil => simp [pure, Except.pure]
  | cons a l ih =>
    rw [List.forM_cons, List.forall_mem_cons, ← ih]
    cases h : f a with
    | error e => exact ⟨nofun, fun hok => nomatch hok.1⟩
    | ok u => exact ⟨fun hok => ⟨rfl, hok⟩, fun hok => hok.2⟩

/-- The node can carry the rule out. -/
def RuleFits (db : PolicyDb) (node : NodeRow) (rule : PolicyRule) : Prop :=
  rule.enabled = true →
    (rule.actionKind = "warp" → node.warpEnabled = true) ∧
    ∀ d, rule.way db = some d → db.legs node.id d = 1

/-- The node can carry the rules out; one that is gone runs none. -/
def PolicyFits (db : PolicyDb) (rules : List PolicyRule) (nodeId : String) : Prop :=
  ∀ node, db.liveNode? nodeId = some node → ∀ rule ∈ rules, RuleFits db node rule

theorem assertRuleFitsNode_ok (node : NodeRow) (rule : PolicyRule) :
    assertRuleFitsNode db node rule = .ok () ↔ RuleFits db node rule := by
  unfold assertRuleFitsNode RuleFits
  split
  · rename_i hoff
    simp [hoff]
  · rename_i hon
    have hon : rule.enabled = true := by simpa using hon
    split
    · rename_i hwarp
      simp [hon, hwarp.1, hwarp.2]
    · rename_i hwarp
      have hwarp : rule.actionKind = "warp" → node.warpEnabled = true := fun h => by
        simpa [h] using hwarp
      split
      · rename_i hway
        exact ⟨fun _ _ => ⟨hwarp, fun d hd => by simp [hway] at hd⟩, fun _ => rfl⟩
      · rename_i d hway
        have hone : (∀ d', rule.way db = some d' → db.legs node.id d' = 1) ↔
            db.legs node.id d = 1 := by
          rw [hway]
          exact ⟨fun h => h d rfl, by rintro h _ ⟨⟩; exact h⟩
        simp only [hon, forall_const, hone, and_iff_right hwarp]
        split
        · simp_all
        · split
          · simp only [reduceCtorEq, false_iff]
            omega
          · simp only [true_iff]
            omega

/-- **What the check of one node asks.** -/
theorem assertPolicyFitsNode_ok {id : String} {p : PolicyRow} (hp : db.policy? id = some p)
    (nodeId : String) :
    assertPolicyFitsNode db id nodeId = .ok () ↔ PolicyFits db (db.rulesOf id) nodeId := by
  unfold assertPolicyFitsNode PolicyFits
  rw [hp]
  cases hnode : db.liveNode? nodeId with
  | none => simp
  | some node =>
    simp only [List.forM_eq_forM, forM_eq_ok, assertRuleFitsNode_ok, Option.some.injEq, forall_eq']

theorem assertDirectionsExist_ok (rules : List PolicyRuleInput) :
    assertDirectionsExist db rules = .ok () ↔
      ∀ d ∈ directionIds rules, (db.direction? d).isSome := by
  unfold assertDirectionsExist
  split
  · rename_i missing hfound
    have hnone := List.find?_some hfound
    have hmem := List.mem_of_find?_eq_some hfound
    simp only [reduceCtorEq, false_iff, not_forall]
    exact ⟨missing, hmem, by simpa using hnone⟩
  · rename_i hnone
    simpa [List.find?_eq_none, Option.isSome_iff_ne_none] using hnone

end Checks

/-! ## The commit -/

section Commit

variable {db saved : PolicyDb} {id : String} {input : UpdateNodePolicyInput}

/-- A policy with what was sent put over it. -/
def UpdateNodePolicyInput.over (input : UpdateNodePolicyInput) (p : StoredPolicy) : StoredPolicy where
  name := input.name.getD p.name
  description := input.description.getD p.description
  rules := (input.rules.map (·.map toRuleRow)).getD p.rules

/-- The positions follow the order the rules were given in. -/
theorem rulesOf_replaceRules (given : List PolicyRuleInput) (rows : List RuleRow) :
    (((replaceRules id given rows).filter fun r => decide (r.policyId = id)).insertionSort
      fun a b => a.position ≤ b.position).map (·.rule) = given.map toRuleRow := by
  have hothers : (rows.filter fun r => decide (r.policyId ≠ id)).filter
      (fun r => decide (r.policyId = id)) = [] := by
    simp [List.filter_filter]
  have hgiven : ∀ (n : Nat) (l : List PolicyRuleInput),
      let placed := (l.zipIdx n).map fun e => (⟨id, e.2, toRuleRow e.1⟩ : RuleRow)
      placed.filter (fun r => decide (r.policyId = id)) = placed ∧
        placed.Pairwise (fun a b => a.position ≤ b.position) ∧
        (∀ r ∈ placed, n ≤ r.position) ∧ placed.map (·.rule) = l.map toRuleRow := by
    intro n l
    induction l generalizing n with
    | nil => simp
    | cons a l ih =>
      obtain ⟨hkept, hsorted, hfrom, hrules⟩ := ih (n + 1)
      simp only [List.zipIdx_cons, List.map_cons, List.pairwise_cons, List.forall_mem_cons,
        List.filter_cons, decide_true, if_true, hkept, hrules, true_and, and_true]
      have hle : ∀ r ∈ (l.zipIdx (n + 1)).map fun e => (⟨id, e.2, toRuleRow e.1⟩ : RuleRow),
          n ≤ r.position := fun r hr => Nat.le_of_succ_le (hfrom r hr)
      exact ⟨⟨hle, hsorted⟩, ⟨Nat.le_refl n, hle⟩⟩
  obtain ⟨hkept, hsorted, -, hrules⟩ := hgiven 0 given
  rw [replaceRules, List.filter_append, hothers, List.nil_append, hkept, hsorted.insertionSort_eq,
    hrules]

theorem find?_updateRow {row : PolicyRow} (hrow : db.policy? id = some row) :
    (db.policies.map (updateRow id input)).find? (fun p => decide (p.id = id))
      = some ⟨row.id, input.name.getD row.name, input.description.getD row.description⟩ := by
  have hid : (fun p => decide (p.id = id)) ∘ updateRow id input
      = fun p : PolicyRow => decide (p.id = id) := by
    funext p
    unfold updateRow
    by_cases h : p.id = id <;> simp [h]
  have hrow_id : row.id = id := by simpa using List.find?_some hrow
  rw [List.find?_map, hid]
  simp only [PolicyDb.policy?] at hrow
  simp only [hrow, Option.map_some, updateRow, hrow_id, if_true]

/-- The name is another policy's, or a rule goes out through a direction that is not there. -/
def RefusedByDb (id : String) (input : UpdateNodePolicyInput) (db : PolicyDb) : Prop :=
  (∃ name, input.name = some name ∧ nameTaken db id name = true) ∨
    ∃ rule ∈ input.rules.getD [], danglingRule db rule = true

/-- **What a commit leaves**: the policy with what was sent over it, and the fleet as it was. -/
theorem saveTransaction_ok {p : StoredPolicy} (hp : db.stored id = some p)
    (h : saveTransaction id input db = .ok saved) :
    saved.stored id = some (input.over p) ∧ saved.nodes = db.nodes ∧
      saved.directions = db.directions ∧ saved.links = db.links ∧ ¬ RefusedByDb id input db := by
  obtain ⟨row, hrow, rfl⟩ := Option.map_eq_some_iff.mp hp
  unfold saveTransaction at h
  rw [hrow] at h
  simp only [Option.isNone_some, Bool.false_eq_true, if_false] at h
  split at h
  · cases h
  · rename_i hname
    have hfree : ¬ ∃ name, input.name = some name ∧ nameTaken db id name = true := by
      rintro ⟨name, hsome, htaken⟩
      exact hname (by simpa [hsome] using htaken)
    split at h
    · rename_i hrules
      cases h
      refine ⟨?_, rfl, rfl, rfl, ?_⟩
      · simp only [PolicyDb.stored, PolicyDb.policy?, find?_updateRow hrow, Option.map_some,
          UpdateNodePolicyInput.over, hrules, Option.map_none, Option.getD_none]
        rfl
      · rintro (hn | ⟨rule, hr, -⟩)
        · exact hfree hn
        · simp [hrules] at hr
    · rename_i given hrules
      split at h
      · cases h
      · rename_i hdangling
        cases h
        refine ⟨?_, rfl, rfl, rfl, ?_⟩
        · simp only [PolicyDb.stored, PolicyDb.policy?, find?_updateRow hrow, Option.map_some,
            UpdateNodePolicyInput.over, hrules, Option.getD_some, PolicyDb.rulesOf,
            rulesOf_replaceRules]
        · rintro (hn | ⟨rule, hr, hbad⟩)
          · exact hfree hn
          · rw [hrules] at hr
            exact hdangling (List.any_eq_true.mpr ⟨rule, hr, hbad⟩)

theorem saveTransaction_error {p : StoredPolicy} {e : PolicyError} (hp : db.stored id = some p)
    (h : saveTransaction id input db = .error e) : RefusedByDb id input db := by
  obtain ⟨row, hrow, -⟩ := Option.map_eq_some_iff.mp hp
  unfold saveTransaction at h
  rw [hrow] at h
  simp only [Option.isNone_some, Bool.false_eq_true, if_false] at h
  split at h
  · rename_i hname
    cases hsome : input.name with
    | none => simp [hsome] at hname
    | some name => exact .inl ⟨name, hsome, by simpa [hsome] using hname⟩
  · split at h
    · cases h
    · rename_i given hrules
      split at h
      · rename_i hdangling
        obtain ⟨rule, hr, hbad⟩ := List.any_eq_true.mp hdangling
        exact .inr ⟨rule, by rw [hrules]; exact hr, hbad⟩
      · cases h

end Commit

/-! ## The whole save -/

section Save

variable {id : String}

/-- A refused save changes nothing, an accepted one stores what was sent, fits every attached node
and is announced for exactly these. -/
structure SavedWhole (id : String) (m : Meanwhile id) (input : UpdateNodePolicyInput)
    (db : PolicyDb) : Prop where
  refused : ∀ e, (updatePolicy id m input db).result = .error e →
    (updatePolicy id m input db).db.stored id = db.stored id
  stored : ∀ answer, (updatePolicy id m input db).result = .ok answer →
    (updatePolicy id m input db).db.stored id = (db.stored id).map input.over
  fits : ∀ answer, (updatePolicy id m input db).result = .ok answer →
    ∀ n ∈ (updatePolicy id m input db).db.attached id,
      PolicyFits (updatePolicy id m input db).db ((updatePolicy id m input db).db.rulesOf id) n
  announced : ∀ answer, (updatePolicy id m input db).result = .ok answer →
    (∀ event ∈ (updatePolicy id m input db).emitted, event.policyId = id) ∧
    ∀ n, n ∈ (updatePolicy id m input db).emitted.flatMap (·.nodeIds) ↔
      n ∈ (updatePolicy id m input db).db.attached id

/-- The tables the transaction of a save finds. -/
def Meanwhile.found (m : Meanwhile id) (db : PolicyDb) : PolicyDb := m.save (m.lookup db)

/-- Nothing refuses the save up to its commit. -/
structure Commits (m : Meanwhile id) (input : UpdateNodePolicyInput) (db : PolicyDb) : Prop where
  directions : ∀ d ∈ directionIds (input.rules.getD []), ((m.lookup db).direction? d).isSome
  accepted : ¬ RefusedByDb id input (m.found db)

theorem Meanwhile.found_stored (m : Meanwhile id) (db : PolicyDb) :
    (m.found db).stored id = db.stored id := by
  rw [found, m.save_stored, m.lookup_stored]

/-- What a save comes to: refused with the policy as it was, or committed and then checked. -/
theorem updatePolicy_cases (m : Meanwhile id) (input : UpdateNodePolicyInput) (db : PolicyDb) :
    (∃ e, (updatePolicy id m input db).result = .error e ∧
      (updatePolicy id m input db).db.stored id = db.stored id ∧
      (db.stored id = none ∨ ¬ Commits m input db)) ∨
    ∃ p saved, db.stored id = some p ∧ Commits m input db ∧
      saveTransaction id input (m.found db) = .ok saved ∧
      updatePolicy id m input db = announceSave id (db.attached id) saved := by
  cases hrow : db.policy? id with
  | none =>
    have hnone : db.stored id = none := by
      rw [PolicyDb.stored, hrow]
      rfl
    have hrun : updatePolicy id m input db = ⟨.error (.notFound id), db, []⟩ := by
      simp [updatePolicy, hrow]
    exact .inl ⟨_, by rw [hrun], by rw [hrun], .inl hnone⟩
  | some row =>
    have hp : db.stored id = some ⟨row.name, row.description, db.rulesOf id⟩ := by
      rw [PolicyDb.stored, hrow]
      rfl
    have hfound := (m.found_stored db).trans hp
    cases hlook : assertDirectionsExist (m.lookup db) (input.rules.getD []) with
    | error e =>
      have hrun : updatePolicy id m input db = ⟨.error e, m.lookup db, []⟩ := by
        simp [updatePolicy, hrow, hlook]
      refine .inl ⟨e, by rw [hrun], by rw [hrun]; exact m.lookup_stored db, .inr fun hc => ?_⟩
      rw [(assertDirectionsExist_ok _).mpr hc.directions] at hlook
      cases hlook
    | ok u =>
      have hexist := (assertDirectionsExist_ok _).mp hlook
      cases hsave : saveTransaction id input (m.found db) with
      | error e =>
        have hrun : updatePolicy id m input db = ⟨.error e, m.found db, []⟩ := by
          simp only [Meanwhile.found] at hsave
          simp [updatePolicy, hrow, hlook, hsave, Meanwhile.found]
        exact .inl ⟨e, by rw [hrun], by rw [hrun]; exact m.found_stored db, .inr fun hc =>
          hc.accepted (saveTransaction_error hfound hsave)⟩
      | ok saved =>
        have hrun : updatePolicy id m input db = announceSave id (db.attached id) saved := by
          simp only [Meanwhile.found] at hsave
          simp [updatePolicy, hrow, hlook, hsave]
        exact .inr ⟨_, saved, hp, ⟨hexist, (saveTransaction_ok hfound hsave).2.2.2.2⟩, rfl, hrun⟩

/-- The facts of the fleet a check reads are those the commit found. -/
theorem policyFits_congr {db db' : PolicyDb} (hnodes : db'.nodes = db.nodes)
    (hdirections : db'.directions = db.directions) (hlinks : db'.links = db.links)
    (rules : List PolicyRule) (n : String) : PolicyFits db' rules n ↔ PolicyFits db rules n := by
  have hdirection : db'.direction? = db.direction? := by
    funext id
    rw [PolicyDb.direction?, hdirections]
    rfl
  simp only [PolicyFits, RuleFits, PolicyRule.way, PolicyDb.liveNode?, PolicyDb.legs, hdirection,
    hnodes, hlinks]

/-- **When a save is all or nothing.**  It is refused before its commit; or the nodes read before
the commit fit the rules and are those attached at it; or one of them does not fit, and what was
committed is what was stored. -/
theorem savedWhole_iff (m : Meanwhile id) (input : UpdateNodePolicyInput) (db : PolicyDb) :
    SavedWhole id m input db ↔
      ∀ p, db.stored id = some p → Commits m input db →
        ((∀ n ∈ db.attached id, PolicyFits (m.found db) (input.over p).rules n) ∧
            ∀ n, n ∈ db.attached id ↔ n ∈ (m.found db).attached id) ∨
          ((∃ n ∈ db.attached id, ¬ PolicyFits (m.found db) (input.over p).rules n) ∧
            input.over p = p) := by
  rcases updatePolicy_cases m input db with ⟨e, herr, hsame, hwhy⟩ |
    ⟨p, saved, hp, hcommits, hsave, hrun⟩
  · have hok : ∀ answer, (updatePolicy id m input db).result ≠ .ok answer := by simp [herr]
    refine ⟨fun _ p hp hc => ?_, fun _ => ⟨fun _ _ => hsame, fun a h => absurd h (hok a),
      fun a h => absurd h (hok a), fun a h => absurd h (hok a)⟩⟩
    rcases hwhy with hnone | hnot
    · rw [hnone] at hp
      cases hp
    · exact absurd hc hnot
  · obtain ⟨hstored, hnodes, hdirections, hlinks, -⟩ :=
      saveTransaction_ok ((m.found_stored db).trans hp) hsave
    obtain ⟨row, hrow, hrow_eq⟩ := Option.map_eq_some_iff.mp hstored
    have hrules : saved.rulesOf id = (input.over p).rules := congrArg StoredPolicy.rules hrow_eq
    have hattached : saved.attached id = (m.found db).attached id := by
      simp only [PolicyDb.attached, hnodes]
    have hfits : ∀ n, PolicyFits saved (saved.rulesOf id) n ↔
        PolicyFits (m.found db) (input.over p).rules n := fun n => by
      rw [hrules]
      exact policyFits_congr hnodes hdirections hlinks _ n
    have hchecks : (db.attached id).forM (assertPolicyFitsNode saved id) = .ok () ↔
        ∀ n ∈ db.attached id, PolicyFits (m.found db) (input.over p).rules n := by
      simp only [List.forM_eq_forM, forM_eq_ok, assertPolicyFitsNode_ok hrow, hfits]
    have hevery : (∀ p', db.stored id = some p' → Commits m input db →
        ((∀ n ∈ db.attached id, PolicyFits (m.found db) (input.over p').rules n) ∧
            ∀ n, n ∈ db.attached id ↔ n ∈ (m.found db).attached id) ∨
          ((∃ n ∈ db.attached id, ¬ PolicyFits (m.found db) (input.over p').rules n) ∧
            input.over p' = p')) ↔ _ :=
      ⟨fun h => h p hp hcommits, fun h p' hp' _ => Option.some.inj (hp.symm.trans hp') ▸ h⟩
    rw [hevery]
    unfold announceSave at hrun
    split at hrun
    · -- refused after the commit
      rename_i e herr
      have hmisfit : ¬ ∀ n ∈ db.attached id, PolicyFits (m.found db) (input.over p).rules n :=
        fun h => by rw [hchecks.mpr h] at herr; cases herr
      constructor
      · intro h
        have hsame := h.refused e (by rw [hrun])
        rw [hrun, hstored, hp] at hsame
        exact .inr ⟨by simpa only [not_forall, exists_prop] using hmisfit, Option.some.inj hsame⟩
      · rintro (⟨hall, -⟩ | ⟨-, hover⟩)
        · exact absurd hall hmisfit
        · have hnot : ∀ answer, (updatePolicy id m input db).result ≠ .ok answer := by simp [hrun]
          refine ⟨fun _ _ => ?_, fun a h => absurd h (hnot a), fun a h => absurd h (hnot a),
            fun a h => absurd h (hnot a)⟩
          rw [hrun, hstored, hover, hp]
    · rename_i hok
      have hall := hchecks.mp hok
      have hget : getPolicy saved id = .ok { input.over p with
          nodeCount := (saved.attached id).length } := by
        rw [getPolicy, hstored]
      have hmem : ∀ n, n ∈ (updatePolicy id m input db).emitted.flatMap (·.nodeIds) ↔
          n ∈ db.attached id := fun n => by
        rw [hrun]
        split
        · simp
        · rename_i hempty
          have hnil : db.attached id = [] := List.length_eq_zero_iff.mp (by omega)
          simp [hnil]
      constructor
      · intro h
        have hann := (h.announced _ (by rw [hrun]; exact hget)).2
        refine .inl ⟨hall, fun n => ?_⟩
        rw [← hmem n, hann n, hrun, hattached]
      · rintro (⟨-, hsame⟩ | ⟨⟨n, hn, hnot⟩, -⟩)
        · refine ⟨fun e h => ?_, fun answer _ => ?_, fun answer _ n hn => ?_, fun answer _ => ?_⟩
          · rw [hrun, hget] at h
            cases h
          · rw [hrun, hp]
            exact hstored
          · rw [hrun] at hn ⊢
            rw [hfits n]
            exact hall n ((hsame n).mpr (hattached ▸ hn))
          · refine ⟨fun event he => ?_, fun n => ?_⟩
            · rw [hrun] at he
              split at he
              · rw [List.mem_singleton.mp he]
              · cases he
            · rw [hmem n, hsame n, hrun, hattached]
        · exact absurd (hall n hn) hnot

end Save

/-! ## A rule into WARP on a node without it -/

/-- One node without WARP runs the policy, which has no rules. -/
def noWarpDb : PolicyDb where
  policies := [⟨"p1", "ru-direct", none⟩]
  rules := []
  nodes := [⟨"n1", "ru-entry", false, false, some "p1"⟩]
  directions := []
  links := []
  unique_nodes := by decide

/-- **A save that is refused and kept**: the answer says that the node cannot run the policy, and
the policy has the rule. -/
theorem refused_save_stays :
    ¬ SavedWhole "p1" (.nothing "p1") { rules := some [{ kind := .warp }] } noWarpDb := by
  intro h
  have hsame := h.refused (.doesNotFitNode "ru-entry" noWarpReason) (by rfl)
  exact absurd hsame (by decide)

end Iceslab.NodePolicies
