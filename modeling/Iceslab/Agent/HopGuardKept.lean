import Iceslab.Agent.HopGuard

/-!
# What the guard says

* `accepts_restored` — the chain a text of rules becomes accepts its ports.
* `jumpFirst_ensureJump` — the jump is in place where no command failed.
* `GuardInv` — no port is treated otherwise than when its entries were last dropped.
* `guard_says_iff` — **over runs with failures, when a call leaves the guard right.**
* `torn_call_forgotten` — a call that failed on one family, and the next that undoes it.
-/

set_option autoImplicit false

namespace Iceslab.Agent.HopGuard

open GoText

/-! ## Sets of ports -/

section Ports

variable {a b ports : List Nat} {p : Nat}

@[simp] theorem mem_sortedUnique : p ∈ sortedUnique ports ↔ p ∈ ports := by
  rw [sortedUnique, List.mem_insertionSort, List.mem_dedup]

theorem nodup_sortedUnique (ports : List Nat) : (sortedUnique ports).Nodup :=
  (List.perm_insertionSort _ _).nodup_iff.mpr (List.nodup_dedup ports)

theorem mem_wantOf {ports : List Int} :
    p ∈ wantOf ports ↔ (p : Int) ∈ ports ∧ 0 < p ∧ p ≤ 65535 := by
  simp only [wantOf, mem_sortedUnique, List.mem_map, List.mem_filter, decide_eq_true_eq]
  constructor
  · rintro ⟨q, ⟨hq, hpos, hle⟩, rfl⟩
    rw [Int.toNat_of_nonneg hpos.le]
    exact ⟨hq, by omega, by omega⟩
  · rintro ⟨hp, hpos, hle⟩
    exact ⟨p, ⟨hp, by omega, by omega⟩, Int.toNat_natCast p⟩

theorem nodup_wantOf (ports : List Int) : (wantOf ports).Nodup := nodup_sortedUnique _

theorem mapsEqual_iff (ha : a.Nodup) (hb : b.Nodup) :
    mapsEqual a b = true ↔ ∀ p, p ∈ a ↔ p ∈ b := by
  simp only [mapsEqual, Bool.and_eq_true, decide_eq_true_eq, List.all_eq_true]
  constructor
  · rintro ⟨hlen, hsub⟩ p
    have hperm := (List.subperm_of_subset ha hsub).perm_of_length_le hlen.ge
    exact hperm.mem_iff
  · intro h
    have hperm := (List.perm_ext_iff_of_nodup ha hb).mpr h
    exact ⟨hperm.length_eq, fun p hp => (h p).mp hp⟩

/-- With every port of the new set, or with those that come; and those that go. -/
theorem mem_symmetricDiff {all : Bool} :
    p ∈ symmetricDiff a b all ↔ p ∈ b ∧ (all = true ∨ p ∉ a) ∨ p ∈ a ∧ p ∉ b := by
  simp [symmetricDiff]

end Ports

/-! ## The chain -/

section Chain

variable {p : Nat}

theorem portRule_inj {p q : Nat} (h : portRule p = portRule q) : p = q :=
  Names.append_num_inj (String.append_left_inj _ |>.mp h)

theorem portRule_ne_foreignRule (p : Nat) : portRule p ≠ foreignRule := by
  intro h
  have hport : "-p".toList <+: (portRule p).toList := by
    refine ⟨" udp --dport ".toList ++ (toString p ++ " -j ACCEPT").toList, ?_⟩
    unfold portRule
    simp only [String.toList_append, List.append_assoc]
    rfl
  rw [h] at hport
  exact absurd hport (by decide)

theorem oneLine_portRule (p : Nat) : '\n' ∉ ("-A " ++ Chain ++ " " ++ portRule p).toList := by
  have hnum := Names.not_mem_num (c := '\n') (by decide) p
  unfold portRule
  simp only [String.toList_append, List.mem_append, not_or]
  exact ⟨by decide, ⟨by decide, hnum⟩, by decide⟩

theorem appended_own (rule : String) : appended ("-A " ++ Chain ++ " " ++ rule) = some rule := by
  rw [appended, if_pos (hasPrefix_append _ _), trimPrefix_append]

theorem restored_Rules (ports : List Nat) :
    restored (Rules ports) = foreignRule :: (sortedUnique ports).map portRule := by
  have hplain : ∀ l ∈ ["*nat", ":" ++ Chain ++ " - [0:0]", "-F " ++ Chain,
      "-A " ++ Chain ++ " " ++ foreignRule] ++
      (sortedUnique ports).map (fun p => "-A " ++ Chain ++ " " ++ portRule p) ++ ["COMMIT"],
      '\n' ∉ l.toList := by
    simp only [List.mem_append, List.mem_map, or_assoc]
    rintro l (h | ⟨p, -, rfl⟩ | h)
    · revert l
      decide
    · exact oneLine_portRule p
    · rw [List.mem_singleton.mp h]
      decide
  rw [restored, Rules, split_unlines hplain]
  have hhead : ["*nat", ":" ++ Chain ++ " - [0:0]", "-F " ++ Chain,
      "-A " ++ Chain ++ " " ++ foreignRule].filterMap appended = [foreignRule] := by decide
  have htail : ["COMMIT"].filterMap appended = [] ∧ [""].filterMap appended = [] := by decide
  simp only [List.filterMap_append, List.filterMap_map, hhead, htail]
  simp [appended_own]

theorem accepts_restored {ports : List Nat} :
    accepts (restored (Rules ports)) p = true ↔ p ∈ ports := by
  rw [restored_Rules, accepts, decide_eq_true_eq, List.mem_cons, List.mem_map]
  constructor
  · rintro (h | ⟨q, hq, h⟩)
    · exact absurd h (portRule_ne_foreignRule p)
    · rw [portRule_inj h] at hq
      exact mem_sortedUnique.mp hq
  · intro h
    exact .inr ⟨p, mem_sortedUnique.mpr h, rfl⟩

end Chain

/-! ## The jump -/

/-- **One jump, and every rule that redirects is below it.** -/
def JumpFirst (rules : List NatRule) : Prop :=
  rules.countP NatRule.isJump = 1 ∧
    ∀ (j : Nat) (r : NatRule), rules[j]? = some r → r.isRedirect = true →
      ∃ i < j, ∃ r', rules[i]? = some r' ∧ r'.isJump = true

section Jump

/-- A line the scan takes for the jump. -/
def jumpAt (l : String) : Bool := decide (trimSpace l = jumpLine)

/-- A line the scan takes for a rule that redirects. -/
def redirectAt (l : String) : Bool :=
  !jumpAt l && (hasPrefix (trimSpace l) "-A PREROUTING " && contains (trimSpace l) " -j REDIRECT")

/-- The place of the first line of a kind, -1 where there is none. -/
def firstAt (p : String → Bool) (ls : List String) : Int :=
  match ls.findIdx? p with
  | some i => i
  | none => -1

theorem firstAt_append (p : String → Bool) (ls : List String) (l : String) :
    firstAt p (ls ++ [l]) =
      if firstAt p ls < 0 ∧ p l = true then (ls.length : Int) else firstAt p ls := by
  unfold firstAt
  rw [List.findIdx?_append, List.findIdx?_singleton]
  cases ls.findIdx? p with
  | some i => simp
  | none => by_cases hp : p l = true <;> simp [hp]

theorem foldl_scanLine (ls : List String) :
    ls.zipIdx.foldl scanLine ⟨-1, -1, 0⟩ =
      ⟨firstAt jumpAt ls, firstAt redirectAt ls, ls.countP jumpAt⟩ := by
  induction ls using List.reverseRecOn with
  | nil => rfl
  | append_singleton ls l ih =>
    rw [List.zipIdx_append, List.foldl_append, ih, firstAt_append, firstAt_append,
      List.countP_append]
    by_cases hjump : trimSpace l = jumpLine
    · simp [scanLine, jumpAt, redirectAt, hjump]
    · by_cases hred : (hasPrefix (trimSpace l) "-A PREROUTING " &&
          contains (trimSpace l) " -j REDIRECT") = true
      · by_cases hneg : firstAt redirectAt ls < 0
        · simp [scanLine, jumpAt, redirectAt, hjump, hred, hneg]
        · simp [scanLine, jumpAt, redirectAt, hjump, hred, hneg]
      · simp [scanLine, jumpAt, redirectAt, hjump, hred]

variable {rules : List NatRule} {r : NatRule}

theorem jumpAt_line (r : NatRule) : jumpAt r.line = r.isJump := by
  rw [jumpAt, r.trimmed, NatRule.isJump]

theorem not_isJump_of_isRedirect (h : r.isRedirect = true) : r.isJump = false := by
  by_contra hne
  have hline : r.line = jumpLine := by simpa [NatRule.isJump] using hne
  have hno : (hasPrefix jumpLine "-A PREROUTING " && contains jumpLine " -j REDIRECT") = false := by
    decide +kernel
  rw [NatRule.isRedirect, hline, hno] at h
  cases h

theorem redirectAt_line (h : r.isRedirect = true) : redirectAt r.line = true := by
  rw [redirectAt, jumpAt_line, not_isJump_of_isRedirect h, r.trimmed]
  exact h

/-- The lines of the listing. -/
def listed (rules : List NatRule) : List String :=
  "-P PREROUTING ACCEPT" :: (rules.map NatRule.line ++ [""])

theorem scanListing_eq (rules : List NatRule) :
    scanListing (listing rules) =
      ⟨firstAt jumpAt (listed rules), firstAt redirectAt (listed rules),
        rules.countP NatRule.isJump⟩ := by
  have hplain : ∀ l ∈ "-P PREROUTING ACCEPT" :: rules.map NatRule.line, '\n' ∉ l.toList := by
    intro l hl
    rcases List.mem_cons.mp hl with rfl | hl
    · decide
    · obtain ⟨r, -, rfl⟩ := List.mem_map.mp hl
      exact r.oneLine
  have hcount : (listed rules).countP jumpAt = rules.countP NatRule.isJump := by
    have hends : jumpAt "-P PREROUTING ACCEPT" = false ∧ jumpAt "" = false := by decide
    rw [listed, List.countP_cons, List.countP_append, List.countP_map, List.countP_singleton,
      hends.1, hends.2]
    simp only [Function.comp_def, jumpAt_line]
    rfl
  have hlines : split (listing rules) "\n" = listed rules := by
    rw [listing, split_unlines hplain, List.cons_append, listed]
  rw [scanListing, hlines, foldl_scanLine, hcount]

theorem listed_getElem? {j : Nat} (h : rules[j]? = some r) :
    (listed rules)[j + 1]? = some r.line := by
  have hlt := (List.getElem?_eq_some_iff.mp h).1
  rw [listed, List.getElem?_cons_succ, List.getElem?_append_left (by simpa using hlt),
    List.getElem?_map, h]
  rfl

theorem listed_succ {i : Nat} {l : String} (h : (listed rules)[i]? = some l)
    (hjump : jumpAt l = true) : ∃ k r, i = k + 1 ∧ rules[k]? = some r ∧ r.isJump = true := by
  have hends : jumpAt "-P PREROUTING ACCEPT" = false ∧ jumpAt "" = false := by decide
  cases i with
  | zero =>
    obtain rfl := Option.some.inj h
    rw [hends.1] at hjump
    cases hjump
  | succ k =>
    rw [listed, List.getElem?_cons_succ] at h
    rcases Nat.lt_or_ge k rules.length with hlt | hge
    · rw [List.getElem?_append_left (by simpa using hlt), List.getElem?_map] at h
      obtain ⟨r, hr, rfl⟩ := Option.map_eq_some_iff.mp h
      exact ⟨k, r, rfl, hr, jumpAt_line r ▸ hjump⟩
    · rw [List.getElem?_append_right (by simpa using hge)] at h
      rw [List.mem_singleton.mp (List.mem_of_getElem? h), hends.2] at hjump
      cases hjump

/-- The first line of a kind is not behind any other. -/
theorem firstAt_le {p : String → Bool} {ls : List String} {i : Nat} {l : String}
    (h : ls[i]? = some l) (hp : p l = true) :
    ∃ m ≤ i, firstAt p ls = m ∧ ∃ l', ls[m]? = some l' ∧ p l' = true := by
  obtain ⟨hi, rfl⟩ := List.getElem?_eq_some_iff.mp h
  obtain ⟨m, hm⟩ : ∃ m, ls.findIdx? p = some m := by
    rw [← Option.isSome_iff_exists, List.findIdx?_isSome, List.any_eq_true]
    exact ⟨_, List.getElem_mem hi, hp⟩
  obtain ⟨hlt, hpm, hmin⟩ := List.findIdx?_eq_some_iff_getElem.mp hm
  refine ⟨m, ?_, by rw [firstAt, hm], _, List.getElem?_eq_getElem hlt, hpm⟩
  by_contra hlate
  exact hmin i (by omega) hp

theorem jumpFirst_of_scan (hcount : rules.countP NatRule.isJump = 1)
    (horder : firstAt redirectAt (listed rules) < 0 ∨
      firstAt jumpAt (listed rules) < firstAt redirectAt (listed rules)) : JumpFirst rules := by
  refine ⟨hcount, fun j r hr hred => ?_⟩
  obtain ⟨r', hr', hjump⟩ : ∃ r' ∈ rules, r'.isJump = true := List.countP_pos_iff.mp (by omega)
  obtain ⟨k, hk⟩ := List.mem_iff_getElem?.mp hr'
  obtain ⟨m, -, hm, l, hl, hjumpl⟩ := firstAt_le (listed_getElem? hk) (jumpAt_line r' ▸ hjump)
  obtain ⟨n, hn, hfirst, -⟩ := firstAt_le (listed_getElem? hr) (redirectAt_line hred)
  obtain ⟨i, r'', rfl, hi, hjumpi⟩ := listed_succ hl hjumpl
  rw [hm, hfirst] at horder
  exact ⟨i, by omega, r'', hi, hjumpi⟩

/-- Each removal takes one jump away. -/
theorem countP_eraseP (rules : List NatRule) :
    (rules.eraseP NatRule.isJump).countP NatRule.isJump = rules.countP NatRule.isJump - 1 := by
  induction rules with
  | nil => rfl
  | cons r rules ih =>
    by_cases h : r.isJump = true
    · simp [h]
    · simp [h, ih]

theorem countP_dropJumps {fails : Nat → Bool} {n i : Nat}
    (h : (dropJumps fails n i rules).2 = false) (hn : rules.countP NatRule.isJump = n) :
    (dropJumps fails n i rules).1.countP NatRule.isJump = 0 := by
  induction n generalizing i rules with
  | zero => exact hn
  | succ n ih =>
    rw [dropJumps] at h ⊢
    split at h
    · cases h
    · rename_i hgo
      rw [if_neg hgo]
      exact ih h (by rw [countP_eraseP, hn]; rfl)

/-- **Where `ensureJump` returns no error, the jump is in place.** -/
theorem jumpFirst_ensureJump {a : FamilyAnswers} (h : (ensureJump a rules).2 = false) :
    JumpFirst (ensureJump a rules).1 := by
  rw [ensureJump, scanListing_eq] at h ⊢
  split at h
  · cases h
  · rename_i hlist
    rw [if_neg hlist]
    dsimp only at h ⊢
    split at h
    · rename_i hkeep
      rw [if_pos hkeep]
      exact jumpFirst_of_scan hkeep.1 hkeep.2
    · rename_i hmove
      rw [if_neg hmove]
      split at h
      · rename_i hfailed
        rw [hfailed] at h
        cases h
      · rename_i hdropped
        rw [if_neg hdropped]
        split at h
        · cases h
        · rename_i hinsert
          rw [if_neg hinsert]
          have hnone := countP_dropJumps (Bool.eq_false_iff.mpr hdropped) rfl
          refine ⟨by simp [hnone, NatRule.isJump, NatRule.jump], ?_⟩
          intro j r hr hred
          cases j with
          | zero =>
            obtain rfl := Option.some.inj hr
            have := not_isJump_of_isRedirect hred
            simp [NatRule.isJump, NatRule.jump] at this
          | succ j => exact ⟨0, Nat.succ_pos j, .jump, rfl, by simp [NatRule.isJump, NatRule.jump]⟩

end Jump

/-! ## One call -/

section Call

variable (s : World) (ports : List Int) (ans : Answers)

/-- Some family is there to guard. -/
def Answers.guarded : Bool := (ans.family .v4).present || (ans.family .v6).present

/-- The call writes the chain of the family. -/
def World.rewrites (f : Family) : Bool :=
  (ans.family f).present && s.changed (wantOf ports) && !(ans.family f).restoreFails

/-- The ports whose conntrack entries the call drops, or fails to. -/
def World.due : List Nat := symmetricDiff s.guard.last (wantOf ports) (!s.guard.synced)

/-- The entries of the port are gone after the call. -/
def World.drops (p : Nat) : Prop :=
  ans.guarded = true ∧ s.changed (wantOf ports) = true ∧ p ∈ s.due ports ∧
    ans.conntrackFound = true ∧ ans.conntrackFails p = false

variable {s ports ans} {f : Family}

theorem guarded_of_present (h : (ans.family f).present = true) : ans.guarded = true := by
  cases f <;> simp [Answers.guarded, h]

theorem guarded_of_rewrites (h : s.rewrites ports ans f = true) :
    ans.guarded = true ∧ s.changed (wantOf ports) = true := by
  simp only [World.rewrites, Bool.and_eq_true] at h
  exact ⟨guarded_of_present h.1.1, h.1.2⟩

theorem syncFamily_chain (changed : Bool) (want : List Nat) (a : FamilyAnswers) (t : NatTable) :
    (syncFamily changed want a t).1.chain =
      if a.present && changed && !a.restoreFails then restored (Rules want) else t.chain := by
  unfold syncFamily
  cases a.present <;> cases changed <;> cases a.restoreFails <;> rfl

theorem syncFamily_ok {changed : Bool} {want : List Nat} {a : FamilyAnswers} {t : NatTable}
    (h : (syncFamily changed want a t).2 = false) (hp : a.present = true) :
    (changed = true → a.restoreFails = false) ∧
      JumpFirst (syncFamily changed want a t).1.prerouting := by
  unfold syncFamily at h ⊢
  rw [hp] at h ⊢
  simp only [Bool.not_true, Bool.false_eq_true, if_false] at h ⊢
  by_cases hr : (changed && a.restoreFails) = true
  · rw [if_pos hr] at h
    cases h
  · rw [if_neg hr] at h ⊢
    refine ⟨fun hc => ?_, jumpFirst_ensureJump h⟩
    rw [hc, Bool.true_and] at hr
    exact Bool.eq_false_iff.mpr hr

theorem flush_nat (s : World) (due : List Nat) : (s.flush due ans).1.nat = s.nat := by
  unfold World.flush
  split
  · rfl
  · split <;> rfl

theorem flush_flushed (s : World) (due : List Nat) (p : Nat) :
    (s.flush due ans).1.flushed f p =
      if p ∈ due ∧ ans.conntrackFound = true ∧ ans.conntrackFails p = false then
        accepts (s.nat f).chain p
      else s.flushed f p := by
  unfold World.flush
  split
  · rename_i hnil
    rw [if_neg (by simp [hnil])]
  · split
    · rename_i hnone
      rw [if_neg (by simp_all)]
    · rename_i hfound
      have hfound : ans.conntrackFound = true := by simpa using hfound
      simp only [hfound, true_and]

theorem flush_ok {s : World} {due : List Nat} (h : (s.flush due ans).2 = false) :
    ∀ p ∈ due, ans.conntrackFound = true ∧ ans.conntrackFails p = false := by
  intro p hp
  unfold World.flush at h
  rw [if_neg (List.ne_nil_of_mem hp)] at h
  split at h
  · cases h
  · rename_i hfound
    refine ⟨by simpa using hfound, ?_⟩
    simpa using List.any_eq_false.mp h p hp

/-- What the call does to one family. -/
def World.after (s : World) (ports : List Int) (ans : Answers) (f : Family) : NatTable × Bool :=
  syncFamily (s.changed (wantOf ports)) (wantOf ports) (ans.family f) (s.nat f)

/-- A command failed on some family. -/
def World.torn (s : World) (ports : List Int) (ans : Answers) : Bool :=
  (s.after ports ans .v4).2 || (s.after ports ans .v6).2

theorem after_of_torn (h : s.torn ports ans = false) (f : Family) :
    (s.after ports ans f).2 = false := by
  obtain ⟨h4, h6⟩ := Bool.or_eq_false_iff.mp h
  cases f
  · exact h4
  · exact h6

theorem sync_unguarded (h : ans.guarded = false) : s.sync ports ans = (s, false) := by
  unfold World.sync Answers.guarded at *
  obtain ⟨h4, h6⟩ := Bool.or_eq_false_iff.mp h
  simp [h4, h6]

theorem sync_unchanged (hg : ans.guarded = true) (hc : s.changed (wantOf ports) = false) :
    s.sync ports ans =
      ({ s with nat := fun f => (s.after ports ans f).1 }, s.torn ports ans) := by
  have hsome : (!(ans.family .v4).present && !(ans.family .v6).present) = false := by
    rw [← Bool.not_or]
    exact congrArg not hg
  unfold World.sync
  simp only [hsome, Bool.false_eq_true, if_false]
  rw [if_pos (by simp [hc])]
  rfl

theorem sync_changed (hg : ans.guarded = true) (hc : s.changed (wantOf ports) = true) :
    s.sync ports ans =
      let flushed := World.flush { s with nat := fun f => (s.after ports ans f).1 } (s.due ports) ans
      if s.torn ports ans then (flushed.1, true)
      else
        ({ flushed.1 with
            guard := { flushed.1.guard with last := wantOf ports, synced := true } },
          flushed.2) := by
  have hsome : (!(ans.family .v4).present && !(ans.family .v6).present) = false := by
    rw [← Bool.not_or]
    exact congrArg not hg
  unfold World.sync
  simp only [hsome, Bool.false_eq_true, if_false]
  rw [if_neg (by simp [hc])]
  rfl

theorem sync_nat (hg : ans.guarded = true) (f : Family) :
    (s.sync ports ans).1.nat f = (s.after ports ans f).1 := by
  by_cases hc : s.changed (wantOf ports) = true
  · rw [sync_changed hg hc]
    dsimp only
    split
    · rw [flush_nat]
    · exact congrFun (flush_nat _ _) f
  · rw [sync_unchanged hg (Bool.eq_false_iff.mpr hc)]

theorem sync_chain (s : World) (ports : List Int) (ans : Answers) (f : Family) :
    ((s.sync ports ans).1.nat f).chain =
      if s.rewrites ports ans f then restored (Rules (wantOf ports)) else (s.nat f).chain := by
  by_cases hg : ans.guarded = true
  · rw [sync_nat hg, World.after, syncFamily_chain]
    rfl
  · have hp : (ans.family f).present = false :=
      Bool.eq_false_iff.mpr fun h => hg (guarded_of_present h)
    rw [sync_unguarded (Bool.eq_false_iff.mpr hg), World.rewrites, hp]
    rfl

/-- A dropped port is what the chains make of it now. -/
theorem sync_flushed (s : World) (ports : List Int) (ans : Answers) (f : Family) (p : Nat) :
    (s.drops ports ans p →
      (s.sync ports ans).1.flushed f p = accepts ((s.sync ports ans).1.nat f).chain p) ∧
    (¬s.drops ports ans p → (s.sync ports ans).1.flushed f p = s.flushed f p) := by
  by_cases hg : ans.guarded = true
  · by_cases hc : s.changed (wantOf ports) = true
    · have hflushed : (s.sync ports ans).1.flushed f p =
          (World.flush { s with nat := fun f => (s.after ports ans f).1 } (s.due ports)
            ans).1.flushed f p := by
        rw [sync_changed hg hc]
        dsimp only
        split <;> rfl
      rw [hflushed, flush_flushed, sync_nat hg]
      constructor
      · rintro ⟨-, -, hdue, hfound, hgone⟩
        rw [if_pos ⟨hdue, hfound, hgone⟩]
      · intro hno
        rw [if_neg fun h => hno ⟨hg, hc, h⟩]
    · rw [sync_unchanged hg (Bool.eq_false_iff.mpr hc)]
      exact ⟨fun h => absurd h.2.1 hc, fun _ => rfl⟩
  · rw [sync_unguarded (Bool.eq_false_iff.mpr hg)]
    exact ⟨fun h => absurd h.1 hg, fun _ => rfl⟩

theorem flush_guard (s : World) (due : List Nat) :
    (s.flush due ans).1.guard.last = s.guard.last ∧
      (s.flush due ans).1.guard.synced = s.guard.synced := by
  unfold World.flush
  split
  · exact ⟨rfl, rfl⟩
  · split <;> exact ⟨rfl, rfl⟩

/-- What is remembered changes with a call that goes through on every family. -/
theorem sync_guard (s : World) (ports : List Int) (ans : Answers) :
    ((s.sync ports ans).1.guard.last = s.guard.last ∧
        (s.sync ports ans).1.guard.synced = s.guard.synced) ∨
      (s.sync ports ans).1.guard.last = wantOf ports ∧
        (s.sync ports ans).1.guard.synced = true := by
  by_cases hg : ans.guarded = true
  · by_cases hc : s.changed (wantOf ports) = true
    · rw [sync_changed hg hc]
      dsimp only
      split
      · exact .inl (flush_guard _ _)
      · exact .inr ⟨rfl, rfl⟩
    · rw [sync_unchanged hg (Bool.eq_false_iff.mpr hc)]
      exact .inl ⟨rfl, rfl⟩
  · rw [sync_unguarded (Bool.eq_false_iff.mpr hg)]
    exact .inl ⟨rfl, rfl⟩

theorem torn_of_whole (hg : ans.guarded = true) (h : (s.sync ports ans).2 = false) :
    s.torn ports ans = false := by
  by_cases hc : s.changed (wantOf ports) = true
  · rw [sync_changed hg hc] at h
    dsimp only at h
    split at h
    · cases h
    · rename_i htorn
      exact Bool.eq_false_iff.mpr htorn
  · rwa [sync_unchanged hg (Bool.eq_false_iff.mpr hc)] at h

/-- A call with no failure leaves every jump in place, and writes every chain where it writes. -/
theorem sync_whole (h : (s.sync ports ans).2 = false) (hp : (ans.family f).present = true) :
    (s.changed (wantOf ports) = true → s.rewrites ports ans f = true) ∧
      JumpFirst ((s.sync ports ans).1.nat f).prerouting := by
  have hg := guarded_of_present hp
  have hafter := after_of_torn (torn_of_whole hg h) f
  obtain ⟨hwrote, hjump⟩ := syncFamily_ok hafter hp
  rw [sync_nat hg]
  refine ⟨fun hc => ?_, hjump⟩
  rw [World.rewrites, hp, hc, hwrote hc]
  rfl

/-- A call with no failure drops what is due. -/
theorem drops_of_whole (h : (s.sync ports ans).2 = false) (hg : ans.guarded = true)
    (hc : s.changed (wantOf ports) = true) {p : Nat} (hp : p ∈ s.due ports) :
    s.drops ports ans p := by
  have htorn := torn_of_whole hg h
  rw [sync_changed hg hc] at h
  simp only [htorn, Bool.false_eq_true, if_false] at h
  exact ⟨hg, hc, hp, flush_ok h p hp⟩

end Call

/-! ## Runs -/

/-- What every call finds. -/
structure GuardInv (s : World) : Prop where
  nodup : s.guard.last.Nodup
  unsynced : s.guard.synced = false → s.guard.last = []
  /-- no port is treated otherwise than when its entries were last dropped -/
  flushed : ∀ f p, s.flushed f p = accepts (s.nat f).chain p

/-- Where the chain of the family departs from the remembered set, the call asks to depart. -/
def World.Departs (s : World) (ports : List Int) (f : Family) : Prop :=
  ∀ p, ¬(accepts (s.nat f).chain p = true ↔ p ∈ s.guard.last) →
    ¬(p ∈ wantOf ports ↔ p ∈ s.guard.last)

/-- **A call that keeps pace**: each chain it writes departs from the remembered set only where the
call does, and every conntrack entry it means to drop goes. -/
structure World.Paced (s : World) (ports : List Int) (ans : Answers) : Prop where
  written : ∀ f, s.rewrites ports ans f = true → s.Departs ports f
  dropped : ans.guarded = true → s.changed (wantOf ports) = true →
    ∀ p ∈ s.due ports, ans.conntrackFound = true ∧ ans.conntrackFails p = false

def PacedStep (st : World × HopEvent × World) : Prop :=
  match st.2.1 with
  | .sync ports ans => st.1.Paced ports ans
  | .insert _ _ _ => True

/-- **The condition on a call**: where it writes, the chains depart from the remembered set only
where it does; where it writes nothing, they are the remembered set. -/
structure World.KeepsPace (s : World) (ports : List Int) (ans : Answers) : Prop where
  written : ∀ f, s.rewrites ports ans f = true → s.Departs ports f
  left : s.changed (wantOf ports) = false → ∀ f, (ans.family f).present = true →
    ∀ p, accepts (s.nat f).chain p = true ↔ p ∈ s.guard.last

/-- **The guard says what it is asked.** -/
structure GuardSays (s : World) (ports : List Int) (ans : Answers) : Prop where
  accepted : ∀ f, (ans.family f).present = true → ∀ p : Nat,
    accepts (s.nat f).chain p = true ↔ (p : Int) ∈ ports ∧ 0 < p ∧ p ≤ 65535
  jump : ∀ f, (ans.family f).present = true → JumpFirst (s.nat f).prerouting
  flushed : ∀ f p, s.flushed f p = accepts (s.nat f).chain p

section Runs

variable {s : World} {ports : List Int} {ans : Answers} {f : Family} {p : Nat}

theorem mem_due (h : GuardInv s) : p ∈ s.due ports ↔ ¬(p ∈ wantOf ports ↔ p ∈ s.guard.last) := by
  rw [World.due, mem_symmetricDiff]
  cases hs : s.guard.synced with
  | true =>
    simp only [Bool.not_true, Bool.false_eq_true, false_or]
    tauto
  | false =>
    rw [h.unsynced hs]
    simp

theorem unchanged_iff (h : GuardInv s) :
    s.changed (wantOf ports) = false ↔
      s.guard.synced = true ∧ ∀ p, p ∈ wantOf ports ↔ p ∈ s.guard.last := by
  rw [World.changed, Bool.or_eq_false_iff, Bool.not_eq_false', Bool.not_eq_false',
    mapsEqual_iff (nodup_wantOf ports) h.nodup]

/-- A chain a call treats otherwise is one of a port it drops. -/
theorem inv_flushed (h : GuardInv s) (hpaced : s.Paced ports ans) (f : Family) (p : Nat) :
    (s.sync ports ans).1.flushed f p = accepts ((s.sync ports ans).1.nat f).chain p := by
  obtain ⟨hdropped, hkept⟩ := sync_flushed s ports ans f p
  by_cases hdrops : s.drops ports ans p
  · exact hdropped hdrops
  · rw [hkept hdrops, h.flushed, sync_chain]
    split
    · rename_i hwrites
      have hasked : p ∈ wantOf ports ↔ p ∈ s.guard.last := by
        by_contra hdiffers
        have hdue := (mem_due h).mpr hdiffers
        obtain ⟨hg, hc⟩ := guarded_of_rewrites hwrites
        exact hdrops ⟨hg, hc, hdue, hpaced.dropped hg hc p hdue⟩
      have hstood : accepts (s.nat f).chain p = true ↔ p ∈ s.guard.last := by
        by_contra hdeparts
        exact hpaced.written f hwrites p hdeparts hasked
      rw [Bool.eq_iff_iff, accepts_restored, hstood, hasked]
    · rfl

theorem inv_sync (h : GuardInv s) (hpaced : s.Paced ports ans) : GuardInv (s.sync ports ans).1 := by
  refine ⟨?_, ?_, inv_flushed h hpaced⟩
  · rcases sync_guard s ports ans with ⟨hlast, -⟩ | ⟨hlast, -⟩
    · rw [hlast]
      exact h.nodup
    · rw [hlast]
      exact nodup_wantOf ports
  · rcases sync_guard s ports ans with ⟨hlast, hsynced⟩ | ⟨-, hsynced⟩
    · rw [hlast, hsynced]
      exact h.unsynced
    · rw [hsynced]
      exact nofun

/-- Another's rule in PREROUTING touches no chain. -/
theorem inv_insert (h : GuardInv s) (f : Family) (place : Nat) (r : NatRule) :
    GuardInv (s.insertRule f place r) := by
  refine ⟨h.nodup, h.unsynced, fun f' p => ?_⟩
  have hchain : ((s.insertRule f place r).nat f').chain = (s.nat f').chain := by
    by_cases hf : f' = f
    · subst hf
      simp [World.insertRule]
    · simp [World.insertRule, hf]
  rw [hchain]
  exact h.flushed f' p

theorem inv_of_run {s₀ : World} {steps : List (World × HopEvent × World)} (hstart : s₀.Fresh)
    (hrun : hopGuard.Run s₀ steps s) (hpaced : ∀ st ∈ steps, PacedStep st) : GuardInv s := by
  refine hrun.keeps (P := GuardInv) (fun st hst h => ?_) ?_
  · obtain ⟨s, e, s'⟩ := st
    have hstep : s' = s.step e := hrun.step_of_mem _ hst
    have hpaced := hpaced _ hst
    rw [hstep]
    cases e with
    | sync ports ans => exact inv_sync h hpaced
    | insert f place r => exact inv_insert h f place r
  · obtain ⟨hguard, hflushed⟩ := hstart
    refine ⟨?_, fun _ => ?_, hflushed⟩
    · rw [hguard]
      exact List.nodup_nil
    · rw [hguard]

/-- A call without a failure, from a state where nothing is owed. -/
theorem says_iff (h : GuardInv s) (hwhole : (s.sync ports ans).2 = false) :
    GuardSays (s.sync ports ans).1 ports ans ↔ s.KeepsPace ports ans := by
  constructor
  · intro htells
    refine ⟨fun f hwrites p hstood hasked => hstood ?_, fun hc f hp p => ?_⟩
    · have hnot : ¬s.drops ports ans p := fun hdrops => (mem_due h).mp hdrops.2.2.1 hasked
      have hflushed := (sync_flushed s ports ans f p).2 hnot
      rw [htells.flushed, h.flushed, sync_chain, if_pos hwrites] at hflushed
      rw [← hflushed, accepts_restored, hasked]
    · have hnot : s.rewrites ports ans f = false := by simp [World.rewrites, hc]
      have hsame := ((unchanged_iff h).mp hc).2 p
      have haccepted := htells.accepted f hp p
      rw [sync_chain, hnot, ← mem_wantOf] at haccepted
      exact haccepted.trans hsame
  · intro hpace
    have hpaced : s.Paced ports ans :=
      ⟨hpace.written, fun hg hc p hp => (drops_of_whole hwhole hg hc hp).2.2.2⟩
    refine ⟨fun f hp p => ?_, fun f hp => (sync_whole hwhole hp).2, inv_flushed h hpaced⟩
    rw [sync_chain, ← mem_wantOf]
    by_cases hc : s.changed (wantOf ports) = true
    · rw [if_pos ((sync_whole hwhole hp).1 hc), accepts_restored]
    · have hc := Bool.eq_false_iff.mpr hc
      have hnot : s.rewrites ports ans f = false := by simp [World.rewrites, hc]
      rw [hnot]
      exact (hpace.left hc f hp p).trans (((unchanged_iff h).mp hc).2 p).symm

/-- **After calls that kept pace, whatever failed in them, a call in which nothing fails leaves the
guard saying what it was asked exactly where it keeps pace itself.** -/
theorem guard_says_iff {s₀ : World} {steps : List (World × HopEvent × World)}
    (hstart : s₀.Fresh) (hrun : hopGuard.Run s₀ steps s) (hpaced : ∀ st ∈ steps, PacedStep st)
    (hwhole : (s.sync ports ans).2 = false) :
    GuardSays (s.sync ports ans).1 ports ans ↔ s.KeepsPace ports ans :=
  says_iff (inv_of_run hstart hrun hpaced) hwhole

end Runs

/-! ## A host -/

def fineAnswers : FamilyAnswers := ⟨true, false, false, fun _ => false, false⟩

def fineHost : Answers := ⟨fun _ => fineAnswers, true, fun _ => false⟩

/-- `ip6tables-restore` fails. -/
def v6Torn : Answers :=
  { fineHost with family := fun f => { fineAnswers with restoreFails := decide (f = .v6) } }

/-- No guard yet, and nothing in PREROUTING. -/
def bareHost : World := ⟨⟨[], false, false⟩, fun _ => ⟨[], []⟩, fun _ _ => false⟩

theorem guard_says_iff_moved :
    GuardSays (((bareHost.sync [27000] fineHost).1).sync [27001] fineHost).1 [27001] fineHost := by
  have hrun : hopGuard.Run bareHost
      [(bareHost, .sync [27000] fineHost, (bareHost.sync [27000] fineHost).1)]
      (bareHost.sync [27000] fineHost).1 := .cons rfl (.nil _)
  have hbare : bareHost.Fresh := ⟨rfl, fun _ _ => by simp [bareHost, accepts]⟩
  have hpaced : bareHost.Paced [27000] fineHost := by
    refine ⟨fun f _ p => ?_, fun _ _ _ _ => ⟨rfl, rfl⟩⟩
    simp [bareHost, accepts]
  have hlast : (bareHost.sync [27000] fineHost).1.guard.last = [27000] := by decide +kernel
  have hchain (f : Family) : ((bareHost.sync [27000] fineHost).1.nat f).chain =
      restored (Rules (wantOf [27000])) := by
    rw [sync_chain]
    cases f <;> rfl
  have hstood (f : Family) (p : Nat) :
      accepts (((bareHost.sync [27000] fineHost).1).nat f).chain p = true ↔
        p ∈ (bareHost.sync [27000] fineHost).1.guard.last := by
    rw [hchain, accepts_restored, hlast]
    rfl
  refine (guard_says_iff hbare hrun ?_ (by decide +kernel)).mpr ?_
  · intro st hst
    rw [List.mem_singleton.mp hst]
    exact hpaced
  · exact ⟨fun f _ p h => absurd (hstood f p) h, fun _ f _ p => hstood f p⟩

/-- A call that failed on one family is not remembered: the next one that asks for the old set
finds nothing changed, and the other family keeps the set nobody asks for. -/
theorem torn_call_forgotten :
    ¬ ∀ (s₀ s : World) (steps : List (World × HopEvent × World)) (ports : List Int) (ans : Answers),
      s₀.Fresh → hopGuard.Run s₀ steps s → (s.sync ports ans).2 = false →
        GuardSays (s.sync ports ans).1 ports ans := by
  intro hclaim
  let first := (bareHost.sync [27000] fineHost).1
  let second := (first.sync [27001] v6Torn).1
  have hbare : bareHost.Fresh := ⟨rfl, fun _ _ => by simp [bareHost, accepts]⟩
  have hrun : hopGuard.Run bareHost
      [(bareHost, .sync [27000] fineHost, first), (first, .sync [27001] v6Torn, second)] second :=
    .cons rfl (.cons rfl (.nil _))
  have htells := hclaim bareHost second _ [27000] fineHost hbare hrun (by decide +kernel)
  have haccepts : accepts ((second.sync [27000] fineHost).1.nat .v4).chain 27001 = true := by
    decide +kernel
  have hasked := (htells.accepted .v4 rfl 27001).mp haccepts
  exact absurd hasked.1 (by decide)

end Iceslab.Agent.HopGuard
