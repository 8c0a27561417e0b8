import Iceslab.Agent.Geometry3
import Iceslab.Lib.Checked

/-!
# The panel's table of bounds and the agent's

* `parseSpan_agent` — what both sides read from one range.
* `SameNumbers` — where a double and a 64-bit integer tell the rules the same.
* `geometry_agreed` — **what the panel stores the agent renders, the two tables answer the same ids
  exactly where `SameNumbers`, and whatever is minted passes both**.
* `inverted_range_unseen` — a range too large for a double is inverted for the agent only.
-/

set_option autoImplicit false

namespace Iceslab

/-! ## Texts -/

section Texts

variable {s t : String}

instance (s : String) : Decidable (PrintableText s) := List.decidableBAll _ s.toList

instance (g : AwgGeometry3) : Decidable g.Printable :=
  inferInstanceAs (Decidable (∀ t ∈ g.texts, PrintableText t))

theorem isSpace_eq {c : Char} (h : 32 ≤ c.toNat ∧ c.toNat ≤ 126) :
    GoText.isSpace c = JsText.isSpace c := by
  unfold GoText.isSpace JsText.isSpace
  have h1 : (8192 ≤ c.toNat) = False := by simp; omega
  simp only [h1, decide_false, Bool.false_and, Bool.or_false, decide_eq_decide, List.mem_cons,
    List.not_mem_nil, or_false]
  omega

theorem dropWhile_congr {α : Type*} {p q : α → Bool} {l : List α} (h : ∀ a ∈ l, p a = q a) :
    l.dropWhile p = l.dropWhile q := by
  induction l with
  | nil => rfl
  | cons a l ih =>
    rw [List.dropWhile_cons, List.dropWhile_cons, h a List.mem_cons_self,
      ih fun b hb => h b (List.mem_cons_of_mem _ hb)]

/-- On printable text the two trims cut the same. -/
theorem trimSpace_eq (h : PrintableText s) : GoText.trimSpace s = JsText.trim s := by
  unfold GoText.trimSpace JsText.trim
  rw [dropWhile_congr (q := JsText.isSpace) fun c hc => isSpace_eq (h c hc),
    dropWhile_congr (q := JsText.isSpace)]
  intro c hc
  refine isSpace_eq (h c ?_)
  exact (List.dropWhile_sublist _).subset (List.mem_reverse.mp hc)

end Texts

/-! ## Ranges -/

section Ranges

variable {s name : String} {ds lo hi : List Char} {a b : Span}

theorem parseInt64_digits (hne : ds ≠ []) (hd : ds.all Char.isDigit = true) :
    Agent.parseInt64 ds =
      if Agent.Int64Fits (Nat.ofDigitChars 10 ds 0) then some (Nat.ofDigitChars 10 ds 0 : Int)
      else none := by
  obtain ⟨c, rest, rfl⟩ := List.exists_cons_of_ne_nil hne
  have hc : c.isDigit = true := by simp at hd; exact hd.1
  have hminus : c ≠ '-' := by rintro rfl; exact absurd hc (by decide)
  have hplus : c ≠ '+' := by rintro rfl; exact absurd hc (by decide)
  unfold Agent.parseInt64
  simp only [List.head?_cons, Option.some.injEq, hminus, hplus, or_self, if_false, ne_eq, hne,
    not_false_eq_true, hd, and_self, if_true]

theorem spanDigits_some (h : spanDigits s = some (lo, hi)) :
    lo ≠ [] ∧ hi ≠ [] ∧ lo.all Char.isDigit = true ∧ hi.all Char.isDigit = true ∧
      (((JsText.trim s).toList = lo ∧ hi = lo) ∨ (JsText.trim s).toList = lo ++ '-' :: hi) := by
  unfold spanDigits at h
  dsimp only at h
  have hall : ((JsText.trim s).toList.takeWhile Char.isDigit).all Char.isDigit = true :=
    List.all_takeWhile
  have happ := List.takeWhile_append_dropWhile (p := Char.isDigit) (l := (JsText.trim s).toList)
  split at h
  · cases h
  rename_i hne
  split at h
  · rename_i hrest
    obtain ⟨rfl, rfl⟩ := Prod.mk.inj (Option.some.inj h)
    rw [hrest, List.append_nil] at happ
    exact ⟨hne, hne, hall, hall, .inl ⟨happ.symm, rfl⟩⟩
  · rename_i c rest hrest
    split at h
    · rename_i hc
      obtain ⟨rfl, hrne, hrall⟩ := hc
      obtain ⟨rfl, rfl⟩ := Prod.mk.inj (Option.some.inj h)
      rw [hrest] at happ
      exact ⟨hne, hrne, hall, hrall, .inr happ.symm⟩
    · cases h

theorem dash_notMem (h : ds.all Char.isDigit = true) : '-' ∉ ds := by
  intro hm
  exact absurd (List.all_eq_true.mp h _ hm) (by decide)

theorem dash_ne {c : Char} (h : ds.all Char.isDigit = true) (hc : c ∈ ds) : c ≠ '-' := by
  rintro rfl
  exact dash_notMem h hc

/-- What the agent reads from a range the panel can read. -/
theorem parseSpan_agent (hp : PrintableText s) (h : spanDigits s = some (lo, hi)) :
    Agent.parseSpan name s =
      if Agent.Int64Fits (Nat.ofDigitChars 10 lo 0) then
        if Agent.Int64Fits (Nat.ofDigitChars 10 hi 0) then
          .ok ⟨Nat.ofDigitChars 10 lo 0, Nat.ofDigitChars 10 hi 0⟩
        else .error (.notRange name s)
      else .error (.notNumberOrRange name s) := by
  obtain ⟨hlo, hhi, hlod, hhid, htext⟩ := spanDigits_some h
  unfold Agent.parseSpan
  rw [trimSpace_eq hp]
  dsimp only
  rcases htext with ⟨ht, rfl⟩ | ht
  · have hcut : GoText.cut (JsText.trim s) '-' = none := by
      rw [GoText.cut, if_neg (ht ▸ dash_notMem hlod)]
    rw [hcut]
    dsimp only
    rw [ht, parseInt64_digits hlo hlod]
    by_cases hf : Agent.Int64Fits (Nat.ofDigitChars 10 hi 0)
    · rw [if_pos hf, if_pos hf, if_pos hf]
    · rw [if_neg hf, if_neg hf]
  · have htake : (lo ++ '-' :: hi).takeWhile (· ≠ '-') = lo := by
      rw [List.takeWhile_append_of_pos]
      · simp
      · intro c hc
        simpa using dash_ne hlod hc
    have hdrop : (lo ++ '-' :: hi).dropWhile (· ≠ '-') = '-' :: hi := by
      rw [List.dropWhile_append_of_pos]
      · simp
      · intro c hc
        simpa using dash_ne hlod hc
    have hcut : GoText.cut (JsText.trim s) '-' = some (String.ofList lo, String.ofList hi) := by
      rw [GoText.cut, ht, if_pos (by simp), htake, hdrop, List.tail_cons]
    rw [hcut]
    dsimp only
    rw [String.toList_ofList, String.toList_ofList, parseInt64_digits hlo hlod,
      parseInt64_digits hhi hhid]
    by_cases hf : Agent.Int64Fits (Nat.ofDigitChars 10 lo 0)
    · rw [if_pos hf, if_pos hf]
      by_cases hf' : Agent.Int64Fits (Nat.ofDigitChars 10 hi 0)
      · rw [if_pos hf', if_pos hf']
      · rw [if_neg hf', if_neg hf']
    · rw [if_neg hf, if_neg hf]

/-- A range as doubles. -/
def Span.round (a : Span) : Span := ⟨JsNumber.round a.lo, JsNumber.round a.hi⟩

/-- Where both sides read a range, the panel has the agent's numbers as doubles. -/
theorem parseSpan_both (hp : PrintableText s) (ha : parseSpan s = some a)
    (hb : Agent.parseSpan name s = .ok b) : a = b.round ∧ 0 ≤ b.lo ∧ 0 ≤ b.hi := by
  unfold parseSpan at ha
  obtain ⟨⟨lo, hi⟩, hd, rfl⟩ := Option.map_eq_some_iff.mp ha
  rw [parseSpan_agent hp hd] at hb
  split at hb
  · split at hb
    · cases hb
      exact ⟨rfl, by simp, by simp⟩
    · cases hb
  · cases hb

/-- A range of small numbers is read the same by both. -/
theorem parseSpan_small (hp : PrintableText s) (ha : parseSpan s = some a) (hlo : a.lo < 2 ^ 32)
    (hhi : a.hi < 2 ^ 32) (name : String) : Agent.parseSpan name s = .ok a := by
  unfold parseSpan at ha
  obtain ⟨⟨lo, hi⟩, hd, rfl⟩ := Option.map_eq_some_iff.mp ha
  simp only [numberOfDigits] at hlo hhi ⊢
  rw [JsNumber.round_lt_iff (by decide)] at hlo hhi
  rw [parseSpan_agent hp hd, if_pos ⟨by omega, by omega⟩, if_pos ⟨by omega, by omega⟩,
    JsNumber.round_of_safe (by omega), JsNumber.round_of_safe (by omega)]

end Ranges

/-! ## Keys and decoys -/

section Fields

variable {s : String}

theorem inAlphabet_ne {c : Char} (h : Base64.inAlphabet c = true) : c ≠ '=' ∧ c ≠ '\r' ∧ c ≠ '\n' := by
  have hmem : c ∈ Base64.alphabet := by simpa [Base64.inAlphabet] using h
  exact (by decide : ∀ c ∈ Base64.alphabet, c ≠ '=' ∧ c ≠ '\r' ∧ c ≠ '\n') c hmem

theorem byteLength_eq (h : PrintableText s) : GoText.byteLength s.toList = s.toList.length := by
  have hone : ∀ c ∈ s.toList, c.utf8Size = 1 := by
    intro c hc
    rw [Char.utf8Size_eq_one_iff, UInt32.le_iff_toNat_le]
    exact (h c hc).2.trans (by decide)
  rw [GoText.byteLength, List.map_congr_left hone]
  simp

theorem isWgKey_iff : isWgKey s = true ↔ ∃ body, s.toList = body ++ ['='] ∧ body.length = 43 ∧
    body.all Base64.inAlphabet = true := by
  unfold isWgKey
  simp only [Bool.and_eq_true, decide_eq_true_eq, and_assoc]
  constructor
  · rintro ⟨hlen, hall, hdrop⟩
    refine ⟨s.toList.take 43, ?_, by simp [hlen], hall⟩
    rw [← hdrop, List.take_append_drop]
  · rintro ⟨body, hs, hlen, hall⟩
    rw [hs, ← hlen]
    simp [hlen, hall]

/-- A key the panel's expression takes decodes to 32 bytes in both runtimes. -/
theorem validateWGKey_eq (h : PrintableText s) : Agent.validateWGKey s = isWgKey s := by
  have hprint : s.toList.filter (fun c => c ≠ '\r' && c ≠ '\n') = s.toList := by
    rw [List.filter_eq_self]
    intro c hc
    have h32 := (h c hc).1
    have h1 : c ≠ '\r' := by rintro rfl; exact absurd h32 (by decide)
    have h2 : c ≠ '\n' := by rintro rfl; exact absurd h32 (by decide)
    simp [h1, h2]
  rw [Bool.eq_iff_iff, isWgKey_iff]
  unfold Agent.validateWGKey
  rw [byteLength_eq h]
  unfold Base64.decodeString
  simp only [hprint]
  constructor
  · intro hv
    split at hv
    · cases hv
    rename_i hlen
    split at hv
    · cases hv
    rename_i raw hdec
    split at hdec
    swap
    · cases hdec
    rename_i hok
    cases hdec
    simp only [Bool.and_eq_true, decide_eq_true_eq] at hok hv
    obtain ⟨⟨⟨hbody, hpad⟩, hpad2⟩, -⟩ := hok
    rw [Base64.length_bytesOf, List.length_map] at hv
    have happ := List.takeWhile_append_dropWhile (p := fun c => decide (c ≠ '=')) (l := s.toList)
    have hsum := congrArg List.length happ
    rw [List.length_append] at hsum
    -- 44 characters, of which 42 and two thirds to 44 carry the 32 bytes
    have hone : (s.toList.dropWhile fun c => decide (c ≠ '=')).length = 1 := by omega
    obtain ⟨c, hc⟩ := List.length_eq_one_iff.mp hone
    rw [hc] at hpad happ
    simp only [List.all_cons, List.all_nil, Bool.and_true, decide_eq_true_eq] at hpad
    exact ⟨_, hpad ▸ happ.symm, by omega, hbody⟩
  · rintro ⟨body, hs, hlen, hall⟩
    have htake : (body ++ ['=']).takeWhile (fun c => decide (c ≠ '=')) = body := by
      rw [List.takeWhile_append_of_pos]
      · simp
      · intro c hc
        simpa using (inAlphabet_ne (List.all_eq_true.mp hall c hc)).1
    have hdrop : (body ++ ['=']).dropWhile (fun c => decide (c ≠ '=')) = ['='] := by
      rw [List.dropWhile_append_of_pos]
      · simp
      · intro c hc
        simpa using (inAlphabet_ne (List.all_eq_true.mp hall c hc)).1
    have h44 : s.toList.length = 44 := by simp [hs, hlen]
    rw [if_neg (by simp [h44])]
    simp only [hs, htake, hdrop, hall, hlen]
    simp [Base64.length_bytesOf, hlen]

theorem length_ofText (h : isWgKey s = true) : (Base64.ofText s).length = 32 := by
  obtain ⟨body, hs, hlen, hall⟩ := isWgKey_iff.mp h
  have hmem (c : Char) (hc : c ∈ body) : Base64.inAlphabet c = true := List.all_eq_true.mp hall c hc
  have htake : (body ++ ['=']).takeWhile (fun c => decide (c ≠ '=')) = body := by
    rw [List.takeWhile_append_of_pos]
    · simp
    · intro c hc
      simpa using (inAlphabet_ne (hmem c hc)).1
  have hstandard : body.map (fun c => if c = '-' then '+' else if c = '_' then '/' else c) = body := by
    refine (List.map_congr_left (g := id) fun c hc => ?_).trans (List.map_id body)
    have h1 : c ≠ '-' := by rintro rfl; exact absurd (hmem _ hc) (by decide)
    have h2 : c ≠ '_' := by rintro rfl; exact absurd (hmem _ hc) (by decide)
    rw [if_neg h1, if_neg h2, id]
  unfold Base64.ofText
  simp only [hs, htake, hstandard, List.filter_eq_self.mpr hmem, Base64.length_bytesOf,
    List.length_map, hlen]

theorem validateIField_eq (s : String) : Agent.validateIField s = s.toList.all iChar := by
  unfold Agent.validateIField
  congr 1
  funext c
  simp [iChar, JsText.isHex, Char.isDigit, Bool.or_assoc]
  rfl

end Fields

/-! ## The two tables -/

section Tables

variable {g : AwgGeometry3} {s : Spans} {geo : Agent.Geometry3}

def Spans.round (s : Spans) : Spans :=
  ⟨s.h1.round, s.h2.round, s.h3.round, s.h4.round, s.cpa.round, s.rekeyAfter.round,
    s.rekeyTimeout.round, s.rejectAfter.round, s.keepalive.round, s.maxHs.round⟩

/-- The agent's geometry of a wire and its ranges. -/
def agentGeometry (g : AwgGeometry3) (s : Spans) : Agent.Geometry3 where
  mtu := g.mtu
  jc := g.jc
  jmin := g.jmin
  jmax := g.jmax
  s1 := g.s1
  s2 := g.s2
  s3 := g.s3
  s4 := g.s4
  h1 := s.h1
  h2 := s.h2
  h3 := s.h3
  h4 := s.h4
  i1 := g.i1
  i2 := g.i2
  i3 := g.i3
  i4 := g.i4
  i5 := g.i5
  headerProtectionKey := g.headerProtectionKey
  contentPaddingAddition := s.cpa
  rekeyAfterTime := s.rekeyAfter
  rekeyTimeout := s.rekeyTimeout
  rejectAfterTime := s.rejectAfter
  keepaliveTimeout := s.keepalive
  maxHandshakeAttempts := s.maxHs
  randomTrailers := g.randomTrailers

def Spans.all (s : Spans) : List Span := s.u16 ++ s.h

/-- Both sides read every range: the panel has the agent's numbers as doubles. -/
theorem spans_both (hp : g.Printable) (hs : spansOf g = some s)
    (hg : Agent.toGeometry g = .ok geo) :
    ∃ e : Spans, geo = agentGeometry g e ∧ s = e.round ∧ ∀ a ∈ e.all, 0 ≤ a.lo ∧ 0 ≤ a.hi := by
  simp only [spansOf, Option.bind_eq_bind, Option.bind_eq_some_iff, Option.pure_def,
    Option.some.injEq] at hs
  obtain ⟨h1, e1, h2, e2, h3, e3, h4, e4, cpa, e5, ra, e6, rt, e7, rj, e8, ka, e9, mh, e10, rfl⟩ := hs
  simp only [Agent.toGeometry, Checked.bind_eq_ok, Checked.pure_eq_ok] at hg
  obtain ⟨h1', f1, h2', f2, h3', f3, h4', f4, cpa', f5, ra', f6, rt', f7, rj', f8, ka', f9, mh',
    f10, rfl⟩ := hg
  have hpt (t : String) (ht : t ∈ g.texts) : PrintableText t := hp t ht
  simp only [AwgGeometry3.texts, List.mem_cons, List.not_mem_nil, or_false] at hpt
  obtain ⟨rfl, g1⟩ := parseSpan_both (hpt _ (by simp)) e1 f1
  obtain ⟨rfl, g2⟩ := parseSpan_both (hpt _ (by simp)) e2 f2
  obtain ⟨rfl, g3⟩ := parseSpan_both (hpt _ (by simp)) e3 f3
  obtain ⟨rfl, g4⟩ := parseSpan_both (hpt _ (by simp)) e4 f4
  obtain ⟨rfl, g5⟩ := parseSpan_both (hpt _ (by simp)) e5 f5
  obtain ⟨rfl, g6⟩ := parseSpan_both (hpt _ (by simp)) e6 f6
  obtain ⟨rfl, g7⟩ := parseSpan_both (hpt _ (by simp)) e7 f7
  obtain ⟨rfl, g8⟩ := parseSpan_both (hpt _ (by simp)) e8 f8
  obtain ⟨rfl, g9⟩ := parseSpan_both (hpt _ (by simp)) e9 f9
  obtain ⟨rfl, g10⟩ := parseSpan_both (hpt _ (by simp)) e10 f10
  refine ⟨⟨h1', h2', h3', h4', cpa', ra', rt', rj', ka', mh'⟩, rfl, rfl, ?_⟩
  simp [Spans.all, Spans.u16, Spans.timing, Spans.h, *]

/-- Ranges of small numbers are read by both, as the same numbers. -/
theorem spans_small (hp : g.Printable) (hs : spansOf g = some s)
    (hsmall : ∀ a ∈ s.all, a.lo < 2 ^ 32 ∧ a.hi < 2 ^ 32) :
    Agent.toGeometry g = .ok (agentGeometry g s) := by
  simp only [spansOf, Option.bind_eq_bind, Option.bind_eq_some_iff, Option.pure_def,
    Option.some.injEq] at hs
  obtain ⟨h1, e1, h2, e2, h3, e3, h4, e4, cpa, e5, ra, e6, rt, e7, rj, e8, ka, e9, mh, e10, rfl⟩ := hs
  have hpt (t : String) (ht : t ∈ g.texts) : PrintableText t := hp t ht
  simp only [AwgGeometry3.texts, List.mem_cons, List.not_mem_nil, or_false] at hpt
  simp only [Spans.all, Spans.u16, Spans.timing, Spans.h, List.cons_append, List.nil_append,
    List.mem_cons, List.not_mem_nil, or_false] at hsmall
  have hread {t : String} {a : Span} (ht : PrintableText t) (ha : parseSpan t = some a)
      (hlt : a.lo < 2 ^ 32 ∧ a.hi < 2 ^ 32) (name : String) : Agent.parseSpan name t = .ok a :=
    parseSpan_small ht ha hlt.1 hlt.2 name
  simp only [Agent.toGeometry, hread (hpt _ (by simp)) e1 (hsmall _ (by simp)),
    hread (hpt _ (by simp)) e2 (hsmall _ (by simp)), hread (hpt _ (by simp)) e3 (hsmall _ (by simp)),
    hread (hpt _ (by simp)) e4 (hsmall _ (by simp)), hread (hpt _ (by simp)) e5 (hsmall _ (by simp)),
    hread (hpt _ (by simp)) e6 (hsmall _ (by simp)), hread (hpt _ (by simp)) e7 (hsmall _ (by simp)),
    hread (hpt _ (by simp)) e8 (hsmall _ (by simp)), hread (hpt _ (by simp)) e9 (hsmall _ (by simp)),
    hread (hpt _ (by simp)) e10 (hsmall _ (by simp))]
  rfl

/-- The six rules whose numbers can be too large for a double or for an `int64`. -/
structure SameInDoubles (g : AwgGeometry3) (e : Spans) : Prop where
  /-- a range is inverted as doubles too, if any is -/
  order : (∃ a ∈ e.all, a.hi < a.lo) → ∃ a ∈ e.all, JsNumber.round a.hi < JsNumber.round a.lo
  budget : 1500 < add (add (add g.s4 32) g.mtu) 28 ↔ 1500 < Agent.wrap64 (g.s4 + 32 + g.mtu + 28)
  sizes : anyPair (· == ·) [add g.s1 148, add g.s2 92, add g.s3 64, add g.s4 32] =
    anyPair (· == ·) [Agent.wrap64 (g.s1 + 148), Agent.wrap64 (g.s2 + 92),
      Agent.wrap64 (g.s3 + 64), Agent.wrap64 (g.s4 + 32)]
  /-- headers that meet as doubles meet, if any do -/
  headers : anyPair Span.meets (e.h.map Span.round) = true → anyPair Span.meets e.h = true
  rekey : JsNumber.round e.rejectAfter.lo ≤ JsNumber.round e.rekeyAfter.hi →
    e.rejectAfter.lo ≤ e.rekeyAfter.hi
  keepalive : JsNumber.round e.rejectAfter.lo ≤
      add (JsNumber.round e.keepalive.hi) (JsNumber.round e.rekeyTimeout.hi) ↔
    e.rejectAfter.lo ≤ Agent.wrap64 (e.keepalive.hi + e.rekeyTimeout.hi)

theorem Spans.all_round (e : Spans) : e.round.all = e.all.map Span.round := rfl

theorem anyPair_mono {α β : Type} {r : α → α → Bool} {r' : β → β → Bool} {f : α → β}
    (h : ∀ a b, r a b = true → r' (f a) (f b) = true) {l : List α} (hl : anyPair r l = true) :
    anyPair r' (l.map f) = true := by
  induction l with
  | nil => cases hl
  | cons a l ih =>
    simp only [anyPair, Bool.or_eq_true, List.any_eq_true, List.map_cons] at hl ⊢
    rcases hl with ⟨b, hb, hr⟩ | hl
    · exact .inl ⟨f b, List.mem_map_of_mem hb, h a b hr⟩
    · exact .inr (ih hl)

theorem meets_round {a b : Span} (h : a.meets b = true) : a.round.meets b.round = true := by
  simp only [Span.meets, decide_eq_true_eq] at h ⊢
  exact ⟨JsNumber.round_mono h.1, JsNumber.round_mono h.2⟩

theorem any_round {l : List Span} {q q' : Span → Bool} (h : ∀ a, q a.round = q' a) :
    (l.map Span.round).any q = l.any q' := by
  rw [List.any_map]
  exact congrArg l.any (funext h)

theorem key_eq {k : String} (hp : PrintableText k) :
    (!isWgKey k || decide ((Base64.ofText k).length ≠ 32)) =
      (decide (k = "") || !Agent.validateWGKey k) := by
  rw [validateWGKey_eq hp]
  cases hk : isWgKey k with
  | false => simp
  | true =>
    have hne : k ≠ "" := by
      rintro rfl
      exact absurd hk (by decide)
    simp [length_ofText hk, hne]

section Comparisons

variable {e : Spans} {c : Int}

theorem round_lo_lt (a : Span) (hc : c.natAbs < 2 ^ 53) : a.round.lo < c ↔ a.lo < c :=
  JsNumber.round_lt_iff hc

theorem round_gt (n : Int) (hc : c.natAbs < 2 ^ 53) : JsNumber.round n > c ↔ n > c := by
  rw [gt_iff_lt, gt_iff_lt, ← not_le, ← not_le, JsNumber.round_le_iff hc]

theorem round_ge (n : Int) (hc : c.natAbs < 2 ^ 53) : JsNumber.round n ≥ c ↔ n ≥ c := by
  rw [ge_iff_le, ge_iff_le, ← not_lt, ← not_lt, JsNumber.round_lt_iff hc]

theorem order_eq (he : ∀ a ∈ e.all, 0 ≤ a.lo ∧ 0 ≤ a.hi) :
    (e.round.all.any fun a => decide (a.lo < 0 ∨ a.hi < a.lo)) =
        (e.all.any fun a => decide (a.lo < 0) || decide (a.hi < a.lo)) ↔
      ((∃ a ∈ e.all, a.hi < a.lo) → ∃ a ∈ e.all, JsNumber.round a.hi < JsNumber.round a.lo) := by
  have hl : (e.round.all.any fun a => decide (a.lo < 0 ∨ a.hi < a.lo)) = true ↔
      ∃ a ∈ e.all, JsNumber.round a.hi < JsNumber.round a.lo := by
    rw [Spans.all_round, List.any_map, List.any_eq_true]
    refine exists_congr fun a => and_congr_right fun ha => ?_
    have h0 : ¬ a.round.lo < 0 := by
      rw [round_lo_lt a (by decide)]
      have := (he a ha).1
      omega
    simp only [Function.comp_apply, decide_eq_true_eq, h0, false_or]
    rfl
  have hr : (e.all.any fun a => decide (a.lo < 0) || decide (a.hi < a.lo)) = true ↔
      ∃ a ∈ e.all, a.hi < a.lo := by
    rw [List.any_eq_true]
    refine exists_congr fun a => and_congr_right fun ha => ?_
    have h0 : ¬ a.lo < 0 := by
      have := (he a ha).1
      omega
    simp [h0]
  rw [Bool.eq_iff_iff, hl, hr]
  refine ⟨Iff.mpr, fun h => ⟨?_, h⟩⟩
  -- rounding never inverts a range
  rintro ⟨a, ha, hlt⟩
  refine ⟨a, ha, ?_⟩
  by_contra hn
  exact absurd (JsNumber.round_mono (not_lt.mp hn)) (not_le.mpr hlt)

theorem headers_eq : anyPair Span.meets e.round.h = anyPair Span.meets e.h ↔
    (anyPair Span.meets (e.h.map Span.round) = true → anyPair Span.meets e.h = true) := by
  have hround : e.round.h = e.h.map Span.round := rfl
  rw [hround, Bool.eq_iff_iff]
  exact ⟨Iff.mp, fun h => ⟨h, anyPair_mono (f := Span.round) fun _ _ => meets_round⟩⟩

theorem rekey_eq {m n : Int} : decide (JsNumber.round m ≥ JsNumber.round n) = decide (m ≥ n) ↔
    (JsNumber.round n ≤ JsNumber.round m → n ≤ m) := by
  rw [decide_eq_decide]
  exact ⟨Iff.mp, fun h => ⟨h, JsNumber.round_mono⟩⟩

end Comparisons

/-- **The two tables break the same rules exactly where the six do not tell a double from an
integer.** -/
theorem awg3Rules_eq (hp : g.Printable) {e : Spans} (he : ∀ a ∈ e.all, 0 ≤ a.lo ∧ 0 ≤ a.hi) :
    awg3Rules g e.round = (agentGeometry g e).checked ↔ SameInDoubles g e := by
  have hkey := key_eq (hp g.headerProtectionKey (by simp [AwgGeometry3.texts]))
  have hi1 := trimSpace_eq (hp g.i1 (by simp [AwgGeometry3.texts]))
  have hu16 : (e.round.u16.any fun a => decide (a.lo > U16 ∨ a.hi > U16)) =
      e.u16.any fun s => decide (s.hi > Agent.uint16Max) || decide (s.lo > Agent.uint16Max) := by
    refine any_round (l := e.u16) fun a => ?_
    rw [Bool.eq_iff_iff]
    simp only [Bool.or_eq_true, decide_eq_true_eq]
    exact (or_congr (round_gt _ (by decide)) (round_gt _ (by decide))).trans or_comm
  have hbounds : (e.round.h.any fun a => decide (a.lo < 16 ∨ a.hi ≥ 2 ^ 31)) =
      e.h.any fun s => decide (s.lo < Agent.headerLow) || decide (s.hi ≥ Agent.headerCeiling) := by
    refine any_round (l := e.h) fun a => ?_
    rw [Bool.eq_iff_iff]
    simp only [Bool.or_eq_true, decide_eq_true_eq]
    exact or_congr (round_lo_lt a (by decide)) (round_ge _ (by decide))
  have htiming : (e.round.timing.any fun a => decide (a.lo < 1)) =
      e.timing.any fun s => decide (s.lo < 1) := by
    refine any_round (l := e.timing) fun a => ?_
    rw [decide_eq_decide]
    exact round_lo_lt a (by decide)
  have hcpa : decide (e.round.cpa.lo < 1) = decide (e.cpa.lo < 1) := by
    rw [decide_eq_decide]
    exact round_lo_lt _ (by decide)
  have hfloor : decide (e.round.rejectAfter.lo < 180) =
      decide (e.rejectAfter.lo < Agent.stockRejectTime) := by
    rw [decide_eq_decide]
    exact round_lo_lt _ (by decide)
  have hscalar : ([g.jc, g.jmin, g.jmax] ++ [g.s1, g.s2, g.s3, g.s4]).any
        (fun v => decide (v < 0 ∨ v > U16)) =
      [g.jc, g.jmin, g.jmax, g.s1, g.s2, g.s3, g.s4].any
        fun v => decide (v < 0) || decide (v > Agent.uint16Max) := by
    refine congrArg _ (funext fun v => ?_)
    rw [Bool.decide_or]
    rfl
  have hicharset : ([g.i1, g.i2, g.i3, g.i4, g.i5].any fun i => !i.toList.all iChar) =
      [g.i1, g.i2, g.i3, g.i4, g.i5].any fun v => !Agent.validateIField v := by
    refine congrArg _ (funext fun v => ?_)
    rw [validateIField_eq]
  have hmeets : anyPair (fun a b => decide (a.lo ≤ b.hi) && decide (b.lo ≤ a.hi))
      (agentGeometry g e).headerSpans = anyPair Span.meets e.h := by
    refine congrFun (congrArg anyPair (funext fun a => funext fun b => ?_)) e.h
    rw [Span.meets, Bool.decide_and]
  simp only [awg3Rules, Agent.Geometry3.checked, Agent.geometry3Rules, List.map_cons, List.map_nil,
    List.cons.injEq, Prod.mk.injEq, true_and, and_true, hmeets]
  constructor
  · rintro ⟨-, -, -, -, horder, -, hbudget, hsizes, -, -, -, hheaders, -, -, -, hrekey,
      hkeepalive, -, -, -⟩
    exact ⟨(order_eq he).mp horder, decide_eq_decide.mp hbudget, hsizes, headers_eq.mp hheaders,
      rekey_eq.mp hrekey, decide_eq_decide.mp hkeepalive⟩
  · intro h
    exact ⟨hkey, rfl, hscalar, hu16, (order_eq he).mpr h.order, (Bool.decide_or ..),
      decide_eq_decide.mpr h.budget, h.sizes, rfl, rfl, hbounds, headers_eq.mpr h.headers, hcpa,
      htiming, hfloor, rekey_eq.mpr h.rekey, decide_eq_decide.mpr h.keepalive, rfl,
      decide_eq_decide.mpr (by rw [← hi1]; rfl), hicharset⟩

/-- The ids agree where every rule is told the same. -/
theorem violations_eq (hp : g.Printable) {e : Spans} (he : ∀ a ∈ e.all, 0 ≤ a.lo ∧ 0 ≤ a.hi) :
    RuleTable.broken (awg3Rules g e.round) = (agentGeometry g e).violations ↔
      SameInDoubles g e := by
  have hids : (awg3Rules g e.round).map (·.1) = ["hpk-required", "s-nonce-floor", "scalar-uint16",
      "range-uint16", "range-order", "mtu-range", "s4-mtu-budget", "class-sizes-distinct",
      "junk-order", "junk-ceiling", "header-bounds", "headers-disjoint", "content-padding-set",
      "timings-set", "reject-floor", "rekey-before-reject", "reject-after-keepalive",
      "random-trailers-on", "i1-present", "i-charset"] := by
    simp only [awg3Rules, List.map_cons, List.map_nil]
  have hsame : (awg3Rules g e.round).map (·.1) = (agentGeometry g e).checked.map (·.1) := by
    simp only [awg3Rules, Agent.Geometry3.checked, Agent.geometry3Rules, List.map_cons,
      List.map_nil]
  rw [← awg3Rules_eq hp he]
  refine RuleTable.broken_inj hsame ?_
  rw [hids]
  decide

/-! ## Small numbers -/

theorem wrap64_of_small {n : Int} (h : n.natAbs ≤ 2 ^ 53) : Agent.wrap64 n = n :=
  Int.bmod_eq_of_le (by omega) (by omega)

theorem add_of_small {a b : Int} (h : (a + b).natAbs ≤ 2 ^ 53) : add a b = a + b :=
  JsNumber.round_of_safe h

/-- A geometry of small numbers. -/
structure Small (g : AwgGeometry3) (e : Spans) : Prop where
  spans : ∀ a ∈ e.all, (0 ≤ a.lo ∧ a.lo < 2 ^ 32) ∧ 0 ≤ a.hi ∧ a.hi < 2 ^ 32
  sizes : ∀ v ∈ [g.s1, g.s2, g.s3, g.s4], 0 ≤ v ∧ v < 2 ^ 32
  mtu : 0 ≤ g.mtu ∧ g.mtu < 2 ^ 32

theorem Small.round {e : Spans} (h : Small g e) {a : Span} (ha : a ∈ e.all) : a.round = a := by
  obtain ⟨hlo, hhi⟩ := h.spans a ha
  rw [Span.round, JsNumber.round_of_safe (by omega), JsNumber.round_of_safe (by omega)]

theorem Small.same {e : Spans} (h : Small g e) : SameInDoubles g e := by
  have hm := h.mtu
  have hs (v : Int) (hv : v ∈ [g.s1, g.s2, g.s3, g.s4]) := h.sizes v hv
  have h1 := hs g.s1 (by simp)
  have h2 := hs g.s2 (by simp)
  have h3 := hs g.s3 (by simp)
  have h4 := hs g.s4 (by simp)
  have hround {a : Span} (ha : a ∈ e.all) :
      JsNumber.round a.lo = a.lo ∧ JsNumber.round a.hi = a.hi := by
    have := h.round ha
    exact ⟨congrArg Span.lo this, congrArg Span.hi this⟩
  have hreject := hround (a := e.rejectAfter) (by simp [Spans.all, Spans.u16, Spans.timing])
  have hrekey := hround (a := e.rekeyAfter) (by simp [Spans.all, Spans.u16, Spans.timing])
  have hkeep := hround (a := e.keepalive) (by simp [Spans.all, Spans.u16, Spans.timing])
  have htimeout := hround (a := e.rekeyTimeout) (by simp [Spans.all, Spans.u16, Spans.timing])
  have hk := h.spans e.keepalive (by simp [Spans.all, Spans.u16, Spans.timing])
  have ht := h.spans e.rekeyTimeout (by simp [Spans.all, Spans.u16, Spans.timing])
  constructor
  · rintro ⟨a, ha, hlt⟩
    refine ⟨a, ha, ?_⟩
    rw [(hround ha).1, (hround ha).2]
    exact hlt
  · rw [add_of_small (a := g.s4) (by omega), add_of_small (a := g.s4 + 32) (by omega),
      add_of_small (by omega), wrap64_of_small (by omega)]
  · rw [add_of_small (a := g.s1) (by omega), add_of_small (a := g.s2) (by omega),
      add_of_small (a := g.s3) (by omega), add_of_small (a := g.s4) (by omega),
      wrap64_of_small (n := g.s1 + 148) (by omega), wrap64_of_small (n := g.s2 + 92) (by omega),
      wrap64_of_small (n := g.s3 + 64) (by omega), wrap64_of_small (n := g.s4 + 32) (by omega)]
  · intro hmeet
    have hid : e.h.map Span.round = e.h := by
      refine (List.map_congr_left (g := id) fun a ha => h.round ?_).trans (List.map_id _)
      exact List.mem_append_right _ ha
    rwa [hid] at hmeet
  · rw [hreject.1, hrekey.2]
    exact id
  · rw [hreject.1, hkeep.2, htimeout.2, add_of_small (by omega), wrap64_of_small (by omega)]

/-- A geometry the panel's table passes has small numbers only. -/
theorem small_of_clean {s : Spans} (h : RuleTable.broken (awg3Rules g s) = []) : Small g s := by
  have hall := RuleTable.broken_eq_nil.mp h
  simp only [awg3Rules, List.forall_mem_cons, List.not_mem_nil, IsEmpty.forall_iff, implies_true,
    and_true] at hall
  obtain ⟨-, -, hscalar, hu16, horder, hmtu, -, -, -, -, hbounds, -⟩ := hall
  have hord : ∀ a ∈ s.all, 0 ≤ a.lo ∧ a.lo ≤ a.hi := by
    intro a ha
    have := List.any_eq_false.mp horder a ha
    simp only [decide_eq_true_eq, not_or, not_lt] at this
    exact this
  refine ⟨?_, ?_, ?_⟩
  · intro a ha
    have h1 := hord a ha
    rcases List.mem_append.mp ha with hm | hm
    · have := List.any_eq_false.mp hu16 a hm
      simp only [decide_eq_true_eq, not_or, not_lt, gt_iff_lt, U16] at this
      omega
    · have := List.any_eq_false.mp hbounds a hm
      simp only [decide_eq_true_eq, not_or, not_lt, ge_iff_le, not_le] at this
      omega
  · intro v hv
    have := List.any_eq_false.mp hscalar v (List.mem_append_right _ hv)
    simp only [decide_eq_true_eq, not_or, not_lt, gt_iff_lt, U16] at this
    omega
  · simp only [decide_eq_false_iff_not, not_or, not_lt, gt_iff_lt] at hmtu
    omega

/-! ## What is rendered -/

/-- The lines of the `[Interface]` block that say what the panel holds. -/
def geometryLines (g : AwgGeometry3) (s : Spans) : List String :=
  ["Jc = " ++ toString g.jc, "Jmin = " ++ toString g.jmin, "Jmax = " ++ toString g.jmax,
    "S1 = " ++ toString g.s1, "S2 = " ++ toString g.s2, "S3 = " ++ toString g.s3,
    "S4 = " ++ toString g.s4,
    "H1 = " ++ span s.h1.lo s.h1.hi, "H2 = " ++ span s.h2.lo s.h2.hi,
    "H3 = " ++ span s.h3.lo s.h3.hi, "H4 = " ++ span s.h4.lo s.h4.hi] ++
  ([("I1", g.i1), ("I2", g.i2), ("I3", g.i3), ("I4", g.i4), ("I5", g.i5)].filter
    fun i => i.2 ≠ "").map (fun i => i.1 ++ " = " ++ i.2) ++
  ["HeaderProtectionKey = " ++ g.headerProtectionKey,
    "ContentPaddingAddition = " ++ span s.cpa.lo s.cpa.hi,
    "RekeyAfterTime = " ++ span s.rekeyAfter.lo s.rekeyAfter.hi,
    "RekeyTimeout = " ++ span s.rekeyTimeout.lo s.rekeyTimeout.hi,
    "RejectAfterTime = " ++ span s.rejectAfter.lo s.rejectAfter.hi,
    "KeepaliveTimeout = " ++ span s.keepalive.lo s.keepalive.hi,
    "MaxHandshakeAttempts = " ++ span s.maxHs.lo s.maxHs.hi,
    "RandomTrailers = on"]

theorem iLines_eq (is : List (String × String)) :
    Agent.iLines is = (is.filter fun i => i.2 ≠ "").map fun i => i.1 ++ " = " ++ i.2 := by
  unfold Agent.iLines
  induction is with
  | nil => rfl
  | cons i is ih =>
    by_cases h : i.2 = ""
    · simpa [h] using ih
    · simpa [h] using ih

/-- The panel's side of a geometry: what it stores the agent reads, checks and renders. -/
def Rendered (g : AwgGeometry3) : Prop :=
  ∃ s geo, spansOf g = some s ∧ Agent.toGeometry g = .ok geo ∧ geo.violations = [] ∧
    geo.validate = .ok () ∧ geo.interfaceLines = .ok (geometryLines g s)

theorem rendered_of_clean (hp : g.Printable) (h : awg3GeometryViolations g = []) : Rendered g := by
  unfold awg3GeometryViolations at h
  split at h
  · cases h
  rename_i s hs
  have hsmall := small_of_clean h
  have hgeo := spans_small hp hs fun a ha => ⟨(hsmall.spans a ha).1.2, (hsmall.spans a ha).2.2⟩
  have hround : s.round = s := by
    have hall (a : Span) (ha : a ∈ s.all) := hsmall.round ha
    simp only [Spans.all, Spans.u16, Spans.timing, Spans.h, List.cons_append, List.nil_append,
      List.forall_mem_cons] at hall
    obtain ⟨h6, h7, h8, h9, h10, h5, h1, h2, h3, h4, -⟩ := hall
    rw [Spans.round, h1, h2, h3, h4, h5, h6, h7, h8, h9, h10]
  have hpos : ∀ a ∈ s.all, 0 ≤ a.lo ∧ 0 ≤ a.hi :=
    fun a ha => ⟨(hsmall.spans a ha).1.1, (hsmall.spans a ha).2.1⟩
  have hviol : (agentGeometry g s).violations = [] := by
    rw [← (violations_eq hp hpos).mpr hsmall.same, hround, h]
  have hvalid := Agent.validate_ok.mpr hviol
  have htrailers : g.randomTrailers = true := by
    have hall := RuleTable.broken_eq_nil.mp h ("random-trailers-on", !g.randomTrailers)
      (by simp [awg3Rules])
    simpa using hall
  refine ⟨s, _, hs, hgeo, hviol, hvalid, ?_⟩
  unfold Agent.Geometry3.interfaceLines
  rw [hvalid, iLines_eq]
  simp only [agentGeometry, htrailers, if_true]
  rfl

end Tables

/-! ## Minted geometries -/

section Minted

variable {s t : String} {fuel k k' : Nat} {r : GeometryRandom}

theorem PrintableText.append (hs : PrintableText s) (ht : PrintableText t) :
    PrintableText (s ++ t) := by
  intro c hc
  rw [String.toList_append, List.mem_append] at hc
  exact hc.elim (hs c) (ht c)

theorem printable_digitChar (h : k < 16) :
    32 ≤ (Nat.digitChar k).toNat ∧ (Nat.digitChar k).toNat ≤ 126 :=
  (by decide : ∀ k : Fin 16, 32 ≤ (Nat.digitChar k).toNat ∧ (Nat.digitChar k).toNat ≤ 126) ⟨k, h⟩

theorem printable_toDigits {b : Nat} (hb : 1 < b) (hb' : b ≤ 16) (n : Nat) :
    ∀ c ∈ Nat.toDigits b n, 32 ≤ c.toNat ∧ c.toNat ≤ 126 := by
  induction n using Nat.strong_induction_on with
  | _ n ih =>
    intro c hc
    rw [Nat.toDigits_eq_if hb] at hc
    split at hc
    · rw [List.mem_singleton.mp hc]
      exact printable_digitChar (by omega)
    · rename_i hn
      rcases List.mem_append.mp hc with hc | hc
      · exact ih (n / b) (Nat.div_lt_self (by omega) hb) c hc
      · rw [List.mem_singleton.mp hc]
        exact printable_digitChar ((Nat.mod_lt n (by omega)).trans_le hb')

theorem printable_nat (n : Nat) : PrintableText (toString n) := by
  intro c hc
  rw [Nat.toString_eq_repr, Nat.toList_repr] at hc
  exact printable_toDigits (by decide) (by decide) n c hc

theorem printable_int (n : Int) : PrintableText (toString n) := by
  cases n with
  | ofNat n => exact printable_nat n
  | negSucc n =>
    have h : toString (Int.negSucc n) = "-" ++ toString (n + 1) := rfl
    rw [h]
    exact .append (by decide) (printable_nat _)

theorem printable_span (lo hi : Int) : PrintableText (span lo hi) := by
  unfold span
  split
  · exact printable_int lo
  · exact ((printable_int lo).append (by decide)).append (printable_int hi)

theorem printable_hexByte (n : Int) : PrintableText (hexByte n) := by
  intro c hc
  rw [hexByte, String.toList_ofList, List.mem_append] at hc
  rcases hc with hc | hc
  · rw [List.eq_of_mem_replicate hc]
    decide
  · exact printable_toDigits (by decide) (by decide) _ c hc

theorem printable_dns (label : Int) : PrintableText (dnsDecoy label) := by
  unfold dnsDecoy
  refine .append (.append (.append (.append (.append (.append ?_ ?_) (printable_hexByte label)) ?_)
    (printable_int label)) ?_) ?_ <;> decide

theorem printable_key (bytes : List Nat) : PrintableText (Base64.encode bytes) := by
  intro c hc
  rw [Base64.encode, String.toList_ofList] at hc
  rcases Base64.mem_encodeChars hc with hc | rfl
  · exact (by decide : ∀ c ∈ Base64.alphabet, 32 ≤ c.toNat ∧ c.toNat ≤ 126) c hc
  · decide

theorem printable_decoys {decoys : List String} (h : ∀ t ∈ decoys, PrintableText t) (i : Nat) :
    PrintableText (decoys.getD i "") := by
  rw [List.getD_eq_getElem?_getD]
  cases hi : decoys[i]? with
  | none => exact (by decide : PrintableText "")
  | some t => exact h t (List.mem_of_getElem? hi)

theorem printable_orders {dns stun noise : String} (hd : PrintableText dns)
    (hs : PrintableText stun) (hn : PrintableText noise) (order count : Nat) :
    ∀ t ∈ ((decoyOrders dns stun noise).getD order []).take count, PrintableText t := by
  intro t ht
  have hmem := List.mem_of_mem_take ht
  rw [List.getD_eq_getElem?_getD] at hmem
  cases ho : (decoyOrders dns stun noise)[order]? with
  | none => simp [ho] at hmem
  | some l =>
    rw [ho, Option.getD_some] at hmem
    have hl := List.mem_of_getElem? ho
    simp only [decoyOrders, List.mem_cons, List.not_mem_nil, or_false] at hl
    rcases hl with rfl | rfl | rfl | rfl | rfl | rfl <;>
      simp only [List.mem_cons, List.not_mem_nil, or_false] at hmem <;>
      rcases hmem with rfl | rfl | rfl <;> assumption

theorem draw_bind {α β : Type} {x : Draw α} {f : α → Draw β} {b : β} :
    (x >>= f) k = some (b, k') ↔ ∃ a j, x k = some (a, j) ∧ f a j = some (b, k') := by
  show (x k).bind (fun p => f p.1 p.2) = some (b, k') ↔ _
  rw [Option.bind_eq_some_iff]
  exact Prod.exists

/-- The text of a range written out. -/
def IsSpan (t : String) : Prop := ∃ lo hi, t = span lo hi

theorem isSpan_int (n : Int) : IsSpan (toString n) := ⟨n, n, by rw [span, if_pos rfl]⟩

theorem IsSpan.printable (h : IsSpan t) : PrintableText t := by
  obtain ⟨lo, hi, rfl⟩ := h
  exact printable_span lo hi

theorem isSpan_randSpan {a b c d : Int} (h : randSpan r a b c d k = some (t, k')) : IsSpan t := by
  obtain ⟨lo, _, -, h⟩ := draw_bind.mp h
  obtain ⟨w, _, -, h⟩ := draw_bind.mp h
  cases h
  exact ⟨_, _, rfl⟩

/-- The ranges of a geometry, as texts. -/
def rangeTexts (g : AwgGeometry3) : List String :=
  [g.h1, g.h2, g.h3, g.h4, g.contentPaddingAddition, g.rekeyAfterTime, g.rekeyTimeout,
    g.rejectAfterTime, g.keepaliveTimeout, g.maxHandshakeAttempts]

theorem drawOnce_texts {mtu : Int} {g : AwgGeometry3} (h : drawOnce r fuel mtu k = some (g, k')) :
    (∀ t ∈ rangeTexts g, IsSpan t) ∧
      ∀ t ∈ [g.i1, g.i2, g.i3, g.i4, g.i5, g.headerProtectionKey], PrintableText t := by
  obtain ⟨hs, _, -, h⟩ := draw_bind.mp h
  obtain ⟨jc, _, -, h⟩ := draw_bind.mp h
  obtain ⟨jmin, _, -, h⟩ := draw_bind.mp h
  obtain ⟨junk, _, -, h⟩ := draw_bind.mp h
  obtain ⟨s1, _, -, h⟩ := draw_bind.mp h
  obtain ⟨s2, _, -, h⟩ := draw_bind.mp h
  obtain ⟨s3, _, -, h⟩ := draw_bind.mp h
  obtain ⟨s4, _, -, h⟩ := draw_bind.mp h
  obtain ⟨label, _, -, h⟩ := draw_bind.mp h
  obtain ⟨noise, _, -, h⟩ := draw_bind.mp h
  obtain ⟨order, _, -, h⟩ := draw_bind.mp h
  obtain ⟨count, _, -, h⟩ := draw_bind.mp h
  obtain ⟨key, _, -, h⟩ := draw_bind.mp h
  obtain ⟨padding, _, -, h⟩ := draw_bind.mp h
  obtain ⟨rekeyAfterTime, _, h1, h⟩ := draw_bind.mp h
  obtain ⟨rekeyTimeout, _, h2, h⟩ := draw_bind.mp h
  obtain ⟨rejectAfterTime, _, h3, h⟩ := draw_bind.mp h
  obtain ⟨keepaliveTimeout, _, h4, h⟩ := draw_bind.mp h
  obtain ⟨maxHandshakeAttempts, _, h5, h⟩ := draw_bind.mp h
  cases h
  have hnoise : PrintableText ("<r " ++ toString noise ++ ">") :=
    .append (.append (by decide) (printable_int noise)) (by decide)
  have hdecoys := printable_orders (printable_dns label) (by decide : PrintableText stunDecoy)
    hnoise order.toNat count.toNat
  have hempty : PrintableText "" := by decide
  simp only [rangeTexts, List.forall_mem_cons, List.not_mem_nil, false_imp_iff, implies_true,
    and_true]
  exact ⟨⟨isSpan_int _, isSpan_int _, isSpan_int _, isSpan_int _, ⟨_, _, rfl⟩, isSpan_randSpan h1,
      isSpan_randSpan h2, isSpan_randSpan h3, isSpan_randSpan h4, isSpan_randSpan h5⟩,
    printable_decoys hdecoys 0, printable_decoys hdecoys 1, printable_decoys hdecoys 2, hempty,
    hempty, printable_key key⟩

theorem drawOnce_printable {mtu : Int}
    {g : AwgGeometry3} (h : drawOnce r fuel mtu k = some (g, k')) : g.Printable := by
  obtain ⟨hranges, hslots⟩ := drawOnce_texts h
  have hmem : ∀ t ∈ g.texts, t ∈ rangeTexts g ∨
      t ∈ [g.i1, g.i2, g.i3, g.i4, g.i5, g.headerProtectionKey] := by
    simp [AwgGeometry3.texts, rangeTexts]
  exact fun t ht => (hmem t ht).elim (fun h => (hranges t h).printable) (hslots t)

end Minted

/-! ## The two sides -/

/-- What is asked of one geometry. -/
structure GeometryAgreed (g : AwgGeometry3) : Prop where
  rendered : awg3GeometryViolations g = [] → Rendered g
  ids : ∀ s geo, spansOf g = some s → Agent.toGeometry g = .ok geo →
    awg3GeometryViolations g = geo.violations

/-- The ranges the agent read. -/
def Agent.Geometry3.spans (geo : Agent.Geometry3) : Spans :=
  ⟨geo.h1, geo.h2, geo.h3, geo.h4, geo.contentPaddingAddition, geo.rekeyAfterTime, geo.rekeyTimeout,
    geo.rejectAfterTime, geo.keepaliveTimeout, geo.maxHandshakeAttempts⟩

/-- **Where the two tables answer the same ids.**  Where both sides read every range, the rules that
add numbers up or compare two ranges come out for the numbers as doubles as they do for 64-bit
integers. -/
def SameNumbers (g : AwgGeometry3) : Prop :=
  ∀ s geo, spansOf g = some s → Agent.toGeometry g = .ok geo → SameInDoubles g geo.spans

/-- **The panel and the node on the geometry of a 3.1 interface.** -/
theorem geometry_agreed (g : AwgGeometry3) :
    (g.Printable → (GeometryAgreed g ↔ SameNumbers g)) ∧
      ∀ (r : GeometryRandom) (fuel : Nat) (mtu : Int),
        mintAwg3Geometry r fuel mtu = some (.ok g) →
          awg3GeometryViolations g = [] ∧ Rendered g := by
  constructor
  · intro hp
    have hids : (∀ s geo, spansOf g = some s → Agent.toGeometry g = .ok geo →
        awg3GeometryViolations g = geo.violations) ↔ SameNumbers g := by
      refine forall_congr' fun s => forall_congr' fun geo => forall_congr' fun hs =>
        forall_congr' fun hg => ?_
      obtain ⟨e, rfl, rfl, he⟩ := spans_both hp hs hg
      rw [awg3GeometryViolations, hs]
      exact violations_eq hp he
    exact ⟨fun h => hids.mp h.ids, fun h => ⟨rendered_of_clean hp, hids.mpr h⟩⟩
  · intro r fuel mtu h
    obtain ⟨hclean, k, k', hdraw⟩ := mint_clean h
    exact ⟨hclean, rendered_of_clean (drawOnce_printable hdraw) hclean⟩

/-! ## Two geometries -/

/-- A source that goes round in every range. -/
def countingRandom : GeometryRandom where
  int k lo hi := lo + (k : Int) % (hi - lo + 1)
  bytes _ n := List.replicate n 0

def countedGeometry : AwgGeometry3 :=
  match mintAwg3Geometry countingRandom 10 1376 with
  | some (.ok g) => g
  | _ => baselineGeometry

theorem geometry_agreed_baseline :
    (GeometryAgreed baselineGeometry ↔ SameNumbers baselineGeometry) ∧
      awg3GeometryViolations countedGeometry = [] ∧ Rendered countedGeometry :=
  ⟨(geometry_agreed baselineGeometry).1 (by decide),
    (geometry_agreed countedGeometry).2 countingRandom 10 1376 (by decide)⟩

/-- Its longest rekey time is below its shortest by one, past what a double tells apart. -/
def invertedGeometry : AwgGeometry3 :=
  { baselineGeometry with rekeyAfterTime := "9007199254740993-9007199254740992" }

/-- **An inverted range is read as one number by the panel**, and only the agent names the rule. -/
theorem inverted_range_unseen : ¬ ∀ g : AwgGeometry3, g.Printable → ∀ s geo, spansOf g = some s →
    Agent.toGeometry g = .ok geo → awg3GeometryViolations g = geo.violations := by
  let e : Spans := ⟨⟨1136172351, 1136272351⟩, ⟨1532791203, 1532891203⟩, ⟨1861209101, 1861309101⟩,
    ⟨2004118712, 2004218712⟩, ⟨1, 32⟩, ⟨9007199254740993, 9007199254740992⟩, ⟨5, 8⟩, ⟨210, 250⟩,
    ⟨10, 17⟩, ⟨12, 18⟩⟩
  intro h
  have heq := h invertedGeometry (by decide) e.round (agentGeometry invertedGeometry e)
    (by decide) (by decide)
  exact absurd heq (by decide)

end Iceslab
