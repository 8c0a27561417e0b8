import Iceslab.AwgClient
import Iceslab.PeersKept

/-!
# An AmneziaWG client runs what its node runs

* `params1`, `params3` — the parameters of a tunnel, by their keys.
-/

set_option autoImplicit false

namespace Iceslab.AwgClient

open IniText
open Agent.Amneziawg (Obfuscation)

/-! ## Parameters -/

/-- The keys the handshake depends on. -/
def paramKeys : List String :=
  ["Jc", "Jmin", "Jmax", "S1", "S2", "S3", "S4", "H1", "H2", "H3", "H4", "I1", "I2", "I3", "I4",
    "I5", "HeaderProtectionKey", "ContentPaddingAddition", "RekeyAfterTime", "RekeyTimeout",
    "RejectAfterTime", "KeepaliveTimeout", "MaxHandshakeAttempts", "RandomTrailers"]

/-- A size that is absent is zero, a packet that is absent is empty. -/
def absent (key : String) : Option String :=
  if key ∈ ["S1", "S2", "S3", "S4"] then some "0"
  else if key ∈ ["I1", "I2", "I3", "I4", "I5"] then some ""
  else none

/-- `I1` to `I5`, the empty ones with them. -/
def slots (i1 i2 i3 i4 i5 : String) : List (String × String) :=
  [("I1", i1), ("I2", i2), ("I3", i3), ("I4", i4), ("I5", i5)]

/-- The parameters of a 1.x tunnel. -/
def params1 (o : Obfuscation) : List (String × String) :=
  [("Jc", toString o.jc), ("Jmin", toString o.jmin), ("Jmax", toString o.jmax),
      ("S1", toString o.s1), ("S2", toString o.s2)] ++
    [("S3", toString o.s3), ("S4", toString o.s4)] ++
    [("H1", toString o.h1), ("H2", toString o.h2), ("H3", toString o.h3), ("H4", toString o.h4)] ++
    slots o.i1 o.i2 o.i3 o.i4 o.i5

/-- The parameters of a 3.1 tunnel. -/
def params3 (g : AwgGeometry3) : List (String × String) :=
  [("Jc", toString g.jc), ("Jmin", toString g.jmin), ("Jmax", toString g.jmax),
      ("S1", toString g.s1), ("S2", toString g.s2), ("S3", toString g.s3), ("S4", toString g.s4),
      ("H1", g.h1), ("H2", g.h2), ("H3", g.h3), ("H4", g.h4)] ++
    slots g.i1 g.i2 g.i3 g.i4 g.i5 ++
    [("HeaderProtectionKey", g.headerProtectionKey),
      ("ContentPaddingAddition", g.contentPaddingAddition), ("RekeyAfterTime", g.rekeyAfterTime),
      ("RekeyTimeout", g.rekeyTimeout), ("RejectAfterTime", g.rejectAfterTime),
      ("KeepaliveTimeout", g.keepaliveTimeout), ("MaxHandshakeAttempts", g.maxHandshakeAttempts),
      ("RandomTrailers", "on")]

/-- What a binding's tunnel runs. -/
def params (o : Obfuscation) : Option AwgGeometry3 → List (String × String)
  | some g => params3 g
  | none => params1 o

section Writers

variable {o : Obfuscation} {g : AwgGeometry3}

theorem nodup_params (geometry : Option AwgGeometry3) :
    ((params o geometry).map Prod.fst).Nodup := by
  cases geometry with
  | none => exact (by decide : ["Jc", "Jmin", "Jmax", "S1", "S2", "S3", "S4", "H1", "H2", "H3", "H4",
      "I1", "I2", "I3", "I4", "I5"].Nodup)
  | some g => exact (by decide : paramKeys.Nodup)

theorem carries_iLines {i1 i2 i3 i4 i5 : String} :
    Carries absent paramKeys (iLines i1 i2 i3 i4 i5) (slots i1 i2 i3 i4 i5) := by
  refine ⟨fun kv hkv _ => (List.mem_filter.mp hkv).1, fun kv hkv => ?_⟩
  by_cases hempty : kv.2 = ""
  · right
    rw [hempty]
    simp only [slots, List.mem_cons, List.not_mem_nil, or_false] at hkv
    rcases hkv with rfl | rfl | rfl | rfl | rfl <;> rfl
  · exact .inl (List.mem_filter.mpr ⟨hkv, by simpa using hempty⟩)

theorem carries_s34Lines : Carries absent paramKeys (s34Lines o)
    [("S3", toString o.s3), ("S4", toString o.s4)] := by
  have hsize {key : String} (n : Int) (hkey : absent key = some "0") : Carries absent paramKeys
      (if n ≠ 0 then [(key, toString n)] else []) [(key, toString n)] := by
    by_cases hn : n = 0
    · subst hn
      refine ⟨nofun, fun kv hkv => .inr ?_⟩
      rw [List.mem_singleton.mp hkv, hkey]
      rfl
    · rw [if_pos hn]
      exact .refl _
  exact (hsize o.s3 rfl).append_both (hsize o.s4 rfl)

theorem carries_conf1 : Carries absent paramKeys (awg1ConfLines o) (params1 o) :=
  (((Carries.refl _).append_both carries_s34Lines).append_both (.refl _)).append_both carries_iLines

theorem carries_obf : Carries absent paramKeys (obf o) (params1 o) := by
  refine carries_conf1.perm ?_
  unfold awg1ConfLines obf
  refine List.Perm.append_right _ ?_
  rw [List.append_assoc]
  exact (List.perm_append_comm.append_left _).trans (by rw [← List.append_assoc]; rfl)

theorem carries_conf3 : Carries absent paramKeys (awg3ClientLines g) (params3 g) :=
  ((Carries.refl _).append_both carries_iLines).append_both (.refl _)

end Writers

/-! ## Texts without a line break -/

section Breaks

variable {s : String}

theorem noBreak_of_printable (h : PrintableText s) : NoBreak s := fun hmem =>
  absurd (h _ hmem).1 (by decide)

theorem noBreak_wgKey (h : isWgKey s = true) : NoBreak s := by
  obtain ⟨body, hs, -, hall⟩ := isWgKey_iff.mp h
  intro hmem
  rw [hs, List.mem_append] at hmem
  rcases hmem with hmem | hmem
  · exact absurd (List.all_eq_true.mp hall _ hmem) (by decide)
  · exact absurd (List.mem_singleton.mp hmem) (by decide)

/-- Breaks would make the text longer than the key it spells. -/
theorem noBreak_validKey (h : Agent.validateWGKey s = true) : NoBreak s := by
  unfold Agent.validateWGKey Base64.decodeString at h
  split at h
  · cases h
  rename_i hlen
  rw [not_not] at hlen
  dsimp only at h
  split at h
  · cases h
  rename_i raw hraw
  split at hraw
  swap
  · cases hraw
  rename_i hok
  cases hraw
  simp only [Bool.and_eq_true, decide_eq_true_eq] at hok h
  obtain ⟨⟨⟨-, -⟩, hpad⟩, hmod⟩ := hok
  rw [Base64.length_bytesOf, List.length_map] at h
  have happ := congrArg List.length (List.takeWhile_append_dropWhile (p := fun c => decide (c ≠ '='))
    (l := s.toList.filter fun c => c ≠ '\r' && c ≠ '\n'))
  rw [List.length_append] at happ
  have hbytes : s.toList.length ≤ 44 := by
    rw [← hlen, GoText.byteLength]
    have hone (cs : List Char) : cs.length ≤ (cs.map Char.utf8Size).sum := by
      induction cs with
      | nil => exact Nat.le_refl 0
      | cons c cs ih =>
        have := Char.utf8Size_pos c
        simp only [List.length_cons, List.map_cons, List.sum_cons]
        omega
    exact hone s.toList
  -- 43 characters of the alphabet and one of padding are all there is room for
  have hfilter : (s.toList.filter fun c => c ≠ '\r' && c ≠ '\n') = s.toList :=
    List.filter_sublist.eq_of_length (by
      have := (List.filter_sublist (p := fun c => c ≠ '\r' && c ≠ '\n') (l := s.toList)).length_le
      omega)
  intro hmem
  rw [← hfilter, List.mem_filter] at hmem
  simp at hmem

theorem noBreak_iField (h : Agent.validateIField s = true) : NoBreak s := fun hmem =>
  absurd (List.all_eq_true.mp h _ hmem) (by decide)

theorem noBreak_int (n : Int) : NoBreak (toString n) := noBreak_of_printable (printable_int n)

theorem noBreak_nat (n : Nat) : NoBreak (toString n) := noBreak_of_printable (printable_nat n)

theorem noBreak_dotted {words : List String} (h : ∀ w ∈ words, NoBreak w) :
    NoBreak (".".intercalate words) := by
  intro hmem
  rw [String.toList_intercalate] at hmem
  refine (IpText.not_mem_joined (by decide : '\n' ≠ '.') (fun w hw => ?_)) hmem
  obtain ⟨word, hword, rfl⟩ := List.mem_map.mp hw
  exact h word hword

theorem noBreak_ip (n : Nat) : NoBreak (intToIp n) := by
  refine noBreak_dotted fun w hw => ?_
  simp only [List.mem_cons, List.not_mem_nil, or_false] at hw
  rcases hw with rfl | rfl | rfl | rfl <;> exact noBreak_nat _

end Breaks

/-! ## The node's lines -/

section Node

variable {o : Obfuscation} {g : AwgGeometry3} {s : Spans}

/-- The 1.x block of the interface. -/
def nodeLines1 (o : Obfuscation) : List (String × String) :=
  [("Jc", toString o.jc), ("Jmin", toString o.jmin), ("Jmax", toString o.jmax),
      ("S1", toString o.s1), ("S2", toString o.s2)] ++
    [("S3", toString o.s3), ("S4", toString o.s4)] ++
    [("H1", toString o.h1), ("H2", toString o.h2), ("H3", toString o.h3), ("H4", toString o.h4)] ++
    iLines o.i1 o.i2 o.i3 o.i4 o.i5

theorem carries_nodeLines1 : Carries absent paramKeys (nodeLines1 o) (params1 o) :=
  (Carries.refl _).append_both carries_iLines

theorem obfuscation_lines (o : Obfuscation) : o.lines = (nodeLines1 o).map lineOf := by
  unfold Obfuscation.lines nodeLines1 iLines
  rw [iLines_eq]
  simp [lineOf, Obfuscation.headers, Obfuscation.signatures]

/-- The ranges of the geometry are spelled as the agent spells them. -/
structure Spelled (g : AwgGeometry3) (s : Spans) : Prop where
  h1 : span s.h1.lo s.h1.hi = g.h1
  h2 : span s.h2.lo s.h2.hi = g.h2
  h3 : span s.h3.lo s.h3.hi = g.h3
  h4 : span s.h4.lo s.h4.hi = g.h4
  cpa : span s.cpa.lo s.cpa.hi = g.contentPaddingAddition
  rekeyAfter : span s.rekeyAfter.lo s.rekeyAfter.hi = g.rekeyAfterTime
  rekeyTimeout : span s.rekeyTimeout.lo s.rekeyTimeout.hi = g.rekeyTimeout
  rejectAfter : span s.rejectAfter.lo s.rejectAfter.hi = g.rejectAfterTime
  keepalive : span s.keepalive.lo s.keepalive.hi = g.keepaliveTimeout
  maxHs : span s.maxHs.lo s.maxHs.hi = g.maxHandshakeAttempts

theorem geometryLines_spelled (h : Spelled g s) :
    geometryLines g s = (awg3ClientLines g).map lineOf := by
  unfold geometryLines awg3ClientLines iLines
  rw [h.h1, h.h2, h.h3, h.h4, h.cpa, h.rekeyAfter, h.rekeyTimeout, h.rejectAfter, h.keepalive,
    h.maxHs]
  simp [lineOf]

end Node

/-! ## Minted ranges -/

section Ranges

variable {n lo hi : Int} {a : Span} {t : String}

/-- A number of digits alone is what they spell. -/
theorem int_of_digits (h : (toString n).toList.all Char.isDigit = true) :
    n = Nat.ofDigitChars 10 (toString n).toList 0 := by
  rcases Names.toList_int n with ⟨hn, hpos⟩ | hn
  · rw [hn, Nat.ofDigitChars_ten_toDigits]
    omega
  · rw [hn] at h
    simp at h

theorem digits_of_noDash (h : '-' ∉ (toString n).toList) :
    (toString n).toList.all Char.isDigit = true := by
  rcases Names.toList_int n with ⟨hn, -⟩ | hn
  · rw [hn, List.all_eq_true]
    exact fun c hc => Nat.isDigit_of_mem_toDigits (by decide) (by decide) hc
  · rw [hn] at h
    simp at h

theorem notSpace_int (n : Int) : ∀ c ∈ (toString n).toList, JsText.isSpace c = false := by
  have hdigit (c : Char) (hc : c ∈ Nat.toDigits 10 n.natAbs) : JsText.isSpace c = false := by
    have hd : c.isDigit = true := Nat.isDigit_of_mem_toDigits (by decide) (by decide) hc
    exact JsText.isSpace_of_isAlphanum (by simp [Char.isAlphanum, hd])
  rcases Names.toList_int n with ⟨hn, -⟩ | hn
  · rw [hn]
    exact hdigit
  · rw [hn]
    exact List.forall_mem_cons.mpr ⟨by decide, hdigit⟩

theorem notSpace_span (lo hi : Int) : ∀ c ∈ (span lo hi).toList, JsText.isSpace c = false := by
  intro c hc
  unfold span at hc
  split at hc
  · exact notSpace_int lo c hc
  · rw [String.toList_append, String.toList_append, List.mem_append, List.mem_append] at hc
    rcases hc with (hc | hc) | hc
    · exact notSpace_int lo c hc
    · rw [List.mem_singleton.mp hc]
      decide
    · exact notSpace_int hi c hc

/-- The digits a written range is read as. -/
theorem spanDigits_span {dl dh : List Char} (h : spanDigits (span lo hi) = some (dl, dh)) :
    lo = Nat.ofDigitChars 10 dl 0 ∧ hi = Nat.ofDigitChars 10 dh 0 := by
  obtain ⟨hne, -, hdl, hdh, htext⟩ := spanDigits_some h
  rw [JsText.trim_of_noSpace (notSpace_span lo hi)] at htext
  unfold span at htext
  by_cases heq : lo = hi
  · subst heq
    rw [if_pos rfl] at htext
    rcases htext with ⟨ht, rfl⟩ | ht
    · rw [← ht] at hdh ⊢
      exact ⟨int_of_digits hdh, int_of_digits hdh⟩
    · exfalso
      rcases Names.toList_int lo with ⟨hlo, -⟩ | hlo
      · rw [hlo] at ht
        have hmem : '-' ∈ Nat.toDigits 10 lo.natAbs := by rw [ht]; simp
        exact absurd (Nat.isDigit_of_mem_toDigits (by decide) (by decide) hmem) (by decide)
      · obtain ⟨d, ds, rfl⟩ := List.exists_cons_of_ne_nil hne
        rw [hlo, List.cons_append] at ht
        rw [← (List.cons.inj ht).1] at hdl
        simp at hdl
  · rw [if_neg heq, String.toList_append, String.toList_append] at htext
    have hsplit : (toString lo).toList ++ '-' :: (toString hi).toList = dl ++ '-' :: dh := by
      rcases htext with ⟨ht, -⟩ | ht
      · exfalso
        refine dash_notMem hdl ?_
        rw [← ht]
        simp
      · simpa using ht
    have hdash : '-' ∉ (toString lo).toList := by
      rcases Names.toList_int lo with ⟨hlo, -⟩ | hlo
      · rw [hlo]
        intro hmem
        exact absurd (Nat.isDigit_of_mem_toDigits (by decide) (by decide) hmem) (by decide)
      · exfalso
        obtain ⟨d, ds, rfl⟩ := List.exists_cons_of_ne_nil hne
        rw [hlo, List.cons_append, List.cons_append] at hsplit
        rw [← (List.cons.inj hsplit).1] at hdl
        simp at hdl
    have hlow := congrArg (List.takeWhile (· ≠ '-')) hsplit
    rw [JsText.takeWhile_ne hdash, JsText.takeWhile_ne (dash_notMem hdl)] at hlow
    rw [hlow] at hsplit
    have hhigh := (List.cons.inj (List.append_cancel_left hsplit)).2
    rw [← hlow, ← hhigh]
    rw [← hhigh] at hdh
    exact ⟨int_of_digits (digits_of_noDash hdash), int_of_digits hdh⟩

/-- A range written is read as its ends, and spelled as it was. -/
theorem span_parseSpan (h : parseSpan (span lo hi) = some a) (hlo : a.lo < 2 ^ 32)
    (hhi : a.hi < 2 ^ 32) : span a.lo a.hi = span lo hi := by
  unfold parseSpan at h
  obtain ⟨⟨dl, dh⟩, hd, rfl⟩ := Option.map_eq_some_iff.mp h
  obtain ⟨h1, h2⟩ := spanDigits_span hd
  simp only [numberOfDigits] at hlo hhi ⊢
  rw [JsNumber.round_lt_iff (by decide)] at hlo hhi
  rw [JsNumber.round_of_safe (by omega), JsNumber.round_of_safe (by omega), ← h1, ← h2]

end Ranges

section Minted

variable {g : AwgGeometry3}

theorem Minted.clean (h : Minted g) : awg3GeometryViolations g = [] := by
  obtain ⟨r, fuel, mtu, h⟩ := h
  exact (mint_clean h).1

theorem Minted.printable (h : Minted g) : g.Printable := by
  obtain ⟨r, fuel, mtu, h⟩ := h
  obtain ⟨-, k, k', hdraw⟩ := mint_clean h
  exact drawOnce_printable hdraw

/-- **What is minted the agent spells as it is stored.** -/
theorem Minted.spelled (h : Minted g) : ∃ s, spansOf g = some s ∧ Spelled g s := by
  obtain ⟨r, fuel, mtu, h⟩ := h
  obtain ⟨hclean, k, k', hdraw⟩ := mint_clean h
  have hspans := (drawOnce_texts hdraw).1
  unfold awg3GeometryViolations at hclean
  split at hclean
  · cases hclean
  rename_i s hs
  have hsmall := small_of_clean hclean
  have hread {t : String} {a : Span} (ht : t ∈ rangeTexts g) (ha : a ∈ s.all)
      (hp : parseSpan t = some a) : span a.lo a.hi = t := by
    obtain ⟨lo, hi, rfl⟩ := hspans t ht
    exact span_parseSpan hp (hsmall.spans a ha).1.2 (hsmall.spans a ha).2.2
  have hall := hs
  simp only [spansOf, Option.bind_eq_bind, Option.bind_eq_some_iff, Option.pure_def,
    Option.some.injEq] at hall
  obtain ⟨h1, e1, h2, e2, h3, e3, h4, e4, cpa, e5, ra, e6, rt, e7, rj, e8, ka, e9, mh, e10, rfl⟩ :=
    hall
  refine ⟨_, hs, ?_, ?_, ?_, ?_, ?_, ?_, ?_, ?_, ?_, ?_⟩
  · exact hread (by simp [rangeTexts]) (by simp [Spans.all, Spans.h]) e1
  · exact hread (by simp [rangeTexts]) (by simp [Spans.all, Spans.h]) e2
  · exact hread (by simp [rangeTexts]) (by simp [Spans.all, Spans.h]) e3
  · exact hread (by simp [rangeTexts]) (by simp [Spans.all, Spans.h]) e4
  · exact hread (by simp [rangeTexts]) (by simp [Spans.all, Spans.u16]) e5
  · exact hread (by simp [rangeTexts]) (by simp [Spans.all, Spans.u16, Spans.timing]) e6
  · exact hread (by simp [rangeTexts]) (by simp [Spans.all, Spans.u16, Spans.timing]) e7
  · exact hread (by simp [rangeTexts]) (by simp [Spans.all, Spans.u16, Spans.timing]) e8
  · exact hread (by simp [rangeTexts]) (by simp [Spans.all, Spans.u16, Spans.timing]) e9
  · exact hread (by simp [rangeTexts]) (by simp [Spans.all, Spans.u16, Spans.timing]) e10

end Minted

/-! ## The file of the node -/

section File

open Agent.Amneziawg
open Checked (bind_eq_ok pure_eq_ok forEach_eq_ok)

variable {held inbound : InboundConfig} {port : Int} {wire : InboundCfgWire} {peers : List Peer}
  {conf : Conf} {o : Obfuscation} {g : AwgGeometry3}

/-- What may be written as settings: one word a key, and no line break in a value. -/
def Clean (kvs : List (String × String)) : Prop := ∀ kv ∈ kvs, IsWord kv.1 ∧ NoBreak kv.2

theorem Clean.append {kvs kvs' : List (String × String)} (h : Clean kvs) (h' : Clean kvs') :
    Clean (kvs ++ kvs') := fun kv hkv => (List.mem_append.mp hkv).elim (h kv) (h' kv)

theorem word_slot {key : String} (h : key ∈ ["I1", "I2", "I3", "I4", "I5"]) : IsWord key :=
  (by decide : ∀ k ∈ ["I1", "I2", "I3", "I4", "I5"], IsWord k) key h

theorem clean_iLines {i1 i2 i3 i4 i5 : String} (h : ∀ i ∈ [i1, i2, i3, i4, i5], NoBreak i) :
    Clean (iLines i1 i2 i3 i4 i5) := by
  simp only [List.forall_mem_cons, List.not_mem_nil, false_imp_iff, implies_true, and_true] at h
  obtain ⟨h1, h2, h3, h4, h5⟩ := h
  intro kv hkv
  have hslot := (List.mem_filter.mp hkv).1
  simp only [List.mem_cons, List.not_mem_nil, or_false] at hslot
  rcases hslot with rfl | rfl | rfl | rfl | rfl
  · exact ⟨word_slot (by simp), h1⟩
  · exact ⟨word_slot (by simp), h2⟩
  · exact ⟨word_slot (by simp), h3⟩
  · exact ⟨word_slot (by simp), h4⟩
  · exact ⟨word_slot (by simp), h5⟩

theorem clean_counts (o : Obfuscation) :
    Clean [("Jc", toString o.jc), ("Jmin", toString o.jmin), ("Jmax", toString o.jmax),
      ("S1", toString o.s1), ("S2", toString o.s2)] := by
  simp only [Clean, List.forall_mem_cons, List.not_mem_nil, false_imp_iff, implies_true, and_true]
  exact ⟨⟨by decide, noBreak_int _⟩, ⟨by decide, noBreak_int _⟩, ⟨by decide, noBreak_int _⟩,
    ⟨by decide, noBreak_int _⟩, ⟨by decide, noBreak_int _⟩⟩

theorem clean_headers (o : Obfuscation) :
    Clean [("H1", toString o.h1), ("H2", toString o.h2), ("H3", toString o.h3),
      ("H4", toString o.h4)] := by
  simp only [Clean, List.forall_mem_cons, List.not_mem_nil, false_imp_iff, implies_true, and_true]
  exact ⟨⟨by decide, noBreak_nat _⟩, ⟨by decide, noBreak_nat _⟩, ⟨by decide, noBreak_nat _⟩,
    ⟨by decide, noBreak_nat _⟩⟩

theorem clean_sizes (o : Obfuscation) : Clean [("S3", toString o.s3), ("S4", toString o.s4)] := by
  simp only [Clean, List.forall_mem_cons, List.not_mem_nil, false_imp_iff, implies_true, and_true]
  exact ⟨⟨by decide, noBreak_int _⟩, ⟨by decide, noBreak_int _⟩⟩

theorem clean_s34Lines (o : Obfuscation) : Clean (s34Lines o) := by
  intro kv hkv
  refine clean_sizes o kv ?_
  unfold s34Lines at hkv
  rcases List.mem_append.mp hkv with hkv | hkv
  · split at hkv
    · rw [List.mem_singleton.mp hkv]
      exact List.mem_cons_self
    · cases hkv
  · split at hkv
    · rw [List.mem_singleton.mp hkv]
      exact List.mem_cons_of_mem _ List.mem_cons_self
    · cases hkv

/-- The packets of an obfuscation hold no line break. -/
def PacketsClean (o : Obfuscation) : Prop := ∀ i ∈ [o.i1, o.i2, o.i3, o.i4, o.i5], NoBreak i

theorem clean_nodeLines1 (h : PacketsClean o) : Clean (nodeLines1 o) :=
  (((clean_counts o).append (clean_sizes o)).append (clean_headers o)).append (clean_iLines h)

theorem clean_conf1 (h : PacketsClean o) : Clean (awg1ConfLines o) :=
  (((clean_counts o).append (clean_s34Lines o)).append (clean_headers o)).append (clean_iLines h)

theorem clean_conf3 (h : g.Printable) : Clean (awg3ClientLines g) := by
  have htext {t : String} (ht : t ∈ g.texts) : NoBreak t := noBreak_of_printable (h t ht)
  have hints (n : Int) : NoBreak (toString n) := noBreak_int n
  refine Clean.append (Clean.append ?_ (clean_iLines fun i hi => htext ?_)) ?_
  · simp only [Clean, List.forall_mem_cons, List.not_mem_nil, false_imp_iff, implies_true, and_true]
    exact ⟨⟨by decide, hints _⟩, ⟨by decide, hints _⟩, ⟨by decide, hints _⟩, ⟨by decide, hints _⟩,
      ⟨by decide, hints _⟩, ⟨by decide, hints _⟩, ⟨by decide, hints _⟩,
      ⟨by decide, htext (by simp [AwgGeometry3.texts])⟩,
      ⟨by decide, htext (by simp [AwgGeometry3.texts])⟩,
      ⟨by decide, htext (by simp [AwgGeometry3.texts])⟩,
      ⟨by decide, htext (by simp [AwgGeometry3.texts])⟩⟩
  · simp only [List.mem_cons, List.not_mem_nil, or_false] at hi
    rcases hi with rfl | rfl | rfl | rfl | rfl <;> simp [AwgGeometry3.texts]
  · simp only [Clean, List.forall_mem_cons, List.not_mem_nil, false_imp_iff, implies_true, and_true]
    exact ⟨⟨by decide, htext (by simp [AwgGeometry3.texts])⟩,
      ⟨by decide, htext (by simp [AwgGeometry3.texts])⟩,
      ⟨by decide, htext (by simp [AwgGeometry3.texts])⟩,
      ⟨by decide, htext (by simp [AwgGeometry3.texts])⟩,
      ⟨by decide, htext (by simp [AwgGeometry3.texts])⟩,
      ⟨by decide, htext (by simp [AwgGeometry3.texts])⟩,
      ⟨by decide, htext (by simp [AwgGeometry3.texts])⟩,
      ⟨by decide, by unfold NoBreak; decide⟩⟩

theorem noBreak_hook {cmd : String} (h : validatePostHook cmd = .ok ()) : NoBreak cmd := by
  unfold validatePostHook at h
  split at h
  · rename_i hempty
    rw [hempty]
    unfold NoBreak
    decide
  · split at h
    · cases h
    · rename_i hfind
      have hmem := List.find?_eq_none.mp hfind '\n' (by decide)
      exact fun h => hmem (by simpa using h)

theorem noBreak_hooks {refuse : HookRefusal → RenderRefusal} {cmds : List String}
    (h : checkHooks refuse cmds = .ok ()) : ∀ cmd ∈ cmds, NoBreak cmd := by
  intro cmd hcmd
  have hok := forEach_eq_ok.mp h cmd hcmd
  split at hok
  · cases hok
  · rename_i hvalid
    exact noBreak_hook hvalid

/-- The settings of a rendered interface. -/
structure NodeSettings (conf : Conf) (block : List (String × String)) (kvs : List (String × String)) :
    Prop where
  clean : Clean kvs
  lines : ∃ rest, conf.lines = "[Interface]" :: kvs.map lineOf ++ rest ∧
    (rest = [] ∨ ∃ next more, rest = "" :: next :: more ∧ NoBreak next ∧ next.toList.head? = some '[')
  block : ∃ first last, kvs = first ++ block ++ last ∧ (∀ kv ∈ first, kv.1 ∉ "MTU" :: paramKeys) ∧
    ∀ kv ∈ last, kv.1 ∉ "MTU" :: paramKeys

/-- What the agent has checked of an inbound it renders, and the lines it writes. -/
theorem nodeSettings (block : List (String × String))
    (hconf : renderConfig inbound peers = .ok conf) (haddress : NoBreak inbound.address)
    (hclean : Clean block) (hblock : inbound.withDefaults.block = .ok (block.map lineOf)) :
    ∃ kvs, NodeSettings conf block kvs := by
  obtain ⟨hi, hpeers, -⟩ := renderConfig_ok hconf
  simp only [renderInterface, bind_eq_ok, pure_eq_ok] at hi
  obtain ⟨_, hvalid, lines, hlines, hooks, hhooks, _, hup, _, hdown, heq⟩ := hi
  rw [hblock] at hlines
  cases hlines
  have hkey : NoBreak inbound.privateKey := by
    unfold InboundConfig.validate at hvalid
    split at hvalid
    · cases hvalid
    split at hvalid
    · cases hvalid
    rename_i hk
    exact noBreak_validKey (by simpa using hk)
  have hups := noBreak_hooks hup
  have hdowns := noBreak_hooks hdown
  have hsettings : conf.settings = ["PrivateKey = " ++ inbound.privateKey,
      "ListenPort = " ++ toString inbound.withDefaults.listenPort,
      "Address = " ++ inbound.address] ++ block.map lineOf := (congrArg Conf.settings heq).symm
  have hpostUp : conf.postUp = inbound.withDefaults.postUp := (congrArg Conf.postUp heq).symm
  have hchain : conf.chain = hooks := (congrArg Conf.chain heq).symm
  have hpostDown : conf.postDown = inbound.withDefaults.postDown :=
    (congrArg Conf.postDown heq).symm
  obtain ⟨ups, hupsDef⟩ : ∃ ups, ups = conf.postUp ++ conf.chain.up.map ChainRule.addLine := ⟨_, rfl⟩
  obtain ⟨downs, hdownsDef⟩ : ∃ downs, downs = conf.chain.down.map ChainRule.delLine ++ conf.postDown :=
    ⟨_, rfl⟩
  refine ⟨[("PrivateKey", inbound.privateKey),
      ("ListenPort", toString inbound.withDefaults.listenPort), ("Address", inbound.address)] ++ block ++
    (ups.map (fun cmd => ("PostUp", cmd)) ++ downs.map fun cmd => ("PostDown", cmd)), ?_, ?_, ?_⟩
  · refine Clean.append (Clean.append ?_ hclean) (Clean.append ?_ ?_)
    · simp only [Clean, List.forall_mem_cons, List.not_mem_nil, false_imp_iff, implies_true, and_true]
      exact ⟨⟨by decide, hkey⟩, ⟨by decide, noBreak_int _⟩, ⟨by decide, haddress⟩⟩
    · intro kv hkv
      obtain ⟨cmd, hcmd, rfl⟩ := List.mem_map.mp hkv
      refine ⟨(by decide : IsWord "PostUp"), hups cmd ?_⟩
      rwa [hupsDef, hpostUp, hchain] at hcmd
    · intro kv hkv
      obtain ⟨cmd, hcmd, rfl⟩ := List.mem_map.mp hkv
      refine ⟨(by decide : IsWord "PostDown"), hdowns cmd ?_⟩
      rwa [hdownsDef, hpostDown, hchain] at hcmd
  · refine ⟨conf.peers.flatMap peerLines, ?_, ?_⟩
    · unfold Conf.lines
      rw [hsettings, ← hupsDef, ← hdownsDef]
      simp [lineOf, Function.comp_def]
    · cases hp : conf.peers with
      | nil => exact .inl rfl
      | cons p ps =>
        exact .inr ⟨"[Peer]", _, rfl, by unfold NoBreak; decide, by decide⟩
  · refine ⟨_, _, rfl, ?_, ?_⟩
    · simp only [List.forall_mem_cons, List.not_mem_nil, false_imp_iff, implies_true, and_true]
      exact ⟨(by decide : "PrivateKey" ∉ "MTU" :: paramKeys),
        (by decide : "ListenPort" ∉ "MTU" :: paramKeys), (by decide : "Address" ∉ "MTU" :: paramKeys)⟩
    · intro kv hkv
      rcases List.mem_append.mp hkv with hkv | hkv
      · obtain ⟨cmd, -, rfl⟩ := List.mem_map.mp hkv
        exact (by decide : "PostUp" ∉ "MTU" :: paramKeys)
      · obtain ⟨cmd, -, rfl⟩ := List.mem_map.mp hkv
        exact (by decide : "PostDown" ∉ "MTU" :: paramKeys)

/-- The setting of a key in the `[Interface]` section of a file. -/
def interfaceValue (text key : String) : Option String :=
  value (sectionLines "[Interface]" text) key

/-- The parameter a file sets, by its setting or its absence. -/
def fileParam (text key : String) : Option String := param absent key (interfaceValue text key)

theorem word_key {key : String} (h : key ∈ "MTU" :: "Address" :: paramKeys) : ' ' ∉ key.toList :=
  (by decide : ∀ k ∈ "MTU" :: "Address" :: paramKeys, ' ' ∉ k.toList) key h

section Read

variable {block kvs full : List (String × String)} {key : String}

theorem NodeSettings.read (h : NodeSettings conf block kvs)
    (hkey : key ∈ "MTU" :: "Address" :: paramKeys) :
    interfaceValue (unlines conf.lines) key = kvs.lookup key := by
  obtain ⟨rest, hlines, hrest⟩ := h.lines
  rw [interfaceValue, hlines]
  exact value_section (by unfold NoBreak; decide) (word_key hkey) h.clean hrest

theorem NodeSettings.param (h : NodeSettings conf block kvs)
    (hcarries : Carries absent paramKeys block full) (hfull : (full.map Prod.fst).Nodup)
    (hkey : key ∈ paramKeys) :
    fileParam (unlines conf.lines) key = param absent key (full.lookup key) := by
  obtain ⟨first, last, hkvs, hfirst, hlast⟩ := h.block
  have hall : Carries absent paramKeys kvs full := by
    rw [hkvs]
    exact (hcarries.prepend fun kv hkv hmem => hfirst kv hkv (List.mem_cons_of_mem _ hmem)).append
      fun kv hkv hmem => hlast kv hkv (List.mem_cons_of_mem _ hmem)
  rw [fileParam, h.read (List.mem_cons_of_mem _ (List.mem_cons_of_mem _ hkey))]
  exact param_eq hfull hall hkey

theorem NodeSettings.mtu (h : NodeSettings conf block kvs) :
    interfaceValue (unlines conf.lines) "MTU" = block.lookup "MTU" := by
  obtain ⟨first, last, hkvs, hfirst, hlast⟩ := h.block
  have hnone {l : List (String × String)} (hl : ∀ kv ∈ l, kv.1 ∉ "MTU" :: paramKeys) :
      l.lookup "MTU" = none :=
    lookup_eq_none fun kv hkv heq => hl kv hkv (heq ▸ List.mem_cons_self)
  rw [h.read List.mem_cons_self, hkvs, List.lookup_append, List.lookup_append, hnone hfirst,
    hnone hlast, Option.none_or, Option.or_none]

end Read

/-! ## The inbound of a binding -/

theorem noBreak_serverAddress {subnet address : String}
    (h : serverAddressFromSubnet subnet = .ok address) : NoBreak address := by
  unfold serverAddressFromSubnet at h
  split at h
  · cases h
  split at h
  · cases h
  · cases h
    refine NoBreak.append (NoBreak.append (noBreak_dotted fun w hw => ?_)
      (by unfold NoBreak; decide)) (noBreak_nat _)
    obtain ⟨byte, -, rfl⟩ := List.mem_map.mp hw
    exact noBreak_nat _

theorem packetsClean_of_validate (h : o.validate = .ok ()) : PacketsClean o := by
  unfold Obfuscation.validate at h
  simp only [bind_eq_ok] at h
  obtain ⟨_, -, h⟩ := h
  split at h
  · cases h
  split at h
  · cases h
  have hall := forEach_eq_ok.mp h
  have hpacket (name : String) {i : String} (hmem : (name, i) ∈ o.signatures) : NoBreak i := by
    have hi := hall _ hmem
    split at hi
    · rename_i hvalid
      exact noBreak_iField hvalid
    · cases hi
  simp only [PacketsClean, List.forall_mem_cons, List.not_mem_nil, false_imp_iff, implies_true,
    and_true]
  exact ⟨hpacket "I1" (by simp [Obfuscation.signatures]),
    hpacket "I2" (by simp [Obfuscation.signatures]),
    hpacket "I3" (by simp [Obfuscation.signatures]),
    hpacket "I4" (by simp [Obfuscation.signatures]),
    hpacket "I5" (by simp [Obfuscation.signatures])⟩

theorem obfuscation_valid (h : inbound.validate = .ok ()) (hg : inbound.geometry = none) :
    inbound.obfuscation.validate = .ok () := by
  unfold InboundConfig.validate at h
  split at h
  · cases h
  split at h
  · cases h
  · rwa [hg] at h

theorem toGeometry_mtu {geo : Agent.Geometry3} (h : Agent.toGeometry g = .ok geo) :
    geo.mtu = g.mtu := by
  simp only [Agent.toGeometry, bind_eq_ok, pure_eq_ok] at h
  obtain ⟨_, -, _, -, _, -, _, -, _, -, _, -, _, -, _, -, _, -, _, -, rfl⟩ := h
  rfl

/-- The block of the tunnel a binding has with a geometry. -/
def tunnelBlock (o : Obfuscation) : Option AwgGeometry3 → List (String × String)
  | some g => ("MTU", toString g.mtu) :: awg3ClientLines g
  | none => nodeLines1 o

variable {b : AwgBinding} {geometry : Option AwgGeometry3}

/-- **What the agent makes of a pushed binding.** -/
theorem wire_block (hin : pushedInbound held port (b.wire geometry) = .ok inbound)
    (hconf : renderConfig inbound peers = .ok conf) (hobf : b.config.obfuscation = some o)
    (h3 : b.is3 = true → geometry.isSome = true) (hmint : ∀ g, geometry = some g → Minted g) :
    ∃ kvs, NodeSettings conf (tunnelBlock o (if b.is3 then geometry else none)) kvs ∧
      (b.is3 = false → PacketsClean o) := by
  unfold pushedInbound at hin
  split at hin
  · cases hin
  rename_i new hnew
  cases hin
  simp only [InboundCfgWire.toInboundConfig, bind_eq_ok, pure_eq_ok] at hnew
  obtain ⟨address, haddress, geo, hgeo, rfl⟩ := hnew
  have hbreak := noBreak_serverAddress haddress
  by_cases hb : b.is3 = true
  · obtain ⟨g, rfl⟩ := Option.isSome_iff_exists.mp (h3 hb)
    have hg := hmint g rfl
    obtain ⟨s, hs, hspelled⟩ := hg.spelled
    obtain ⟨s', geo', hs', hto, -, -, hlines⟩ := rendered_of_clean hg.printable hg.clean
    rw [hs] at hs'
    cases hs'
    have hgeo' : geo = some geo' := by
      have heq := hgeo.symm
      simp only [InboundCfgWire.geometry, AwgBinding.wire, hb] at heq
      simp only [Option.isSome_some, and_self, if_true, OfNat.ofNat_ne_zero, false_or] at heq
      rw [if_neg (by decide), hto] at heq
      exact Except.ok.inj heq
    subst hgeo'
    rw [if_pos hb]
    refine (nodeSettings (tunnelBlock o (some g)) hconf hbreak
      (List.forall_mem_cons.mpr ⟨⟨(by decide : IsWord "MTU"), noBreak_int _⟩,
        clean_conf3 hg.printable⟩) ?_).imp
      fun kvs hkvs => ⟨hkvs, fun h => absurd (h.symm.trans hb) (by decide)⟩
    unfold InboundConfig.block InboundConfig.withDefaults
    dsimp only
    rw [hlines, geometryLines_spelled hspelled]
    dsimp only
    rw [toGeometry_mtu hto]
    simp [tunnelBlock, lineOf]
  · rw [Bool.not_eq_true] at hb
    have hgeo' : geo = none := by
      simp only [InboundCfgWire.geometry, AwgBinding.wire, hb] at hgeo
      simpa using hgeo.symm
    subst hgeo'
    have hpackets : PacketsClean o := by
      obtain ⟨hi, -, -⟩ := renderConfig_ok hconf
      simp only [renderInterface, bind_eq_ok] at hi
      obtain ⟨_, hvalid, -⟩ := hi
      refine packetsClean_of_validate ?_
      have hobfuscation := obfuscation_valid hvalid rfl
      rwa [show (b.wire geometry).obfuscation = o by simp [AwgBinding.wire, hobf]] at hobfuscation
    rw [if_neg (by simp [hb])]
    refine (nodeSettings (tunnelBlock o none) hconf hbreak (clean_nodeLines1 hpackets)
      ?_).imp fun kvs hkvs => ⟨hkvs, fun _ => hpackets⟩
    unfold InboundConfig.block InboundConfig.withDefaults
    dsimp only
    rw [show (b.wire geometry).obfuscation = o by simp [AwgBinding.wire, hobf], obfuscation_lines]
    rfl

end File

end Iceslab.AwgClient
