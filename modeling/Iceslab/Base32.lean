import Iceslab.Lib.BitRegister
import Iceslab.Lib.ByteBits
import Iceslab.Totp

/-!
# Base32 is lossless

`base32Encode` and `base32Decode` of `totp.ts` against the encoding of RFC 4648: the bits in groups
of five, the last group filled up with zeros.  Both loops keep every bit they were given in a
register of 32, and read the lowest alone.

* `rfcBase32` — the encoding, padded to a multiple of eight characters.
* `Respelled` — a text in other letters, small for capital, and with separators.
* `encode_spec`, `decode_spec` — the loops regroup the bits.
* `base32_lossless` — what is encoded is read back, however it is spelled.
-/

set_option autoImplicit false

namespace Iceslab.Totp

open BitRegister ByteBits

/-! ## The encoding of the standard -/

/-- The letters stand for 0 to 25, the digits 2 to 7 for 26 to 31. -/
def rfcChar (v : Nat) : Char :=
  if v < 26 then Char.ofNat ('A'.toNat + v) else Char.ofNat ('2'.toNat + (v - 26))

/-- The values of the groups of five, the last one filled up with zeros. -/
def quintets (bits : List Bool) : List Nat :=
  (groups 4 bits).map fun g => ofBits (g ++ List.replicate (5 - g.length) false)

def rfcBase32 (bytes : List UInt8) : List Char :=
  let text := (quintets (bitsOf bytes)).map rfcChar
  text ++ List.replicate ((8 - text.length % 8) % 8) '='

/-! ## Other spellings -/

/-- No letter A to Z in either case, no digit 2 to 7, and nothing whose capitals hold a letter. -/
structure IsSeparator (c : Char) : Prop where
  letter : c.isAlpha = false
  digit : ¬ ('2' ≤ c ∧ c ≤ '7')
  special : specialCapitals.lookup c.toNat = none

/-- The second text is the first in small letters at some places and with separators at others. -/
inductive Respelled : List Char → List Char → Prop
  | nil : Respelled [] []
  | same {s t : List Char} (c : Char) : Respelled s t → Respelled (c :: s) (c :: t)
  | lower {s t : List Char} {c : Char} :
      c.isUpper = true → Respelled s t → Respelled (c :: s) (c.toLower :: t)
  | separator {s t : List Char} {c : Char} : IsSeparator c → Respelled s t → Respelled s (c :: t)

/-! ## The alphabet -/

theorem base32Char_eq : ∀ v < 32, base32Char v = rfcChar v := by decide

theorem findIdx?_rfcChar : ∀ v < 32, base32Alphabet.toList.findIdx? (· = rfcChar v) = some v := by
  decide

theorem mem_base32Alphabet : ∀ v < 32, rfcChar v ∈ base32Alphabet.toList := by decide

theorem rfcChar_ne_pad : ∀ v < 32, rfcChar v ≠ '=' := by decide

theorem isBase32_rfcChar : ∀ v < 32, isBase32 (rfcChar v) = true := by decide

theorem capitals_rfcChar : ∀ v < 32, capitals (rfcChar v) = [rfcChar v] := by decide

/-! ## Groups of five -/

variable {bits g : List Bool}

theorem quintet_lt (h : g.length ≤ 5) : ofBits (g ++ List.replicate (5 - g.length) false) < 32 := by
  have hlt := ofBits_lt (g ++ List.replicate (5 - g.length) false)
  rw [List.length_append, List.length_replicate, Nat.add_sub_cancel' h] at hlt
  exact hlt

variable {pending : List Bool}

theorem quintets_append (h : 5 ≤ bits.length) (more : List Bool) :
    quintets (bits ++ more) = ofBits (bits.take 5) :: quintets (bits.drop 5 ++ more) := by
  rw [quintets, groups_append 4 h, List.map_cons, List.length_take, Nat.min_eq_left h,
    Nat.sub_self, List.replicate_zero, List.append_nil]
  rfl

theorem quintets_short (hne : bits ≠ []) (h : bits.length ≤ 5) :
    quintets bits = [ofBits (bits ++ List.replicate (5 - bits.length) false)] := by
  rw [quintets, groups_of_ne_nil 4 hne, List.take_of_length_le h, List.drop_of_length_le h,
    groups_nil]
  rfl

theorem length_groups_le {w : Nat} (h : g ∈ groups w bits) : g.length ≤ w + 1 := by
  fun_induction groups w bits with
  | case1 => cases h
  | case2 b rest ih =>
    rcases List.mem_cons.mp h with rfl | hg
    · rw [List.length_cons, List.length_take]
      omega
    · exact ih hg

theorem mem_quintets_lt {v : Nat} (h : v ∈ quintets bits) : v < 32 := by
  obtain ⟨g, hg, rfl⟩ := List.mem_map.mp h
  exact quintet_lt (length_groups_le hg)

theorem toBits_quintet (h : g.length ≤ 5) :
    toBits 5 (ofBits (g ++ List.replicate (5 - g.length) false))
      = g ++ List.replicate (5 - g.length) false := by
  have hback := toBits_ofBits (g ++ List.replicate (5 - g.length) false)
  rw [List.length_append, List.length_replicate, Nat.add_sub_cancel' h] at hback
  exact hback

/-- The groups hold the bits, and fewer than five zeros after them. -/
theorem flatMap_quintets (bits : List Bool) :
    ∃ k < 5, (quintets bits).flatMap (toBits 5) = bits ++ List.replicate k false := by
  induction hlen : bits.length using Nat.strongRecOn generalizing bits with
  | _ n ih =>
    by_cases hnil : bits = []
    · subst hnil
      exact ⟨0, by decide, by rw [quintets, groups_nil]; rfl⟩
    · have hpos := List.length_pos_of_ne_nil hnil
      by_cases hle : bits.length ≤ 5
      · refine ⟨5 - bits.length, by omega, ?_⟩
        rw [quintets_short hnil hle, List.flatMap_singleton, toBits_quintet hle]
      · obtain ⟨k, hk, hrest⟩ := ih (bits.drop 5).length (by rw [List.length_drop]; omega) _ rfl
        have hfive : (bits.take 5).length = 5 := by
          rw [List.length_take]
          omega
        have hfirst := toBits_ofBits (bits.take 5)
        have hlong : 5 ≤ bits.length := by omega
        have hgroups := quintets_append hlong []
        rw [List.append_nil, List.append_nil] at hgroups
        rw [hfive] at hfirst
        refine ⟨k, hk, ?_⟩
        rw [hgroups, List.flatMap_cons, hfirst, hrest, ← List.append_assoc, List.take_append_drop]

/-! ## The encoder -/

/-- What the loop gives up are the groups of the bits it held. -/
theorem drain_spec {value bits : Nat} (h : HoldsBits value bits pending) (out : List Char) :
    ∃ rest, HoldsBits value (base32Drain value bits out).1 rest ∧ (base32Drain value bits out).1 < 5
      ∧ ∀ more, (base32Drain value bits out).2 ++ (quintets (rest ++ more)).map rfcChar
        = out ++ (quintets (pending ++ more)).map rfcChar := by
  fun_induction base32Drain value bits out generalizing pending with
  | case1 bits out hle ih =>
    have hsplit : HoldsBits value (bits - 5 + 5) pending := by
      rw [Nat.sub_add_cancel hle]
      exact h
    have hread := hsplit.read
    obtain ⟨rest, hrest, hlt, hout⟩ := ih hread.2
    refine ⟨rest, hrest, hlt, ?_⟩
    intro more
    have hlen : 5 ≤ pending.length := by
      rw [h.count]
      exact hle
    have hdigit : value / 2 ^ (bits - 5) % 32 = ofBits (pending.take 5) := hread.1
    have hvalue : ofBits (pending.take 5) < 32 := by
      rw [← hdigit]
      exact Nat.mod_lt _ (by decide)
    rw [hout, quintets_append hlen, hdigit, base32Char_eq _ hvalue, List.map_cons,
      List.append_assoc]
    rfl
  | case2 bits out hlt => exact ⟨pending, h, Nat.lt_of_not_le hlt, fun more => rfl⟩

theorem byteBits_eq (b : UInt8) : byteBits b = toBits 8 b.toNat := rfl

/-- Pushed bytes come out as the groups of their bits, behind those the register held. -/
theorem pushBytes_spec (bytes : List UInt8) (st : Base32Text)
    (h : HoldsBits st.value st.bits pending) (hbits : st.bits < 5) :
    ∃ rest,
      HoldsBits (bytes.foldl base32PushByte st).value (bytes.foldl base32PushByte st).bits rest
      ∧ (bytes.foldl base32PushByte st).bits < 5
      ∧ (bytes.foldl base32PushByte st).out ++ (quintets rest).map rfcChar
        = st.out ++ (quintets (pending ++ bitsOf bytes)).map rfcChar := by
  induction bytes generalizing st pending with
  | nil => exact ⟨pending, h, hbits, by rw [bitsOf_nil, List.append_nil]; rfl⟩
  | cons byte bytes ih =>
    have hpush := h.push (W := 32) (w := 8) byte.toNat_lt (by omega)
    obtain ⟨rest, hrest, hlt, hout⟩ := drain_spec hpush st.out
    obtain ⟨last, hlast, hlt', hout'⟩ := ih (base32PushByte st byte) hrest hlt
    refine ⟨last, hlast, hlt', ?_⟩
    rw [List.foldl_cons, hout']
    show (base32PushByte st byte).out ++ _ = _
    rw [bitsOf_cons, byteBits_eq, ← List.append_assoc]
    exact hout (bitsOf bytes)

theorem encode_spec (bytes : List UInt8) :
    base32Encode bytes = String.ofList ((quintets (bitsOf bytes)).map rfcChar) := by
  obtain ⟨rest, hrest, hlt, hout⟩ :=
    pushBytes_spec bytes ⟨0, 0, []⟩ holdsBits_empty (Nat.zero_lt_succ 4)
  rw [List.nil_append, List.nil_append] at hout
  rw [base32Encode, ← hout]
  congr 1
  have hcount := hrest.count
  split
  · rename_i hpos
    have hne : rest ≠ [] := List.ne_nil_of_length_pos (by omega)
    have hpad := hrest.pad (W := 32) (k := 5) (by omega) (by decide)
    have hvalue := quintet_lt (g := rest) (by omega)
    rw [quintets_short hne (by omega), List.map_singleton, hcount, ← hpad, ← base32Char_eq]
    · rfl
    · exact Nat.mod_lt _ (by decide)
  · rename_i hzero
    have hnil : rest = [] := List.eq_nil_of_length_eq_zero (by omega)
    rw [hnil, quintets, groups_nil]
    exact (List.append_nil _).symm

/-! ## The decoder -/

/-- The bytes whose bits are all there. -/
def wholeBytes (bits : List Bool) : List UInt8 :=
  ((groups 7 bits).filter fun g => decide (g.length = 8)).map fun g => UInt8.ofNat (ofBits g)

theorem wholeBytes_append (h : 8 ≤ bits.length) (more : List Bool) :
    wholeBytes (bits ++ more)
      = UInt8.ofNat (ofBits (bits.take 8)) :: wholeBytes (bits.drop 8 ++ more) := by
  have hlen : (bits.take (7 + 1)).length = 8 := by
    rw [List.length_take]
    omega
  rw [wholeBytes, groups_append 7 h, List.filter_cons, if_pos (decide_eq_true hlen)]
  rfl

theorem wholeBytes_short (h : bits.length < 8) : wholeBytes bits = [] := by
  by_cases hnil : bits = []
  · rw [hnil, wholeBytes, groups_nil]
    rfl
  · rw [wholeBytes, groups_of_ne_nil 7 hnil, List.take_of_length_le (by omega),
      List.drop_of_length_le (by omega), groups_nil, List.filter_cons_of_neg]
    · rfl
    · rw [decide_eq_true_iff]
      omega

/-- The bits of bytes, and too few for another, are the bytes. -/
theorem wholeBytes_bitsOf (bytes : List UInt8) {rest : List Bool} (h : rest.length < 8) :
    wholeBytes (bitsOf bytes ++ rest) = bytes := by
  induction bytes with
  | nil => exact wholeBytes_short h
  | cons b bytes ih =>
    have hbyte : UInt8.ofNat (ofBits (byteBits b)) = b := by
      rw [byteBits_eq, ofBits_toBits, Nat.mod_eq_of_lt b.toNat_lt, UInt8.ofNat_toNat]
    rw [bitsOf_cons, List.append_assoc, wholeBytes_append (by rw [length_byteBits]),
      List.take_of_length_le (by rw [length_byteBits]), List.drop_of_length_le (by
        rw [length_byteBits]), hbyte, List.nil_append, ih]

theorem base32Push_rfcChar {v : Nat} (hv : v < 32) (st : Base32State) :
    base32Push st (rfcChar v)
      = if st.bits + 5 ≥ 8 then
          ⟨st.bits + 5 - 8, (st.value * 32 + v) % 2 ^ 32, st.out
            ++ [UInt8.ofNat ((st.value * 32 + v) % 2 ^ 32 / 2 ^ (st.bits + 5 - 8) % 256)]⟩
        else ⟨st.bits + 5, (st.value * 32 + v) % 2 ^ 32, st.out⟩ := by
  rw [base32Push, findIdx?_rfcChar v hv]

/-- Read values come out as the bytes of their bits, behind those the register held. -/
theorem decode_spec {vs : List Nat} (hvs : ∀ v ∈ vs, v < 32) {st : Base32State}
    (h : HoldsBits st.value st.bits pending) (hbits : st.bits < 8) :
    ((vs.map rfcChar).foldl base32Push st).out
      = st.out ++ wholeBytes (pending ++ vs.flatMap (toBits 5)) := by
  induction vs generalizing st pending with
  | nil =>
    have hshort : wholeBytes pending = [] := wholeBytes_short (by rw [h.count]; exact hbits)
    rw [List.flatMap_nil, List.append_nil, hshort, List.append_nil]
    rfl
  | cons v vs ih =>
    have hv := hvs v List.mem_cons_self
    have hpush := h.push (W := 32) (w := 5) hv (by omega)
    have hrest : ∀ v' ∈ vs, v' < 32 := fun v' hv' => hvs v' (List.mem_cons_of_mem v hv')
    rw [List.map_cons, List.foldl_cons, base32Push_rfcChar hv, List.flatMap_cons,
      ← List.append_assoc]
    split
    · rename_i hfull
      -- eight bits are there: the oldest come out, and at most four stay
      have hsplit : HoldsBits ((st.value * 2 ^ 5 + v) % 2 ^ 32) (st.bits + 5 - 8 + 8)
          (pending ++ toBits 5 v) := by
        rw [Nat.sub_add_cancel hfull]
        exact hpush
      have hread := hsplit.read
      have hlen : 8 ≤ (pending ++ toBits 5 v).length := by
        rw [hpush.count]
        exact hfull
      have hkept : st.bits + 5 - 8 < 8 := by omega
      rw [ih hrest hread.2 hkept, wholeBytes_append hlen, ← hread.1, List.append_assoc]
      rfl
    · rename_i hshort
      have hkept : st.bits + 5 < 8 := by omega
      rw [ih hrest hpush hkept]

/-! ## Spelling -/

theorem base32Clean_symbols {vs : List Nat} (hvs : ∀ v ∈ vs, v < 32) :
    base32Clean (String.ofList (vs.map rfcChar)) = vs.map rfcChar := by
  rw [base32Clean, String.toList_ofList, List.flatMap_map]
  induction vs with
  | nil => rfl
  | cons v vs ih =>
    have hv := hvs v List.mem_cons_self
    rw [List.flatMap_cons, capitals_rfcChar v hv, List.singleton_append,
      List.filter_cons_of_pos (isBase32_rfcChar v hv), List.map_cons]
    rw [ih fun v' hv' => hvs v' (List.mem_cons_of_mem v hv')]

theorem capitals_toLower {c : Char} (h : c.isUpper = true) : capitals c.toLower = capitals c := by
  have hall : ∀ n < 91, 65 ≤ n → capitals (Char.ofNat n).toLower = capitals (Char.ofNat n) := by
    decide
  have hrange : 65 ≤ c.toNat ∧ c.toNat < 91 := by
    unfold Char.isUpper at h
    simp only [decide_eq_true_eq, UInt32.le_iff_toNat_le, ge_iff_le] at h
    exact ⟨h.1, Nat.lt_succ_of_le h.2⟩
  have hc := hall c.toNat hrange.2 hrange.1
  rwa [Char.ofNat_toNat] at hc

theorem capitals_separator {c : Char} (h : IsSeparator c) : (capitals c).filter isBase32 = [] := by
  have hletter : c.isUpper = false ∧ c.isLower = false := Bool.or_eq_false_iff.mp h.letter
  have hupper : c.toUpper = c := by
    have hlower := hletter.2
    unfold Char.isLower at hlower
    unfold Char.toUpper
    rw [dif_neg]
    simpa using hlower
  have hskip : isBase32 c = false := by
    have hdigit := h.digit
    rw [isBase32, hletter.1, Bool.false_or, ← Bool.decide_and]
    exact decide_eq_false hdigit
  rw [capitals, h.special, hupper]
  exact List.filter_cons_of_neg (by rw [hskip]; exact Bool.false_ne_true)

theorem clean_respelled {s t : List Char} (h : Respelled s t) :
    (t.flatMap capitals).filter isBase32 = (s.flatMap capitals).filter isBase32 := by
  induction h with
  | nil => rfl
  | same c _ ih =>
    rw [List.flatMap_cons, List.flatMap_cons, List.filter_append, ih, List.filter_append]
  | lower hc _ ih =>
    rw [List.flatMap_cons, List.flatMap_cons, List.filter_append, ih, List.filter_append,
      capitals_toLower hc]
  | separator hc _ ih =>
    rw [List.flatMap_cons, List.filter_append, ih, capitals_separator hc, List.nil_append]

/-! ## What is encoded is read back -/

theorem decode_encode (bytes : List UInt8) : base32Decode (base32Encode bytes) = bytes := by
  have hvs : ∀ v ∈ quintets (bitsOf bytes), v < 32 := fun v hv => mem_quintets_lt hv
  obtain ⟨k, hk, hbits⟩ := flatMap_quintets (bitsOf bytes)
  rw [base32Decode, encode_spec, base32Clean_symbols hvs,
    decode_spec hvs holdsBits_empty (Nat.zero_lt_succ 7), List.nil_append, List.nil_append, hbits]
  exact wholeBytes_bitsOf bytes (by rw [List.length_replicate]; omega)

theorem length_quintets (bytes : List UInt8) :
    (quintets (bitsOf bytes)).length = (8 * bytes.length + 4) / 5 := by
  rw [quintets, List.length_map, length_groups, length_bitsOf]

/-- **Base32 is lossless.**  Bytes are read back from their encoding, which is that of the standard
without its padding, a character of the alphabet for every five bits; and a text is read as the
same bytes in small letters and with separators in it. -/
theorem base32_lossless (bytes : List UInt8) :
    base32Decode (base32Encode bytes) = bytes
      ∧ (base32Encode bytes).length = (8 * bytes.length + 4) / 5
      ∧ (∀ c ∈ (base32Encode bytes).toList, c ∈ base32Alphabet.toList)
      ∧ base32Encode bytes = String.ofList ((rfcBase32 bytes).filter (· ≠ '='))
      ∧ ∀ s t : String, Respelled s.toList t.toList → base32Decode t = base32Decode s := by
  have hvs : ∀ v ∈ quintets (bitsOf bytes), v < 32 := fun v hv => mem_quintets_lt hv
  refine ⟨decode_encode bytes, ?_, ?_, ?_, ?_⟩
  · rw [encode_spec, String.length_ofList, List.length_map, length_quintets]
  · intro c hc
    rw [encode_spec, String.toList_ofList] at hc
    obtain ⟨v, hv, rfl⟩ := List.mem_map.mp hc
    exact mem_base32Alphabet v (hvs v hv)
  · rw [encode_spec]
    congr 1
    have hpad : ∀ k, (List.replicate k '=').filter (· ≠ '=') = [] := by
      intro k
      rw [List.filter_eq_nil_iff]
      intro c hc
      simp [List.eq_of_mem_replicate hc]
    simp only [rfcBase32, List.filter_append, hpad, List.append_nil]
    symm
    rw [List.filter_eq_self]
    intro c hc
    obtain ⟨v, hv, rfl⟩ := List.mem_map.mp hc
    exact decide_eq_true (rfcChar_ne_pad v (hvs v hv))
  · intro s t h
    rw [base32Decode, base32Decode, base32Clean, base32Clean, clean_respelled h]

end Iceslab.Totp
