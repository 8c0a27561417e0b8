import Iceslab.Lib.IpText
import Iceslab.Lib.JsPrefix
import Mathlib.Data.List.TakeWhile

/-!
# Addresses that `net.isIP` accepts

What an address accepted by `net.isIP` stands for.  It may spell its last two groups as a dotted
quad, which `IpText.readV6` does not read, and carry a zone, which is no part of its bytes.

* `readLiteral` — the bytes of an address, of the family `net.isIP` gives it.
* `isIPv4_iff`, `isIPv6_iff` — `net.isIP` accepts what has bytes, and nothing else.
* `readLiteral_of_readV6` — an address without a quad or a zone is read as `IpText` reads it.
-/

set_option autoImplicit false

namespace IpLiteral

open IpText JsText

/-! ## Reading -/

/-- The last group, or a dotted quad in its place. -/
def readLast (w : List Char) : Option (List UInt8) := (readGroup w).or (readQuad w)

def readWords : List (List Char) → Option (List UInt8)
  | [] => some []
  | [w] => readLast w
  | w :: ws => (readGroup w).bind fun a => (readWords ws).map fun b => a ++ b

def wordsOf (cs : List Char) : List (List Char) := if cs = [] then [] else cs.splitOn ':'

/-- Eight groups, or seven at most around a run of zeros left out. -/
def readV6Quad (cs : List Char) : Option (List UInt8) :=
  match splitDouble cs with
  | none => (readWords (wordsOf cs)).bind fun b => if b.length = 16 then some b else none
  | some (l, r) =>
    (readGroups l).bind fun a => (readWords (wordsOf r)).bind fun b =>
      if a.length + b.length < 16 then
        some (a ++ List.replicate (16 - a.length - b.length) 0 ++ b)
      else none

/-- What stands before the zone. -/
def withoutZone (s : String) : String := String.ofList (s.toList.takeWhile (· ≠ '%'))

/-- The bytes of an address, where `net.isIP` takes the text for one. -/
def readLiteral (s : String) : Option (List UInt8) :=
  if isIP s = 4 then readQuad s.toList
  else if isIP s = 6 then readV6Quad (withoutZone s).toList
  else none

example : ["::ffff:1.2.3.4", "fe80::1%eth0", "1.2.3.4", "1.2.3.4/8"].map readLiteral =
    [some [0, 0, 0, 0, 0, 0, 0, 0, 0, 0, 255, 255, 1, 2, 3, 4],
      some [254, 128, 0, 0, 0, 0, 0, 0, 0, 0, 0, 0, 0, 0, 0, 1], some [1, 2, 3, 4], none] := by
  decide

/-! ## What is accepted has bytes -/

section Accepted

variable {w : List Char} {s : String} {n : Nat}

theorem hexDigit_isSome (c : Char) : (hexDigit c).isSome = isHex c := by
  unfold hexDigit isHex
  by_cases hd : c.isDigit = true
  · simp [hd]
  · simp only [hd, Bool.false_eq_true, if_false, Bool.false_or]
    by_cases hl : 'a' ≤ c ∧ c ≤ 'f'
    · simp [hl]
    · by_cases hu : 'A' ≤ c ∧ c ≤ 'F'
      · simp [hl, hu]
      · rw [if_neg hl, if_neg hu]
        simp only [Option.isSome_none, ← Bool.decide_and, hl, hu, decide_false, Bool.or_self]

theorem hexValueFrom_isSome (n : Nat) (cs : List Char) :
    (cs.foldlM (fun n c => (hexDigit c).map (n * 16 + ·)) n).isSome = cs.all isHex := by
  induction cs generalizing n with
  | nil => rfl
  | cons c cs ih =>
    rw [List.foldlM_cons, List.all_cons, ← hexDigit_isSome]
    cases hexDigit c with
    | none => rfl
    | some d => exact (ih _).trans (Bool.true_and _).symm

theorem hexValue_isSome (cs : List Char) : (hexValue cs).isSome = cs.all isHex :=
  hexValueFrom_isSome 0 cs

theorem length_ofList (w : List Char) : (String.ofList w).length = w.length := by
  rw [← String.length_toList, String.toList_ofList]

theorem readGroup_length (w : List Char) :
    (readGroup w).map List.length = if isGroup (String.ofList w) then some 2 else none := by
  have hgroup : isGroup (String.ofList w) =
      (decide (w ≠ [] ∧ w.length ≤ 4) && (hexValue w).isSome) := by
    unfold isGroup
    rw [length_ofList, String.toList_ofList, ← hexValue_isSome, ← Bool.decide_and]
    congr 2
    rw [← List.length_pos_iff]
    exact propext Iff.rfl
  rw [hgroup, readGroup]
  by_cases h : w ≠ [] ∧ w.length ≤ 4
  · rw [if_pos h, decide_eq_true h, Bool.true_and, Option.map_map]
    cases hexValue w <;> rfl
  · rw [if_neg h, decide_eq_false h]
    rfl

theorem readOctet_isSome (w : List Char) : (readOctet w).isSome = isOctet (String.ofList w) := by
  have hnumber : numberOf (String.ofList w) = Nat.ofDigitChars 10 w 0 := by
    rw [numberOf, String.toList_ofList]
  have hne : String.ofList w ≠ "" ↔ w ≠ [] := by
    rw [← String.toList_inj.ne, String.toList_ofList]
    exact Iff.rfl
  unfold isOctet isDigits readOctet
  rw [hnumber, length_ofList, String.toList_ofList]
  cases hdec : decimal w with
  | none =>
    unfold decimal at hdec
    split at hdec
    · cases hdec
    · rename_i hnot
      symm
      rw [Option.bind_none, Option.isSome_none, Bool.eq_false_iff]
      intro h
      simp only [Bool.and_eq_true, Bool.or_eq_true, decide_eq_true_eq] at h
      exact hnot ⟨hne.mp h.1.1.1.1, h.1.1.1.2, h.2⟩
  | some n =>
    have hw := eq_toDigits_of_decimal hdec
    unfold decimal at hdec
    split at hdec
    · rename_i hdigits
      obtain rfl := Option.some.inj hdec
      rw [Option.bind_some]
      by_cases hlt : Nat.ofDigitChars 10 w 0 < 256
      · have hlen : w.length ≤ 3 := by
          rw [hw, Nat.length_toDigits_le_iff (by decide) (by decide)]
          omega
        have hle : Nat.ofDigitChars 10 w 0 ≤ 255 := by omega
        simp [hlt, hlen, hle, hne, hdigits]
      · have hle : ¬ Nat.ofDigitChars 10 w 0 ≤ 255 := by omega
        simp [hlt, hle]
    · cases hdec

theorem mapM_isSome {α β : Type} (f : α → Option β) (l : List α) :
    (l.mapM f).isSome = l.all fun a => (f a).isSome := by
  induction l with
  | nil => rfl
  | cons a l ih =>
    rw [List.mapM_cons, List.all_cons, ← ih]
    cases f a with
    | none => rfl
    | some b => cases l.mapM f <;> rfl

/-- A text is a dotted quad for `net.isIP` where it is read as one. -/
theorem isIPv4_iff (s : String) : isIPv4 s = (readQuad s.toList).isSome := by
  unfold isIPv4 readQuad split
  dsimp only
  rw [List.length_map, List.all_map]
  by_cases h : (s.toList.splitOn '.').length = 4
  · rw [if_pos h, decide_eq_true h, Bool.true_and, mapM_isSome]
    exact List.all_congr rfl fun w => (readOctet_isSome w).symm
  · rw [if_neg h, decide_eq_false h]
    rfl

theorem readQuad_length {cs : List Char} {ip : List UInt8} (h : readQuad cs = some ip) :
    ip.length = 4 :=
  (readQuad_eq_some.mp h).1

theorem readLast_length (w : List Char) :
    (readLast w).map List.length = if isGroup (String.ofList w) then some 2
      else if isIPv4 (String.ofList w) then some 4 else none := by
  have hgroup := readGroup_length w
  unfold readLast
  cases hread : readGroup w with
  | some b =>
    rw [hread] at hgroup
    rw [Option.some_or]
    split at hgroup
    · rename_i h
      rw [if_pos h]
      exact hgroup
    · cases hgroup
  | none =>
    rw [hread] at hgroup
    rw [Option.none_or, isIPv4_iff, String.toList_ofList]
    split at hgroup
    · cases hgroup
    · rename_i h
      rw [if_neg h]
      cases hquad : readQuad w with
      | none => rfl
      | some ip => exact congrArg some (readQuad_length hquad)

theorem readWords_length (ws : List (List Char)) :
    (readWords ws).map List.length = (groupCount true (ws.map String.ofList)).map (2 * ·) := by
  induction ws with
  | nil => rfl
  | cons w ws ih =>
    cases ws with
    | nil =>
      rw [readWords, readLast_length, List.map_cons, List.map_nil, groupCount, Bool.true_and]
      split
      · rfl
      · split <;> rfl
    | cons w' ws =>
      have hw := readGroup_length w
      have hcount : groupCount true ((w :: w' :: ws).map String.ofList) =
          if isGroup (String.ofList w) then
            (groupCount true ((w' :: ws).map String.ofList)).map (· + 1)
          else none := rfl
      have hread' : readWords (w :: w' :: ws) =
          (readGroup w).bind fun a => (readWords (w' :: ws)).map fun b => a ++ b := rfl
      rw [hcount, hread']
      generalize readWords (w' :: ws) = words at ih ⊢
      generalize groupCount true ((w' :: ws).map String.ofList) = count at ih ⊢
      cases hread : readGroup w with
      | none =>
        rw [hread] at hw
        split at hw
        · cases hw
        · rename_i h
          rw [if_neg h]
          rfl
      | some a =>
        rw [hread] at hw
        split at hw
        · rename_i h
          have ha : a.length = 2 := Option.some.inj hw
          rw [if_pos h, Option.bind_some]
          cases words with
          | none =>
            rw [Option.map_eq_none_iff.mp ih.symm]
            rfl
          | some b =>
            obtain ⟨n, hn, hb⟩ := Option.map_eq_some_iff.mp ih.symm
            have hb : 2 * n = b.length := hb
            rw [hn]
            change some (a ++ b).length = some (2 * (n + 1))
            rw [List.length_append, ha, ← hb]
            congr 1
            omega
        · cases hw

theorem readPlain_length (ws : List (List Char)) :
    ((ws.mapM readGroup).map List.flatten).map List.length =
      (groupCount false (ws.map String.ofList)).map (2 * ·) := by
  induction ws with
  | nil => rfl
  | cons w ws ih =>
    have hw := readGroup_length w
    have hcount : groupCount false ((w :: ws).map String.ofList) =
        if isGroup (String.ofList w) then (groupCount false (ws.map String.ofList)).map (· + 1)
        else none := by
      cases ws with
      | nil => rfl
      | cons w' ws => rfl
    rw [hcount, List.mapM_cons]
    cases hread : readGroup w with
    | none =>
      rw [hread] at hw
      split at hw
      · cases hw
      · rename_i h
        rw [if_neg h]
        rfl
    | some a =>
      rw [hread] at hw
      split at hw
      · rename_i h
        have ha : a.length = 2 := Option.some.inj hw
        rw [if_pos h]
        cases hwords : ws.mapM readGroup with
        | none =>
          rw [hwords] at ih
          rw [Option.map_eq_none_iff.mp ih.symm]
          rfl
        | some b =>
          rw [hwords] at ih
          obtain ⟨n, hn, hb⟩ := Option.map_eq_some_iff.mp ih.symm
          rw [hn]
          have hb : 2 * n = b.flatten.length := hb
          change some (a :: b).flatten.length = some (2 * (n + 1))
          rw [List.flatten_cons, List.length_append, ha, ← hb]
          congr 1
          omega
      · cases hw

theorem groupsOf_eq (cs : List Char) : groupsOf cs = (wordsOf cs).map String.ofList := by
  unfold groupsOf wordsOf
  split <;> rfl

theorem readGroups_eq (cs : List Char) :
    readGroups cs = ((wordsOf cs).mapM readGroup).map List.flatten := by
  unfold readGroups wordsOf
  split <;> rfl

theorem readGroups_length (cs : List Char) :
    (readGroups cs).map List.length = (groupCount false (groupsOf cs)).map (2 * ·) := by
  rw [readGroups_eq, groupsOf_eq]
  exact readPlain_length _

/-- What `net.isIP` takes for an IPv6 address, but for its zone. -/
theorem readV6Quad_isSome (cs : List Char) :
    (readV6Quad cs).isSome =
      match splitDouble cs with
      | some (l, r) =>
        match groupCount false (groupsOf l), groupCount true (groupsOf r) with
        | some a, some b => decide (a + b ≤ 7)
        | _, _ => false
      | none => groupCount true (groupsOf cs) == some 8 := by
  unfold readV6Quad
  cases splitDouble cs with
  | none =>
    dsimp only
    have hlen := readWords_length (wordsOf cs)
    rw [← groupsOf_eq] at hlen
    generalize readWords (wordsOf cs) = words at hlen ⊢
    generalize groupCount true (groupsOf cs) = count at hlen ⊢
    cases words with
    | none =>
      rw [Option.map_eq_none_iff.mp hlen.symm]
      rfl
    | some b =>
      obtain ⟨n, rfl, hb⟩ := Option.map_eq_some_iff.mp hlen.symm
      have hb : 2 * n = b.length := hb
      rw [Option.bind_some]
      by_cases hn : n = 8
      · rw [if_pos (by omega), hn]
        rfl
      · rw [if_neg (by omega)]
        simp [hn]
  | some parts =>
    obtain ⟨l, r⟩ := parts
    dsimp only
    have hl := readGroups_length l
    have hr := readWords_length (wordsOf r)
    rw [← groupsOf_eq] at hr
    generalize readGroups l = left at hl ⊢
    generalize groupCount false (groupsOf l) = lcount at hl ⊢
    generalize readWords (wordsOf r) = right at hr ⊢
    generalize groupCount true (groupsOf r) = rcount at hr ⊢
    cases left with
    | none =>
      rw [Option.map_eq_none_iff.mp hl.symm]
      rfl
    | some a =>
      obtain ⟨n, rfl, ha⟩ := Option.map_eq_some_iff.mp hl.symm
      have ha : 2 * n = a.length := ha
      rw [Option.bind_some]
      cases right with
      | none =>
        rw [Option.map_eq_none_iff.mp hr.symm]
        rfl
      | some b =>
        obtain ⟨m, rfl, hb⟩ := Option.map_eq_some_iff.mp hr.symm
        have hb : 2 * m = b.length := hb
        rw [Option.bind_some]
        by_cases hnm : n + m ≤ 7
        · rw [if_pos (by omega)]
          exact (decide_eq_true hnm).symm
        · rw [if_neg (by omega)]
          exact (decide_eq_false hnm).symm

theorem isIPv6_eq (s : String) :
    isIPv6 s = ((decide (s.toList.dropWhile (· ≠ '%') = []) ||
        isZone (s.toList.dropWhile (· ≠ '%')).tail) && (readV6Quad (withoutZone s).toList).isSome) := by
  rw [readV6Quad_isSome, withoutZone, String.toList_ofList]
  rfl

end Accepted

/-! ## The bytes -/

section Bytes

variable {s : String} {cs : List Char} {ip : List UInt8}

theorem isIP_cases (s : String) :
    (isIP s = 4 ∧ isIPv4 s = true) ∨ (isIP s = 6 ∧ isIPv4 s = false ∧ isIPv6 s = true) ∨
      (isIP s = 0 ∧ isIPv4 s = false ∧ isIPv6 s = false) := by
  unfold isIP
  cases isIPv4 s <;> cases isIPv6 s <;> simp

theorem readV6Quad_length (h : readV6Quad cs = some ip) : ip.length = 16 := by
  unfold readV6Quad at h
  split at h
  · obtain ⟨b, -, h⟩ := Option.bind_eq_some_iff.mp h
    split at h
    · cases h
      assumption
    · cases h
  · obtain ⟨a, -, h⟩ := Option.bind_eq_some_iff.mp h
    obtain ⟨b, -, h⟩ := Option.bind_eq_some_iff.mp h
    split at h
    · cases h
      simp only [List.length_append, List.length_replicate]
      omega
    · cases h

theorem readLiteral_four (h : isIP s = 4) : readLiteral s = readQuad s.toList := if_pos h

theorem readLiteral_six (h : isIP s = 6) : readLiteral s = readV6Quad (withoutZone s).toList := by
  rw [readLiteral, h, if_neg (by decide), if_pos rfl]

/-- An address has bytes, four or sixteen by its family. -/
theorem readLiteral_of_isIP (h : isIP s ≠ 0) :
    ∃ ip, readLiteral s = some ip ∧ ip.length = if isIP s = 4 then 4 else 16 := by
  rcases isIP_cases s with ⟨h4, hquad⟩ | ⟨h6, -, hv6⟩ | ⟨h0, -⟩
  · rw [isIPv4_iff] at hquad
    obtain ⟨ip, hip⟩ := Option.isSome_iff_exists.mp hquad
    refine ⟨ip, by rw [readLiteral_four h4, hip], ?_⟩
    rw [if_pos h4, readQuad_length hip]
  · rw [isIPv6_eq, Bool.and_eq_true] at hv6
    obtain ⟨ip, hip⟩ := Option.isSome_iff_exists.mp hv6.2
    refine ⟨ip, by rw [readLiteral_six h6, hip], ?_⟩
    rw [h6, if_neg (by decide), readV6Quad_length hip]
  · exact absurd h0 h

theorem readLiteral_of_not (h : isIP s = 0) : readLiteral s = none := by
  rw [readLiteral, h]
  rfl

theorem readWords_of_mapM {ws : List (List Char)} {bs : List (List UInt8)}
    (h : ws.mapM readGroup = some bs) : readWords ws = some bs.flatten := by
  have hall := mapM_eq_some_iff.mp h
  clear h
  induction hall with
  | nil => rfl
  | @cons w b _ _ hw hws ih =>
    cases hws with
    | nil =>
      rw [readWords, readLast, hw]
      simp
    | @cons w' _ ws =>
      change (readGroup w).bind (fun a => (readWords (w' :: ws)).map fun b => a ++ b) = _
      rw [hw, ih]
      rfl

theorem readV6Quad_of_readV6 (h : readV6 cs = some ip) : readV6Quad cs = some ip := by
  have hwords {w : List Char} {b : List UInt8} (hb : readGroups w = some b) :
      readWords (wordsOf w) = some b := by
    rw [readGroups_eq] at hb
    obtain ⟨bs, hbs, rfl⟩ := Option.map_eq_some_iff.mp hb
    exact readWords_of_mapM hbs
  unfold readV6 at h
  unfold readV6Quad
  cases hsplit : splitDouble cs with
  | none =>
    rw [hsplit] at h
    obtain ⟨b, hb, h⟩ := Option.bind_eq_some_iff.mp h
    dsimp only
    rw [hwords hb]
    exact h
  | some parts =>
    rw [hsplit] at h
    obtain ⟨a, ha, h⟩ := Option.bind_eq_some_iff.mp h
    obtain ⟨b, hb, h⟩ := Option.bind_eq_some_iff.mp h
    dsimp only
    rw [ha, hwords hb]
    exact h

theorem withoutZone_of_notMem (h : '%' ∉ s.toList) : withoutZone s = s := by
  rw [withoutZone, List.takeWhile_eq_self_iff.mpr, String.ofList_toList]
  exact fun c hc => decide_eq_true fun heq => h (heq ▸ hc)

/-- What `IpText` reads is an address without a zone, of the same bytes. -/
theorem readLiteral_of_readAddress (hzone : '%' ∉ s.toList) (h : readAddress s.toList = some ip) :
    readLiteral s = some ip ∧ isIP s ≠ 0 := by
  unfold readAddress at h
  cases hquad : readQuad s.toList with
  | some ip' =>
    rw [hquad, Option.some_or] at h
    obtain rfl := Option.some.inj h
    have h4 : isIP s = 4 := if_pos (by rw [isIPv4_iff, hquad]; rfl)
    exact ⟨by rw [readLiteral_four h4, hquad], by rw [h4]; decide⟩
  | none =>
    rw [hquad, Option.none_or] at h
    have hv6 := readV6Quad_of_readV6 h
    have hnot : isIPv4 s = false := by rw [isIPv4_iff, hquad]; rfl
    have hdrop : s.toList.dropWhile (· ≠ '%') = [] :=
      List.dropWhile_eq_nil_iff.mpr fun c hc => decide_eq_true fun heq => hzone (heq ▸ hc)
    have h6 : isIPv6 s = true := by
      rw [isIPv6_eq, hdrop, withoutZone_of_notMem hzone, hv6]
      rfl
    have hfamily : isIP s = 6 := by
      rw [isIP, hnot, h6]
      rfl
    refine ⟨?_, by rw [hfamily]; decide⟩
    rw [readLiteral_six hfamily, withoutZone_of_notMem hzone, hv6]

end Bytes

end IpLiteral
