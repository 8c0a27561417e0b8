import Iceslab.Lib.JsText
import Mathlib.Data.List.Forall2
import Mathlib.Data.List.Induction

/-!
# Addresses as text

The bytes an address stands for: a dotted quad, or groups of hexadecimal digits in which one run of
zero groups may be left out.

* `readQuad_decimals`, `readV6_groups`, `readV6_elided` — addresses written out are read back.
* `readQuad_eq_some` — a dotted quad is read off no other text.
-/

set_option autoImplicit false

namespace IpText

open JsText (splitDouble)

/-! ## Digits -/

def hexDigit (c : Char) : Option Nat :=
  if c.isDigit then some (c.toNat - 48)
  else if 'a' ≤ c ∧ c ≤ 'f' then some (c.toNat - 87)
  else if 'A' ≤ c ∧ c ≤ 'F' then some (c.toNat - 55)
  else none

def hexValue (cs : List Char) : Option Nat :=
  cs.foldlM (fun n c => (hexDigit c).map (n * 16 + ·)) 0

/-- A decimal number without leading zeros. -/
def decimal (cs : List Char) : Option Nat :=
  if cs ≠ [] ∧ cs.all Char.isDigit ∧ (cs.length = 1 ∨ cs.head? ≠ some '0') then
    some (Nat.ofDigitChars 10 cs 0)
  else none

variable {cs : List Char} {n : Nat} {c : Char} {gs : List Nat}

theorem hexDigit_digitChar (h : n < 16) : hexDigit n.digitChar = some n :=
  (by decide : ∀ d : Fin 16, hexDigit (Nat.digitChar d) = some d.val) ⟨n, h⟩

theorem hexValue_toDigits (n : Nat) : hexValue (Nat.toDigits 16 n) = some n := by
  induction n using Nat.strongRecOn with
  | ind n ih =>
    rw [Nat.toDigits_eq_if (by decide)]
    split
    · rename_i h
      simp [hexValue, hexDigit_digitChar h]
    · have hlt : n % 16 < 16 := Nat.mod_lt n (by decide)
      have hdiv := ih (n / 16) (by omega)
      unfold hexValue at hdiv ⊢
      rw [List.foldlM_append, hdiv]
      simp only [Option.bind_eq_bind, Option.bind_some, List.foldlM_cons, List.foldlM_nil,
        hexDigit_digitChar hlt, Option.map_some, Option.pure_def, Option.some.injEq]
      omega

theorem eq_digitChar_of_mem (h : c ∈ Nat.toDigits 16 n) : ∃ d, d < 16 ∧ c = Nat.digitChar d := by
  induction n using Nat.strongRecOn with
  | ind n ih =>
    rw [Nat.toDigits_eq_if (by decide)] at h
    split at h
    · rename_i hn
      exact ⟨n, hn, List.mem_singleton.mp h⟩
    · obtain h | h := List.mem_append.mp h
      · exact ih _ (by omega) h
      · exact ⟨n % 16, Nat.mod_lt n (by decide), List.mem_singleton.mp h⟩

theorem not_mem_toDigits_of (h : hexDigit c = none) : c ∉ Nat.toDigits 16 n := by
  intro hc
  obtain ⟨d, hd, rfl⟩ := eq_digitChar_of_mem hc
  rw [hexDigit_digitChar hd] at h
  cases h

theorem decimal_toDigits (h : n < 256) : decimal (Nat.toDigits 10 n) = some n :=
  (by decide +kernel : ∀ d : Fin 256, decimal (Nat.toDigits 10 d) = some d.val) ⟨n, h⟩

theorem digitChar_of_isDigit (h : c.isDigit = true) :
    Nat.digitChar (c.toNat - '0'.toNat) = c ∧ c.toNat - '0'.toNat < 10 := by
  simp only [Char.isDigit, Bool.and_eq_true, decide_eq_true_eq, UInt32.le_iff_toNat_le] at h
  obtain ⟨h0, h9⟩ := h
  have hlt : c.toNat - '0'.toNat < 10 := by
    have : c.toNat ≤ 57 := h9
    have : '0'.toNat = 48 := rfl
    omega
  refine ⟨?_, hlt⟩
  have hval : (Nat.digitChar (c.toNat - '0'.toNat)).toNat = c.toNat - '0'.toNat + '0'.toNat :=
    (by decide : ∀ d : Fin 10, (Nat.digitChar d).toNat = d.val + '0'.toNat) ⟨_, hlt⟩
  refine Char.toNat_inj.mp ?_
  have : '0'.toNat ≤ c.toNat := h0
  omega

/-- Digits without a leading zero are the decimal of their value. -/
theorem toDigits_ofDigitChars (hne : cs ≠ []) (hall : cs.all Char.isDigit = true)
    (hlead : cs.length = 1 ∨ cs.head? ≠ some '0') :
    Nat.toDigits 10 (Nat.ofDigitChars 10 cs 0) = cs := by
  induction cs using List.reverseRecOn with
  | nil => exact absurd rfl hne
  | append_singleton cs d ih =>
    simp only [List.all_append, List.all_cons, List.all_nil, Bool.and_true, Bool.and_eq_true] at hall
    obtain ⟨hd, hlt⟩ := digitChar_of_isDigit hall.2
    rw [Nat.ofDigitChars_append, Nat.ofDigitChars_cons, Nat.ofDigitChars_nil]
    by_cases hnil : cs = []
    · subst hnil
      rw [Nat.ofDigitChars_nil, Nat.mul_zero, Nat.zero_add, Nat.toDigits_of_lt_base hlt, hd]
      rfl
    · have hhead : cs.head? ≠ some '0' := by
        obtain hlen | hhead := hlead
        · rw [List.length_append, List.length_singleton] at hlen
          exact absurd (List.length_eq_zero_iff.mp (by omega)) hnil
        · rwa [List.head?_append_of_ne_nil _ hnil] at hhead
      have hcs := ih hnil hall.1 (Or.inr hhead)
      have hpos : 0 < Nat.ofDigitChars 10 cs 0 := by
        refine Nat.pos_of_ne_zero fun hzero => hhead ?_
        rw [← hcs, hzero]
        rfl
      rw [Nat.toDigits_of_base_le (by decide) (by omega), Nat.mul_add_div (by decide),
        Nat.div_eq_of_lt hlt, Nat.add_zero, Nat.mul_add_mod, Nat.mod_eq_of_lt hlt, hcs, hd]

theorem eq_toDigits_of_decimal (h : decimal cs = some n) : cs = Nat.toDigits 10 n := by
  unfold decimal at h
  split at h
  · rename_i hcs
    cases h
    exact (toDigits_ofDigitChars hcs.1 hcs.2.1 hcs.2.2).symm
  · cases h

/-! ## Addresses -/

/-- One number of a dotted quad. -/
def readOctet (cs : List Char) : Option UInt8 :=
  (decimal cs).bind fun n => if n < 256 then some (UInt8.ofNat n) else none

def readQuad (cs : List Char) : Option (List UInt8) :=
  let parts := cs.splitOn '.'
  if parts.length = 4 then parts.mapM readOctet else none

/-- The two bytes of a group. -/
def groupBytes (n : Nat) : List UInt8 := [UInt8.ofNat (n / 256), UInt8.ofNat (n % 256)]

def readGroup (cs : List Char) : Option (List UInt8) :=
  if cs ≠ [] ∧ cs.length ≤ 4 then (hexValue cs).map groupBytes else none

def readGroups (cs : List Char) : Option (List UInt8) :=
  if cs = [] then some [] else ((cs.splitOn ':').mapM readGroup).map List.flatten

/-- Eight groups, or fewer around a run of zeros left out. -/
def readV6 (cs : List Char) : Option (List UInt8) :=
  match splitDouble cs with
  | none => (readGroups cs).bind fun b => if b.length = 16 then some b else none
  | some (l, r) =>
    (readGroups l).bind fun a => (readGroups r).bind fun b =>
      if a.length + b.length < 16 then
        some (a ++ List.replicate (16 - a.length - b.length) 0 ++ b)
      else none

def readAddress (cs : List Char) : Option (List UInt8) := (readQuad cs).or (readV6 cs)

/-! ## Addresses written out -/

/-- Words between separators. -/
def joined (c : Char) (words : List (List Char)) : List Char := [c].intercalate words

theorem joined_cons_cons (c : Char) (w w' : List Char) (words : List (List Char)) :
    joined c (w :: w' :: words) = w ++ c :: joined c (w' :: words) := by
  unfold joined
  rw [List.intercalate_cons_cons]
  simp

theorem not_mem_joined {c sep : Char} {words : List (List Char)} (hsep : c ≠ sep)
    (h : ∀ w ∈ words, c ∉ w) : c ∉ joined sep words := by
  induction words with
  | nil => simp [joined]
  | cons w words ih =>
    have hw := h w List.mem_cons_self
    have hrest := ih fun w' hw' => h w' (List.mem_cons_of_mem w hw')
    cases words with
    | nil => simpa [joined] using hw
    | cons w' words =>
      rw [joined_cons_cons, List.mem_append, List.mem_cons]
      rintro (hc | hc | hc)
      · exact hw hc
      · exact hsep hc
      · exact hrest hc

section Lists

variable {α β : Type} {f : α → Option β} {l : List α}

theorem mapM_eq_some_iff {bs : List β} :
    l.mapM f = some bs ↔ List.Forall₂ (fun a b => f a = some b) l bs := by
  induction l generalizing bs with
  | nil => simp [eq_comm]
  | cons a l ih =>
    simp only [List.mapM_cons, Option.bind_eq_bind, Option.bind_eq_some_iff, ih,
      List.forall₂_cons_left_iff, Option.pure_def, Option.some.injEq, eq_comm (a := bs),
      exists_and_left]

theorem mapM_eq_some {g : α → β} (h : ∀ a ∈ l, f a = some (g a)) : l.mapM f = some (l.map g) :=
  mapM_eq_some_iff.mpr (List.forall₂_map_right_iff.mpr (List.forall₂_same.mpr h))

theorem eq_map_of_mapM {g : β → α} (hf : ∀ a b, f a = some b → a = g b) {bs : List β}
    (h : l.mapM f = some bs) : l = bs.map g := by
  have hall : List.Forall₂ Eq l (bs.map g) :=
    List.forall₂_map_right_iff.mpr ((mapM_eq_some_iff.mp h).imp hf)
  rwa [List.forall₂_eq_eq_eq] at hall

end Lists

theorem readOctet_toDigits (b : UInt8) : readOctet (Nat.toDigits 10 b.toNat) = some b := by
  unfold readOctet
  rw [decimal_toDigits b.toNat_lt, Option.bind_some, if_pos b.toNat_lt, UInt8.ofNat_toNat]

theorem readQuad_decimals {ip : List UInt8} (h : ip.length = 4) :
    readQuad (joined '.' (ip.map fun b => Nat.toDigits 10 b.toNat)) = some ip := by
  have hdigits : ∀ w ∈ ip.map (fun b => Nat.toDigits 10 b.toNat), '.' ∉ w := by
    intro w hw hdot
    obtain ⟨b, -, rfl⟩ := List.mem_map.mp hw
    have := Nat.isDigit_of_mem_toDigits (by decide) (by decide) hdot
    exact absurd this (by decide)
  have hne : ip.map (fun b => Nat.toDigits 10 b.toNat) ≠ [] := by
    intro hnil
    rw [List.map_eq_nil_iff.mp hnil] at h
    exact absurd h (by decide)
  unfold readQuad joined
  rw [List.splitOn_intercalate _ hdigits hne]
  dsimp only
  rw [List.length_map, if_pos h, List.mapM_map, mapM_eq_some (g := id), List.map_id]
  exact fun b _ => readOctet_toDigits b

theorem eq_toDigits_of_readOctet {b : UInt8} (h : readOctet cs = some b) :
    cs = Nat.toDigits 10 b.toNat := by
  unfold readOctet at h
  obtain ⟨n, hn, h⟩ := Option.bind_eq_some_iff.mp h
  split at h
  · rename_i hlt
    cases h
    rw [UInt8.toNat_ofNat_of_lt' hlt]
    exact eq_toDigits_of_decimal hn
  · cases h

theorem readQuad_eq_some {ip : List UInt8} : readQuad cs = some ip ↔
    ip.length = 4 ∧ cs = joined '.' (ip.map fun b => Nat.toDigits 10 b.toNat) := by
  constructor
  · intro h
    unfold readQuad at h
    dsimp only at h
    split at h
    · rename_i hlen
      have hmap : cs.splitOn '.' = ip.map fun b => Nat.toDigits 10 b.toNat :=
        eq_map_of_mapM (fun _ _ hb => eq_toDigits_of_readOctet hb) h
      rw [joined, ← hmap, List.intercalate_splitOn]
      exact ⟨by rw [← hlen, hmap, List.length_map], rfl⟩
    · cases h
  · rintro ⟨hlen, rfl⟩
    exact readQuad_decimals hlen

/-- A text without dots is no dotted quad. -/
theorem readQuad_eq_none (h : '.' ∉ cs) : readQuad cs = none := by
  unfold readQuad
  rw [List.splitOn_eq_singleton h]
  rfl

/-! ### Groups -/

/-- The groups written out, between colons. -/
def groupsText (gs : List Nat) : List Char := joined ':' (gs.map (Nat.toDigits 16))

theorem colon_not_mem (n : Nat) : ':' ∉ Nat.toDigits 16 n := not_mem_toDigits_of (by decide)

theorem not_mem_groupsText (hc : hexDigit c = none) (hcolon : c ≠ ':') (gs : List Nat) :
    c ∉ groupsText gs := by
  refine not_mem_joined hcolon fun w hw => ?_
  obtain ⟨g, -, rfl⟩ := List.mem_map.mp hw
  exact not_mem_toDigits_of hc

theorem readGroup_toDigits (h : n < 65536) :
    readGroup (Nat.toDigits 16 n) = some (groupBytes n) := by
  have hlen : (Nat.toDigits 16 n).length ≤ 4 :=
    (Nat.length_toDigits_le_iff (by decide) (by decide)).mpr (by omega)
  unfold readGroup
  rw [if_pos ⟨Nat.toDigits_ne_nil, hlen⟩, hexValue_toDigits, Option.map_some]

theorem groupsText_eq_nil : groupsText gs = [] ↔ gs = [] := by
  unfold groupsText
  cases gs with
  | nil => simp [joined]
  | cons g gs =>
    cases gs with
    | nil => simp [joined]
    | cons g' gs =>
      rw [List.map_cons, List.map_cons, joined_cons_cons]
      simp

theorem readGroups_groupsText (h : ∀ g ∈ gs, g < 65536) :
    readGroups (groupsText gs) = some (gs.flatMap groupBytes) := by
  unfold readGroups
  split
  · rename_i hnil
    rw [groupsText_eq_nil.mp hnil]
    rfl
  · rename_i hne
    have hgs : gs.map (Nat.toDigits 16) ≠ [] := by
      intro hnil
      exact hne (groupsText_eq_nil.mpr (List.map_eq_nil_iff.mp hnil))
    have hcolon : ∀ w ∈ gs.map (Nat.toDigits 16), ':' ∉ w := by
      intro w hw
      obtain ⟨g, -, rfl⟩ := List.mem_map.mp hw
      exact colon_not_mem g
    rw [groupsText, joined, List.splitOn_intercalate _ hcolon hgs, List.mapM_map,
      mapM_eq_some (f := readGroup ∘ Nat.toDigits 16) fun g hg => readGroup_toDigits (h g hg)]
    rw [Option.map_some, List.flatMap_def]

theorem splitDouble_append {w : List Char} (hw : ':' ∉ w) (rest : List Char) :
    splitDouble (w ++ rest) = (splitDouble rest).map fun p => (w ++ p.1, p.2) := by
  induction w with
  | nil => simp
  | cons c w ih =>
    have hc : c ≠ ':' := fun h => hw (h ▸ List.mem_cons_self)
    have hrest := ih fun h => hw (List.mem_cons_of_mem c h)
    rw [List.cons_append, splitDouble, hrest, Option.map_map]
    · rfl
    · intro _ h
      exact absurd h hc

theorem splitDouble_colon (hc : c ≠ ':') (rest : List Char) :
    splitDouble (':' :: c :: rest) =
      (splitDouble (c :: rest)).map fun p => (':' :: p.1, p.2) := by
  rw [splitDouble]
  intro _ _ h
  exact hc (List.cons.inj h).1

theorem groupsText_cons (g : Nat) (gs : List Nat) :
    ∃ c cs, groupsText (g :: gs) = c :: cs ∧ c ≠ ':' := by
  cases hw : Nat.toDigits 16 g with
  | nil => exact absurd hw Nat.toDigits_ne_nil
  | cons c cs =>
    have hc : c ≠ ':' := fun h => colon_not_mem g (by rw [hw, h]; exact List.mem_cons_self)
    cases gs with
    | nil => exact ⟨c, cs, by simp [groupsText, joined, hw], hc⟩
    | cons g' gs =>
      refine ⟨c, cs ++ ':' :: groupsText (g' :: gs), ?_, hc⟩
      rw [groupsText, List.map_cons, List.map_cons, joined_cons_cons, hw]
      rfl

/-- Groups written out hold no double colon. -/
theorem splitDouble_groupsText (gs : List Nat) (rest : List Char) :
    splitDouble (groupsText gs ++ rest) =
      (splitDouble rest).map fun p => (groupsText gs ++ p.1, p.2) := by
  induction gs with
  | nil => simp [groupsText, joined]
  | cons g gs ih =>
    cases gs with
    | nil => simpa [groupsText, joined] using splitDouble_append (colon_not_mem g) rest
    | cons g' gs =>
      obtain ⟨c, cs, hcs, hc⟩ := groupsText_cons g' gs
      have hword : groupsText (g :: g' :: gs) = Nat.toDigits 16 g ++ ':' :: groupsText (g' :: gs) :=
        joined_cons_cons _ _ _ _
      have hcolon : splitDouble (':' :: (groupsText (g' :: gs) ++ rest)) =
          (splitDouble (groupsText (g' :: gs) ++ rest)).map fun p => (':' :: p.1, p.2) := by
        rw [hcs, List.cons_append]
        exact splitDouble_colon hc _
      rw [hword, List.append_assoc, List.cons_append, splitDouble_append (colon_not_mem g), hcolon,
        ih, Option.map_map, Option.map_map]
      simp [Function.comp_def]

theorem length_flatMap_groupBytes (gs : List Nat) :
    (gs.flatMap groupBytes).length = 2 * gs.length := by
  induction gs with
  | nil => rfl
  | cons g gs ih =>
    rw [List.flatMap_cons, List.length_append, ih, List.length_cons]
    simp only [groupBytes, List.length_cons, List.length_nil]
    omega

theorem readV6_groups (h : ∀ g ∈ gs, g < 65536) (hlen : gs.length = 8) :
    readV6 (groupsText gs) = some (gs.flatMap groupBytes) := by
  have hsplit : splitDouble (groupsText gs) = none := by
    have := splitDouble_groupsText gs []
    rwa [List.append_nil] at this
  unfold readV6
  rw [hsplit]
  dsimp only
  rw [readGroups_groupsText h, Option.bind_some, length_flatMap_groupBytes, hlen, if_pos rfl]

/-- Groups written out, a run of zeros left out. -/
theorem readV6_elided {l r : List Nat} (hl : ∀ g ∈ l, g < 65536)
    (hr : ∀ g ∈ r, g < 65536) (hn : 0 < n) (hlen : l.length + n + r.length = 8) :
    readV6 (groupsText l ++ ':' :: ':' :: groupsText r) =
      some ((l ++ List.replicate n 0 ++ r).flatMap groupBytes) := by
  have hsplit : splitDouble (groupsText l ++ ':' :: ':' :: groupsText r) =
      some (groupsText l, groupsText r) := by
    rw [splitDouble_groupsText, splitDouble, Option.map_some, List.append_nil]
  have hzeros : (List.replicate n 0).flatMap groupBytes = List.replicate (2 * n) 0 := by
    clear hn hlen hsplit
    induction n with
    | zero => rfl
    | succ n ih =>
      rw [List.replicate_succ, List.flatMap_cons, ih, Nat.mul_succ]
      rfl
  have hfill : 16 - 2 * l.length - 2 * r.length = 2 * n := by omega
  unfold readV6
  rw [hsplit]
  dsimp only
  rw [readGroups_groupsText hl, readGroups_groupsText hr, Option.bind_some, Option.bind_some,
    length_flatMap_groupBytes, length_flatMap_groupBytes, if_pos (by omega), hfill,
    List.flatMap_append, List.flatMap_append, hzeros]

end IpText
