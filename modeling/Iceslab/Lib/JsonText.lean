import Iceslab.Lib.IpText
import Iceslab.Lib.Json
import Iceslab.Lib.JsonScan

/-!
# JSON texts

`JSON.stringify` of a value and the reading of it back.  Numbers are the natural ones, and an escaped
character outside of the basic plane is not read as its two surrogates.

* `text`, `stringify` — the text of a value, nothing between its tokens.
* `value`, `parse` — the value of a text.
* `parse_stringify` — a value written is read back.
-/

set_option autoImplicit false

namespace Json

/-! ## Writing -/

mutual

def text : Json → List Char
  | .null => "null".toList
  | .bool true => "true".toList
  | .bool false => "false".toList
  | .num n => Nat.toDigits 10 n
  | .str s => (quote s).toList
  | .arr items => '[' :: itemsText items
  | .obj fields => '\x7b' :: fieldsText fields

/-- The items of an array and its closing bracket. -/
def itemsText : List Json → List Char
  | [] => [']']
  | j :: items => text j ++ moreItemsText items

def moreItemsText : List Json → List Char
  | [] => [']']
  | j :: items => ',' :: (text j ++ moreItemsText items)

def fieldsText : List (String × Json) → List Char
  | [] => ['\x7d']
  | (k, j) :: fields => (quote k).toList ++ ':' :: (text j ++ moreFieldsText fields)

def moreFieldsText : List (String × Json) → List Char
  | [] => ['\x7d']
  | (k, j) :: fields => ',' :: ((quote k).toList ++ ':' :: (text j ++ moreFieldsText fields))

end

/-- `JSON.stringify(j)` -/
def stringify (j : Json) : String := String.ofList j.text

/-! ## Reading -/

def skip (cs : List Char) : List Char := cs.dropWhile JsonScan.isSpace

/-- The character an escape stands for. -/
def unescape (c : Char) : Option Char :=
  if c = '"' ∨ c = '\\' ∨ c = '/' then some c
  else if c = 'n' then some '\n'
  else if c = 'r' then some '\r'
  else if c = 't' then some '\t'
  else if c = 'b' then some (Char.ofNat 8)
  else if c = 'f' then some (Char.ofNat 12)
  else none

/-- The character of four hexadecimal digits. -/
def unicode (cs : List Char) : Option Char :=
  (IpText.hexValue cs).bind fun n => if n.isValidChar then some (Char.ofNat n) else none

/-- One character of a string. -/
def readChar : List Char → Option (Char × List Char)
  | [] => none
  | c :: cs =>
    if c = '\\' then
      match cs with
      | [] => none
      | e :: cs =>
        if e = 'u' then
          if cs.length < 4 then none else (unicode (cs.take 4)).map fun u => (u, cs.drop 4)
        else (unescape e).map fun u => (u, cs)
    else if c.toNat < 32 then none
    else some (c, cs)

/-- A string after its opening quote. -/
def readString : Nat → List Char → Option (List Char × List Char)
  | 0, _ => none
  | fuel + 1, cs =>
    if cs.head? = some '"' then some ([], cs.tail)
    else
      (readChar cs).bind fun p => (readString fuel p.2).map fun q => (p.1 :: q.1, q.2)

def readNum (cs : List Char) : Option (Nat × List Char) :=
  (IpText.decimal (cs.takeWhile Char.isDigit)).map fun n => (n, cs.dropWhile Char.isDigit)

def literals : List (List Char × Json) :=
  [("null".toList, .null), ("true".toList, .bool true), ("false".toList, .bool false)]

def readLiteral (cs : List Char) : Option (Json × List Char) :=
  (literals.find? fun l => l.1.isPrefixOf cs).map fun l => (l.2, cs.drop l.1.length)

/-- A key and its colon. -/
def readKey (cs : List Char) : Option (String × List Char) :=
  match skip cs with
  | [] => none
  | c :: cs =>
    if c = '"' then
      (readString (cs.length + 1) cs).bind fun p =>
        if (skip p.2).head? = some ':' then some (String.ofList p.1, (skip p.2).tail) else none
    else none

mutual

def value : Nat → List Char → Option (Json × List Char)
  | 0, _ => none
  | fuel + 1, cs =>
    match skip cs with
    | [] => none
    | c :: cs =>
      if c = '"' then
        (readString (cs.length + 1) cs).map fun p => (.str (String.ofList p.1), p.2)
      else if c = '[' then
        if (skip cs).head? = some ']' then some (.arr [], (skip cs).tail)
        else (items fuel cs).map fun p => (.arr p.1, p.2)
      else if c = '\x7b' then
        if (skip cs).head? = some '\x7d' then some (.obj [], (skip cs).tail)
        else (fields fuel cs).map fun p => (.obj p.1, p.2)
      else if c.isDigit then (readNum (c :: cs)).map fun p => (.num p.1, p.2)
      else readLiteral (c :: cs)

/-- One item or more, and the closing bracket. -/
def items : Nat → List Char → Option (List Json × List Char)
  | 0, _ => none
  | fuel + 1, cs =>
    (value fuel cs).bind fun p =>
      if (skip p.2).head? = some ']' then some ([p.1], (skip p.2).tail)
      else if (skip p.2).head? = some ',' then
        (items fuel (skip p.2).tail).map fun q => (p.1 :: q.1, q.2)
      else none

def fields : Nat → List Char → Option (List (String × Json) × List Char)
  | 0, _ => none
  | fuel + 1, cs =>
    (readKey cs).bind fun k => (value fuel k.2).bind fun p =>
      if (skip p.2).head? = some '\x7d' then some ([(k.1, p.1)], (skip p.2).tail)
      else if (skip p.2).head? = some ',' then
        (fields fuel (skip p.2).tail).map fun q => ((k.1, p.1) :: q.1, q.2)
      else none

end

/-- `JSON.parse(s)` -/
def parse (s : String) : Option Json :=
  (value (s.length + 1) s.toList).bind fun p => if skip p.2 = [] then some p.1 else none

/-! ## Characters and numbers -/

section Tokens

theorem readChar_escapeChar (c : Char) (rest : List Char) :
    readChar ((escapeChar c).toList ++ rest) = some (c, rest) := by
  unfold escapeChar
  split
  · rename_i h
    subst h
    rfl
  split
  · rename_i h
    subst h
    rfl
  split
  · rename_i h
    subst h
    rfl
  split
  · rename_i h
    subst h
    rfl
  split
  · rename_i h
    subst h
    rfl
  have hof : Char.ofNat c.toNat = c := Char.ofNat_toNat c
  split
  · rename_i h
    rw [← hof, h]
    rfl
  split
  · rename_i h
    rw [← hof, h]
    rfl
  split
  · rename_i h
    have hcode : unicode ['0', '0', hexDigit (c.toNat / 16), hexDigit (c.toNat % 16)] =
        some (Char.ofNat c.toNat) :=
      (by decide : ∀ n : Fin 32, unicode ['0', '0', hexDigit (n / 16), hexDigit (n % 16)] =
        some (Char.ofNat n)) ⟨c.toNat, h⟩
    rw [hof] at hcode
    have hlead : "\\u00".toList = ['\\', 'u', '0', '0'] := by decide
    rw [String.toList_append, hlead, String.toList_ofList]
    simp only [List.cons_append, List.nil_append, readChar, if_true, List.length_cons,
      List.take_succ_cons, List.take_zero, List.drop_succ_cons, List.drop_zero, hcode, Option.map_some]
    rw [if_neg (by omega)]
  · rename_i h1 h2 h3 h4 h5 h6 h7 h8
    rw [String.toList_singleton, List.singleton_append]
    simp only [readChar, if_neg h2, if_neg h8]

theorem head?_escapeChar (c : Char) (rest : List Char) :
    ((escapeChar c).toList ++ rest).head? ≠ some '"' := by
  unfold escapeChar
  split
  · simp
  split
  · simp
  split
  · simp
  split
  · simp
  split
  · simp
  split
  · simp
  split
  · simp
  split
  · simp
  · rename_i h _ _ _ _ _ _ _
    simpa using h

theorem readString_quoted (cs rest : List Char) {fuel : Nat} (h : cs.length < fuel) :
    readString fuel ((cs.flatMap fun c => (escapeChar c).toList) ++ '"' :: rest) =
      some (cs, rest) := by
  induction cs generalizing fuel with
  | nil =>
    obtain ⟨fuel, rfl⟩ := Nat.exists_eq_add_of_lt h
    simp [readString]
  | cons c cs ih =>
    match fuel, h with
    | fuel + 1, h =>
      rw [List.flatMap_cons, List.append_assoc, readString, if_neg (head?_escapeChar c _),
        readChar_escapeChar, Option.bind_some, ih (by simpa using h)]
      rfl

theorem toList_quote (s : String) :
    (quote s).toList = '"' :: (s.toList.flatMap (fun c => (escapeChar c).toList) ++ ['"']) := by
  have hjoin (l : List String) : (String.join l).toList = l.flatMap String.toList := by
    rw [String.toList_join]
  rw [quote, String.toList_append, String.toList_append, hjoin, List.flatMap_map]
  rfl

/-- What stands after a value does not go on as a number. -/
def Stops (rest : List Char) : Prop := ∀ c, rest.head? = some c → c.isDigit = false

theorem stops_nil : Stops [] := nofun

variable {rest : List Char}

theorem stops_cons {c : Char} (h : c.isDigit = false) : Stops (c :: rest) := by
  rintro d hd
  cases hd
  exact h

theorem isDigit_of_mem {n : Nat} {c : Char} (h : c ∈ Nat.toDigits 10 n) : c.isDigit = true :=
  Nat.isDigit_of_mem_toDigits (by decide) (by decide) h

theorem takeWhile_toDigits (n : Nat) (h : Stops rest) :
    (Nat.toDigits 10 n ++ rest).takeWhile Char.isDigit = Nat.toDigits 10 n ∧
      (Nat.toDigits 10 n ++ rest).dropWhile Char.isDigit = rest := by
  rw [List.takeWhile_append_of_pos fun c => isDigit_of_mem,
    List.dropWhile_append_of_pos fun c => isDigit_of_mem]
  cases rest with
  | nil => simp
  | cons c rest =>
    have hc := h c rfl
    simp [hc]

/-- No number is written with a zero in front. -/
theorem head?_toDigits {n : Nat} (h : 10 ≤ n) : (Nat.toDigits 10 n).head? ≠ some '0' := by
  induction n using Nat.strong_induction_on with
  | _ n ih =>
    rw [Nat.toDigits_eq_if (by decide), if_neg (by omega)]
    have hne : Nat.toDigits 10 (n / 10) ≠ [] := Nat.toDigits_ne_nil
    rw [List.head?_append_of_ne_nil _ hne]
    by_cases hn : 10 ≤ n / 10
    · exact ih (n / 10) (by omega) hn
    · rw [Nat.toDigits_eq_if (by decide), if_pos (by omega)]
      exact (by decide : ∀ d : Fin 10, d ≠ 0 → [Nat.digitChar d].head? ≠ some '0')
        ⟨n / 10, by omega⟩ (by simp [Fin.ext_iff]; omega)

theorem decimal_toDigits (n : Nat) : IpText.decimal (Nat.toDigits 10 n) = some n := by
  unfold IpText.decimal
  rw [if_pos, Nat.ofDigitChars_ten_toDigits]
  refine ⟨Nat.toDigits_ne_nil, List.all_eq_true.mpr fun c => isDigit_of_mem, ?_⟩
  by_cases hn : 10 ≤ n
  · exact .inr (head?_toDigits hn)
  · rw [Nat.toDigits_eq_if (by decide), if_pos (by omega)]
    exact .inl rfl

theorem readNum_toDigits (n : Nat) (h : Stops rest) :
    readNum (Nat.toDigits 10 n ++ rest) = some (n, rest) := by
  obtain ⟨htake, hdrop⟩ := takeWhile_toDigits n h
  rw [readNum, htake, hdrop, decimal_toDigits]
  rfl

end Tokens

/-! ## Values -/

section Values

theorem skip_cons {c : Char} (cs : List Char) (h : JsonScan.isSpace c = false) :
    skip (c :: cs) = c :: cs := by
  rw [skip, List.dropWhile_cons_of_neg (by simp [h])]

theorem text_cons (j : Json) : ∃ c cs, text j = c :: cs ∧ JsonScan.isSpace c = false ∧ c ≠ ']' := by
  match j with
  | .null => exact ⟨'n', "ull".toList, by simp [text], by decide, by decide⟩
  | .bool true => exact ⟨'t', "rue".toList, by simp [text], by decide, by decide⟩
  | .bool false => exact ⟨'f', "alse".toList, by simp [text], by decide, by decide⟩
  | .str s => exact ⟨'"', _, by rw [text, toList_quote], by decide, by decide⟩
  | .arr items => exact ⟨'[', _, by rw [text], by decide, by decide⟩
  | .obj fields => exact ⟨'\x7b', _, by rw [text], by decide, by decide⟩
  | .num n =>
    obtain ⟨c, cs, hcs⟩ := List.exists_cons_of_ne_nil (Nat.toDigits_ne_nil (n := n) (b := 10))
    have hd : c.isDigit = true := isDigit_of_mem (n := n) (hcs ▸ List.mem_cons_self)
    refine ⟨c, cs, by rw [text, hcs], ?_, ?_⟩
    · cases hs : JsonScan.isSpace c with
      | false => rfl
      | true =>
        rcases JsonScan.isSpace_cases hs with rfl | rfl | rfl | rfl <;> exact absurd hd (by decide)
    · rintro rfl
      exact absurd hd (by decide)

theorem text_length_pos (j : Json) : 0 < (text j).length := by
  obtain ⟨c, cs, h, -⟩ := text_cons j
  simp [h]

theorem length_escaped (cs : List Char) :
    cs.length ≤ (cs.flatMap fun c => (escapeChar c).toList).length := by
  induction cs with
  | nil => exact Nat.le_refl 0
  | cons c cs ih =>
    have hpos : 0 < (escapeChar c).toList.length := by
      unfold escapeChar
      repeat' split
      all_goals simp
    rw [List.flatMap_cons, List.length_append, List.length_cons]
    omega

/-- No character is written in more than six. -/
theorem length_quote_le (s : String) : (quote s).toList.length ≤ 2 + 6 * s.toList.length := by
  have hchars (cs : List Char) :
      (cs.flatMap fun c => (escapeChar c).toList).length ≤ 6 * cs.length := by
    induction cs with
    | nil => exact Nat.le_refl 0
    | cons c cs ih =>
      have hc : (escapeChar c).toList.length ≤ 6 := by
        unfold escapeChar
        repeat' split
        all_goals simp
      rw [List.flatMap_cons, List.length_append, List.length_cons]
      omega
  have := hchars s.toList
  rw [toList_quote, List.length_cons, List.length_append, List.length_singleton]
  omega

theorem length_obj (k : String) (j : Json) (fields : List (String × Json)) :
    (obj ((k, j) :: fields)).text.length =
      (quote k).toList.length + j.text.length + (moreFieldsText fields).length + 2 := by
  simp only [text, fieldsText, List.length_cons, List.length_append]
  omega

theorem length_moreFields (k : String) (j : Json) (fields : List (String × Json)) :
    (moreFieldsText ((k, j) :: fields)).length =
      (quote k).toList.length + j.text.length + (moreFieldsText fields).length + 2 := by
  simp only [moreFieldsText, List.length_cons, List.length_append]
  omega

/-- An object with a text in it, against the one with an empty text in its place. -/
theorem length_obj_str (before after : List (String × Json)) (k s : String) :
    (obj (before ++ (k, .str s) :: after)).text.length ≤
      (obj (before ++ (k, .str "") :: after)).text.length + 6 * s.toList.length := by
  have hquote := length_quote_le s
  have hempty : (quote "").toList.length = 2 := by
    rw [toList_quote]
    rfl
  have hmore (fields : List (String × Json)) :
      (moreFieldsText (fields ++ (k, .str s) :: after)).length ≤
        (moreFieldsText (fields ++ (k, .str "") :: after)).length + 6 * s.toList.length := by
    induction fields with
    | nil =>
      rw [List.nil_append, List.nil_append, length_moreFields, length_moreFields, text, text]
      omega
    | cons f fields ih =>
      rw [List.cons_append, List.cons_append, length_moreFields, length_moreFields]
      omega
  cases before with
  | nil =>
    rw [List.nil_append, List.nil_append, length_obj, length_obj, text, text]
    omega
  | cons f before =>
    have := hmore before
    rw [List.cons_append, List.cons_append, length_obj, length_obj]
    omega

theorem length_arr_singleton (j : Json) : (arr [j]).text.length = j.text.length + 2 := by
  simp only [text, itemsText, moreItemsText, List.length_cons, List.length_append,
    List.length_nil]

/-- A string after its quote, and what follows it. -/
theorem readString_quote (s : String) (rest : List Char) :
    readString (((s.toList.flatMap fun c => (escapeChar c).toList) ++ ['"'] ++ rest).length + 1)
      ((s.toList.flatMap fun c => (escapeChar c).toList) ++ ['"'] ++ rest) =
      some (s.toList, rest) := by
  rw [List.append_assoc, List.singleton_append]
  refine readString_quoted s.toList rest ?_
  have hlen := length_escaped s.toList
  rw [List.length_append]
  omega

theorem readKey_quote (k : String) (rest : List Char) :
    readKey ((quote k).toList ++ ':' :: rest) = some (k, rest) := by
  rw [toList_quote, List.cons_append, readKey, skip_cons _ (by decide)]
  dsimp only
  rw [if_pos rfl, readString_quote, Option.bind_some]
  dsimp only
  rw [skip_cons _ (by decide), List.head?_cons, if_pos rfl, String.ofList_toList, List.tail_cons]

theorem stops_moreItems (js : List Json) (rest : List Char) : Stops (moreItemsText js ++ rest) := by
  cases js with
  | nil => exact stops_cons (by decide)
  | cons j js => exact stops_cons (by decide)

theorem stops_moreFields (fs : List (String × Json)) (rest : List Char) :
    Stops (moreFieldsText fs ++ rest) := by
  match fs with
  | [] => exact stops_cons (by decide)
  | (k, j) :: fs => exact stops_cons (by decide)

mutual

/-- By the structure of the value; fuel for every character is enough. -/
theorem value_text : ∀ (j : Json) (fuel : Nat) (rest : List Char), (text j).length ≤ fuel →
    Stops rest → value fuel (text j ++ rest) = some (j, rest)
  | j, 0, _, h, _ => absurd (text_length_pos j) (by omega)
  | .null, fuel + 1, rest, _, _ => by simp [text, value, skip, JsonScan.isSpace, readLiteral, literals]
  | .bool true, fuel + 1, rest, _, _ => by
    simp [text, value, skip, JsonScan.isSpace, readLiteral, literals]
  | .bool false, fuel + 1, rest, _, _ => by
    simp [text, value, skip, JsonScan.isSpace, readLiteral, literals]
  | .num n, fuel + 1, rest, _, hrest => by
    obtain ⟨c, cs, hcs, hspace, -⟩ := text_cons (.num n)
    have hdigits : Nat.toDigits 10 n = c :: cs := by rw [← hcs, text]
    have hd : c.isDigit = true := isDigit_of_mem (n := n) (hdigits ▸ List.mem_cons_self)
    have hne (d : Char) (h : d.isDigit = false) : c ≠ d := by
      rintro rfl
      rw [h] at hd
      cases hd
    rw [hcs, List.cons_append, value, skip_cons _ hspace]
    dsimp only
    rw [if_neg (hne _ (by decide)), if_neg (hne _ (by decide)), if_neg (hne _ (by decide)),
      if_pos hd, ← List.cons_append, ← hdigits, readNum_toDigits n hrest]
    rfl
  | .str s, fuel + 1, rest, _, _ => by
    rw [text, toList_quote, List.cons_append, value, skip_cons _ (by decide)]
    dsimp only
    rw [if_pos rfl, readString_quote, Option.map_some, String.ofList_toList]
  | .arr [], fuel + 1, rest, _, _ => by
    simp [text, itemsText, value, skip, JsonScan.isSpace]
  | .arr (j :: js), fuel + 1, rest, h, _ => by
    obtain ⟨c, cs, hcs, hspace, hclose⟩ := text_cons j
    have hhead : (skip (itemsText (j :: js) ++ rest)).head? ≠ some ']' := by
      rw [itemsText, hcs, List.cons_append, List.cons_append, skip_cons _ hspace, List.head?_cons]
      simpa using hclose
    rw [text, List.cons_append, value, skip_cons _ (by decide)]
    dsimp only
    rw [if_neg (by decide), if_pos rfl, if_neg hhead,
      items_text j js fuel rest (by simpa [text] using h)]
    rfl
  | .obj [], fuel + 1, rest, _, _ => by
    simp [text, fieldsText, value, skip, JsonScan.isSpace]
  | .obj ((k, j) :: fs), fuel + 1, rest, h, _ => by
    have hhead : (skip (fieldsText ((k, j) :: fs) ++ rest)).head? ≠ some '\x7d' := by
      rw [fieldsText, toList_quote, List.cons_append, List.cons_append, skip_cons _ (by decide)]
      simp
    rw [text, List.cons_append, value, skip_cons _ (by decide)]
    dsimp only
    rw [if_neg (by decide), if_neg (by decide), if_pos rfl, if_neg hhead,
      fields_text k j fs fuel rest (by simpa [text] using h)]
    rfl

theorem items_text : ∀ (j : Json) (js : List Json) (fuel : Nat) (rest : List Char),
    (itemsText (j :: js)).length ≤ fuel → items fuel (itemsText (j :: js) ++ rest) =
      some (j :: js, rest)
  | j, js, 0, _, h => by
    have := text_length_pos j
    simp only [itemsText, List.length_append] at h
    omega
  | j, [], fuel + 1, rest, h => by
    simp only [itemsText, moreItemsText, List.length_append, List.length_cons,
      List.length_nil] at h
    rw [itemsText, moreItemsText, List.append_assoc, List.singleton_append, items,
      value_text j fuel _ (by omega) (stops_cons (by decide)), Option.bind_some]
    dsimp only
    rw [skip_cons _ (by decide), List.head?_cons, if_pos rfl, List.tail_cons]
  | j, j' :: js, fuel + 1, rest, h => by
    have hpos := text_length_pos j
    simp only [itemsText, moreItemsText, List.length_append, List.length_cons] at h
    rw [itemsText, List.append_assoc, items,
      value_text j fuel _ (by omega) (stops_moreItems (j' :: js) rest), Option.bind_some]
    dsimp only
    rw [moreItemsText, List.cons_append, skip_cons _ (by decide), List.head?_cons,
      if_neg (by decide), if_pos rfl, List.tail_cons]
    have hrest := items_text j' js fuel rest (by simp only [itemsText, List.length_append]; omega)
    rw [itemsText] at hrest
    rw [hrest]
    rfl

theorem fields_text : ∀ (k : String) (j : Json) (fs : List (String × Json)) (fuel : Nat)
    (rest : List Char), (fieldsText ((k, j) :: fs)).length ≤ fuel →
      fields fuel (fieldsText ((k, j) :: fs) ++ rest) = some ((k, j) :: fs, rest)
  | k, j, fs, 0, _, h => by
    have := text_length_pos j
    simp only [fieldsText, List.length_append, List.length_cons] at h
    omega
  | k, j, [], fuel + 1, rest, h => by
    simp only [fieldsText, moreFieldsText, List.length_append, List.length_cons,
      List.length_nil] at h
    rw [fieldsText, moreFieldsText, List.append_assoc, List.cons_append, List.append_assoc,
      List.singleton_append, fields, readKey_quote, Option.bind_some]
    dsimp only
    rw [value_text j fuel _ (by omega) (stops_cons (by decide)), Option.bind_some]
    dsimp only
    rw [skip_cons _ (by decide), List.head?_cons, if_pos rfl, List.tail_cons]
  | k, j, (k', j') :: fs, fuel + 1, rest, h => by
    simp only [fieldsText, moreFieldsText, List.length_append, List.length_cons] at h
    rw [fieldsText, List.append_assoc, List.cons_append, List.append_assoc, fields, readKey_quote,
      Option.bind_some]
    dsimp only
    rw [value_text j fuel _ (by omega) (stops_moreFields ((k', j') :: fs) rest), Option.bind_some]
    dsimp only
    rw [moreFieldsText, List.cons_append, skip_cons _ (by decide), List.head?_cons,
      if_neg (by decide), if_pos rfl, List.tail_cons]
    have hrest := fields_text k' j' fs fuel rest (by
      simp only [fieldsText, List.length_append, List.length_cons]
      omega)
    rw [fieldsText] at hrest
    rw [hrest]
    rfl

end

/-- **A value written is read back.** -/
theorem parse_stringify (j : Json) : parse (stringify j) = some j := by
  have hlen : (stringify j).length = (text j).length := by simp [stringify]
  have hread := value_text j ((stringify j).length + 1) [] (by omega) stops_nil
  rw [List.append_nil] at hread
  rw [parse, stringify, String.toList_ofList, ← stringify, hread]
  rfl

end Values

end Json
