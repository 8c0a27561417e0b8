import Mathlib.Data.List.Sort

/-!
# JSON documents over code units

A text is its list of code units: 34 is the quotation mark, 92 the backslash, 44 the comma, 58 the
colon, 91 and 93 the brackets, 123 and 125 the braces.

* `Doc`, `text` — documents and what is written for them, nothing between the tokens.
* `jsonParse` — the document of a text, `JSON.parse`, members as they are written.
* `sortKeys` — a document with the members of its objects in order.
* `jsonParse_text` — a document written is read back.
-/

set_option autoImplicit false

namespace JsonDoc

abbrev Units := List Nat

/-- The code units of a word in ASCII. -/
def units (s : String) : Units := s.toList.map Char.toNat

/-- The order of strings, by their units. -/
def unitsLe : Units → Units → Bool
  | [], _ => true
  | _ :: _, [] => false
  | u :: s, v :: t => decide (u < v) || (decide (u = v) && unitsLe s t)

def startsNumber (u : Nat) : Bool := decide (u = 45) || (decide (48 ≤ u) && decide (u ≤ 57))

/-- A unit that can stand in a number: a digit, a sign, a point or an `e`. -/
def ofNumber (u : Nat) : Bool :=
  startsNumber u || decide (u = 43 ∨ u = 46 ∨ u = 69 ∨ u = 101)

theorem startsNumber_of_digit {n : Nat} {c : Char} (h : c ∈ Nat.toDigits 10 n) :
    startsNumber c.toNat = true := by
  have hdigit := Char.isDigit_iff_toNat.mp (Nat.isDigit_of_mem_toDigits (by decide) (by decide) h)
  simp only [startsNumber, Bool.or_eq_true, Bool.and_eq_true, decide_eq_true_eq]
  exact .inr hdigit

/-- How the runtime writes and reads finite numbers; both zeros are one, they are written alike. -/
structure Numbers (ν : Type) where
  text : ν → Units
  read : Units → Option ν
  starts : ∀ x, ∃ u rest, text x = u :: rest ∧ startsNumber u = true
  plain : ∀ x, ∀ u ∈ text x, ofNumber u = true
  read_text : ∀ x, read (text x) = some x

/-- Whole numbers, in decimal. -/
def wholeNumbers : Numbers Nat where
  text n := (Nat.toDigits 10 n).map Char.toNat
  read cs :=
    let n := Nat.ofDigitChars 10 (cs.map Char.ofNat) 0
    if (Nat.toDigits 10 n).map Char.toNat = cs then some n else none
  starts n := by
    obtain ⟨c, cs, hcs⟩ := List.exists_cons_of_ne_nil (Nat.toDigits_ne_nil (n := n) (b := 10))
    refine ⟨c.toNat, cs.map Char.toNat, by rw [hcs, List.map_cons], ?_⟩
    exact startsNumber_of_digit (n := n) (hcs ▸ List.mem_cons_self)
  plain n u hu := by
    obtain ⟨c, hc, rfl⟩ := List.mem_map.mp hu
    rw [ofNumber, startsNumber_of_digit hc, Bool.true_or]
  read_text n := by
    have hback : ((Nat.toDigits 10 n).map Char.toNat).map Char.ofNat = Nat.toDigits 10 n := by
      rw [List.map_map]
      exact List.map_id'' Char.ofNat_toNat _
    rw [hback, Nat.ofDigitChars_ten_toDigits, if_pos rfl]

inductive Doc (ν : Type) where
  | null
  | bool (b : Bool)
  | num (x : ν)
  | str (s : Units)
  | arr (items : List (Doc ν))
  | obj (members : List (Units × Doc ν))

/-! ## Strings -/

def hexUnit (n : Nat) : Nat := if n < 10 then 48 + n else 87 + n

def hex4 (u : Nat) : Units :=
  [hexUnit (u / 4096 % 16), hexUnit (u / 256 % 16), hexUnit (u / 16 % 16), hexUnit (u % 16)]

def isHigh (u : Nat) : Bool := decide (0xd800 ≤ u) && decide (u < 0xdc00)

def isLow (u : Nat) : Bool := decide (0xdc00 ≤ u) && decide (u < 0xe000)

/-- The unit after the backslash, where an escape has a letter of its own. -/
def shortEscapes : List (Nat × Nat) :=
  [(34, 34), (92, 92), (8, 98), (9, 116), (10, 110), (12, 102), (13, 114)]

/-- A unit that is not half of a pair, as it stands in a string. -/
def escapeUnit (u : Nat) : Units :=
  match shortEscapes.lookup u with
  | some e => [92, e]
  | none => if u < 32 ∨ (0xd800 ≤ u ∧ u < 0xe000) then 92 :: 117 :: hex4 u else [u]

def escaped : Units → Units
  | [] => []
  | [u] => escapeUnit u
  | u :: v :: rest =>
    if isHigh u && isLow v then u :: v :: escaped rest else escapeUnit u ++ escaped (v :: rest)

/-- `JSON.stringify` of a string. -/
def quote (s : Units) : Units := 34 :: (escaped s ++ [34])

def unhex (u : Nat) : Option Nat :=
  if 48 ≤ u ∧ u ≤ 57 then some (u - 48)
  else if 97 ≤ u ∧ u ≤ 102 then some (u - 87)
  else if 65 ≤ u ∧ u ≤ 70 then some (u - 55)
  else none

def unhex4 : Units → Option (Nat × Units)
  | a :: b :: c :: d :: rest =>
    match unhex a, unhex b, unhex c, unhex d with
    | some a, some b, some c, some d => some (a * 4096 + b * 256 + c * 16 + d, rest)
    | _, _, _, _ => none
  | _ => none

/-- The unit an escape of one letter stands for; a solidus may be escaped too. -/
def unescape (e : Nat) : Option Nat :=
  if e = 47 then some 47 else (shortEscapes.find? fun p => decide (p.2 = e)).map Prod.fst

def readUnit : Units → Option (Nat × Units)
  | [] => none
  | u :: rest =>
    if u = 92 then
      match rest with
      | [] => none
      | e :: rest => if e = 117 then unhex4 rest else (unescape e).map fun u => (u, rest)
    else if u < 32 ∨ u = 34 then none
    else some (u, rest)

/-- A string after its opening quotation mark. -/
def readString : Nat → Units → Option (Units × Units)
  | 0, _ => none
  | fuel + 1, cs =>
    if cs.head? = some 34 then some ([], cs.tail)
    else (readUnit cs).bind fun p => (readString fuel p.2).map fun q => (p.1 :: q.1, q.2)

theorem unhex_hexUnit : ∀ n < 16, unhex (hexUnit n) = some n := by decide

variable {fuel u : Nat}

theorem unhex4_hex4 (h : u < 65536) (rest : Units) : unhex4 (hex4 u ++ rest) = some (u, rest) := by
  have hdigit : ∀ n, n % 16 < 16 := fun n => Nat.mod_lt n (by decide)
  simp only [hex4, List.cons_append, List.nil_append, unhex4, unhex_hexUnit _ (hdigit _)]
  congr 2
  omega

theorem lookup_shortEscapes {u e : Nat} (h : shortEscapes.lookup u = some e) :
    unescape e = some u ∧ e ≠ 117 := by
  have hmem : (u, e) ∈ shortEscapes := by
    obtain ⟨before, after, hlist, -⟩ := List.lookup_eq_some_iff.mp h
    rw [hlist]
    exact List.mem_append_right before List.mem_cons_self
  have hall : ∀ p ∈ shortEscapes, unescape p.2 = some p.1 ∧ p.2 ≠ 117 := by decide
  exact hall (u, e) hmem

theorem readUnit_escapeUnit (u : Nat) (rest : Units) :
    readUnit (escapeUnit u ++ rest) = some (u, rest) := by
  unfold escapeUnit
  split
  · rename_i e he
    obtain ⟨hback, hhex⟩ := lookup_shortEscapes he
    rw [List.cons_append, List.singleton_append, readUnit, if_pos rfl]
    simp only [if_neg hhex, hback, Option.map_some]
  · rename_i hnone
    split
    · rename_i hwide
      rw [List.cons_append, List.cons_append, readUnit, if_pos rfl]
      simp only [if_true]
      exact unhex4_hex4 (by omega) rest
    · rename_i hplain
      have hquote : u ≠ 34 := by
        rintro rfl
        cases hnone
      have hslash : u ≠ 92 := by
        rintro rfl
        cases hnone
      rw [List.singleton_append, readUnit.eq_def]
      simp only [if_neg hslash]
      rw [if_neg (by omega)]

theorem head?_escapeUnit (u : Nat) (rest : Units) : (escapeUnit u ++ rest).head? ≠ some 34 := by
  unfold escapeUnit
  split
  · simp
  · rename_i hnone
    split
    · simp
    · simp only [List.singleton_append, List.head?_cons, ne_eq, Option.some.injEq]
      rintro rfl
      cases hnone

theorem readString_step {cs rest : Units} (hhead : cs.head? ≠ some 34)
    (hread : readUnit cs = some (u, rest)) (fuel : Nat) :
    readString (fuel + 1) cs = (readString fuel rest).map fun q => (u :: q.1, q.2) := by
  rw [readString, if_neg hhead, hread, Option.bind_some]

theorem length_escapeUnit_pos (u : Nat) : 0 < (escapeUnit u).length := by
  unfold escapeUnit
  split
  · simp
  · split <;> simp

theorem readString_escaped (s rest : Units) (h : s.length < fuel) :
    readString fuel (escaped s ++ 34 :: rest) = some (s, rest) := by
  fun_induction escaped s generalizing fuel with
  | case1 =>
    obtain ⟨fuel, rfl⟩ := Nat.exists_eq_succ_of_ne_zero (Nat.ne_zero_of_lt h)
    rfl
  | case2 u =>
    obtain ⟨fuel, rfl⟩ : ∃ n, fuel = n + 2 := ⟨fuel - 2, by simp at h; omega⟩
    rw [readString_step (head?_escapeUnit u _) (readUnit_escapeUnit u _)]
    rfl
  | case3 u v s hpair ih =>
    obtain ⟨fuel, rfl⟩ : ∃ n, fuel = n + 2 := ⟨fuel - 2, by simp at h; omega⟩
    simp only [isHigh, isLow, Bool.and_eq_true, decide_eq_true_eq] at hpair
    -- both halves of a pair stand for themselves
    have hraw : ∀ w cs, 0xd800 ≤ w → readUnit (w :: cs) = some (w, cs) := by
      intro w cs hw
      rw [readUnit.eq_def]
      simp only [if_neg (show ¬ w = 92 by omega)]
      rw [if_neg (by omega)]
    have hhead : ∀ w (cs : Units), 0xd800 ≤ w → (w :: cs).head? ≠ some 34 := by
      intro w cs hw
      simp only [List.head?_cons, ne_eq, Option.some.injEq]
      omega
    rw [List.cons_append, List.cons_append,
      readString_step (hhead u _ (by omega)) (hraw u _ (by omega)),
      readString_step (hhead v _ (by omega)) (hraw v _ (by omega)),
      ih (by simp at h; omega)]
    rfl
  | case4 u v s _ ih =>
    obtain ⟨fuel, rfl⟩ := Nat.exists_eq_succ_of_ne_zero (Nat.ne_zero_of_lt h)
    rw [List.append_assoc, readString_step (head?_escapeUnit u _) (readUnit_escapeUnit u _),
      ih (by simp at h ⊢; omega)]
    rfl

/-! ## Writing -/

/-- Parts between a pair of brackets, with commas. -/
def bracketed (left right : Nat) (parts : List Units) : Units :=
  left :: (List.intercalate [44] parts ++ [right])

/-- A member of an object, of the text of its value. -/
def memberText (key text : Units) : Units := quote key ++ 58 :: text

section Write

variable {ν : Type} (N : Numbers ν)

mutual

def text : Doc ν → Units
  | .null => units "null"
  | .bool b => units (if b then "true" else "false")
  | .num x => N.text x
  | .str s => quote s
  | .arr items => bracketed 91 93 (itemTexts items)
  | .obj members => bracketed 123 125 (memberTexts members)

def itemTexts : List (Doc ν) → List Units
  | [] => []
  | d :: items => text d :: itemTexts items

def memberTexts : List (Units × Doc ν) → List Units
  | [] => []
  | (k, d) :: members => memberText k (text d) :: memberTexts members

end

theorem itemTexts_eq (items : List (Doc ν)) : itemTexts N items = items.map (text N) := by
  induction items with
  | nil => rw [itemTexts, List.map_nil]
  | cons d items ih => rw [itemTexts, ih, List.map_cons]

theorem memberTexts_eq (members : List (Units × Doc ν)) :
    memberTexts N members = members.map fun m => memberText m.1 (text N m.2) := by
  induction members with
  | nil => rw [memberTexts, List.map_nil]
  | cons m members ih => rw [memberTexts, ih, List.map_cons]

theorem text_arr (items : List (Doc ν)) :
    text N (.arr items) = bracketed 91 93 (items.map (text N)) := by
  rw [text, itemTexts_eq]

theorem text_obj (members : List (Units × Doc ν)) :
    text N (.obj members)
      = bracketed 123 125 (members.map fun m => memberText m.1 (text N m.2)) := by
  rw [text, memberTexts_eq]

end Write

/-! ## Reading -/

def isSpace (u : Nat) : Bool := decide (u = 32 ∨ u = 9 ∨ u = 10 ∨ u = 13)

def skip (cs : Units) : Units := cs.dropWhile isSpace

/-- One part or more, with commas, and the closing bracket. -/
def readMany {α : Type} (read : Units → Option (α × Units)) (right : Nat) :
    Nat → Units → Option (List α × Units)
  | 0, _ => none
  | fuel + 1, cs =>
    (read cs).bind fun p =>
      if (skip p.2).head? = some right then some ([p.1], (skip p.2).tail)
      else if (skip p.2).head? = some 44 then
        (readMany read right fuel (skip p.2).tail).map fun q => (p.1 :: q.1, q.2)
      else none

/-- What stands between a pair of brackets. -/
def readBracketed {α : Type} (read : Units → Option (α × Units)) (right : Nat) (cs : Units) :
    Option (List α × Units) :=
  if (skip cs).head? = some right then some ([], (skip cs).tail)
  else readMany read right (cs.length + 1) cs

section Read

variable {ν : Type}

def readMember (read : Units → Option (Doc ν × Units)) (cs : Units) :
    Option ((Units × Doc ν) × Units) :=
  if (skip cs).head? = some 34 then
    (readString (cs.length + 1) (skip cs).tail).bind fun k =>
      if (skip k.2).head? = some 58 then
        (read (skip k.2).tail).map fun p => ((k.1, p.1), p.2)
      else none
  else none

def literals : List (Units × Doc ν) :=
  [(units "null", .null), (units "true", .bool true), (units "false", .bool false)]

def readLiteral (cs : Units) : Option (Doc ν × Units) :=
  (literals.find? fun l => l.1.isPrefixOf cs).map fun l => (l.2, cs.drop l.1.length)

variable (N : Numbers ν)

def value : Nat → Units → Option (Doc ν × Units)
  | 0, _ => none
  | fuel + 1, cs =>
    match skip cs with
    | [] => none
    | u :: rest =>
      if u = 34 then (readString (rest.length + 1) rest).map fun p => (.str p.1, p.2)
      else if u = 91 then
        (readBracketed (value fuel) 93 rest).map fun p => (.arr p.1, p.2)
      else if u = 123 then
        (readBracketed (readMember (value fuel)) 125 rest).map fun p => (.obj p.1, p.2)
      else if startsNumber u then
        (N.read ((u :: rest).takeWhile ofNumber)).map fun x =>
          (.num x, (u :: rest).dropWhile ofNumber)
      else readLiteral (u :: rest)

/-- `JSON.parse` -/
def jsonParse (cs : Units) : Option (Doc ν) :=
  (value N (cs.length + 1) cs).bind fun p => if skip p.2 = [] then some p.1 else none

end Read

/-! ## Members in order -/

section Members

variable {ν : Type}

theorem Doc.induct {motive : Doc ν → Prop} (null : motive .null) (bool : ∀ b, motive (.bool b))
    (num : ∀ x, motive (.num x)) (str : ∀ s, motive (.str s))
    (arr : ∀ items, (∀ d ∈ items, motive d) → motive (.arr items))
    (obj : ∀ members, (∀ m ∈ members, motive m.2) → motive (.obj members)) (d : Doc ν) :
    motive d := by
  refine @Doc.rec ν motive (fun items => ∀ d ∈ items, motive d)
    (fun members => ∀ m ∈ members, motive m.2) (fun m => motive m.2) null bool num str
    (fun items => arr items) (fun members => obj members) ?_ ?_ ?_ ?_ ?_ d
  · intro d hd
    cases hd
  · intro d items hd hitems d' hd'
    rcases List.mem_cons.mp hd' with rfl | hd'
    · exact hd
    · exact hitems d' hd'
  · intro m hm
    cases hm
  · intro m members hmem hmembers m' hm'
    rcases List.mem_cons.mp hm' with rfl | hm'
    · exact hmem
    · exact hmembers m' hm'
  · intro k d hd
    exact hd

def sortMembers (members : List (Units × Doc ν)) : List (Units × Doc ν) :=
  members.insertionSort fun a b => unitsLe a.1 b.1 = true

mutual

def sortKeys : Doc ν → Doc ν
  | .null => .null
  | .bool b => .bool b
  | .num x => .num x
  | .str s => .str s
  | .arr items => .arr (sortItems items)
  | .obj members => .obj (sortMembers (sortValues members))

def sortItems : List (Doc ν) → List (Doc ν)
  | [] => []
  | d :: items => sortKeys d :: sortItems items

def sortValues : List (Units × Doc ν) → List (Units × Doc ν)
  | [] => []
  | (k, d) :: members => (k, sortKeys d) :: sortValues members

end

@[simp] theorem sortKeys_null : sortKeys (.null : Doc ν) = .null := by rw [sortKeys]

@[simp] theorem sortKeys_bool (b : Bool) : sortKeys (.bool b : Doc ν) = .bool b := by rw [sortKeys]

@[simp] theorem sortKeys_num (x : ν) : sortKeys (.num x) = .num x := by rw [sortKeys]

@[simp] theorem sortKeys_str (s : Units) : sortKeys (.str s : Doc ν) = .str s := by rw [sortKeys]

@[simp] theorem sortKeys_arr (items : List (Doc ν)) :
    sortKeys (.arr items) = .arr (items.map sortKeys) := by
  have hitems : sortItems items = items.map sortKeys := by
    induction items with
    | nil => rw [sortItems, List.map_nil]
    | cons d items ih => rw [sortItems, ih, List.map_cons]
  rw [sortKeys, hitems]

@[simp] theorem sortKeys_obj (members : List (Units × Doc ν)) :
    sortKeys (.obj members) = .obj (sortMembers (members.map fun m => (m.1, sortKeys m.2))) := by
  have hmembers : sortValues members = members.map fun m => (m.1, sortKeys m.2) := by
    induction members with
    | nil => rw [sortValues, List.map_nil]
    | cons m members ih => rw [sortValues, ih, List.map_cons]
  rw [sortKeys, hmembers]

end Members

/-! ## Between brackets -/

theorem skip_cons (cs : Units) (h : isSpace u = false) : skip (u :: cs) = u :: cs := by
  rw [skip, List.dropWhile_cons, h]
  rfl

theorem length_le_intercalate {part : Units} {parts : List Units} (h : part ∈ parts) :
    part.length ≤ (List.intercalate [44] parts).length := by
  induction parts with
  | nil => cases h
  | cons p parts ih =>
    cases parts with
    | nil =>
      obtain rfl := List.mem_singleton.mp h
      rw [List.intercalate_singleton]
    | cons p' parts =>
      rw [List.intercalate_cons_cons, List.length_append, List.length_append]
      rcases List.mem_cons.mp h with rfl | h
      · omega
      · have hrest := ih h
        omega

theorem length_parts_le (parts : List Units) :
    parts.length ≤ (List.intercalate [44] parts).length + 1 := by
  induction parts with
  | nil => exact Nat.zero_le _
  | cons p parts ih =>
    cases parts with
    | nil => rw [List.length_singleton]; omega
    | cons p' parts =>
      rw [List.intercalate_cons_cons, List.length_append, List.length_append, List.length_cons]
      simp only [List.length_singleton]
      omega

/-- The rest of a text after a part: a comma, or the closing bracket. -/
def After (right : Nat) (rest : Units) : Prop :=
  rest.head? = some 44 ∨ rest.head? = some right

section Between

variable {α β : Type} {read : Units → Option (α × Units)} {right : Nat} {txt : β → Units}
variable {val : β → α}

/-- What is read part by part is read between the brackets. -/
theorem readMany_intercalate (hright : isSpace right = false) (hne : right ≠ 44) {bs : List β}
    (hbs : bs ≠ []) (h : ∀ b ∈ bs, ∀ rest, After right rest →
      read (txt b ++ rest) = some (val b, rest)) (hfuel : bs.length ≤ fuel) (rest : Units) :
    readMany read right fuel (List.intercalate [44] (bs.map txt) ++ right :: rest)
      = some (bs.map val, rest) := by
  induction bs generalizing fuel with
  | nil => exact absurd rfl hbs
  | cons b bs ih =>
    obtain ⟨fuel, rfl⟩ := Nat.exists_eq_succ_of_ne_zero (Nat.ne_zero_of_lt hfuel)
    have hb := h b List.mem_cons_self
    cases bs with
    | nil =>
      rw [List.map_singleton, List.intercalate_singleton, readMany, hb _ (.inr rfl),
        Option.bind_some]
      simp only [skip_cons _ hright, List.head?_cons, if_true, List.tail_cons, List.map_singleton]
    | cons b' bs =>
      have hrest := ih (List.cons_ne_nil b' bs) (fun c hc => h c (List.mem_cons_of_mem b hc))
        (Nat.le_of_succ_le_succ hfuel)
      have hcomma : isSpace 44 = false := rfl
      rw [List.map_cons, List.map_cons, List.intercalate_cons_cons, List.append_assoc,
        List.append_assoc, readMany, hb _ (.inl rfl), Option.bind_some]
      rw [List.map_cons] at hrest
      simp only [List.singleton_append, skip_cons _ hcomma, List.head?_cons, Option.some.injEq,
        if_neg (Ne.symm hne), if_true, List.tail_cons, hrest, Option.map_some, List.map_cons]

theorem readBracketed_intercalate (hright : isSpace right = false) (hne : right ≠ 44) {bs : List β}
    (hhead : bs ≠ [] → ∀ rest,
      (skip (List.intercalate [44] (bs.map txt) ++ right :: rest)).head? ≠ some right)
    (h : ∀ b ∈ bs, ∀ rest, After right rest → read (txt b ++ rest) = some (val b, rest))
    (rest : Units) :
    readBracketed read right (List.intercalate [44] (bs.map txt) ++ right :: rest)
      = some (bs.map val, rest) := by
  by_cases hbs : bs = []
  · subst hbs
    rw [List.map_nil, List.intercalate_nil, List.nil_append, readBracketed, skip_cons _ hright,
      if_pos List.head?_cons, List.tail_cons, List.map_nil]
  · have hlen := length_parts_le (bs.map txt)
    rw [List.length_map] at hlen
    rw [readBracketed, if_neg (hhead hbs rest)]
    apply readMany_intercalate hright hne hbs h
    rw [List.length_append, List.length_cons]
    omega

end Between

/-! ## A document written is read back -/

section Back

variable {ν : Type} {N : Numbers ν} {rest : Units}

theorem startsNumber_cases (h : startsNumber u = true) : u = 45 ∨ (48 ≤ u ∧ u ≤ 57) := by
  simpa [startsNumber] using h

theorem text_cons (d : Doc ν) : ∃ u cs, text N d = u :: cs ∧ isSpace u = false ∧ u ≠ 93 := by
  cases d with
  | null => exact ⟨110, units "ull", by rw [text]; rfl, rfl, by decide⟩
  | bool b =>
    cases b with
    | false => exact ⟨102, units "alse", by rw [text]; rfl, rfl, by decide⟩
    | true => exact ⟨116, units "rue", by rw [text]; rfl, rfl, by decide⟩
  | num x =>
    obtain ⟨u, cs, hcs, hu⟩ := N.starts x
    have hrange := startsNumber_cases hu
    refine ⟨u, cs, by rw [text, hcs], ?_, by omega⟩
    rw [isSpace, decide_eq_false_iff_not]
    omega
  | str s => exact ⟨34, _, by rw [text, quote], rfl, by decide⟩
  | arr items => exact ⟨91, _, by rw [text_arr, bracketed], rfl, by decide⟩
  | obj members => exact ⟨123, _, by rw [text_obj, bracketed], rfl, by decide⟩

theorem length_escaped (s : Units) : s.length ≤ (escaped s).length := by
  fun_induction escaped s with
  | case1 => exact Nat.le_refl 0
  | case2 u => exact length_escapeUnit_pos u
  | case3 u v s _ ih => simpa using ih
  | case4 u v s _ ih =>
    have hu := length_escapeUnit_pos u
    rw [List.length_append, List.length_cons]
    omega

theorem readString_quoted (s rest : Units) :
    readString ((escaped s ++ 34 :: rest).length + 1) (escaped s ++ 34 :: rest)
      = some (s, rest) := by
  apply readString_escaped
  have hlen := length_escaped s
  rw [List.length_append, List.length_cons]
  omega

theorem readMember_text {read : Units → Option (Doc ν × Units)} {k text rest : Units} {d : Doc ν}
    (h : read (text ++ rest) = some (d, rest)) :
    readMember read (memberText k text ++ rest) = some ((k, d), rest) := by
  have hquote : isSpace 34 = false := rfl
  have hcolon : isSpace 58 = false := rfl
  have htext : memberText k text ++ rest = 34 :: (escaped k ++ 34 :: 58 :: (text ++ rest)) := by
    simp [memberText, quote]
  have hread : readString ((34 :: (escaped k ++ 34 :: 58 :: (text ++ rest))).length + 1)
      (escaped k ++ 34 :: 58 :: (text ++ rest)) = some (k, 58 :: (text ++ rest)) := by
    apply readString_escaped
    have hlen := length_escaped k
    rw [List.length_cons, List.length_append]
    omega
  rw [htext, readMember, skip_cons _ hquote, List.head?_cons, if_pos rfl, List.tail_cons, hread,
    Option.bind_some]
  simp only [skip_cons _ hcolon, List.head?_cons, if_true, List.tail_cons, h, Option.map_some]

theorem value_word {cs rest : Units} {d : Doc ν}
    (hspace : isSpace u = false) (hquote : u ≠ 34) (harr : u ≠ 91) (hobj : u ≠ 123)
    (hnum : startsNumber u = false) (h : readLiteral (u :: (cs ++ rest)) = some (d, rest)) :
    value N (fuel + 1) (u :: (cs ++ rest)) = some (d, rest) := by
  rw [value, skip_cons _ hspace]
  simp only [if_neg hquote, if_neg harr, if_neg hobj, hnum, Bool.false_eq_true, if_false, h]

/-- After a number comes nothing that could belong to it. -/
def Stops (rest : Units) : Prop := ∀ u, rest.head? = some u → ofNumber u = false

theorem stops_nil : Stops [] := by
  intro u hu
  cases hu

theorem stops_of_after {right : Nat} (hright : ofNumber right = false)
    (h : After right rest) : Stops rest := by
  intro u hu
  rcases h with h | h
  · rw [h] at hu
    obtain rfl := Option.some.inj hu
    rfl
  · rw [h] at hu
    obtain rfl := Option.some.inj hu
    exact hright

theorem takeWhile_number {cs rest : Units} (hcs : ∀ u ∈ cs, ofNumber u = true)
    (hrest : Stops rest) :
    (cs ++ rest).takeWhile ofNumber = cs ∧ (cs ++ rest).dropWhile ofNumber = rest := by
  rw [List.takeWhile_append_of_pos hcs, List.dropWhile_append_of_pos hcs]
  cases rest with
  | nil => simp
  | cons u rest =>
    have hu := hrest u rfl
    simp [hu]

theorem bracketed_append (left right : Nat) (parts : List Units) (rest : Units) :
    bracketed left right parts ++ rest
      = left :: (List.intercalate [44] parts ++ right :: rest) := by
  rw [bracketed, List.cons_append, List.append_assoc, List.singleton_append]

theorem value_arr (fuel : Nat) (cs : Units) :
    value N (fuel + 1) (91 :: cs)
      = (readBracketed (value N fuel) 93 cs).map
        fun p => (.arr p.1, p.2) := rfl

theorem value_obj (fuel : Nat) (cs : Units) :
    value N (fuel + 1) (123 :: cs)
      = (readBracketed (readMember (value N fuel)) 125 cs).map
        fun p => (.obj p.1, p.2) := rfl

theorem head?_intercalate {u right : Nat} {cs : Units} (hspace : isSpace u = false)
    (hne : u ≠ right) (parts : List Units) (rest : Units) :
    (skip (List.intercalate [44] ((u :: cs) :: parts) ++ right :: rest)).head? ≠ some right := by
  have hfront : ∃ cs', List.intercalate [44] ((u :: cs) :: parts) ++ right :: rest = u :: cs' := by
    cases parts with
    | nil => exact ⟨_, by rw [List.intercalate_singleton, List.cons_append]⟩
    | cons p parts =>
      exact ⟨_, by rw [List.intercalate_cons_cons, List.cons_append, List.cons_append,
        List.cons_append]⟩
  obtain ⟨cs', hcs'⟩ := hfront
  rw [hcs', skip_cons _ hspace, List.head?_cons]
  exact fun h => hne (Option.some.inj h)

theorem value_num (x : ν) (hrest : Stops rest) :
    value N (fuel + 1) (text N (.num x) ++ rest) = some (.num x, rest) := by
  obtain ⟨u, cs, hcs, hu⟩ := N.starts x
  have hrange := startsNumber_cases hu
  have hspace : isSpace u = false := by
    rw [isSpace, decide_eq_false_iff_not]
    omega
  obtain ⟨htake, hdrop⟩ := takeWhile_number (N.plain x) hrest
  have hcons : N.text x ++ rest = u :: (cs ++ rest) := by rw [hcs, List.cons_append]
  rw [text, hcons, value, skip_cons _ hspace]
  simp only [if_neg (show ¬ u = 34 by omega), if_neg (show ¬ u = 91 by omega),
    if_neg (show ¬ u = 123 by omega), hu, if_true]
  rw [← hcons, htake, hdrop, N.read_text, Option.map_some]

theorem value_str (s : Units) :
    value N (fuel + 1) (text N (.str s) ++ rest) = some (.str s, rest) := by
  have hquote : isSpace 34 = false := rfl
  rw [text, quote, List.cons_append, List.append_assoc, List.singleton_append, value,
    skip_cons _ hquote]
  simp only [if_true]
  rw [readString_quoted]
  rfl

theorem value_items {items : List (Doc ν)} (hread : ∀ d ∈ items, ∀ rest, After 93 rest →
      value N fuel (text N d ++ rest) = some (d, rest)) :
    value N (fuel + 1) (text N (.arr items) ++ rest) = some (.arr items, rest) := by
  have hhead : items ≠ [] → ∀ rest,
      (skip (List.intercalate [44] (items.map (text N)) ++ 93 :: rest)).head? ≠ some 93 := by
    intro hne rest
    cases items with
    | nil => exact absurd rfl hne
    | cons d items =>
      obtain ⟨u, cs, hcs, hspace, hright⟩ := text_cons (N := N) d
      rw [List.map_cons, hcs]
      exact head?_intercalate hspace hright _ rest
  have hread' : ∀ d ∈ items, ∀ rest, After 93 rest →
      value N fuel (text N d ++ rest) = some (id d, rest) := hread
  rw [text_arr, bracketed_append, value_arr,
    readBracketed_intercalate rfl (by decide) hhead hread', Option.map_some, List.map_id]

theorem value_members {members : List (Units × Doc ν)}
    (hread : ∀ m ∈ members, ∀ rest, After 125 rest →
      readMember (value N fuel) (memberText m.1 (text N m.2) ++ rest)
        = some (m, rest)) :
    value N (fuel + 1) (text N (.obj members) ++ rest) = some (.obj members, rest) := by
  have hhead : members ≠ [] → ∀ rest, (skip (List.intercalate [44]
      (members.map fun m => memberText m.1 (text N m.2)) ++ 125 :: rest)).head? ≠ some 125 := by
    intro hne rest
    cases members with
    | nil => exact absurd rfl hne
    | cons m members =>
      rw [List.map_cons]
      exact head?_intercalate rfl (by decide) _ rest
  have hread' : ∀ m ∈ members, ∀ rest, After 125 rest →
      readMember (value N fuel) (memberText m.1 (text N m.2) ++ rest) = some (id m, rest) := hread
  rw [text_obj, bracketed_append, value_obj,
    readBracketed_intercalate rfl (by decide) hhead hread', Option.map_some, List.map_id]

theorem length_part_lt {left right fuel : Nat} {part : Units} {parts : List Units}
    (hpart : part ∈ parts) (hfuel : (bracketed left right parts).length ≤ fuel + 1) :
    part.length ≤ fuel := by
  have hle := length_le_intercalate hpart
  have hlen : (List.intercalate [44] parts).length + 1 ≤ fuel := by
    simpa [bracketed] using hfuel
  omega

theorem value_text (d : Doc ν) (hfuel : (text N d).length ≤ fuel)
    (hrest : Stops rest) : value N fuel (text N d ++ rest) = some (d, rest) := by
  induction fuel generalizing d rest with
  | zero =>
    obtain ⟨u, cs, hcs, -⟩ := text_cons (N := N) d
    rw [hcs] at hfuel
    cases hfuel
  | succ fuel ih =>
    cases d with
    | null =>
      rw [text]
      exact value_word (u := 110) (by decide) (by decide) (by decide) (by decide) (by decide) rfl
    | bool b =>
      rw [text]
      cases b with
      | false =>
        exact value_word (u := 102) (by decide) (by decide) (by decide) (by decide) (by decide) rfl
      | true =>
        exact value_word (u := 116) (by decide) (by decide) (by decide) (by decide) (by decide) rfl
    | num x => exact value_num x hrest
    | str s => exact value_str s
    | arr items =>
      rw [text_arr] at hfuel
      apply value_items
      intro d hd rest hafter
      exact ih d (length_part_lt (List.mem_map_of_mem hd) hfuel) (stops_of_after rfl hafter)
    | obj members =>
      rw [text_obj] at hfuel
      apply value_members
      intro m hm rest hafter
      have hpart := length_part_lt
        (List.mem_map_of_mem (f := fun m => memberText m.1 (text N m.2)) hm) hfuel
      have hdoc : (text N m.2).length ≤ fuel := by
        have hmember : (text N m.2).length ≤ (memberText m.1 (text N m.2)).length := by
          simp [memberText]
          omega
        omega
      exact readMember_text (ih m.2 hdoc (stops_of_after rfl hafter))

/-- **A document written is read back.** -/
theorem jsonParse_text (d : Doc ν) : jsonParse N (text N d) = some d := by
  have hread := value_text (N := N) d (Nat.le_succ (text N d).length) stops_nil
  rw [List.append_nil] at hread
  rw [jsonParse, hread, Option.bind_some]
  rfl

end Back

end JsonDoc
