import Mathlib.Data.List.Sort
import Mathlib.Data.String.Basic

/-!
# Strings as JavaScript reads them

The string operations of the language and of its runtime that the panel's renderers use, after
their documentation.

* `trim`, `afterPrefix`, `split`, `parseInt`.
* `setAdd`, `sortTexts` — sets in insertion order, and sorting by code units.
* `isIP` — which address family a string spells, or none.
-/

set_option autoImplicit false

theorem List.mem_intercalate {α : Type*} {a : α} {sep : List α} {ls : List (List α)}
    (h : a ∈ sep.intercalate ls) : a ∈ sep ∨ ∃ l ∈ ls, a ∈ l := by
  induction ls with
  | nil => simp at h
  | cons l ls ih =>
    by_cases hls : ls = []
    · subst hls
      exact .inr ⟨l, List.mem_cons_self, by simpa using h⟩
    · rw [List.intercalate_cons_of_ne_nil hls, List.mem_append, List.mem_append] at h
      rcases h with (h | h) | h
      · exact .inr ⟨l, List.mem_cons_self, h⟩
      · exact .inl h
      · rcases ih h with h | ⟨m, hm, ha⟩
        · exact .inl h
        · exact .inr ⟨m, List.mem_cons_of_mem _ hm, ha⟩

theorem List.infix_intercalate {α : Type*} {sep w : List α} {words : List (List α)}
    (h : w ∈ words) : w <:+: sep.intercalate words := by
  induction words with
  | nil => cases h
  | cons v words ih =>
    by_cases hw : words = []
    · subst hw
      simp only [List.mem_singleton.mp h, List.intercalate_singleton, List.infix_rfl]
    · rw [List.intercalate_cons_of_ne_nil hw]
      rcases List.mem_cons.mp h with rfl | h
      · exact (List.infix_append_left).trans List.infix_append_left
      · exact (ih h).trans List.infix_append_right

namespace JsText

/-- Members are looked through one by one, not all characters. -/
instance (priority := high) decidableChars {p : Char → Prop} [DecidablePred p] (cs : List Char) :
    Decidable (∀ c ∈ cs, p c) :=
  List.decidableBAll p cs

instance (priority := high) decidableSomeChar {p : Char → Prop} [DecidablePred p]
    (cs : List Char) : Decidable (∃ c ∈ cs, p c) :=
  List.decidableBEx p cs

/-- White space and line terminators. -/
def isSpace (c : Char) : Bool :=
  decide (c.toNat ∈ [9, 10, 11, 12, 13, 32, 160, 5760, 8232, 8233, 8239, 8287, 12288, 65279])
    || (decide (8192 ≤ c.toNat) && decide (c.toNat ≤ 8202))

/-- `s.trim()` -/
def trim (s : String) : String :=
  String.ofList ((s.toList.dropWhile isSpace).reverse.dropWhile isSpace).reverse

variable {c : Char} {α : Type} {a cs w : List Char}

theorem isSpace_of_isAlphanum (h : c.isAlphanum = true) : isSpace c = false := by
  have hn : (48 ≤ c.toNat ∧ c.toNat ≤ 57) ∨ (65 ≤ c.toNat ∧ c.toNat ≤ 90) ∨
      (97 ≤ c.toNat ∧ c.toNat ≤ 122) := by
    unfold Char.isAlphanum Char.isAlpha Char.isUpper Char.isLower Char.isDigit at h
    simp only [Bool.or_eq_true, Bool.and_eq_true, decide_eq_true_eq, UInt32.le_iff_toNat_le,
      ge_iff_le] at h
    simp only [Char.toNat]
    rcases h with (h | h) | h
    · exact .inr (.inl h)
    · exact .inr (.inr h)
    · exact .inl h
  unfold isSpace
  simp only [List.mem_cons, List.not_mem_nil, or_false]
  have : ¬ 8192 ≤ c.toNat := by omega
  simp only [this, decide_false, Bool.false_and, Bool.or_false, decide_eq_false_iff_not]
  omega

theorem trim_of_noSpace {s : String} (h : ∀ c ∈ s.toList, isSpace c = false) : trim s = s := by
  have hdrop {cs : List Char} (hcs : ∀ c ∈ cs, isSpace c = false) : cs.dropWhile isSpace = cs := by
    cases cs with
    | nil => rfl
    | cons c cs => rw [List.dropWhile_cons_of_neg (by simp [hcs c List.mem_cons_self])]
  unfold trim
  rw [hdrop h, hdrop (fun c hc => h c (List.mem_reverse.mp hc)), List.reverse_reverse,
    String.ofList_toList]

/-- `s.startsWith(pre) ? s.slice(pre.length) : none` -/
def afterPrefix (pre s : String) : Option String :=
  if pre.toList.isPrefixOf s.toList then some (String.ofList (s.toList.drop pre.length)) else none

/-- `s.split(c)` -/
def split (c : Char) (s : String) : List String := (s.toList.splitOn c).map String.ofList

/-- What stands before the first `c`, and from it on. -/
theorem takeWhile_ne (h : c ∉ a) (b : List Char) : (a ++ c :: b).takeWhile (· ≠ c) = a := by
  rw [List.takeWhile_append_of_pos fun x hx => by simpa using fun hc : x = c => h (hc ▸ hx)]
  simp

theorem dropWhile_ne (h : c ∉ a) (b : List Char) : (a ++ c :: b).dropWhile (· ≠ c) = c :: b := by
  rw [List.dropWhile_append_of_pos fun x hx => by simpa using fun hc : x = c => h (hc ▸ hx)]
  simp

theorem notMem_of_mem_splitOn (h : w ∈ cs.splitOn c) : c ∉ w := by
  induction cs generalizing w with
  | nil =>
    rw [List.splitOn_nil, List.mem_singleton] at h
    subst h
    exact List.not_mem_nil
  | cons x cs ih =>
    rw [List.splitOn_cons_eq_if_modifyHead] at h
    split at h
    · rcases List.mem_cons.mp h with rfl | h
      · exact List.not_mem_nil
      · exact ih h
    · rename_i hx
      obtain ⟨first, rest, hsplit⟩ := List.exists_cons_of_ne_nil (List.splitOn_ne_nil c cs)
      rw [hsplit, List.modifyHead_cons] at h
      rcases List.mem_cons.mp h with rfl | h
      · intro hmem
        rcases List.mem_cons.mp hmem with rfl | hmem
        · simp at hx
        · exact ih (hsplit ▸ List.mem_cons_self) hmem
      · exact ih (hsplit ▸ List.mem_cons_of_mem _ h)

theorem infix_of_mem_splitOn (h : w ∈ cs.splitOn c) : w <:+: cs := by
  have hword := @List.infix_intercalate _ [c] _ _ h
  rwa [List.intercalate_splitOn] at hword

theorem infix_of_mem_split {s w : String} (h : w ∈ split c s) : w.toList <:+: s.toList := by
  obtain ⟨cs, hcs, rfl⟩ := List.mem_map.mp h
  rw [String.toList_ofList]
  exact infix_of_mem_splitOn hcs

theorem notMem_of_mem_split {s w : String} (h : w ∈ split c s) : c ∉ w.toList := by
  obtain ⟨cs, hcs, rfl⟩ := List.mem_map.mp h
  rw [String.toList_ofList]
  exact notMem_of_mem_splitOn hcs

/-- Words joined are split again. -/
theorem split_intercalate {words : List String} (h : ∀ w ∈ words, c ∉ w.toList)
    (hne : words ≠ []) : split c (String.intercalate (String.singleton c) words) = words := by
  rw [split, String.toList_intercalate, String.toList_singleton, List.splitOn_intercalate]
  · simp
  · simpa using h
  · simpa using hne

/-- Words split are joined again. -/
theorem intercalate_split (c : Char) (s : String) :
    String.intercalate (String.singleton c) (split c s) = s := by
  refine String.toList_inj.mp ?_
  rw [split, String.toList_intercalate, List.map_map, String.toList_singleton]
  have : String.toList ∘ String.ofList = id := funext fun cs => String.toList_ofList
  rw [this, List.map_id, List.intercalate_splitOn]

/-- `/^\d+$/` -/
def isDigits (s : String) : Bool := decide (s ≠ "") && s.toList.all Char.isDigit

/-- `Number(s)` of a string of digits -/
def numberOf (s : String) : Nat := Nat.ofDigitChars 10 s.toList 0

/-- `Number.parseInt(s, 10)`, `none` for NaN -/
def parseInt (s : String) : Option Int :=
  let body := s.toList.dropWhile isSpace
  let neg := body.head? = some '-'
  let unsigned := if body.head? = some '-' ∨ body.head? = some '+' then body.tail else body
  match unsigned.takeWhile Char.isDigit with
  | [] => none
  | ds => some (if neg then -(Nat.ofDigitChars 10 ds 0 : Int) else Nat.ofDigitChars 10 ds 0)

/-- Before and after the last `c`. -/
def splitLast (c : Char) (s : String) : Option (String × String) :=
  let r := s.toList.reverse
  if c ∈ r then
    some (String.ofList ((r.dropWhile (· ≠ c)).tail.reverse),
      String.ofList (r.takeWhile (· ≠ c)).reverse)
  else none

/-! ## `net.isIP` -/

/-- `0` to `255`, no leading zero. -/
def isOctet (s : String) : Bool :=
  isDigits s && decide (s.length ≤ 3) && decide (numberOf s ≤ 255)
    && (decide (s.length = 1) || decide (s.toList.head? ≠ some '0'))

def isIPv4 (s : String) : Bool :=
  let parts := split '.' s
  decide (parts.length = 4) && parts.all isOctet

def isHex (c : Char) : Bool :=
  c.isDigit || ('a' ≤ c && c ≤ 'f') || ('A' ≤ c && c ≤ 'F')

/-- One group of an IPv6 address. -/
def isGroup (s : String) : Bool :=
  decide (1 ≤ s.length) && decide (s.length ≤ 4) && s.toList.all isHex

/-- How many groups a run of colon-separated ones spells; an IPv4 tail counts for two. -/
def groupCount (v4Tail : Bool) : List String → Option Nat
  | [] => some 0
  | [g] => if isGroup g then some 1 else if v4Tail && isIPv4 g then some 2 else none
  | g :: gs => if isGroup g then (groupCount v4Tail gs).map (· + 1) else none

/-- Before and after the first `::`. -/
def splitDouble : List Char → Option (List Char × List Char)
  | ':' :: ':' :: rest => some ([], rest)
  | c :: rest => (splitDouble rest).map (fun p => (c :: p.1, p.2))
  | [] => none

def groupsOf (cs : List Char) : List String :=
  if cs = [] then [] else (cs.splitOn ':').map String.ofList

/-- A zone after `%` names an interface. -/
def isZone (cs : List Char) : Bool :=
  decide (cs ≠ []) && cs.all (fun c => c.isAlphanum || c = '-' || c = '.' || c = ':')

def isIPv6 (s : String) : Bool :=
  let addr := s.toList.takeWhile (· ≠ '%')
  let zone := s.toList.dropWhile (· ≠ '%')
  (decide (zone = []) || isZone zone.tail)
    && match splitDouble addr with
      | some (l, r) =>
        match groupCount false (groupsOf l), groupCount true (groupsOf r) with
        | some a, some b => decide (a + b ≤ 7)
        | _, _ => false
      | none => groupCount true (groupsOf addr) == some 8

/-- The family of a literal address, 0 for anything else. -/
def isIP (s : String) : Nat := if isIPv4 s then 4 else if isIPv6 s then 6 else 0

example : ["10.0.0.1", "256.0.0.1", "2001:db8::1", "::ffff:1.2.3.4", "a.example"].map isIP
    = [4, 0, 6, 6, 0] := by decide

/-! ## Sets and sorting -/

/-- `set.add(a)`, the set in the order its elements came in. -/
def setAdd {α : Type} [DecidableEq α] (set : List α) (a : α) : List α :=
  if a ∈ set then set else set ++ [a]

@[simp] theorem mem_setAdd [DecidableEq α] {set : List α} {a x : α} :
    x ∈ setAdd set a ↔ x ∈ set ∨ x = a := by
  unfold setAdd
  split
  · rename_i ha
    constructor
    · exact .inl
    · rintro (h | rfl)
      · exact h
      · exact ha
  · simp

theorem nodup_setAdd [DecidableEq α] {set : List α} (h : set.Nodup) (a : α) :
    (setAdd set a).Nodup := by
  unfold setAdd
  split
  · exact h
  · rename_i ha
    exact List.nodup_append.mpr ⟨h, List.nodup_singleton a, by
      rintro x hx y hy rfl
      exact ha (List.mem_singleton.mp hy ▸ hx)⟩

theorem mem_foldl_setAdd [DecidableEq α] {l set : List α} {x : α} :
    x ∈ l.foldl setAdd set ↔ x ∈ set ∨ x ∈ l := by
  induction l generalizing set with
  | nil => simp
  | cons a l ih => rw [List.foldl_cons, ih, mem_setAdd, List.mem_cons, or_assoc]

theorem nodup_foldl_setAdd [DecidableEq α] {l set : List α} (h : set.Nodup) :
    (l.foldl setAdd set).Nodup := by
  induction l generalizing set with
  | nil => exact h
  | cons a l ih => exact ih (nodup_setAdd h a)

/-- The code units of a text. -/
def codeUnits (s : String) : List Nat :=
  s.toList.flatMap fun c =>
    if c.toNat < 65536 then [c.toNat]
    else [55296 + (c.toNat - 65536) / 1024, 56320 + (c.toNat - 65536) % 1024]

/-- The units of one character. -/
def unitsOf (c : Char) : List Nat :=
  if c.toNat < 65536 then [c.toNat]
  else [55296 + (c.toNat - 65536) / 1024, 56320 + (c.toNat - 65536) % 1024]

theorem codeUnits_ofList (cs : List Char) : codeUnits (String.ofList cs) = cs.flatMap unitsOf := by
  rw [codeUnits, String.toList_ofList]
  rfl

/-- The first unit says whether a second one follows. -/
theorem unitsOf_append_inj {c d : Char} {us vs : List Nat}
    (h : unitsOf c ++ us = unitsOf d ++ vs) : c = d ∧ us = vs := by
  have hchar : c.toNat = d.toNat → c = d := Char.toNat_inj.mp
  have hc := c.valid
  have hd := d.valid
  have hcn : c.val.toNat = c.toNat := rfl
  have hdn : d.val.toNat = d.toNat := rfl
  simp only [UInt32.isValidChar, Nat.isValidChar, hcn, hdn] at hc hd
  unfold unitsOf at h
  split at h <;> split at h <;> simp only [List.cons_append, List.nil_append, List.cons.injEq] at h
  · exact ⟨hchar h.1, h.2⟩
  · omega
  · omega
  · obtain ⟨hhigh, hlow, hrest⟩ := h
    exact ⟨hchar (by omega), hrest⟩

theorem codeUnits_injective : Function.Injective codeUnits := by
  intro s t h
  rw [← String.ofList_toList (s := s), ← String.ofList_toList (s := t), codeUnits_ofList,
    codeUnits_ofList] at h
  have hlists : s.toList = t.toList := by
    generalize s.toList = cs at h
    generalize t.toList = ds at h
    induction cs generalizing ds with
    | nil =>
      cases ds with
      | nil => rfl
      | cons d ds =>
        unfold unitsOf at h
        simp only [List.flatMap_nil, List.flatMap_cons] at h
        split at h <;> simp at h
    | cons c cs ih =>
      cases ds with
      | nil =>
        unfold unitsOf at h
        simp only [List.flatMap_nil, List.flatMap_cons] at h
        split at h <;> simp at h
      | cons d ds =>
        rw [List.flatMap_cons, List.flatMap_cons] at h
        obtain ⟨rfl, hrest⟩ := unitsOf_append_inj h
        rw [ih ds hrest]
  exact String.toList_inj.mp hlists

/-- `[...texts].sort()` -/
def sortTexts (texts : List String) : List String :=
  texts.insertionSort fun a b => decide (codeUnits a ≤ codeUnits b)

@[simp] theorem mem_sortTexts {texts : List String} {s : String} :
    s ∈ sortTexts texts ↔ s ∈ texts := List.mem_insertionSort _

end JsText
