import Mathlib.Data.List.DropRight

/-!
# Block YAML

A reader of YAML written in block style with plain scalars, under the core schema.  What is quoted,
folded over lines, tagged, aliased or in flow style is read as `Node.other`: none of these says the
text it is written with.

* `Plain` — the strings that, written as they are, are read back.
* `Node`, `read` — the document of a text; a sequence stands deeper than its key.
* `plain_of_read` — every string that is read is plain.
-/

set_option autoImplicit false

namespace YamlText

/-! ## Characters -/

/-- The line breaks of a reader beside line feed and carriage return: none in YAML 1.2, and three
in 1.1. -/
structure Dialect where
  breaks : List Char
  wide : ∀ c ∈ breaks, 127 < c.toNat

def Dialect.yaml12 : Dialect := ⟨[], nofun⟩

def Dialect.isBreak (d : Dialect) (c : Char) : Bool := c = '\n' || c = '\r' || c ∈ d.breaks

def isBlank (c : Char) : Bool := c = ' ' || c = '\t'

/-- The characters a document may have, a byte order mark apart. -/
def isPrintable (c : Char) : Bool :=
  c = '\t' || (0x20 ≤ c.toNat && c.toNat ≤ 0x7e) || c.toNat = 0x85 ||
    (0xa0 ≤ c.toNat && c.toNat ≤ 0xfffd && c.toNat ≠ 0xfeff) || 0x10000 ≤ c.toNat

/-- A character that stands within a line. -/
def Dialect.isInline (d : Dialect) (c : Char) : Bool := isPrintable c && !d.isBreak c

def isIndicator (c : Char) : Bool := c ∈ "-?:,[]\x7b\x7d#&*!|>\x27\x22%@\x60".toList

/-! ## Plain scalars -/

/-- A text that begins as a plain scalar does. -/
def startsPlain : List Char → Bool
  | [] => false
  | c :: rest =>
    !isBlank c && (!isIndicator c || c ∈ ['-', '?', ':'] && rest.head?.any fun c' => !isBlank c')

/-- A colon that ends a key: before a blank, or at the end. -/
def endsKey : List Char → Bool
  | [] => false
  | c :: rest => (c = ':' && rest.head?.all isBlank) || endsKey rest

/-- A number sign after a blank. -/
def hasComment : List Char → Bool
  | [] => false
  | c :: rest => (isBlank c && rest.head? = some '#') || hasComment rest

def digits (s : List Char) : Bool := s ≠ [] && s.all Char.isDigit

def unsigned : List Char → List Char
  | '+' :: s => s
  | '-' :: s => s
  | s => s

def isExponent : List Char → Bool
  | [] => true
  | c :: s => (c = 'e' || c = 'E') && digits (unsigned s)

/-- A number of the core schema that is not infinite. -/
def isDecimal (s : List Char) : Bool :=
  let body := unsigned s
  let whole := body.takeWhile Char.isDigit
  match body.dropWhile Char.isDigit with
  | '.' :: rest =>
    (whole ≠ [] || rest.takeWhile Char.isDigit ≠ []) && isExponent (rest.dropWhile Char.isDigit)
  | rest => whole ≠ [] && isExponent rest

def isHexDigit (c : Char) : Bool :=
  c.isDigit || ('a' ≤ c && c ≤ 'f') || ('A' ≤ c && c ≤ 'F')

/-- `0o17` and `0x1f` -/
def isBased : List Char → Bool
  | '0' :: 'o' :: s => s ≠ [] && s.all fun c => '0' ≤ c && c ≤ '7'
  | '0' :: 'x' :: s => s ≠ [] && s.all isHexDigit
  | _ => false

/-- The core schema takes a plain scalar of this text for a null, a boolean or a number. -/
def isTyped (s : List Char) : Bool :=
  s ∈ ["", "~", "null", "Null", "NULL", "true", "True", "TRUE", "false", "False", "FALSE",
      ".nan", ".NaN", ".NAN"].map String.toList ||
    unsigned s ∈ [".inf", ".Inf", ".INF"].map String.toList || isBased s || isDecimal s

/-- A string that is read back where it is written as it is. -/
structure Plain (d : Dialect) (s : String) : Prop where
  inline : s.toList.all d.isInline = true
  starts : startsPlain s.toList = true
  ends : ∀ c ∈ s.toList.getLast?, isBlank c = false
  noKey : endsKey s.toList = false
  noComment : hasComment s.toList = false
  untyped : isTyped s.toList = false

instance (d : Dialect) (s : String) : Decidable (Plain d s) :=
  decidable_of_iff (s.toList.all d.isInline = true ∧ startsPlain s.toList = true ∧
      s.toList.getLast?.all (fun c => !isBlank c) = true ∧ endsKey s.toList = false ∧
      hasComment s.toList = false ∧ isTyped s.toList = false)
    ⟨fun ⟨h₁, h₂, h₃, h₄, h₅, h₆⟩ => ⟨h₁, h₂, by simpa [Option.all_eq_true] using h₃, h₄, h₅, h₆⟩,
      fun ⟨h₁, h₂, h₃, h₄, h₅, h₆⟩ => ⟨h₁, h₂, by simpa [Option.all_eq_true] using h₃, h₄, h₅, h₆⟩⟩

/-! ## Documents -/

/-- A node; a mapping is its keys and their values, in the order written. -/
inductive Node
  | null
  /-- a boolean or a number, by its text -/
  | typed (text : String)
  | str (s : String)
  | other
  | map (keys : List String) (values : List Node)
  | seq (items : List Node)

def mapping (entries : List (String × Node)) : Node :=
  .map (entries.map Prod.fst) (entries.map Prod.snd)

mutual

/-- The strings of a document. -/
def Node.strings : Node → List String
  | .null => []
  | .typed _ => []
  | .str s => [s]
  | .other => []
  | .map _ values => allStrings values
  | .seq items => allStrings items

def allStrings : List Node → List String
  | [] => []
  | n :: ns => n.strings ++ allStrings ns

end

theorem allStrings_append (xs ys : List Node) :
    allStrings (xs ++ ys) = allStrings xs ++ allStrings ys := by
  induction xs with
  | nil => rfl
  | cons x xs ih => rw [List.cons_append, allStrings, ih, allStrings, List.append_assoc]

/-! ## Reading -/

/-- A text without its comment. -/
def cutComment : List Char → List Char
  | [] => []
  | c :: rest => if isBlank c && rest.head? = some '#' then [] else c :: cutComment rest

/-- A value without its comment and the blanks around it. -/
def tidy (v : List Char) : List Char := ((cutComment v).dropWhile isBlank).rdropWhile isBlank

variable (d : Dialect)

/-- A scalar on one line. -/
def scalar (s : List Char) : Option Node :=
  if s = [] then some .null
  else if startsPlain s = false then some .other
  else if endsKey s || !s.all d.isInline then none
  else if isTyped s then some (.typed (String.ofList s))
  else some (.str (String.ofList s))

inductive Content
  | dash
  | key (k v : List Char)
  | plain (v : List Char)
deriving DecidableEq

/-- What a line has at a column. -/
structure Row where
  col : Nat
  content : Content
deriving DecidableEq

def Row.key (r : Row) : Option String :=
  match r.content with
  | .key k _ => some (String.ofList k)
  | _ => none

/-- The text before the first colon that ends a key, and after it. -/
def splitKey : List Char → Option (List Char × List Char)
  | [] => none
  | c :: rest =>
    if c = ':' && rest.head?.all isBlank then some ([], rest)
    else (splitKey rest).map fun kv => (c :: kv.1, kv.2)

/-- A key and its value, or a scalar. -/
def content (cs : List Char) : Content :=
  match splitKey cs with
  | some (k, v) => if startsPlain cs && !hasComment k then .key k v else .plain cs
  | none => .plain cs

/-- The rows of a line from a column on. -/
def lineRows : Nat → List Char → List Row
  | _, [] => []
  | col, c :: rest =>
    if c = ' ' then lineRows (col + 1) rest
    else if c = '#' then []
    else if c = '-' && rest.head?.all (· = ' ') then ⟨col, .dash⟩ :: lineRows (col + 1) rest
    else [⟨col, content (c :: rest)⟩]

def rowsOf (text : List Char) : List Row := (text.splitOnP d.isBreak).flatMap (lineRows 0)

inductive Tree
  | node (row : Row) (children : List Tree)

def Tree.row : Tree → Row
  | .node row _ => row

/-- A row over the rows after it: those that stand deeper are under it. -/
def grow (row : Row) (ts : List Tree) : List Tree :=
  .node row (ts.takeWhile fun t => row.col < t.row.col) ::
    ts.dropWhile fun t => row.col < t.row.col

def forest (rows : List Row) : List Tree := rows.foldr grow []

/-- The node of the rows of one column, with the value of each. -/
def assemble (rows : List Row) (values : List Node) : Option Node :=
  match rows with
  | [] => some .null
  | row :: others =>
    if others.any (·.col ≠ row.col) then none
    else
      match row.content with
      | .dash => if others.all (·.content = .dash) then some (.seq values) else none
      | .plain _ => if others = [] then values.head? else some .other
      | .key _ _ => do
        let keys ← rows.mapM Row.key
        if keys.Nodup then some (.map keys values) else none

mutual

/-- The value of a row, by what stands on its line and under it. -/
def Tree.value : Tree → Option Node
  | .node row children =>
    let inline (v : List Char) := if children = [] then scalar d (tidy v) else some .other
    match row.content with
    | .dash => (values children).bind (assemble (children.map Tree.row))
    | .plain v => inline v
    | .key _ v =>
      if tidy v = [] then (values children).bind (assemble (children.map Tree.row)) else inline v

def values : List Tree → Option (List Node)
  | [] => some []
  | t :: ts => do
    let v ← t.value
    let vs ← values ts
    return v :: vs

end

/-- The node of the rows. -/
def block (ts : List Tree) : Option Node := (values d ts).bind (assemble (ts.map Tree.row))

/-- The document of a text; none where it is no YAML, or no block style. -/
def read (text : String) : Option Node := block d (forest (rowsOf d text.toList))

/-! ## What is read is plain -/

section Strings

variable {d} {s v : List Char} {n : Node}

theorem hasComment_cutComment (v : List Char) : hasComment (cutComment v) = false := by
  induction v with
  | nil => rfl
  | cons c rest ih =>
    unfold cutComment
    split
    · rfl
    rename_i hkept
    -- a number sign that begins the rest begins what is kept of it
    have hhead : (cutComment rest).head? = some '#' → rest.head? = some '#' := by
      cases rest with
      | nil => exact id
      | cons c' rest' =>
        unfold cutComment
        split
        · nofun
        · exact id
    unfold hasComment
    rw [ih, Bool.or_false]
    by_contra hc
    simp only [Bool.and_eq_true, decide_eq_true_eq, Bool.not_eq_false] at hkept hc
    exact hkept ⟨hc.1, hhead hc.2⟩

theorem hasComment_of_append {s t : List Char} (h : hasComment (s ++ t) = false) :
    hasComment s = false ∧ hasComment t = false := by
  induction s with
  | nil => exact ⟨rfl, h⟩
  | cons c rest ih =>
    rw [List.cons_append, hasComment, Bool.or_eq_false_iff] at h
    obtain ⟨hrest, ht⟩ := ih h.2
    refine ⟨?_, ht⟩
    rw [hasComment, hrest, Bool.or_false]
    cases rest with
    | nil => simp
    | cons c' rest' => exact h.1

theorem hasComment_tidy (v : List Char) : hasComment (tidy v) = false := by
  obtain ⟨pre, hpre⟩ := List.dropWhile_suffix (l := cutComment v) isBlank
  obtain ⟨suf, hsuf⟩ := List.rdropWhile_prefix isBlank (l := (cutComment v).dropWhile isBlank)
  have hwhole := hasComment_cutComment v
  rw [← hpre] at hwhole
  have hdropped := (hasComment_of_append hwhole).2
  rw [← hsuf] at hdropped
  exact (hasComment_of_append hdropped).1

theorem getLast_tidy {c : Char} (h : c ∈ (tidy v).getLast?) : isBlank c = false := by
  have hne : tidy v ≠ [] := by
    intro hnil
    rw [hnil] at h
    cases h
  have hlast := List.rdropWhile_last_not isBlank ((cutComment v).dropWhile isBlank) hne
  rw [List.getLast?_eq_some_getLast hne, Option.mem_some_iff] at h
  rw [← h]
  exact Bool.eq_false_iff.mpr hlast

/-- **A string that is read off one line is plain.** -/
theorem plain_of_scalar (h : scalar d (tidy v) = some n) : ∀ s ∈ n.strings, Plain d s := by
  unfold scalar at h
  split at h
  · obtain rfl := Option.some.inj h
    exact fun s hs => absurd hs List.not_mem_nil
  split at h
  · obtain rfl := Option.some.inj h
    exact fun s hs => absurd hs List.not_mem_nil
  rename_i hstarts
  split at h
  · cases h
  rename_i hchars
  split at h
  · obtain rfl := Option.some.inj h
    exact fun s hs => absurd hs List.not_mem_nil
  rename_i htyped
  obtain rfl := Option.some.inj h
  intro s hs
  obtain rfl := List.mem_singleton.mp hs
  simp only [Bool.or_eq_true, Bool.not_eq_true', not_or, Bool.not_eq_false, Bool.not_eq_true]
    at hstarts hchars htyped
  exact ⟨by rw [String.toList_ofList]; exact hchars.2, by rw [String.toList_ofList]; exact hstarts,
    by rw [String.toList_ofList]; exact fun c => getLast_tidy,
    by rw [String.toList_ofList]; exact hchars.1,
    by rw [String.toList_ofList]; exact hasComment_tidy v,
    by rw [String.toList_ofList]; exact htyped⟩

theorem strings_assemble {rows : List Row} {vs : List Node} (h : assemble rows vs = some n) :
    ∀ s ∈ n.strings, s ∈ allStrings vs := by
  unfold assemble at h
  split at h
  · obtain rfl := Option.some.inj h
    exact fun s hs => absurd hs List.not_mem_nil
  split at h
  · cases h
  split at h
  · split at h
    · obtain rfl := Option.some.inj h
      exact fun s hs => hs
    · cases h
  · split at h
    · cases vs with
      | nil => cases h
      | cons v vs =>
        obtain rfl := Option.some.inj h
        exact fun s hs => List.mem_append_left _ hs
    · obtain rfl := Option.some.inj h
      exact fun s hs => absurd hs List.not_mem_nil
  · obtain ⟨keys, -, h⟩ := Option.bind_eq_some_iff.mp h
    split at h
    · obtain rfl := Option.some.inj h
      exact fun s hs => hs
    · cases h

mutual

theorem plain_of_value : ∀ {t : Tree} {n : Node}, t.value d = some n → ∀ s ∈ n.strings, Plain d s
  | .node row children, n, h => by
    have hblock {vs : List Node} {n : Node} (hvs : values d children = some vs)
        (hn : assemble (children.map Tree.row) vs = some n) : ∀ s ∈ n.strings, Plain d s :=
      fun s hs => plain_of_values hvs s (strings_assemble hn s hs)
    have hinline {v : List Char}
        (hv : (if children = [] then scalar d (tidy v) else some .other) = some n) :
        ∀ s ∈ n.strings, Plain d s := by
      split at hv
      · exact plain_of_scalar hv
      · obtain rfl := Option.some.inj hv
        exact fun s hs => absurd hs List.not_mem_nil
    unfold Tree.value at h
    dsimp only at h
    split at h
    · obtain ⟨vs, hvs, hn⟩ := Option.bind_eq_some_iff.mp h
      exact hblock hvs hn
    · exact hinline h
    · split at h
      · obtain ⟨vs, hvs, hn⟩ := Option.bind_eq_some_iff.mp h
        exact hblock hvs hn
      · exact hinline h

theorem plain_of_values : ∀ {ts : List Tree} {vs : List Node}, values d ts = some vs →
    ∀ s ∈ allStrings vs, Plain d s
  | [], vs, h => by
    unfold values at h
    obtain rfl := Option.some.inj h
    exact fun s hs => absurd hs List.not_mem_nil
  | t :: ts, vs, h => by
    unfold values at h
    obtain ⟨n, hn, h⟩ := Option.bind_eq_some_iff.mp h
    obtain ⟨ns, hns, h⟩ := Option.bind_eq_some_iff.mp h
    obtain rfl := Option.some.inj h
    intro s hs
    rcases List.mem_append.mp hs with hs | hs
    · exact plain_of_value hn s hs
    · exact plain_of_values hns s hs

end

/-- **Every string of a document that is read is plain.** -/
theorem plain_of_read {text : String} (h : read d text = some n) : ∀ s ∈ n.strings, Plain d s := by
  obtain ⟨vs, hvs, hn⟩ := Option.bind_eq_some_iff.mp h
  exact fun s hs => plain_of_values hvs s (strings_assemble hn s hs)

end Strings

end YamlText
