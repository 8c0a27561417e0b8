import Mathlib.Data.String.Basic

/-!
# JSON texts, character by character

A JSON text is checked by a pushdown scanner that reads one character at a time, and compacted by
dropping the white space the scanner skips.

* `step` — one character; the stack holds the objects and arrays that are open.
* `compact` — the text without its insignificant white space, or none where it is not one JSON
  value.
* `compact_compact` — what was compacted is one JSON value again, and compacting it changes nothing.
-/

set_option autoImplicit false

namespace JsonScan

/-- An open object before or after its colon, or an open array. -/
inductive Ctx where
  | key
  | val
  | arr
  deriving DecidableEq, Repr

/-- How far into `true`, `false` or `null`. -/
inductive Lit where
  | t | tr | tru
  | f | fa | fal | fals
  | n | nu | nul
  deriving DecidableEq, Repr

/-- The next character of the literal, and what is left after it. -/
def Lit.next : Lit → Char × Option Lit
  | .t => ('r', some .tr)
  | .tr => ('u', some .tru)
  | .tru => ('e', none)
  | .f => ('a', some .fa)
  | .fa => ('l', some .fal)
  | .fal => ('s', some .fals)
  | .fals => ('e', none)
  | .n => ('u', some .nu)
  | .nu => ('l', some .nul)
  | .nul => ('l', none)

/-- What the next character may be part of. -/
inductive Lex where
  | value
  | valueOrEnd
  | key
  | keyOrEnd
  | endValue
  | str
  | strEsc
  | hex (left : Nat)
  | neg
  | int
  | zero
  | dot
  | frac
  | exp
  | expSign
  | expDigits
  | lit (l : Lit)
  deriving DecidableEq, Repr

structure Scan where
  lex : Lex
  stack : List Ctx
  deriving DecidableEq, Repr

def start : Scan := ⟨.value, []⟩

def isSpace (c : Char) : Bool := decide (c = ' ' ∨ c = '\t' ∨ c = '\r' ∨ c = '\n')

def isHex (c : Char) : Bool :=
  c.isDigit || ('a' ≤ c && c ≤ 'f') || ('A' ≤ c && c ≤ 'F')

def maxDepth : Nat := 10000

def push (c : Ctx) (lex : Lex) (stack : List Ctx) : Option Scan :=
  if stack.length < maxDepth then some ⟨lex, c :: stack⟩ else none

def beginValue (stack : List Ctx) (c : Char) : Option Scan :=
  if c = '{' then push .key .keyOrEnd stack
  else if c = '[' then push .arr .valueOrEnd stack
  else if c = '"' then some ⟨.str, stack⟩
  else if c = '-' then some ⟨.neg, stack⟩
  else if c = '0' then some ⟨.zero, stack⟩
  else if c.isDigit then some ⟨.int, stack⟩
  else if c = 't' then some ⟨.lit .t, stack⟩
  else if c = 'f' then some ⟨.lit .f, stack⟩
  else if c = 'n' then some ⟨.lit .n, stack⟩
  else none

/-- A character after a whole value. -/
def endValue (stack : List Ctx) (c : Char) : Option Scan :=
  if isSpace c then some ⟨.endValue, stack⟩
  else match stack with
    | [] => none
    | .key :: rest => if c = ':' then some ⟨.value, .val :: rest⟩ else none
    | .val :: rest =>
      if c = ',' then some ⟨.key, .key :: rest⟩
      else if c = '}' then some ⟨.endValue, rest⟩ else none
    | .arr :: rest =>
      if c = ',' then some ⟨.value, .arr :: rest⟩
      else if c = ']' then some ⟨.endValue, rest⟩ else none

/-- A character after the digits of a whole number or of a fraction. -/
def afterDigits (stack : List Ctx) (c : Char) : Option Scan :=
  if c = 'e' ∨ c = 'E' then some ⟨.exp, stack⟩ else endValue stack c

def afterInt (stack : List Ctx) (c : Char) : Option Scan :=
  if c = '.' then some ⟨.dot, stack⟩ else afterDigits stack c

def step (s : Scan) (c : Char) : Option Scan :=
  match s.lex with
  | .value => if isSpace c then some s else beginValue s.stack c
  | .valueOrEnd =>
    if isSpace c then some s
    else if c = ']' then endValue s.stack c else beginValue s.stack c
  | .key =>
    if isSpace c then some s else if c = '"' then some ⟨.str, s.stack⟩ else none
  | .keyOrEnd =>
    if isSpace c then some s
    else if c = '}' then some ⟨.endValue, s.stack.tail⟩
    else if c = '"' then some ⟨.str, s.stack⟩ else none
  | .endValue => endValue s.stack c
  | .str =>
    if c = '"' then some ⟨.endValue, s.stack⟩
    else if c = '\\' then some ⟨.strEsc, s.stack⟩
    else if c.toNat < 0x20 then none else some s
  | .strEsc =>
    if c ∈ ['b', 'f', 'n', 'r', 't', '\\', '/', '"'] then some ⟨.str, s.stack⟩
    else if c = 'u' then some ⟨.hex 3, s.stack⟩ else none
  | .hex left =>
    if isHex c then some ⟨match left with | 0 => .str | n + 1 => .hex n, s.stack⟩ else none
  | .neg =>
    if c = '0' then some ⟨.zero, s.stack⟩ else if c.isDigit then some ⟨.int, s.stack⟩ else none
  | .int => if c.isDigit then some s else afterInt s.stack c
  | .zero => afterInt s.stack c
  | .dot => if c.isDigit then some ⟨.frac, s.stack⟩ else none
  | .frac => if c.isDigit then some s else afterDigits s.stack c
  | .exp =>
    if c = '+' ∨ c = '-' then some ⟨.expSign, s.stack⟩
    else if c.isDigit then some ⟨.expDigits, s.stack⟩ else none
  | .expSign => if c.isDigit then some ⟨.expDigits, s.stack⟩ else none
  | .expDigits => if c.isDigit then some s else endValue s.stack c
  | .lit l =>
    if c = l.next.1 then some ⟨match l.next.2 with | none => .endValue | some l' => .lit l', s.stack⟩
    else none

/-- A number that may end here. -/
def Lex.number : Lex → Bool
  | .int | .zero | .frac | .expDigits => true
  | _ => false

/-- One whole value and nothing open. -/
def Scan.finished (s : Scan) : Bool :=
  (decide (s.lex = .endValue) || s.lex.number) && s.stack.isEmpty

/-- White space outside a string is skipped. -/
def skipped (s : Scan) (c : Char) : Bool := isSpace c && decide (s.lex ≠ .str)

def compactFrom (s : Scan) : List Char → Option (List Char)
  | [] => if s.finished then some [] else none
  | c :: cs =>
    match step s c with
    | none => none
    | some s' => if skipped s c then compactFrom s' cs else (compactFrom s' cs).map (c :: ·)

def compact (s : String) : Option String := (compactFrom start s.toList).map String.ofList

/-! ## Compacting twice -/

/-- The scanner of the compacted text may still stand in a number that the scanner of the text has
left by white space. -/
def Follows (s t : Scan) : Prop :=
  s = t ∨ (t.lex.number = true ∧ s = ⟨.endValue, t.stack⟩)

theorem Follows.finished {s t : Scan} (h : Follows s t) : t.finished = s.finished := by
  rcases h with rfl | ⟨hn, rfl⟩
  · rfl
  · simp [Scan.finished, hn]

theorem isSpace_cases {c : Char} (hc : isSpace c = true) :
    c = ' ' ∨ c = '\t' ∨ c = '\r' ∨ c = '\n' := by
  simpa [isSpace] using hc

theorem endValue_space {stack : List Ctx} {c : Char} (hc : isSpace c = true) :
    endValue stack c = some ⟨.endValue, stack⟩ := by
  simp [endValue, hc]

/-- A number takes digits, a point and an exponent; every other character ends it. -/
theorem step_number {t : Scan} {c : Char} (hn : t.lex.number = true) (hd : c.isDigit = false)
    (hp : c ≠ '.') (he : c ≠ 'e') (hE : c ≠ 'E') : step t c = endValue t.stack c := by
  obtain ⟨lex, stack⟩ := t
  cases lex with
  | int => simp [step, afterInt, afterDigits, hd, hp, he, hE]
  | zero => simp [step, afterInt, afterDigits, hp, he, hE]
  | frac => simp [step, afterDigits, hd, he, hE]
  | expDigits => simp [step, hd]
  | _ => cases hn

theorem endValue_some {stack : List Ctx} {c : Char} {s' : Scan} (hc : isSpace c = false)
    (h : endValue stack c = some s') : c = ':' ∨ c = ',' ∨ c = '}' ∨ c = ']' := by
  unfold endValue at h
  rw [if_neg (by simp [hc])] at h
  split at h
  · cases h
  · split at h
    · rename_i hcc
      exact .inl hcc
    · cases h
  · split at h
    · rename_i hcc
      exact .inr (.inl hcc)
    · split at h
      · rename_i hcc
        exact .inr (.inr (.inl hcc))
      · cases h
  · split at h
    · rename_i hcc
      exact .inr (.inl hcc)
    · split at h
      · rename_i hcc
        exact .inr (.inr (.inr hcc))
      · cases h

/-- White space outside a string is skipped, ends a number, or is an error. -/
theorem step_space {s s' : Scan} {c : Char} (hc : isSpace c = true) (hl : s.lex ≠ .str)
    (h : step s c = some s') : s' = s ∨ (s.lex.number = true ∧ s' = ⟨.endValue, s.stack⟩) := by
  by_cases hn : s.lex.number = true
  · have hend : step s c = endValue s.stack c := by
      rcases isSpace_cases hc with rfl | rfl | rfl | rfl <;>
        exact step_number hn (by decide) (by decide) (by decide) (by decide)
    rw [hend, endValue_space hc] at h
    cases h
    exact .inr ⟨hn, rfl⟩
  · left
    obtain ⟨lex, stack⟩ := s
    cases lex with
    | str => exact absurd rfl hl
    | int => exact absurd rfl hn
    | zero => exact absurd rfl hn
    | frac => exact absurd rfl hn
    | expDigits => exact absurd rfl hn
    | lit l => rcases isSpace_cases hc with rfl | rfl | rfl | rfl <;> cases l <;> cases h
    | _ =>
      rcases isSpace_cases hc with rfl | rfl | rfl | rfl <;>
        simp [step, endValue, isSpace, isHex] at h ⊢ <;> exact h.symm

/-- What ends a value in the scanner that has left a number ends it in the one still in it. -/
theorem step_of_endValue {t s' : Scan} {c : Char} (hn : t.lex.number = true)
    (hc : isSpace c = false) (h : step ⟨.endValue, t.stack⟩ c = some s') : step t c = some s' := by
  have hend : endValue t.stack c = some s' := h
  rw [← hend]
  rcases endValue_some hc hend with rfl | rfl | rfl | rfl <;>
    exact step_number hn (by decide) (by decide) (by decide) (by decide)

theorem compactFrom_follows {s t : Scan} {cs out : List Char} (hst : Follows s t)
    (h : compactFrom s cs = some out) : compactFrom t out = some out := by
  induction cs generalizing s t out with
  | nil =>
    simp only [compactFrom] at h
    split at h
    · rename_i hf
      cases h
      simp [compactFrom, hst.finished, hf]
    · cases h
  | cons c cs ih =>
    simp only [compactFrom] at h
    split at h
    · cases h
    · rename_i s' hs'
      by_cases hk : skipped s c = true
      · -- the character is dropped: the scanner of the compacted text stays where it is
        rw [if_pos hk] at h
        simp only [skipped, Bool.and_eq_true, decide_eq_true_eq] at hk
        refine ih ?_ h
        rcases hst with rfl | ⟨hn, rfl⟩
        · rcases step_space hk.1 hk.2 hs' with rfl | ⟨hn, rfl⟩
          · exact .inl rfl
          · exact .inr ⟨hn, rfl⟩
        · have : endValue t.stack c = some s' := hs'
          rw [endValue_space hk.1] at this
          cases this
          exact .inr ⟨hn, rfl⟩
      · rw [if_neg hk] at h
        obtain ⟨rest, hrest, rfl⟩ := Option.map_eq_some_iff.mp h
        have ht : step t c = some s' ∧ skipped t c = false := by
          rcases hst with rfl | ⟨hn, rfl⟩
          · exact ⟨hs', by simpa using hk⟩
          · have hc : isSpace c = false := by
              simpa [skipped] using hk
            exact ⟨step_of_endValue hn hc hs', by simp [skipped, hc]⟩
        simp [compactFrom, ht.1, ht.2, ih (.inl rfl) hrest]

/-- **Compacting twice.** -/
theorem compact_compact {s t : String} (h : compact s = some t) : compact t = some t := by
  unfold compact at h ⊢
  obtain ⟨out, hout, rfl⟩ := Option.map_eq_some_iff.mp h
  rw [String.toList_ofList, compactFrom_follows (.inl rfl) hout]
  rfl

theorem compact_empty : compact "" = none := rfl

example : compact " \x7b \"a b\" : [ 1 , -2.5e3 ] \x7d\n" = some "\x7b\"a b\":[1,-2.5e3]\x7d" := by
  decide

end JsonScan
