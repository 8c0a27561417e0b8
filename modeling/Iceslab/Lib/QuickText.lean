import Iceslab.Lib.GoText

/-!
# Settings as the quick tool reads them

A file of sections as `wg-quick` and `awg-quick` read it: line by line, what follows a `#` left out,
the key before the first `=`, keys and headers compared without regard to case.  The white space
around a key is that of the shell, a parameter.

* `readLine`, `keys`, `headers`, `sect` — what is found, each key with the section it stands in.
* `keys_append`, `headers_append` — a text read in two parts.
* `exists_space_of_ne` — a line that a coarser trimming reads otherwise has white space in its name.
-/

set_option autoImplicit false

namespace QuickText

/-- What one line holds. -/
inductive Line where
  | blank
  | header (name : String)
  | key (name : String)
  deriving DecidableEq, Repr

def Line.name : Line → String
  | .blank => ""
  | .header name => name
  | .key name => name

/-- `nocasematch` -/
def foldCase (cs : List Char) : String := String.ofList (cs.map Char.toLower)

/-- What stands before the comment and before the equals sign. -/
def head (line : List Char) : List Char := (line.takeWhile (· ≠ '#')).takeWhile (· ≠ '=')

def ofHead : List Char → Line
  | [] => .blank
  | c :: cs => if c = '[' then .header (foldCase (c :: cs)) else .key (foldCase (c :: cs))

def readLine (space : Char → Bool) (line : List Char) : Line :=
  ofHead (GoText.trimBy space (head line))

def headers : List Line → List String
  | [] => []
  | .header name :: lines => name :: headers lines
  | .blank :: lines => headers lines
  | .key _ :: lines => headers lines

/-- The section that is open after the lines. -/
def sect : Option String → List Line → Option String
  | s, [] => s
  | _, .header name :: lines => sect (some name) lines
  | s, .blank :: lines => sect s lines
  | s, .key _ :: lines => sect s lines

/-- The keys, each with the section it stands in. -/
def keys : Option String → List Line → List (Option String × String)
  | _, [] => []
  | _, .header name :: lines => keys (some name) lines
  | s, .blank :: lines => keys s lines
  | s, .key name :: lines => (s, name) :: keys s lines

/-- The lines of a text. -/
def readLines (space : Char → Bool) (text : String) : List Line :=
  (text.toList.splitOn '\n').map (readLine space)

/-! ## In two parts -/

section Append

variable (s : Option String) (a b : List Line)

theorem headers_append : headers (a ++ b) = headers a ++ headers b := by
  induction a with
  | nil => rfl
  | cons line a ih => cases line <;> simp [headers, ih]

theorem sect_append : sect s (a ++ b) = sect (sect s a) b := by
  induction a generalizing s with
  | nil => rfl
  | cons line a ih => cases line <;> exact ih _

theorem keys_append : keys s (a ++ b) = keys s a ++ keys (sect s a) b := by
  induction a generalizing s with
  | nil => rfl
  | cons line a ih => cases line <;> simp [keys, sect, ih]

end Append

section Members

variable {s : Option String} {name : String} {lines : List Line}

theorem mem_headers (h : Line.header name ∈ lines) : name ∈ headers lines := by
  obtain ⟨before, after, rfl⟩ := List.append_of_mem h
  rw [headers_append]
  exact List.mem_append_right _ List.mem_cons_self

theorem mem_keys (h : Line.key name ∈ lines) : ∃ s', (s', name) ∈ keys s lines := by
  obtain ⟨before, after, rfl⟩ := List.append_of_mem h
  rw [keys_append]
  exact ⟨_, List.mem_append_right _ List.mem_cons_self⟩

end Members

/-! ## White space -/

section Space

variable {space coarse : Char → Bool} {line : List Char}

theorem name_ofHead (cs : List Char) : (ofHead cs).name = foldCase cs := by
  cases cs with
  | nil => rfl
  | cons c cs =>
    rw [ofHead]
    split <;> rfl

theorem mem_foldCase {c : Char} {cs : List Char} (hc : c.toLower = c) (h : c ∈ cs) :
    c ∈ (foldCase cs).toList := by
  rw [foldCase, String.toList_ofList]
  exact List.mem_map.mpr ⟨c, h, hc⟩

/-- White space is not of either case. -/
theorem toLower_of_isSpace {c : Char} (hc : GoText.isSpace c = true) : c.toLower = c := by
  refine dif_neg fun hupper => ?_
  have hlow : 65 ≤ c.toNat ∧ c.toNat ≤ 90 := hupper
  simp only [GoText.isSpace, Bool.or_eq_true, Bool.and_eq_true, decide_eq_true_eq,
    List.mem_cons, List.not_mem_nil, or_false] at hc
  omega

theorem exists_space_of_ne (h : ∀ c, space c = true → GoText.isSpace c = true)
    (hne : GoText.trimBy space (head line) ≠ GoText.trimBy GoText.isSpace (head line)) :
    ∃ c ∈ (readLine space line).name.toList, GoText.isSpace c = true := by
  obtain ⟨c, hc, hspace⟩ := GoText.exists_of_trimBy_ne h hne
  refine ⟨c, ?_, hspace⟩
  rw [readLine, name_ofHead]
  exact mem_foldCase (toLower_of_isSpace hspace) hc

end Space

end QuickText
