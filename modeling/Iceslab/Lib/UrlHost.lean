import Iceslab.Lib.IpText

/-!
# Hosts of parsed URLs

What the URL parser makes of a host, whatever its spelling was, and the text it is written as.

* `Domain`, `V4`, `V6` — a name as it is stored, and the two kinds of address.
* `v6Text_of_ne_zero`, `v6Text_mapped`, `v6Text_compatible`, `v6Text_nat64` — how the text of an
  IPv6 address begins.
-/

set_option autoImplicit false

namespace UrlHost

open IpText JsText

/-! ## Names -/

/-- The last label is a number, so the parser reads an address. -/
def endsInNumber (text : String) : Bool :=
  let labels := split '.' text
  let labels := if labels.getLast? = some "" ∧ 1 < labels.length then labels.dropLast else labels
  let last := labels.getLast?.getD ""
  isDigits last || ((afterPrefix "0x" last).any fun rest => rest.toList.all isHex)

/-- A character of a name: printable, no capital, and none of those that delimit. -/
def isDomainChar (c : Char) : Bool :=
  decide (32 < c.toNat ∧ c.toNat < 127) && !c.isUpper && !"#%/:<>?@[\\]^|".toList.contains c

/-- A name after it was made ASCII. -/
structure Domain where
  text : String
  ne_empty : text ≠ ""
  chars : text.toList.all isDomainChar = true
  notNumber : endsInNumber text = false

/-! ## Addresses -/

structure V4 where
  bytes : Fin 4 → UInt8

structure V6 where
  pieces : List Nat
  length_eq : pieces.length = 8
  lt : ∀ p ∈ pieces, p < 65536

/-- `a.b.c.d` -/
def v4Text (ip : V4) : List Char :=
  joined '.' ((List.ofFn fun i => (ip.bytes i).toNat).map (Nat.toDigits 10))

/-- How many zero pieces stand from `i` on. -/
def zerosFrom (pieces : List Nat) (i : Nat) : Nat :=
  ((pieces.drop i).takeWhile fun p => decide (p = 0)).length

/-- The longest run of zero pieces, the first of them, if it is longer than one. -/
def compress (pieces : List Nat) : Option (Nat × Nat) :=
  let runs := (List.range pieces.length).map fun i => (i, zerosFrom pieces i)
  let longest := (runs.map Prod.snd).foldl max 0
  if longest ≤ 1 then none else runs.find? fun r => decide (r.2 = longest)

/-- The pieces, the run left out. -/
def v6Text (pieces : List Nat) : List Char :=
  match compress pieces with
  | none => groupsText pieces
  | some (start, n) =>
    groupsText (pieces.take start) ++ ':' :: ':' :: groupsText (pieces.drop (start + n))

/-! ## Hosts -/

inductive Host where
  | domain (name : Domain)
  | v4 (ip : V4)
  | v6 (ip : V6)
  /-- of a URL that is not special -/
  | opaqueHost (text : String)

/-- `url.hostname` -/
def Host.hostname : Host → String
  | .domain name => name.text
  | .v4 ip => String.ofList (v4Text ip)
  | .v6 ip => String.ofList ('[' :: v6Text ip.pieces ++ [']'])
  | .opaqueHost text => text

/-! ## How a text begins -/

section Begins

variable {p : Nat} {pieces : List Nat}

theorem groupsText_cons_cons (g g' : Nat) (gs : List Nat) :
    groupsText (g :: g' :: gs) = Nat.toDigits 16 g ++ ':' :: groupsText (g' :: gs) := by
  rw [groupsText, List.map_cons, List.map_cons, joined_cons_cons]
  rfl

theorem groupsText_singleton (g : Nat) : groupsText [g] = Nat.toDigits 16 g := by
  rw [groupsText, List.map_singleton, joined, List.intercalate_singleton]

theorem compress_eq_some {start n : Nat} (h : compress pieces = some (start, n)) :
    1 < n ∧ n = zerosFrom pieces start := by
  unfold compress at h
  dsimp only at h
  split at h
  · cases h
  · rename_i hlong
    have hn := List.find?_some h
    obtain ⟨i, -, hi⟩ := List.mem_map.mp (List.mem_of_find?_eq_some h)
    cases hi
    have := of_decide_eq_true hn
    dsimp only at this
    exact ⟨by omega, rfl⟩

/-- A first piece that is not zero stands at the front. -/
theorem v6Text_of_ne_zero (hp : p ≠ 0) (hne : pieces ≠ []) :
    ∃ rest, v6Text (p :: pieces) = Nat.toDigits 16 p ++ ':' :: rest := by
  unfold v6Text
  split
  · cases pieces with
    | nil => exact absurd rfl hne
    | cons p' pieces => exact ⟨_, groupsText_cons_cons p p' pieces⟩
  · rename_i start n h
    obtain ⟨hlong, hn⟩ := compress_eq_some h
    cases start with
    | zero =>
      rw [zerosFrom, List.drop_zero, List.takeWhile_cons_of_neg (by simpa using hp)] at hn
      rw [hn] at hlong
      exact absurd hlong (by decide)
    | succ start =>
      rw [List.take_succ_cons]
      cases hrest : pieces.take start with
      | nil => exact ⟨_, by rw [groupsText_singleton]⟩
      | cons p' pieces' =>
        refine ⟨groupsText (p' :: pieces') ++ ':' :: ':' ::
          groupsText ((p :: pieces).drop (start + 1 + n)), ?_⟩
        rw [groupsText_cons_cons, List.append_assoc]
        rfl

theorem v6Text_mapped (x y : Nat) : v6Text [0, 0, 0, 0, 0, 65535, x, y] =
    "::ffff:".toList ++ groupsText [x, y] := by
  have hcompress : compress [0, 0, 0, 0, 0, 65535, x, y] = some (0, 5) := by
    by_cases hx : x = 0 <;> by_cases hy : y = 0 <;>
      simp [compress, zerosFrom, List.range_succ, hx, hy]
  rw [v6Text, hcompress]
  change groupsText [] ++ ':' :: ':' :: groupsText [65535, x, y] = _
  rw [groupsText_cons_cons]
  rfl

/-- After six zero pieces only what is not zero is written. -/
theorem v6Text_compatible (x y : Nat) : v6Text [0, 0, 0, 0, 0, 0, x, y] =
    "::".toList ++ groupsText (if x = 0 then if y = 0 then [] else [y] else [x, y]) := by
  have hcompress : compress [0, 0, 0, 0, 0, 0, x, y] =
      some (0, if x = 0 then if y = 0 then 8 else 7 else 6) := by
    by_cases hx : x = 0 <;> by_cases hy : y = 0 <;>
      simp [compress, zerosFrom, List.range_succ, hx, hy]
  rw [v6Text, hcompress]
  by_cases hx : x = 0
  · by_cases hy : y = 0
    · rw [if_pos hx, if_pos hy, if_pos hx, if_pos hy]
      rfl
    · rw [if_pos hx, if_neg hy, if_pos hx, if_neg hy]
      rfl
  · rw [if_neg hx, if_neg hx]
    rfl

theorem v6Text_nat64 (x y : Nat) : ∃ rest, v6Text [0x64, 0xff9b, 0, 0, 0, 0, x, y] =
    "64:ff9b:".toList ++ rest := by
  have hcompress : compress [0x64, 0xff9b, 0, 0, 0, 0, x, y] =
      some (2, if x = 0 then if y = 0 then 6 else 5 else 4) := by
    by_cases hx : x = 0 <;> by_cases hy : y = 0 <;>
      simp [compress, zerosFrom, List.range_succ, hx, hy]
  rw [v6Text, hcompress]
  exact ⟨':' :: groupsText (List.drop _ [0x64, 0xff9b, 0, 0, 0, 0, x, y]), rfl⟩

end Begins

end UrlHost
