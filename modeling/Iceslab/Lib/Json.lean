import Mathlib.Data.List.Basic

/-!
# JSON values

The values a jsonb column holds, and the typed reads a parser makes of them: a field of the
wrong type reads as absent.  Numbers are the natural ones.
-/

set_option autoImplicit false

inductive Json where
  | null
  | bool (b : Bool)
  | num (n : Nat)
  | str (s : String)
  | arr (items : List Json)
  | obj (fields : List (String × Json))

namespace Json

/-- `o[key]`, absent on anything that is not an object. -/
def field (j : Json) (key : String) : Option Json :=
  match j with
  | .obj fields => (fields.find? (fun f => decide (f.1 = key))).map Prod.snd
  | _ => none

/-- `typeof o[key] === 'number'` -/
def num? (j : Json) (key : String) : Option Nat :=
  match j.field key with
  | some (.num n) => some n
  | _ => none

/-- `typeof o[key] === 'string'` -/
def str? (j : Json) (key : String) : Option String :=
  match j.field key with
  | some (.str s) => some s
  | _ => none

theorem field_cons (k key : String) (v : Json) (fields : List (String × Json)) :
    field (.obj ((k, v) :: fields)) key = if k = key then some v else field (.obj fields) key := by
  by_cases h : k = key <;> simp [field, h]

@[simp] theorem field_nil (key : String) : field (.obj []) key = none := rfl

/-! ## Text -/

def hexDigit (n : Nat) : Char := if n < 10 then Char.ofNat (48 + n) else Char.ofNat (87 + n)

/-- One character inside a JSON string literal. -/
def escapeChar (c : Char) : String :=
  if c = '"' then "\\\""
  else if c = '\\' then "\\\\"
  else if c = '\n' then "\\n"
  else if c = '\r' then "\\r"
  else if c = '\t' then "\\t"
  else if c.toNat = 8 then "\\b"
  else if c.toNat = 12 then "\\f"
  else if c.toNat < 32 then
    "\\u00" ++ String.ofList [hexDigit (c.toNat / 16), hexDigit (c.toNat % 16)]
  else String.singleton c

/-- `JSON.stringify` of a string. -/
def quote (s : String) : String := "\"" ++ String.join (s.toList.map escapeChar) ++ "\""

end Json
