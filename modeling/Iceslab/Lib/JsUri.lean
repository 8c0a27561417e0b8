import Iceslab.Lib.JsBytes

/-!
# Components of URIs as JavaScript writes them

* `encodeURIComponent` — every byte but the unreserved ones as `%XX`.
* `decodeURIComponent` — the bytes read back, where they spell a text.
-/

set_option autoImplicit false

namespace JsUri

/-- Left as it is. -/
def unreserved (c : Char) : Bool := c.isAlphanum || "-_.!~*'()".toList.contains c

def hexUpper (n : Nat) : Char := (Nat.digitChar n).toUpper

/-- `%XX` -/
def percent (b : UInt8) : List Char :=
  ['%', hexUpper (b.toNat / 16), hexUpper (b.toNat % 16)]

def encodeChar (c : Char) : List Char :=
  if unreserved c then [c] else (JsBytes.utf8Encode (String.singleton c)).flatMap percent

/-- `encodeURIComponent(s)`; a lone surrogate, on which it throws, is no character here. -/
def encodeURIComponent (s : String) : String := String.ofList (s.toList.flatMap encodeChar)

example : encodeURIComponent "ru → NL" = "ru%20%E2%86%92%20NL" := by decide

def hexValue (c : Char) : Option Nat :=
  if c.isDigit then some (c.toNat - 48)
  else if 'a' ≤ c ∧ c ≤ 'f' then some (c.toNat - 87)
  else if 'A' ≤ c ∧ c ≤ 'F' then some (c.toNat - 55)
  else none

/-- The bytes of a text in which `%XX` is a byte. -/
def decodeBytes : List Char → Option (List UInt8)
  | [] => some []
  | '%' :: a :: b :: cs =>
    match hexValue a, hexValue b, decodeBytes cs with
    | some hi, some lo, some bytes => some (UInt8.ofNat (16 * hi + lo) :: bytes)
    | _, _, _ => none
  | c :: cs =>
    if c = '%' then none
    else (decodeBytes cs).map fun bytes => JsBytes.utf8Encode (String.singleton c) ++ bytes

/-- `decodeURIComponent(s)`, `none` where it throws. -/
def decodeURIComponent (s : String) : Option String :=
  (decodeBytes s.toList).bind fun bytes => String.fromUTF8? ⟨bytes.toArray⟩

end JsUri
