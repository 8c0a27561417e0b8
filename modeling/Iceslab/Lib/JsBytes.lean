import Iceslab.Lib.Wire
import Mathlib.Data.String.Basic

/-!
# Numbers and bytes as JavaScript reads them

* `roundDouble` — the number a sum of integers is stored as; exact below `2 ^ 53`.
* `utf8Encode`, `utf8Decode` — `TextEncoder`, and a fatal `TextDecoder`, which drops a byte order
  mark in front.
-/

set_option autoImplicit false

namespace JsBytes

/-! ## Numbers -/

/-- The nearest number of 53 significant bits, the even one on a tie. -/
def roundDouble (n : Nat) : Nat :=
  if n < 2 ^ 53 then n
  else
    let e := n.log2 - 52
    let q := n / 2 ^ e
    let r := n % 2 ^ e
    if 2 ^ (e - 1) < r ∨ r = 2 ^ (e - 1) ∧ q % 2 = 1 then (q + 1) * 2 ^ e else q * 2 ^ e

/-- `+` on integers. -/
def arith : Wire.Arith where
  add a b := roundDouble (a + b)
  limit := 2 ^ 53
  exact _ _ h := if_pos h

example : roundDouble (2 ^ 53 + 1) = 2 ^ 53 ∧ roundDouble (2 ^ 53 + 3) = 2 ^ 53 + 4 := by decide

/-! ## Texts -/

/-- U+FEFF -/
def bom : Char := '\uFEFF'

def BeginsWithBOM (s : String) : Prop := s.toList.head? = some bom

instance (s : String) : Decidable (BeginsWithBOM s) := inferInstanceAs (Decidable (_ = _))

def dropBOM (s : String) : String :=
  if BeginsWithBOM s then String.ofList s.toList.tail else s

/-- `new TextEncoder().encode(s)` -/
def utf8Encode (s : String) : List UInt8 := s.toByteArray.data.toList

/-- `new TextDecoder('utf-8', { fatal: true }).decode(bs)` -/
def utf8Decode (bs : List UInt8) : Option String :=
  (String.fromUTF8? ⟨bs.toArray⟩).map dropBOM

theorem utf8Decode_utf8Encode (s : String) : utf8Decode (utf8Encode s) = some (dropBOM s) := by
  have hbytes : (⟨(utf8Encode s).toArray⟩ : ByteArray) = s.toByteArray := by
    simp [utf8Encode]
  have hvalid : String.fromUTF8? s.toByteArray = some s := by
    unfold String.fromUTF8?
    rw [dif_pos s.isValidUTF8]
    rfl
  unfold utf8Decode
  rw [hbytes, hvalid, Option.map_some]

theorem dropBOM_of_not {s : String} (h : ¬ BeginsWithBOM s) : dropBOM s = s := if_neg h

theorem length_utf8Encode_le (cs : List Char) :
    (utf8Encode (String.ofList cs)).length ≤ 4 * cs.length := by
  have hbytes : utf8Encode (String.ofList cs) = cs.flatMap String.utf8EncodeChar := by
    unfold utf8Encode
    rw [String.toByteArray_ofList, List.utf8Encode, List.data_toByteArray, List.toList_toArray]
  rw [hbytes]
  clear hbytes
  induction cs with
  | nil => exact Nat.le_refl 0
  | cons c cs ih =>
    have hc := c.utf8Size_le_four
    rw [List.flatMap_cons, List.length_append, List.length_cons, String.length_utf8EncodeChar]
    omega

end JsBytes
