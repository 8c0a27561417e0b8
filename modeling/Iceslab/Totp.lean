import Iceslab.Lib.JsText

/-!
# Time-based codes

`totp.ts`: the six digits of a secret at a time step, and which step a code is of.  The HMAC is the
platform's.
-/

set_option autoImplicit false

namespace Iceslab.Totp

/-- HMAC-SHA1 of a key and a message. -/
abbrev Hmac := List UInt8 → List UInt8 → List UInt8

def base32Alphabet : String := "ABCDEFGHIJKLMNOPQRSTUVWXYZ234567"

def periodSeconds : Nat := 30
def digits : Nat := 6

structure Base32State where
  bits : Nat
  value : Nat
  out : List UInt8

/-- One character of a base32 text; `value` is a 32-bit integer. -/
def base32Push (st : Base32State) (ch : Char) : Base32State :=
  match base32Alphabet.toList.findIdx? (· = ch) with
  | none => st
  | some idx =>
    let value := (st.value * 32 + idx) % 2 ^ 32
    let bits := st.bits + 5
    if bits ≥ 8 then
      ⟨bits - 8, value, st.out ++ [UInt8.ofNat (value / 2 ^ (bits - 8) % 256)]⟩
    else ⟨bits, value, st.out⟩

/-- The code points whose capitals hold letters A to Z, without what else they hold. -/
def specialCapitals : List (Nat × String) :=
  [(0xdf, "SS"), (0x131, "I"), (0x149, "N"), (0x17f, "S"), (0x1f0, "J"), (0x1e96, "H"),
    (0x1e97, "T"), (0x1e98, "W"), (0x1e99, "Y"), (0x1e9a, "A"), (0xfb00, "FF"), (0xfb01, "FI"),
    (0xfb02, "FL"), (0xfb03, "FFI"), (0xfb04, "FFL"), (0xfb05, "ST"), (0xfb06, "ST")]

/-- What `toUpperCase` makes of a character, as far as `[A-Z2-7]` reads it. -/
def capitals (c : Char) : List Char :=
  match specialCapitals.lookup c.toNat with
  | some text => text.toList
  | none => [c.toUpper]

/-- `[A-Z2-7]` -/
def isBase32 (c : Char) : Bool := c.isUpper || (decide ('2' ≤ c) && decide (c ≤ '7'))

/-- `s.toUpperCase().replace(/[^A-Z2-7]/g, '')` -/
def base32Clean (s : String) : List Char := (s.toList.flatMap capitals).filter isBase32

def base32Decode (s : String) : List UInt8 := ((base32Clean s).foldl base32Push ⟨0, 0, []⟩).out

/-- `BASE32_ALPHABET[i]` -/
def base32Char (i : Nat) : Char := base32Alphabet.toList.getD i 'A'

structure Base32Text where
  bits : Nat
  value : Nat
  out : List Char

/-- `while (bits >= 5)`: the characters the register gives up, and the bits it is left with. -/
def base32Drain (value bits : Nat) (out : List Char) : Nat × List Char :=
  if 5 ≤ bits then
    base32Drain value (bits - 5) (out ++ [base32Char (value / 2 ^ (bits - 5) % 32)])
  else (bits, out)

/-- One byte of a buffer; `value` is a 32-bit integer here too. -/
def base32PushByte (st : Base32Text) (byte : UInt8) : Base32Text :=
  let value := (st.value * 256 + byte.toNat) % 2 ^ 32
  let drained := base32Drain value (st.bits + 8) st.out
  ⟨drained.1, value, drained.2⟩

def base32Encode (buf : List UInt8) : String :=
  let st := buf.foldl base32PushByte ⟨0, 0, []⟩
  String.ofList <|
    if 0 < st.bits then st.out ++ [base32Char (st.value * 2 ^ (5 - st.bits) % 2 ^ 32 % 32)]
    else st.out

/-- The eight bytes of `writeBigUInt64BE`. -/
def counterBytes (counter : Nat) : List UInt8 :=
  (List.range 8).map fun i => UInt8.ofNat (counter / 256 ^ (7 - i) % 256)

def hotp (hmac : Hmac) (key : List UInt8) (counter : Nat) : String :=
  let mac := hmac key (counterBytes counter)
  let offset := (mac.getLastD 0).toNat % 16
  let byte := fun i => (mac.getD (offset + i) 0).toNat
  let bin := byte 0 % 128 * 2 ^ 24 + byte 1 * 2 ^ 16 + byte 2 * 2 ^ 8 + byte 3
  let text := (toString (bin % 10 ^ digits)).toList
  String.ofList (List.replicate (digits - text.length) '0' ++ text)

def isCode (cs : List Char) : Bool := decide (cs.length = digits) && cs.all Char.isDigit

/-- A negative counter does not fit the eight bytes: `writeBigUInt64BE` throws. -/
inductive TotpError
  | outOfRange
deriving DecidableEq, Repr

/-- The first of the steps the code is of. -/
def matchStep (hmac : Hmac) (key : List UInt8) (normalized : String) :
    List Int → Except TotpError (Option Nat)
  | [] => .ok none
  | counter :: counters =>
    if counter < 0 then .error .outOfRange
    else if hotp hmac key counter.toNat = normalized then .ok (some counter.toNat)
    else matchStep hmac key normalized counters

/-- Which step within one of now a code is of. -/
def verifyTotpStep (hmac : Hmac) (secretBase32 code : String) (nowSec : Nat) :
    Except TotpError (Option Nat) :=
  let normalized := code.toList.filter fun c => !JsText.isSpace c
  if isCode normalized then
    let counter : Int := nowSec / periodSeconds
    matchStep hmac (base32Decode secretBase32) (String.ofList normalized)
      [counter - 1, counter, counter + 1]
  else .ok none

end Iceslab.Totp
