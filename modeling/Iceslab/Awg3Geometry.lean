import Iceslab.Lib.Base64
import Iceslab.Lib.JsNumber
import Iceslab.Lib.JsText
import Iceslab.Lib.RuleTable

/-!
# The 3.1 geometry on the panel

`awg3-geometry.ts`: the geometry a node of AmneziaWG 3.1 is minted with, and the table of bounds it
is checked against before it is stored.  Numbers read out of a text are JavaScript's.

* `parseSpan` — a range as the 3.1 tools write it.
* `awg3GeometryViolations` — the ids of the rules a geometry breaks.
* `drawOnce`, `mintAwg3Geometry` — a geometry from a source of random numbers.
-/

set_option autoImplicit false

namespace Iceslab

/-! ## The geometry -/

/-- The geometry as it is stored and pushed: ranges are the tools' strings. -/
structure AwgGeometry3 where
  mtu : Int
  jc : Int
  jmin : Int
  jmax : Int
  s1 : Int
  s2 : Int
  s3 : Int
  s4 : Int
  h1 : String
  h2 : String
  h3 : String
  h4 : String
  i1 : String
  i2 : String
  i3 : String
  i4 : String
  i5 : String
  headerProtectionKey : String
  contentPaddingAddition : String
  rekeyAfterTime : String
  rekeyTimeout : String
  rejectAfterTime : String
  keepaliveTimeout : String
  maxHandshakeAttempts : String
  randomTrailers : Bool
  deriving DecidableEq

/-- A geometry inside every bound. -/
def baselineGeometry : AwgGeometry3 where
  mtu := 1376
  jc := 6
  jmin := 48
  jmax := 96
  s1 := 24
  s2 := 40
  s3 := 18
  s4 := 20
  h1 := "1136172351-1136272351"
  h2 := "1532791203-1532891203"
  h3 := "1861209101-1861309101"
  h4 := "2004118712-2004218712"
  i1 := "<b 0x1234><r 12>"
  i2 := ""
  i3 := ""
  i4 := ""
  i5 := ""
  headerProtectionKey := "EAAAAAAAAAAAAAAAAAAAAAAAAAAAAAAAAAAAAAAAAAA="
  contentPaddingAddition := "1-32"
  rekeyAfterTime := "100-140"
  rekeyTimeout := "5-8"
  rejectAfterTime := "210-250"
  keepaliveTimeout := "10-17"
  maxHandshakeAttempts := "12-18"
  randomTrailers := true

def AwgGeometry3.texts (g : AwgGeometry3) : List String :=
  [g.h1, g.h2, g.h3, g.h4, g.i1, g.i2, g.i3, g.i4, g.i5, g.headerProtectionKey,
    g.contentPaddingAddition, g.rekeyAfterTime, g.rekeyTimeout, g.rejectAfterTime,
    g.keepaliveTimeout, g.maxHandshakeAttempts]

/-- Printable ASCII. -/
def PrintableText (s : String) : Prop := ∀ c ∈ s.toList, 32 ≤ c.toNat ∧ c.toNat ≤ 126

def AwgGeometry3.Printable (g : AwgGeometry3) : Prop := ∀ t ∈ g.texts, PrintableText t

/-! ## The table -/

/-- An inclusive range. -/
structure Span where
  lo : Int
  hi : Int
  deriving DecidableEq

/-- `/^(\d+)(?:-(\d+))?$/` on the trimmed text: the digits of both ends. -/
def spanDigits (s : String) : Option (List Char × List Char) :=
  let t := (JsText.trim s).toList
  let lo := t.takeWhile Char.isDigit
  if lo = [] then none
  else
    match t.dropWhile Char.isDigit with
    | [] => some (lo, lo)
    | c :: hi => if c = '-' ∧ hi ≠ [] ∧ hi.all Char.isDigit = true then some (lo, hi) else none

/-- `Number(m)` of a run of digits. -/
def numberOfDigits (ds : List Char) : Int := JsNumber.round (Nat.ofDigitChars 10 ds 0)

def parseSpan (s : String) : Option Span :=
  (spanDigits s).map fun m => ⟨numberOfDigits m.1, numberOfDigits m.2⟩

/-- The ranges of a geometry. -/
structure Spans where
  h1 : Span
  h2 : Span
  h3 : Span
  h4 : Span
  cpa : Span
  rekeyAfter : Span
  rekeyTimeout : Span
  rejectAfter : Span
  keepalive : Span
  maxHs : Span
  deriving DecidableEq

def Spans.h (s : Spans) : List Span := [s.h1, s.h2, s.h3, s.h4]

def Spans.timing (s : Spans) : List Span :=
  [s.rekeyAfter, s.rekeyTimeout, s.rejectAfter, s.keepalive, s.maxHs]

def Spans.u16 (s : Spans) : List Span := s.timing ++ [s.cpa]

def spansOf (g : AwgGeometry3) : Option Spans := do
  let h1 ← parseSpan g.h1
  let h2 ← parseSpan g.h2
  let h3 ← parseSpan g.h3
  let h4 ← parseSpan g.h4
  let cpa ← parseSpan g.contentPaddingAddition
  let rekeyAfter ← parseSpan g.rekeyAfterTime
  let rekeyTimeout ← parseSpan g.rekeyTimeout
  let rejectAfter ← parseSpan g.rejectAfterTime
  let keepalive ← parseSpan g.keepaliveTimeout
  let maxHs ← parseSpan g.maxHandshakeAttempts
  return ⟨h1, h2, h3, h4, cpa, rekeyAfter, rekeyTimeout, rejectAfter, keepalive, maxHs⟩

/-- `/^[A-Za-z0-9+/]{43}=$/` -/
def isWgKey (s : String) : Bool :=
  decide (s.toList.length = 44) && (s.toList.take 43).all Base64.inAlphabet
    && decide (s.toList.drop 43 = ['='])

/-- `[0-9a-fA-FxX<> rt]` -/
def iChar (c : Char) : Bool := JsText.isHex c || "xX<> rt".toList.contains c

def NONCE_FLOOR : Int := 12

def U16 : Int := 65535

/-- Some element is related to a later one. -/
def anyPair {α : Type} (rel : α → α → Bool) : List α → Bool
  | [] => false
  | a :: rest => rest.any (rel a) || anyPair rel rest

def Span.meets (a b : Span) : Bool := decide (a.lo ≤ b.hi ∧ b.lo ≤ a.hi)

/-- The sum of two numbers. -/
def add (a b : Int) : Int := JsNumber.round (a + b)

def awg3Rules (g : AwgGeometry3) (s : Spans) : List (String × Bool) :=
  let ss := [g.s1, g.s2, g.s3, g.s4]
  [("hpk-required", !isWgKey g.headerProtectionKey ||
      decide ((Base64.ofText g.headerProtectionKey).length ≠ 32)),
    ("s-nonce-floor", ss.any fun v => decide (v < NONCE_FLOOR)),
    ("scalar-uint16", ([g.jc, g.jmin, g.jmax] ++ ss).any fun v => decide (v < 0 ∨ v > U16)),
    ("range-uint16", s.u16.any fun a => decide (a.lo > U16 ∨ a.hi > U16)),
    ("range-order", (s.u16 ++ s.h).any fun a => decide (a.lo < 0 ∨ a.hi < a.lo)),
    ("mtu-range", decide (g.mtu < 1280 ∨ g.mtu > 1420)),
    ("s4-mtu-budget", decide (add (add (add g.s4 32) g.mtu) 28 > 1500)),
    ("class-sizes-distinct",
      anyPair (· == ·) [add g.s1 148, add g.s2 92, add g.s3 64, add g.s4 32]),
    ("junk-order", decide (g.jmin ≥ g.jmax)),
    ("junk-ceiling", decide (g.jmax > 1000)),
    ("header-bounds", s.h.any fun a => decide (a.lo < 16 ∨ a.hi ≥ 2 ^ 31)),
    ("headers-disjoint", anyPair Span.meets s.h),
    ("content-padding-set", decide (s.cpa.lo < 1)),
    ("timings-set", s.timing.any fun a => decide (a.lo < 1)),
    ("reject-floor", decide (s.rejectAfter.lo < 180)),
    ("rekey-before-reject", decide (s.rekeyAfter.hi ≥ s.rejectAfter.lo)),
    ("reject-after-keepalive",
      decide (s.rejectAfter.lo ≤ add s.keepalive.hi s.rekeyTimeout.hi)),
    ("random-trailers-on", !g.randomTrailers),
    ("i1-present", decide (JsText.trim g.i1 = "")),
    ("i-charset", [g.i1, g.i2, g.i3, g.i4, g.i5].any fun i => !i.toList.all iChar)]

/-- The ids of every rule the geometry breaks.  A text no range can be read from is refused as a
whole. -/
def awg3GeometryViolations (g : AwgGeometry3) : List String :=
  match spansOf g with
  | none => ["unparsable"]
  | some s => RuleTable.broken (awg3Rules g s)

/-! ## Minting -/

/-- A source of random numbers, by the number of the draw. -/
structure GeometryRandom where
  int : Nat → Int → Int → Int
  bytes : Nat → Nat → List Nat

def span (lo hi : Int) : String := if lo = hi then toString lo else toString lo ++ "-" ++ toString hi

abbrev Draw := StateT Nat Option

def GeometryRandom.drawInt (r : GeometryRandom) (lo hi : Int) : Draw Int :=
  fun k => some (r.int k lo hi, k + 1)

def GeometryRandom.drawBytes (r : GeometryRandom) (n : Nat) : Draw (List Nat) :=
  fun k => some (r.bytes k n, k + 1)

/-- `lo` from `[loMin, loMax]`, width from `[wMin, wMax]`. -/
def randSpan (r : GeometryRandom) (loMin loMax wMin wMax : Int) : Draw String := do
  let lo ← r.drawInt loMin loMax
  let w ← r.drawInt wMin wMax
  return span lo (lo + w)

/-- Headers until four are distinct, for as long as there is fuel. -/
def drawHeaders (r : GeometryRandom) : Nat → List Int → Draw (List Int)
  | 0, _ => fun _ => none
  | fuel + 1, hs => do
    if hs.length < 4 then
      let h ← r.drawInt 16 2147483646
      drawHeaders r fuel (if hs.contains h then hs else hs ++ [h])
    else return hs

/-- `n.toString(16).padStart(2, '0')` -/
def hexByte (n : Int) : String :=
  let ds := Nat.toDigits 16 n.toNat
  String.ofList (List.replicate (2 - ds.length) '0' ++ ds)

/-- A DNS query of a random label. -/
def dnsDecoy (label : Int) : String :=
  "<r 2><b 0x0100><b 0x00010000><b 0x00000000>" ++ "<b 0x" ++ hexByte label ++ "><rc " ++
    toString label ++ ">" ++ "<b 0x03636f6d00><b 0x0001><b 0x0001>"

def stunDecoy : String := "<b 0x0001><b 0x000c><b 0x2112a442><r 12><b 0x8022><b 0x0008><rc 8>"

def decoyOrders (dns stun noise : String) : List (List String) :=
  [[dns, stun, noise], [dns, noise, stun], [stun, dns, noise], [stun, noise, dns],
    [noise, dns, stun], [noise, stun, dns]]

def drawOnce (r : GeometryRandom) (fuel : Nat) (mtu : Int) : Draw AwgGeometry3 := do
  let hs ← drawHeaders r fuel []
  let jc ← r.drawInt 3 10
  let jmin ← r.drawInt 40 100
  let junk ← r.drawInt 30 200
  let s4Max := min 64 (1500 - 32 - mtu - 28)
  let s1 ← r.drawInt 12 150
  let s2 ← r.drawInt 12 150
  let s3 ← r.drawInt 12 64
  let s4 ← r.drawInt 12 (max 12 s4Max)
  let label ← r.drawInt 3 12
  let noise ← r.drawInt 48 220
  let order ← r.drawInt 0 5
  let count ← r.drawInt 1 3
  let orders := decoyOrders (dnsDecoy label) stunDecoy ("<r " ++ toString noise ++ ">")
  let decoys := (orders.getD order.toNat []).take count.toNat
  let key ← r.drawBytes 32
  let padding ← r.drawInt 16 64
  let rekeyAfterTime ← randSpan r 95 115 25 55
  let rekeyTimeout ← randSpan r 4 6 2 4
  let rejectAfterTime ← randSpan r 200 230 30 60
  let keepaliveTimeout ← randSpan r 8 12 5 10
  let maxHandshakeAttempts ← randSpan r 12 16 4 8
  return {
    mtu, jc, jmin, jmax := jmin + junk, s1, s2, s3, s4
    h1 := toString (hs.getD 0 0)
    h2 := toString (hs.getD 1 0)
    h3 := toString (hs.getD 2 0)
    h4 := toString (hs.getD 3 0)
    i1 := decoys.getD 0 ""
    i2 := decoys.getD 1 ""
    i3 := decoys.getD 2 ""
    i4 := ""
    i5 := ""
    headerProtectionKey := Base64.encode key
    contentPaddingAddition := span 1 padding
    rekeyAfterTime, rekeyTimeout, rejectAfterTime, keepaliveTimeout, maxHandshakeAttempts
    randomTrailers := true }

/-- One draw after another, until the table refuses none. -/
def mintAttempts (r : GeometryRandom) (fuel : Nat) (mtu : Int) :
    Nat → Nat → Option (Except String AwgGeometry3)
  | 0, _ => some (.error ("could not mint a 3.1 geometry for MTU " ++ toString mtu))
  | attempts + 1, k =>
    match drawOnce r fuel mtu k with
    | none => none
    | some (g, k) =>
      if awg3GeometryViolations g = [] then some (.ok g) else mintAttempts r fuel mtu attempts k

/-- `mintAwg3Geometry`, none where a draw of headers ran out of fuel. -/
def mintAwg3Geometry (r : GeometryRandom) (fuel : Nat) (mtu : Int) :
    Option (Except String AwgGeometry3) :=
  mintAttempts r fuel mtu 100 0

theorem mint_clean {r : GeometryRandom} {fuel : Nat} {mtu : Int} {g : AwgGeometry3}
    (h : mintAwg3Geometry r fuel mtu = some (.ok g)) :
    awg3GeometryViolations g = [] ∧ ∃ k k', drawOnce r fuel mtu k = some (g, k') := by
  unfold mintAwg3Geometry at h
  generalize (100 : Nat) = attempts at h
  generalize (0 : Nat) = k at h
  induction attempts generalizing k with
  | zero => cases h
  | succ attempts ih =>
    simp only [mintAttempts] at h
    split at h
    · cases h
    · rename_i g' k' hdraw
      split at h
      · rename_i hclean
        cases h
        exact ⟨hclean, k, k', hdraw⟩
      · exact ih _ h

end Iceslab
