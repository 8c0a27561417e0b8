import Iceslab.Awg3Geometry
import Iceslab.Lib.GoText

/-!
# The 3.1 geometry on the node

`geometry3.go`, with `parseSpan` and `toGeometry` of `inbound.go` and the field checks of
`config.go` it uses: the same geometry read by the agent, its own table of bounds, and the lines it
renders.  Numbers are Go's 64-bit integers.

* `toGeometry` — the ranges of the wire as numbers.
* `geometry3Rules`, `violations`, `validate` — the table.
* `interfaceLines` — the geometry in the `[Interface]` block.
-/

set_option autoImplicit false

namespace Iceslab.Agent

/-! ## Reading the wire -/

structure Geometry3 where
  mtu : Int
  jc : Int
  jmin : Int
  jmax : Int
  s1 : Int
  s2 : Int
  s3 : Int
  s4 : Int
  h1 : Span
  h2 : Span
  h3 : Span
  h4 : Span
  i1 : String
  i2 : String
  i3 : String
  i4 : String
  i5 : String
  headerProtectionKey : String
  contentPaddingAddition : Span
  rekeyAfterTime : Span
  rekeyTimeout : Span
  rejectAfterTime : Span
  keepaliveTimeout : Span
  maxHandshakeAttempts : Span
  randomTrailers : Bool
  deriving DecidableEq

inductive SpanError
  | notNumberOrRange (name raw : String)
  | notRange (name raw : String)
  deriving DecidableEq

/-- The range of an `int64`. -/
def Int64Fits (v : Int) : Prop := -2 ^ 63 ≤ v ∧ v < 2 ^ 63

instance (v : Int) : Decidable (Int64Fits v) := inferInstanceAs (Decidable (_ ∧ _))

/-- `strconv.ParseInt(s, 10, 64)` -/
def parseInt64 (s : List Char) : Option Int :=
  let ds := if s.head? = some '-' ∨ s.head? = some '+' then s.tail else s
  if ds ≠ [] ∧ ds.all Char.isDigit = true then
    let n : Int := Nat.ofDigitChars 10 ds 0
    let v := if s.head? = some '-' then -n else n
    if Int64Fits v then some v else none
  else none

def parseSpan (name s : String) : Except SpanError Span :=
  let t := GoText.trimSpace s
  match GoText.cut t '-' with
  | none =>
    match parseInt64 t.toList with
    | none => .error (.notNumberOrRange name s)
    | some l => .ok ⟨l, l⟩
  | some (lo, hi) =>
    match parseInt64 lo.toList with
    | none => .error (.notNumberOrRange name s)
    | some l =>
      match parseInt64 hi.toList with
      | none => .error (.notRange name s)
      | some h => .ok ⟨l, h⟩

def toGeometry (w : AwgGeometry3) : Except SpanError Geometry3 := do
  let h1 ← parseSpan "H1" w.h1
  let h2 ← parseSpan "H2" w.h2
  let h3 ← parseSpan "H3" w.h3
  let h4 ← parseSpan "H4" w.h4
  let contentPaddingAddition ← parseSpan "ContentPaddingAddition" w.contentPaddingAddition
  let rekeyAfterTime ← parseSpan "RekeyAfterTime" w.rekeyAfterTime
  let rekeyTimeout ← parseSpan "RekeyTimeout" w.rekeyTimeout
  let rejectAfterTime ← parseSpan "RejectAfterTime" w.rejectAfterTime
  let keepaliveTimeout ← parseSpan "KeepaliveTimeout" w.keepaliveTimeout
  let maxHandshakeAttempts ← parseSpan "MaxHandshakeAttempts" w.maxHandshakeAttempts
  return {
    mtu := w.mtu, jc := w.jc, jmin := w.jmin, jmax := w.jmax
    s1 := w.s1, s2 := w.s2, s3 := w.s3, s4 := w.s4
    h1, h2, h3, h4
    i1 := w.i1, i2 := w.i2, i3 := w.i3, i4 := w.i4, i5 := w.i5
    headerProtectionKey := w.headerProtectionKey
    contentPaddingAddition, rekeyAfterTime, rekeyTimeout, rejectAfterTime, keepaliveTimeout
    maxHandshakeAttempts
    randomTrailers := w.randomTrailers }

/-! ## The table -/

inductive FailureMode
  | refusedByTools
  | refusedByEngine
  | silentInTools
  | refusedByClient
  | stallsTunnel
  | exhaustsMemory
  | injection
  deriving DecidableEq

def FailureMode.text : FailureMode → String
  | .refusedByTools => "refused by tools"
  | .refusedByEngine => "refused by engine"
  | .silentInTools => "silent in tools"
  | .refusedByClient => "refused by client"
  | .stallsTunnel => "stalls the tunnel"
  | .exhaustsMemory => "exhausts memory"
  | .injection => "injects into the config"

/-- One row.  Where a check goes over a map, which field its error names is not decided, so a row
says whether it is broken and no more. -/
structure GeometryRule where
  id : String
  breaks : FailureMode
  check : Geometry3 → Bool

def nonceFloor : Int := 12

def uint16Max : Int := 65535

def headerLow : Int := 16

def headerCeiling : Int := 2 ^ 31

def stockRejectTime : Int := 180

def junkCeiling : Int := 1000

def mtuMin : Int := 1280

def mtuMax : Int := 1420

/-- What a 64-bit addition leaves of a sum. -/
def wrap64 (n : Int) : Int := Int.bmod n (2 ^ 64)

/-- `validateWGKey` -/
def validateWGKey (s : String) : Bool :=
  if GoText.byteLength s.toList ≠ 44 then false
  else
    match Base64.decodeString s with
    | none => false
    | some raw => decide (raw.length = 32)

/-- `validateIField` -/
def validateIField (s : String) : Bool :=
  s.toList.all fun c => ('0' ≤ c && c ≤ '9') || ('a' ≤ c && c ≤ 'f') || ('A' ≤ c && c ≤ 'F')
    || c = 'x' || c = 'X' || c = '<' || c = '>' || c = ' ' || c = 'r' || c = 't'

section Spans

variable (g : Geometry3)

def Geometry3.headerSpans : List Span := [g.h1, g.h2, g.h3, g.h4]

def Geometry3.timingSpans : List Span :=
  [g.rekeyAfterTime, g.rekeyTimeout, g.rejectAfterTime, g.keepaliveTimeout, g.maxHandshakeAttempts]

def Geometry3.u16Spans : List Span := g.timingSpans ++ [g.contentPaddingAddition]

end Spans

/-- Whether each row is broken by a geometry. -/
def geometry3Rules : List GeometryRule :=
  [⟨"hpk-required", .refusedByEngine, fun g =>
      g.headerProtectionKey = "" || !validateWGKey g.headerProtectionKey⟩,
    ⟨"s-nonce-floor", .refusedByEngine, fun g =>
      [g.s1, g.s2, g.s3, g.s4].any fun s => s < nonceFloor⟩,
    ⟨"scalar-uint16", .refusedByTools, fun g =>
      [g.jc, g.jmin, g.jmax, g.s1, g.s2, g.s3, g.s4].any fun v => v < 0 || v > uint16Max⟩,
    ⟨"range-uint16", .silentInTools, fun g =>
      g.u16Spans.any fun s => s.hi > uint16Max || s.lo > uint16Max⟩,
    ⟨"range-order", .refusedByTools, fun g =>
      (g.u16Spans ++ g.headerSpans).any fun s => s.lo < 0 || s.hi < s.lo⟩,
    ⟨"mtu-range", .stallsTunnel, fun g => g.mtu < mtuMin || g.mtu > mtuMax⟩,
    ⟨"s4-mtu-budget", .stallsTunnel, fun g => wrap64 (g.s4 + 32 + g.mtu + 28) > 1500⟩,
    ⟨"class-sizes-distinct", .refusedByClient, fun g =>
      anyPair (· == ·)
        [wrap64 (g.s1 + 148), wrap64 (g.s2 + 92), wrap64 (g.s3 + 64), wrap64 (g.s4 + 32)]⟩,
    ⟨"junk-order", .exhaustsMemory, fun g => g.jmin ≥ g.jmax⟩,
    ⟨"junk-ceiling", .stallsTunnel, fun g => g.jmax > junkCeiling⟩,
    ⟨"header-bounds", .silentInTools, fun g =>
      g.headerSpans.any fun s => s.lo < headerLow || s.hi ≥ headerCeiling⟩,
    ⟨"headers-disjoint", .refusedByEngine, fun g =>
      anyPair (fun a b => a.lo ≤ b.hi && b.lo ≤ a.hi) g.headerSpans⟩,
    ⟨"content-padding-set", .stallsTunnel, fun g => g.contentPaddingAddition.lo < 1⟩,
    ⟨"timings-set", .silentInTools, fun g => g.timingSpans.any fun s => s.lo < 1⟩,
    ⟨"reject-floor", .stallsTunnel, fun g => g.rejectAfterTime.lo < stockRejectTime⟩,
    ⟨"rekey-before-reject", .stallsTunnel, fun g => g.rekeyAfterTime.hi ≥ g.rejectAfterTime.lo⟩,
    ⟨"reject-after-keepalive", .stallsTunnel, fun g =>
      g.rejectAfterTime.lo ≤ wrap64 (g.keepaliveTimeout.hi + g.rekeyTimeout.hi)⟩,
    ⟨"random-trailers-on", .stallsTunnel, fun g => !g.randomTrailers⟩,
    ⟨"i1-present", .stallsTunnel, fun g => GoText.trimSpace g.i1 = ""⟩,
    ⟨"i-charset", .injection, fun g =>
      [g.i1, g.i2, g.i3, g.i4, g.i5].any fun v => !validateIField v⟩]

/-- Every row with whether the geometry breaks it. -/
def Geometry3.checked (g : Geometry3) : List (String × Bool) :=
  geometry3Rules.map fun r => (r.id, r.check g)

def Geometry3.violations (g : Geometry3) : List String := RuleTable.broken g.checked

/-- The row a geometry is refused by. -/
structure GeometryError where
  id : String
  breaks : FailureMode
  deriving DecidableEq

def GeometryError.text (e : GeometryError) : String :=
  "awg 3.1 geometry, " ++ e.id ++ " (" ++ e.breaks.text ++ ")"

def Geometry3.validate (g : Geometry3) : Except GeometryError Unit :=
  match geometry3Rules.find? fun r => r.check g with
  | some r => .error ⟨r.id, r.breaks⟩
  | none => .ok ()

theorem validate_ok {g : Geometry3} : g.validate = .ok () ↔ g.violations = [] := by
  have hfind : g.violations = [] ↔ ∀ r ∈ geometry3Rules, r.check g = false := by
    simp [Geometry3.violations, RuleTable.broken_eq_nil, Geometry3.checked]
  rw [hfind]
  unfold Geometry3.validate
  cases h : geometry3Rules.find? fun r => r.check g with
  | none => simpa using h
  | some r =>
    have hmem := List.mem_of_find?_eq_some h
    have hcheck := List.find?_some h
    simp only [reduceCtorEq, false_iff, not_forall]
    exact ⟨r, hmem, by simp [hcheck]⟩

/-! ## Rendering -/

def spanText (s : Span) : String :=
  if s.lo = s.hi then toString s.lo else toString s.lo ++ "-" ++ toString s.hi

/-- `I1` to `I5`, the empty ones left out. -/
def iLines (is : List (String × String)) : List String :=
  is.filterMap fun i => if i.2 ≠ "" then some (i.1 ++ " = " ++ i.2) else none

def Geometry3.interfaceLines (g : Geometry3) : Except GeometryError (List String) := do
  g.validate
  return ["Jc = " ++ toString g.jc, "Jmin = " ++ toString g.jmin, "Jmax = " ++ toString g.jmax,
      "S1 = " ++ toString g.s1, "S2 = " ++ toString g.s2, "S3 = " ++ toString g.s3,
      "S4 = " ++ toString g.s4,
      "H1 = " ++ spanText g.h1, "H2 = " ++ spanText g.h2, "H3 = " ++ spanText g.h3,
      "H4 = " ++ spanText g.h4] ++
    iLines [("I1", g.i1), ("I2", g.i2), ("I3", g.i3), ("I4", g.i4), ("I5", g.i5)] ++
    ["HeaderProtectionKey = " ++ g.headerProtectionKey,
      "ContentPaddingAddition = " ++ spanText g.contentPaddingAddition,
      "RekeyAfterTime = " ++ spanText g.rekeyAfterTime,
      "RekeyTimeout = " ++ spanText g.rekeyTimeout,
      "RejectAfterTime = " ++ spanText g.rejectAfterTime,
      "KeepaliveTimeout = " ++ spanText g.keepaliveTimeout,
      "MaxHandshakeAttempts = " ++ spanText g.maxHandshakeAttempts,
      "RandomTrailers = " ++ if g.randomTrailers then "on" else "off"]

end Iceslab.Agent
