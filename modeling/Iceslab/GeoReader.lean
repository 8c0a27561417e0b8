import Iceslab.Lib.Checked
import Iceslab.Lib.JsBytes

/-!
# Reading the bytes of a geo file

The `Reader` of `geo-dat.ts`: numbers, keys, values with a length, and values passed over.  Every
refusal names the byte where reading stopped.

* `Reader.key`, `Reader.bytes`, `Reader.skip` — the reader against the wire format.
* `Reader.each_iff` — a loop to the end of a message that takes one field a turn is a fold over the
  fields of the message.
-/

set_option autoImplicit false

namespace Iceslab

open Checked JsBytes

/-- Why a file is refused. -/
inductive GeoDatIssue where
  | endsInNumber
  | longNumber
  | fieldZero
  | runsPast (len left : Nat)
  | notUtf8 (what : String)
  | endsInFixed
  | unknownWire (wire : Nat)
  | wrongWire (what : String) (got want : Nat)
  | domainType (n : Nat)
  | noValue
  | noKey
  | addressLength (n : Nat)
  | noAddress
  | longPrefix (n : Nat)
  | topLevel (field : Nat)
  | noCode
  | noEntries
  deriving DecidableEq, Repr

/-- The words of the refusal; `num` writes a number. -/
def GeoDatIssue.text (num : Nat → String) : GeoDatIssue → String
  | .endsInNumber => "the file ends inside a number"
  | .longNumber => "a number longer than ten bytes"
  | .fieldZero => "field number 0"
  | .runsPast len left =>
    "a value of " ++ num len ++ " bytes runs past the end (" ++ num left ++ " left)"
  | .notUtf8 what => what ++ " is not valid UTF-8"
  | .endsInFixed => "the file ends inside a fixed-size value"
  | .unknownWire wire => "wire type " ++ num wire ++ " is not one protobuf writes"
  | .wrongWire what got want =>
    what ++ " has wire type " ++ num got ++ ", expected " ++ num want
  | .domainType n => "domain type " ++ num n ++ " is none of plain, regex, domain, full"
  | .noValue => "a domain with no value"
  | .noKey => "an attribute with no key"
  | .addressLength n => "an address of " ++ num n ++ " bytes is neither IPv4 nor IPv6"
  | .noAddress => "a CIDR with no address"
  | .longPrefix n => "prefix /" ++ num n ++ " is longer than the address"
  | .topLevel field => "field " ++ num field ++ " at the top level, where only entries live"
  | .noCode => "an entry with no code"
  | .noEntries => "the file holds no entries"

structure GeoDatError where
  issue : GeoDatIssue
  offset : Nat
  deriving DecidableEq, Repr

abbrev GeoRead (α : Type) := Except GeoDatError α

/-- Where reading stands, and the bytes up to the end of the value being read. -/
structure Reader where
  pos : Nat
  rest : List UInt8
  deriving DecidableEq

structure Key where
  field : Nat
  wire : Nat
  pos : Nat
  deriving DecidableEq, Repr

namespace Reader

/-- `new Reader(buf, start, end)` -/
def create (buf : List UInt8) (start stop : Nat) : Reader := ⟨start, (buf.take stop).drop start⟩

/-- `end` -/
def stop (r : Reader) : Nat := r.pos + r.rest.length

def varintFrom : Nat → Nat → Nat → Reader → GeoRead (Nat × Reader)
  | 0, _, _, r => .error ⟨.longNumber, r.pos⟩
  | i + 1, result, shift, r =>
    match r.rest with
    | [] => .error ⟨.endsInNumber, r.pos⟩
    | b :: rest =>
      let result := arith.add result (b.toNat % 128 * 2 ^ shift)
      if b.toNat < 128 then .ok (result, ⟨r.pos + 1, rest⟩)
      else varintFrom i result (shift + 7) ⟨r.pos + 1, rest⟩

def varint (r : Reader) : GeoRead (Nat × Reader) := varintFrom 10 0 0 r

def key (r : Reader) : GeoRead (Key × Reader) := do
  let (k, r') ← r.varint
  if k / 8 = 0 then .error ⟨.fieldZero, r.pos⟩ else .ok (⟨k / 8, k % 8, r.pos⟩, r')

/-- A length-delimited value as a reader of its own, checked against the parent. -/
def bytes (r : Reader) : GeoRead (Reader × Reader) := do
  let (len, r') ← r.varint
  if r'.rest.length < len then .error ⟨.runsPast len r'.rest.length, r.pos⟩
  else .ok (⟨r'.pos, r'.rest.take len⟩, ⟨r'.pos + len, r'.rest.drop len⟩)

/-- `string` -/
def text (what : String) (r : Reader) : GeoRead (String × Reader) := do
  let (v, r') ← r.bytes
  match utf8Decode v.rest with
  | some s => .ok (s, r')
  | none => .error ⟨.notUtf8 what, v.pos⟩

def advance (n pos : Nat) (r : Reader) : GeoRead Reader :=
  if r.rest.length < n then .error ⟨.endsInFixed, pos⟩ else .ok ⟨r.pos + n, r.rest.drop n⟩

/-- `skip` -/
def pass (wire pos : Nat) (r : Reader) : GeoRead Reader :=
  match wire with
  | 0 => r.varint.map (·.2)
  | 1 => r.advance 8 pos
  | 2 => r.bytes.map (·.2)
  | 5 => r.advance 4 pos
  | _ => .error ⟨.unknownWire wire, pos⟩

/-- `while (!r.done())`; a turn that reads a field takes a byte at least, so that the turns never
run out before the bytes do. -/
def eachFrom {σ : Type} (turn : σ → Reader → GeoRead (σ × Reader)) : Nat → σ → Reader → GeoRead σ
  | _, s, ⟨_, []⟩ => .ok s
  | 0, _, r => .error ⟨.longNumber, r.pos⟩
  | n + 1, s, r => do
    let (s', r') ← turn s r
    eachFrom turn n s' r'

def each {σ : Type} (turn : σ → Reader → GeoRead (σ × Reader)) (s : σ) (r : Reader) : GeoRead σ :=
  eachFrom turn r.rest.length s r

end Reader

def expectWire (what : String) (k : Key) (want : Nat) : GeoRead Unit :=
  require (decide (k.wire = want)) ⟨.wrongWire what k.wire want, k.pos⟩

/-! ## The reader against the wire format -/

variable {bs payload rest : List UInt8} {n pos wire : Nat}

namespace Reader

variable {r r' : Reader}

theorem varintFrom_ok {i result shift n : Nat} :
    varintFrom i result shift r = .ok (n, r') ↔
      Wire.varintFrom arith i result shift r.rest = some (n, r'.rest) ∧ r'.stop = r.stop := by
  induction i generalizing result shift r with
  | zero => simp [varintFrom, Wire.varintFrom]
  | succ i ih =>
    obtain ⟨pos, rest⟩ := r
    cases rest with
    | nil => simp [varintFrom, Wire.varintFrom]
    | cons b rest =>
      rw [varintFrom, Wire.varintFrom]
      dsimp only
      split
      · obtain ⟨pos', rest'⟩ := r'
        simp only [Except.ok.injEq, Prod.mk.injEq, Option.some.injEq, Reader.mk.injEq, stop,
          List.length_cons, and_assoc]
        refine and_congr Iff.rfl ⟨?_, ?_⟩
        · rintro ⟨rfl, rfl⟩
          exact ⟨rfl, by omega⟩
        · rintro ⟨rfl, h⟩
          exact ⟨by omega, rfl⟩
      · rw [ih]
        refine and_congr Iff.rfl ?_
        simp only [stop, List.length_cons]
        omega

theorem varint_ok :
    r.varint = .ok (n, r') ↔ Wire.varint arith r.rest = some (n, r'.rest) ∧ r'.stop = r.stop :=
  varintFrom_ok

theorem key_ok {k : Key} :
    r.key = .ok (k, r') ↔ ∃ n, Wire.varint arith r.rest = some (n, r'.rest) ∧ r'.stop = r.stop ∧
      n / 8 ≠ 0 ∧ k = ⟨n / 8, n % 8, r.pos⟩ := by
  unfold key
  rw [bind_eq_ok]
  constructor
  · rintro ⟨⟨n, mid⟩, hn, h⟩
    dsimp only at h
    split at h
    · cases h
    · rename_i h0
      cases h
      exact ⟨n, (varint_ok.mp hn).1, (varint_ok.mp hn).2, h0, rfl⟩
  · rintro ⟨n, hn, hstop, h0, rfl⟩
    refine ⟨(n, r'), varint_ok.mpr ⟨hn, hstop⟩, ?_⟩
    dsimp only
    rw [if_neg h0]

theorem bytes_ok {v : Reader} :
    r.bytes = .ok (v, r') ↔ Wire.value arith 2 r.rest = some (.bytes v.rest, r'.rest) ∧
      r'.stop = r.stop ∧ v.stop = r'.pos := by
  unfold bytes
  rw [bind_eq_ok, Wire.value_two]
  constructor
  · rintro ⟨⟨len, mid⟩, hn, h⟩
    obtain ⟨hlen, hstop⟩ := varint_ok.mp hn
    dsimp only at h
    split at h
    · cases h
    · rename_i hle
      rw [not_lt] at hle
      cases h
      refine ⟨⟨_, rfl, ?_⟩, ?_, ?_⟩
      · rw [hlen, List.length_take_of_le hle, List.take_append_drop]
      · rw [← hstop]
        simp only [stop, List.length_drop]
        omega
      · simp [stop, hle]
  · rintro ⟨⟨payload, hv, hn⟩, hstop, hpos⟩
    cases hv
    have hlt := Wire.varint_lt hn
    rw [List.length_append] at hlt
    simp only [stop] at hstop hpos
    refine ⟨(v.rest.length, ⟨v.pos, v.rest ++ r'.rest⟩), varint_ok.mpr ⟨hn, ?_⟩, ?_⟩
    · simp only [stop, List.length_append]
      omega
    · dsimp only
      rw [if_neg (by simp), List.take_left, List.drop_left]
      obtain ⟨pos', rest'⟩ := r'
      obtain ⟨vpos, vrest⟩ := v
      simp only [Except.ok.injEq, Prod.mk.injEq, Reader.mk.injEq, true_and, and_true]
      exact hpos

theorem advance_ok :
    r.advance n pos = .ok r' ↔
      (∃ p, Wire.takeBytes n r.rest = some (p, r'.rest)) ∧ r'.stop = r.stop := by
  unfold advance Wire.takeBytes
  constructor
  · intro h
    split at h
    · cases h
    · rename_i hle
      rw [not_lt] at hle
      cases h
      rw [if_pos hle]
      refine ⟨⟨_, rfl⟩, ?_⟩
      simp only [stop, List.length_drop]
      omega
  · rintro ⟨⟨p, hp⟩, hstop⟩
    split at hp
    · rename_i hle
      obtain ⟨pos', rest'⟩ := r'
      simp only [Option.some.injEq, Prod.mk.injEq] at hp
      obtain ⟨-, rfl⟩ := hp
      rw [if_neg (by omega)]
      simp only [stop, List.length_drop] at hstop
      simp only [Except.ok.injEq, Reader.mk.injEq, and_true]
      omega
    · cases hp

theorem map_snd_ok {α : Type} {x : GeoRead (α × Reader)} :
    x.map (·.2) = .ok r' ↔ ∃ a, x = .ok (a, r') := by
  cases x with
  | error e => simp [Except.map]
  | ok p =>
    obtain ⟨a, q⟩ := p
    simp only [Except.map, Except.ok.injEq, Prod.mk.injEq]
    constructor
    · rintro rfl
      exact ⟨a, rfl, rfl⟩
    · rintro ⟨-, -, rfl⟩
      rfl

theorem fixed_iff :
    (∃ p, Wire.takeBytes n bs = some (p, rest)) ↔
      ∃ v, (Wire.takeBytes n bs).map (fun x => (Wire.Value.fixed x.1, x.2)) = some (v, rest) := by
  simp only [Option.map_eq_some_iff, Prod.exists, Prod.mk.injEq]
  constructor
  · rintro ⟨p, hp⟩
    exact ⟨.fixed p, p, _, hp, rfl, rfl⟩
  · rintro ⟨v, p, left, hp, -, rfl⟩
    exact ⟨p, hp⟩

theorem pass_ok :
    r.pass wire pos = .ok r' ↔
      (∃ v, Wire.value arith wire r.rest = some (v, r'.rest)) ∧ r'.stop = r.stop := by
  unfold pass
  split
  · rw [map_snd_ok]
    simp only [varint_ok, Wire.value_zero]
    constructor
    · rintro ⟨n, hn, hstop⟩
      exact ⟨⟨_, n, rfl, hn⟩, hstop⟩
    · rintro ⟨⟨v, n, -, hn⟩, hstop⟩
      exact ⟨n, hn, hstop⟩
  · rw [advance_ok, fixed_iff]
    rfl
  · rw [map_snd_ok]
    constructor
    · rintro ⟨v, hv⟩
      obtain ⟨hv, hstop, -⟩ := bytes_ok.mp hv
      exact ⟨⟨_, hv⟩, hstop⟩
    · rintro ⟨⟨v, hv⟩, hstop⟩
      obtain ⟨payload, rfl, hn⟩ := Wire.value_two.mp hv
      have hlt := Wire.varint_lt hn
      rw [List.length_append] at hlt
      refine ⟨⟨r'.pos - payload.length, payload⟩, bytes_ok.mpr ⟨hv, hstop, ?_⟩⟩
      simp only [stop] at hstop ⊢
      omega
  · rw [advance_ok, fixed_iff]
    rfl
  · rename_i h0 h1 h2 h5
    constructor
    · intro h
      cases h
    · rintro ⟨⟨v, hv⟩, -⟩
      unfold Wire.value at hv
      split at hv
      · exact absurd rfl h0
      · exact absurd rfl h1
      · exact absurd rfl h2
      · exact absurd rfl h5
      · cases hv

theorem key_nextField {k : Key} {v : Wire.Value} (hk : r.key = .ok (k, r'))
    (hv : Wire.value arith k.wire r'.rest = some (v, rest)) :
    Wire.nextField arith r.rest = some (⟨k.field, v⟩, rest) := by
  obtain ⟨n, hn, -, h0, rfl⟩ := key_ok.mp hk
  unfold Wire.nextField
  rw [hn, Option.bind_some]
  dsimp only
  rw [if_neg h0]
  dsimp only at hv
  rw [hv]
  rfl

theorem exists_key {f : Wire.Field} (h : Wire.nextField arith r.rest = some (f, rest)) :
    ∃ k r', r.key = .ok (k, r') ∧ r'.stop = r.stop ∧ k.field = f.num ∧
      Wire.value arith k.wire r'.rest = some (f.value, rest) := by
  obtain ⟨⟨n, mid⟩, hn, hf⟩ := Option.bind_eq_some_iff.mp h
  dsimp only at hf
  split at hf
  · cases hf
  · rename_i h0
    obtain ⟨⟨v, left⟩, hv, hf⟩ := Option.map_eq_some_iff.mp hf
    simp only [Prod.mk.injEq] at hf
    obtain ⟨rfl, rfl⟩ := hf
    have hlt := Wire.varint_lt hn
    have hstop : (⟨r.stop - mid.length, mid⟩ : Reader).stop = r.stop := by
      simp only [stop]
      omega
    exact ⟨⟨n / 8, n % 8, r.pos⟩, _, key_ok.mpr ⟨n, hn, hstop, h0, rfl⟩, hstop, rfl, hv⟩

end Reader

/-! ## Turns that take a field -/

/-- A turn that takes one field and does with it what `check` says. -/
def TakesField {σ : Type} (turn : σ → Reader → GeoRead (σ × Reader))
    (check : σ → Wire.Field → Option σ) : Prop :=
  ∀ s r s' r', turn s r = .ok (s', r') ↔
    ∃ f, Wire.nextField arith r.rest = some (f, r'.rest) ∧ r'.stop = r.stop ∧ check s f = some s'

section Turns

variable {σ : Type} {turn : σ → Reader → GeoRead (σ × Reader)} {check : σ → Wire.Field → Option σ}

theorem eachFrom_iff (h : TakesField turn check) (n : Nat) (s s' : σ) (r : Reader) :
    Reader.eachFrom turn n s r = .ok s' ↔
      ∃ fs, Wire.fieldsFrom arith n r.rest = some fs ∧ fs.foldlM check s = some s' := by
  induction n generalizing s r with
  | zero =>
    obtain ⟨pos, rest⟩ := r
    cases rest with
    | nil => simp [Reader.eachFrom, Wire.fieldsFrom]
    | cons b rest => simp [Reader.eachFrom, Wire.fieldsFrom]
  | succ n ih =>
    obtain ⟨pos, rest⟩ := r
    cases rest with
    | nil => simp [Reader.eachFrom, Wire.fieldsFrom]
    | cons b rest =>
      rw [Reader.eachFrom, bind_eq_ok, Wire.fieldsFrom]
      · constructor
        · rintro ⟨⟨s₁, r₁⟩, hturn, hrest⟩
          obtain ⟨f, hf, -, hcheck⟩ := (h _ _ _ _).mp hturn
          obtain ⟨fs, hfs, hfold⟩ := (ih _ _).mp hrest
          refine ⟨f :: fs, ?_, ?_⟩
          · rw [hf, Option.bind_some]
            dsimp only
            rw [hfs]
            rfl
          · rw [List.foldlM_cons, hcheck]
            exact hfold
        · rintro ⟨fs, hfs, hfold⟩
          obtain ⟨⟨f, left⟩, hf, hfs⟩ := Option.bind_eq_some_iff.mp hfs
          obtain ⟨fs', hfs', rfl⟩ := Option.map_eq_some_iff.mp hfs
          rw [List.foldlM_cons] at hfold
          obtain ⟨s₁, hcheck, hfold⟩ := Option.bind_eq_some_iff.mp hfold
          have hlt := Wire.nextField_lt hf
          have hstop : (⟨(⟨pos, b :: rest⟩ : Reader).stop - left.length, left⟩ : Reader).stop =
              (⟨pos, b :: rest⟩ : Reader).stop := by
            simp only [Reader.stop] at hlt ⊢
            omega
          exact ⟨(s₁, _), (h _ _ _ _).mpr ⟨f, hf, hstop, hcheck⟩, (ih _ _).mpr ⟨fs', hfs', hfold⟩⟩
      · intro _ hnil
        cases hnil

/-- A loop that takes one field a turn is a fold over the fields. -/
theorem Reader.each_iff (h : TakesField turn check) {s s' : σ} {r : Reader} :
    r.each turn s = .ok s' ↔
      ∃ fs, Wire.fields arith r.rest = some fs ∧ fs.foldlM check s = some s' :=
  eachFrom_iff h _ _ _ _

/-- The invariant rule of a loop: what holds of the state and the fields to come is kept by a turn,
so the loop ends with it. -/
theorem eachFrom_of_invariant (inv : σ → List Wire.Field → Prop)
    (h : ∀ s r f fs rest, inv s (f :: fs) → Wire.nextField arith r.rest = some (f, rest) →
      ∃ s' r', turn s r = .ok (s', r') ∧ r'.rest = rest ∧ inv s' fs)
    {s : σ} {r : Reader} {fs : List Wire.Field} (hs : inv s fs)
    (hfs : Wire.fieldsFrom arith n r.rest = some fs) :
    ∃ s', Reader.eachFrom turn n s r = .ok s' ∧ inv s' [] := by
  induction n generalizing s r fs with
  | zero =>
    obtain ⟨pos, rest⟩ := r
    cases rest with
    | nil =>
      cases hfs
      exact ⟨s, rfl, hs⟩
    | cons b rest => cases hfs
  | succ n ih =>
    obtain ⟨pos, rest⟩ := r
    cases rest with
    | nil =>
      cases hfs
      exact ⟨s, rfl, hs⟩
    | cons b rest =>
      obtain ⟨⟨f, left⟩, hf, hfs⟩ := Option.bind_eq_some_iff.mp hfs
      obtain ⟨fs', hleft, rfl⟩ := Option.map_eq_some_iff.mp hfs
      obtain ⟨s₁, r₁, hturn, rfl, hs₁⟩ := h s ⟨pos, b :: rest⟩ f fs' left hs hf
      obtain ⟨s', hs', hinv⟩ := ih hs₁ hleft
      refine ⟨s', ?_, hinv⟩
      rw [Reader.eachFrom]
      · exact bind_eq_ok.mpr ⟨_, hturn, hs'⟩
      · intro _ hnil
        cases hnil

/-- A turn reads a key, and what it does with the value is what `check` says of the field. -/
theorem takesField_of_key {act : σ → Key × Reader → GeoRead (σ × Reader)}
    (hturn : ∀ s r, turn s r = r.key >>= act s) (h : ∀ s k r s' r', act s (k, r) = .ok (s', r') ↔
      ∃ v, Wire.value arith k.wire r.rest = some (v, r'.rest) ∧ r'.stop = r.stop ∧
        check s ⟨k.field, v⟩ = some s') : TakesField turn check := by
  intro s r s' r'
  rw [hturn, bind_eq_ok]
  constructor
  · rintro ⟨⟨k, r₁⟩, hk, hact⟩
    obtain ⟨v, hv, hstop, hcheck⟩ := (h s k r₁ s' r').mp hact
    obtain ⟨n, -, hstop₁, -⟩ := Reader.key_ok.mp hk
    exact ⟨_, Reader.key_nextField hk hv, hstop.trans hstop₁, hcheck⟩
  · rintro ⟨f, hf, hstop, hcheck⟩
    obtain ⟨k, r₁, hk, hstop₁, hnum, hv⟩ := Reader.exists_key hf
    refine ⟨(k, r₁), hk, (h s k r₁ s' r').mpr ⟨f.value, hv, hstop.trans hstop₁.symm, ?_⟩⟩
    rw [hnum]
    exact hcheck

end Turns

/-! ## What a turn does with a value -/

section Branches

variable {α β : Type} {r r' : Reader} {k : Key} {what : String} {b : β}

def bytesOf : Wire.Value → Option (List UInt8)
  | .bytes payload => some payload
  | _ => none

def wireNumber : Wire.Value → Option Nat
  | .varint n => some n
  | _ => none

theorem expectWire_ok {want : Nat} {f : Unit → GeoRead α} {a : α} :
    (expectWire what k want >>= f) = .ok a ↔ k.wire = want ∧ f () = .ok a := by
  unfold expectWire
  rw [bind_eq_ok]
  constructor
  · rintro ⟨⟨⟩, hw, ha⟩
    exact ⟨of_decide_eq_true (require_eq_ok.mp hw), ha⟩
  · rintro ⟨hw, ha⟩
    exact ⟨(), require_eq_ok.mpr (decide_eq_true hw), ha⟩

/-- A value is a run of bytes only under the length-delimited wire type. -/
theorem wire_of_bytes (h : Wire.value arith wire bs = some (.bytes payload, rest)) : wire = 2 := by
  unfold Wire.value at h
  split at h
  · obtain ⟨x, -, hx⟩ := Option.map_eq_some_iff.mp h
    cases hx
  · obtain ⟨x, -, hx⟩ := Option.map_eq_some_iff.mp h
    cases hx
  · rfl
  · obtain ⟨x, -, hx⟩ := Option.map_eq_some_iff.mp h
    cases hx
  · cases h

/-- A value is a number only under the wire type of numbers. -/
theorem wire_of_varint (h : Wire.value arith wire bs = some (.varint n, rest)) : wire = 0 := by
  unfold Wire.value at h
  split at h
  · rfl
  · obtain ⟨x, -, hx⟩ := Option.map_eq_some_iff.mp h
    cases hx
  · obtain ⟨x, -, hx⟩ := Option.bind_eq_some_iff.mp h
    obtain ⟨y, -, hy⟩ := Option.map_eq_some_iff.mp hx
    cases hy
  · obtain ⟨x, -, hx⟩ := Option.map_eq_some_iff.mp h
    cases hx
  · cases h

/-- A run of bytes that was read lies right before where reading goes on. -/
theorem exists_span (h : Wire.value arith wire r.rest = some (.bytes payload, r'.rest))
    (hstop : r'.stop = r.stop) : ∃ v : Reader, v.rest = payload ∧ v.stop = r'.pos := by
  have hw := wire_of_bytes h
  rw [hw] at h
  obtain ⟨p, hp, hn⟩ := Wire.value_two.mp h
  cases hp
  have hlt := Wire.varint_lt hn
  rw [List.length_append] at hlt
  refine ⟨⟨r'.pos - payload.length, payload⟩, rfl, ?_⟩
  simp only [Reader.stop] at hstop ⊢
  omega

/-- A run of bytes under a checked wire type, and what is done with it. -/
theorem bytes_branch {f : Reader → Reader → GeoRead β} :
    (expectWire what k 2 >>= fun _ => r.bytes >>= fun x => f x.1 x.2) = .ok b ↔
      ∃ payload v r', Wire.value arith k.wire r.rest = some (.bytes payload, r'.rest) ∧
        r'.stop = r.stop ∧ v.rest = payload ∧ v.stop = r'.pos ∧ f v r' = .ok b := by
  rw [expectWire_ok, bind_eq_ok]
  constructor
  · rintro ⟨hw, ⟨v, r₁⟩, hb, h⟩
    obtain ⟨hv, hstop, hpos⟩ := Reader.bytes_ok.mp hb
    exact ⟨_, v, r₁, hw ▸ hv, hstop, rfl, hpos, h⟩
  · rintro ⟨payload, v, r₁, hv, hstop, rfl, hpos, h⟩
    have hw := wire_of_bytes hv
    rw [hw] at hv
    exact ⟨hw, (v, r₁), Reader.bytes_ok.mpr ⟨hv, hstop, hpos⟩, h⟩

theorem text_branch {f : String → Reader → GeoRead β} :
    (expectWire what k 2 >>= fun _ => r.text what >>= fun x => f x.1 x.2) = .ok b ↔
      ∃ v s r', Wire.value arith k.wire r.rest = some (v, r'.rest) ∧ r'.stop = r.stop ∧
        (bytesOf v).bind utf8Decode = some s ∧ f s r' = .ok b := by
  rw [expectWire_ok, bind_eq_ok]
  constructor
  · rintro ⟨hw, ⟨s, r₁⟩, hs, h⟩
    obtain ⟨⟨v, r₂⟩, hb, hs⟩ := bind_eq_ok.mp hs
    obtain ⟨hv, hstop, -⟩ := Reader.bytes_ok.mp hb
    dsimp only at hs
    split at hs
    · rename_i hd
      cases hs
      exact ⟨.bytes v.rest, s, r₁, hw ▸ hv, hstop, hd, h⟩
    · cases hs
  · rintro ⟨v, s, r₁, hv, hstop, hs, h⟩
    obtain ⟨payload, hp, hd⟩ := Option.bind_eq_some_iff.mp hs
    cases v with
    | bytes p =>
      cases hp
      have hw := wire_of_bytes hv
      rw [hw] at hv
      obtain ⟨v', rfl, hpos⟩ := exists_span hv hstop
      have hb := Reader.bytes_ok.mpr ⟨hv, hstop, hpos⟩
      refine ⟨hw, (s, r₁), bind_eq_ok.mpr ⟨(v', r₁), hb, ?_⟩, h⟩
      dsimp only
      rw [hd]
    | varint n => cases hp
    | fixed p => cases hp

theorem varint_branch {f : Nat → Reader → GeoRead β} :
    (expectWire what k 0 >>= fun _ => r.varint >>= fun x => f x.1 x.2) = .ok b ↔
      ∃ v n r', Wire.value arith k.wire r.rest = some (v, r'.rest) ∧ r'.stop = r.stop ∧
        wireNumber v = some n ∧ f n r' = .ok b := by
  rw [expectWire_ok, bind_eq_ok]
  constructor
  · rintro ⟨hw, ⟨n, r₁⟩, hn, h⟩
    obtain ⟨hv, hstop⟩ := Reader.varint_ok.mp hn
    refine ⟨.varint n, n, r₁, ?_, hstop, rfl, h⟩
    rw [hw]
    exact Wire.value_zero.mpr ⟨n, rfl, hv⟩
  · rintro ⟨v, n, r₁, hv, hstop, hn, h⟩
    cases v with
    | varint m =>
      cases hn
      have hw := wire_of_varint hv
      rw [hw] at hv
      obtain ⟨m, hm, hv⟩ := Wire.value_zero.mp hv
      cases hm
      exact ⟨hw, (n, r₁), Reader.varint_ok.mpr ⟨hv, hstop⟩, h⟩
    | bytes p => cases hn
    | fixed p => cases hn

theorem pass_branch {f : Reader → GeoRead β} :
    (r.pass k.wire k.pos >>= f) = .ok b ↔
      ∃ v r', Wire.value arith k.wire r.rest = some (v, r'.rest) ∧ r'.stop = r.stop ∧
        f r' = .ok b := by
  rw [bind_eq_ok]
  constructor
  · rintro ⟨r₁, hr, h⟩
    obtain ⟨⟨v, hv⟩, hstop⟩ := Reader.pass_ok.mp hr
    exact ⟨v, r₁, hv, hstop, h⟩
  · rintro ⟨v, r₁, hv, hstop, h⟩
    exact ⟨r₁, Reader.pass_ok.mpr ⟨⟨v, hv⟩, hstop⟩, h⟩

end Branches

end Iceslab
