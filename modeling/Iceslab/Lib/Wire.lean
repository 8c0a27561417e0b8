import Mathlib.Data.List.Basic
import Mathlib.Tactic.Ring

/-!
# The wire format of messages

The base-128 wire format of protocol buffers over byte lists.  A message is a list of numbered
fields; a field is a number, a run of bytes of a stated length, or four or eight bytes.  A reader
adds numbers up in its own arithmetic, which is exact below a limit.

* `fields` — a message as the list of its fields.
* `varint_encodeVarint`, `nextField_bytesField`, `nextField_varintField` — what is written is what
  is read, below the limit.
* `fields_append` — fields written one after the other are read one after the other.
-/

set_option autoImplicit false

namespace Wire

/-- How a reader adds numbers up. -/
structure Arith where
  add : Nat → Nat → Nat
  limit : Nat
  exact : ∀ a b, a + b < limit → add a b = a + b

inductive Value where
  | varint (n : Nat)
  | bytes (payload : List UInt8)
  | fixed (payload : List UInt8)
  deriving DecidableEq

structure Field where
  num : Nat
  value : Value
  deriving DecidableEq

/-! ## Reading -/

section Read

variable (A : Arith)

def varintFrom : Nat → Nat → Nat → List UInt8 → Option (Nat × List UInt8)
  | 0, _, _, _ => none
  | _ + 1, _, _, [] => none
  | i + 1, result, shift, b :: rest =>
    let result := A.add result (b.toNat % 128 * 2 ^ shift)
    if b.toNat < 128 then some (result, rest) else varintFrom i result (shift + 7) rest

/-- A number of at most ten bytes, seven bits each, the lowest first. -/
def varint (bs : List UInt8) : Option (Nat × List UInt8) := varintFrom A 10 0 0 bs

def takeBytes (n : Nat) (bs : List UInt8) : Option (List UInt8 × List UInt8) :=
  if n ≤ bs.length then some (bs.take n, bs.drop n) else none

/-- A value of a wire type, and what is left. -/
def value (wire : Nat) (bs : List UInt8) : Option (Value × List UInt8) :=
  match wire with
  | 0 => (varint A bs).map fun r => (.varint r.1, r.2)
  | 1 => (takeBytes 8 bs).map fun r => (.fixed r.1, r.2)
  | 2 => (varint A bs).bind fun r => (takeBytes r.1 r.2).map fun r => (.bytes r.1, r.2)
  | 5 => (takeBytes 4 bs).map fun r => (.fixed r.1, r.2)
  | _ => none

/-- The first field of a message, and what is left. -/
def nextField (bs : List UInt8) : Option (Field × List UInt8) :=
  (varint A bs).bind fun k =>
    if k.1 / 8 = 0 then none else (value A (k.1 % 8) k.2).map fun v => (⟨k.1 / 8, v.1⟩, v.2)

def fieldsFrom : Nat → List UInt8 → Option (List Field)
  | _, [] => some []
  | 0, _ :: _ => none
  | n + 1, b :: bs =>
    (nextField A (b :: bs)).bind fun f => (fieldsFrom n f.2).map (f.1 :: ·)

/-- A message as the list of its fields. -/
def fields (bs : List UInt8) : Option (List Field) := fieldsFrom A bs.length bs

end Read

/-! ## What reading takes -/

variable {fuel i n num result shift : Nat}

section Taken

variable {A : Arith} {bs rest : List UInt8} {v : Value}

theorem varintFrom_lt
    (h : varintFrom A i result shift bs = some (n, rest)) : rest.length < bs.length := by
  induction i generalizing result shift bs with
  | zero => cases h
  | succ i ih =>
    cases bs with
    | nil => cases h
    | cons b bs =>
      unfold varintFrom at h
      dsimp only at h
      split at h
      · cases h
        exact Nat.lt_succ_self _
      · exact Nat.lt_succ_of_lt (ih h)

theorem varint_lt (h : varint A bs = some (n, rest)) : rest.length < bs.length :=
  varintFrom_lt h

theorem varintFrom_suffix (h : varintFrom A i result shift bs = some (n, rest)) : rest <:+ bs := by
  induction i generalizing result shift bs with
  | zero => cases h
  | succ i ih =>
    cases bs with
    | nil => cases h
    | cons b bs =>
      unfold varintFrom at h
      dsimp only at h
      split at h
      · cases h
        exact List.suffix_cons b _
      · exact (ih h).trans (List.suffix_cons b bs)

theorem varint_suffix (h : varint A bs = some (n, rest)) : rest <:+ bs :=
  varintFrom_suffix h

theorem takeBytes_eq_some {payload : List UInt8} :
    takeBytes n bs = some (payload, rest) ↔ bs = payload ++ rest ∧ payload.length = n := by
  unfold takeBytes
  constructor
  · intro h
    split at h
    · rename_i hn
      cases h
      exact ⟨(List.take_append_drop n bs).symm, List.length_take_of_le hn⟩
    · cases h
  · rintro ⟨rfl, rfl⟩
    simp

theorem value_zero :
    value A 0 bs = some (v, rest) ↔ ∃ n, v = .varint n ∧ varint A bs = some (n, rest) := by
  rw [value, Option.map_eq_some_iff]
  constructor
  · rintro ⟨⟨n, left⟩, hn, hv⟩
    simp only [Prod.mk.injEq] at hv
    obtain ⟨rfl, rfl⟩ := hv
    exact ⟨n, rfl, hn⟩
  · rintro ⟨n, rfl, hn⟩
    exact ⟨(n, rest), hn, rfl⟩

theorem value_two :
    value A 2 bs = some (v, rest) ↔
      ∃ payload, v = .bytes payload ∧ varint A bs = some (payload.length, payload ++ rest) := by
  rw [value, Option.bind_eq_some_iff]
  constructor
  · rintro ⟨⟨n, mid⟩, hn, hv⟩
    obtain ⟨⟨payload, left⟩, hp, hv⟩ := Option.map_eq_some_iff.mp hv
    simp only [Prod.mk.injEq] at hv
    obtain ⟨rfl, rfl⟩ := hv
    obtain ⟨hmid, hlen⟩ := takeBytes_eq_some.mp hp
    exact ⟨payload, rfl, by rw [hlen, ← hmid]; exact hn⟩
  · rintro ⟨payload, rfl, hn⟩
    refine ⟨_, hn, ?_⟩
    rw [takeBytes_eq_some.mpr ⟨rfl, rfl⟩]
    rfl

theorem value_le {wire : Nat} (h : value A wire bs = some (v, rest)) : rest.length ≤ bs.length := by
  unfold value at h
  split at h
  · obtain ⟨⟨n, rest'⟩, hn, hr⟩ := Option.map_eq_some_iff.mp h
    cases hr
    exact (varint_lt hn).le
  · obtain ⟨⟨p, rest'⟩, hp, hr⟩ := Option.map_eq_some_iff.mp h
    cases hr
    obtain ⟨rfl, -⟩ := takeBytes_eq_some.mp hp
    simp
  · obtain ⟨⟨n, rest'⟩, hn, hv⟩ := Option.bind_eq_some_iff.mp h
    obtain ⟨⟨p, rest''⟩, hp, hr⟩ := Option.map_eq_some_iff.mp hv
    cases hr
    obtain ⟨rfl, -⟩ := takeBytes_eq_some.mp hp
    have := varint_lt hn
    rw [List.length_append] at this
    dsimp only
    omega
  · obtain ⟨⟨p, rest'⟩, hp, hr⟩ := Option.map_eq_some_iff.mp h
    cases hr
    obtain ⟨rfl, -⟩ := takeBytes_eq_some.mp hp
    simp
  · cases h

theorem nextField_lt {f : Field} (h : nextField A bs = some (f, rest)) :
    rest.length < bs.length := by
  obtain ⟨⟨k, rest'⟩, hk, hf⟩ := Option.bind_eq_some_iff.mp h
  dsimp only at hf
  split at hf
  · cases hf
  · obtain ⟨⟨v, rest''⟩, hv, hr⟩ := Option.map_eq_some_iff.mp hf
    cases hr
    exact (value_le hv).trans_lt (varint_lt hk)

theorem fieldsFrom_eq_fields (h : bs.length ≤ n) : fieldsFrom A n bs = fields A bs := by
  unfold fields
  suffices hgen : ∀ m n (bs : List UInt8), bs.length ≤ n → bs.length ≤ m →
      fieldsFrom A n bs = fieldsFrom A m bs from hgen _ _ _ h le_rfl
  clear h
  intro m
  induction m with
  | zero =>
    intro n bs _ hm
    obtain rfl := List.length_eq_zero_iff.mp (Nat.le_zero.mp hm)
    cases n <;> rfl
  | succ m ih =>
    intro n bs hn hm
    cases bs with
    | nil => cases n <;> rfl
    | cons b bs =>
      cases n with
      | zero => simp at hn
      | succ n =>
        unfold fieldsFrom
        cases hf : nextField A (b :: bs) with
        | none => rfl
        | some f =>
          have hlt := nextField_lt (show nextField A (b :: bs) = some (f.1, f.2) from hf)
          rw [List.length_cons] at hn hm hlt
          rw [Option.bind_some, Option.bind_some, ih n f.2 (by omega) (by omega)]

@[simp] theorem fields_nil : fields A [] = some [] := rfl

theorem fields_of_nextField {f : Field} (h : nextField A bs = some (f, rest)) :
    fields A bs = (fields A rest).map (f :: ·) := by
  have hlt := nextField_lt h
  cases bs with
  | nil => simp at hlt
  | cons b bs =>
    rw [List.length_cons] at hlt
    rw [fields, List.length_cons, fieldsFrom, h, Option.bind_some]
    dsimp only
    rw [fieldsFrom_eq_fields (by omega)]

end Taken

/-! ## Writing -/

def encodeVarintFrom : Nat → Nat → List UInt8
  | 0, n => [UInt8.ofNat n]
  | i + 1, n =>
    if n < 128 then [UInt8.ofNat n]
    else UInt8.ofNat (n % 128 + 128) :: encodeVarintFrom i (n / 128)

def encodeVarint (n : Nat) : List UInt8 := encodeVarintFrom n n

/-- A run of bytes as a field. -/
def bytesField (num : Nat) (payload : List UInt8) : List UInt8 :=
  encodeVarint (num * 8 + 2) ++ encodeVarint payload.length ++ payload

/-- A number as a field. -/
def varintField (num n : Nat) : List UInt8 := encodeVarint (num * 8) ++ encodeVarint n

section Written

variable {A : Arith} {rest : List UInt8}

theorem encodeVarintFrom_small (h : n < 128) (hf : n ≤ fuel) :
    encodeVarintFrom fuel n = [UInt8.ofNat n] := by
  cases fuel with
  | zero => rfl
  | succ fuel => rw [encodeVarintFrom, if_pos h]

theorem toNat_ofNat (h : n < 256) : (UInt8.ofNat n).toNat = n := by
  rw [UInt8.toNat_ofNat', Nat.mod_eq_of_lt h]

/-- Seven bits off a number and the rest of it, shifted. -/
theorem sum_digits (n result shift : Nat) :
    result + n % 128 * 2 ^ shift + n / 128 * 2 ^ (shift + 7) = result + n * 2 ^ shift := by
  have h : n % 128 + n / 128 * 128 = n := by omega
  calc result + n % 128 * 2 ^ shift + n / 128 * 2 ^ (shift + 7)
      = result + (n % 128 + n / 128 * 128) * 2 ^ shift := by
        rw [Nat.pow_add]
        ring
    _ = result + n * 2 ^ shift := by rw [h]

theorem varintFrom_encode (hf : n ≤ fuel) (hn : n < 128 ^ (i + 1))
    (hl : result + n * 2 ^ shift < A.limit) :
    varintFrom A (i + 1) result shift (encodeVarintFrom fuel n ++ rest) =
      some (result + n * 2 ^ shift, rest) := by
  induction i generalizing fuel n result shift with
  | zero =>
    have h128 : n < 128 := by simpa using hn
    rw [encodeVarintFrom_small h128 hf, List.singleton_append, varintFrom,
      toNat_ofNat (by omega), Nat.mod_eq_of_lt h128, A.exact _ _ hl, if_pos h128]
  | succ i ih =>
    by_cases h128 : n < 128
    · rw [encodeVarintFrom_small h128 hf, List.singleton_append, varintFrom,
        toNat_ofNat (by omega), Nat.mod_eq_of_lt h128, A.exact _ _ hl, if_pos h128]
    · obtain ⟨fuel, rfl⟩ : ∃ k, fuel = k + 1 := ⟨fuel - 1, by omega⟩
      have hsum := sum_digits n result shift
      have hlow : (n % 128 + 128) % 128 = n % 128 := by omega
      have hexact : A.add result (n % 128 * 2 ^ shift) = result + n % 128 * 2 ^ shift :=
        A.exact _ _ (by omega)
      rw [encodeVarintFrom, if_neg h128, List.cons_append, varintFrom, toNat_ofNat (by omega)]
      rw [hlow, hexact, if_neg (by omega), ih (by omega) ?_ (by omega), hsum]
      rw [Nat.div_lt_iff_lt_mul (by decide)]
      exact hn

theorem varint_encodeVarint (hl : n < A.limit) (hn : n < 128 ^ 10) :
    varint A (encodeVarint n ++ rest) = some (n, rest) := by
  unfold varint encodeVarint
  have h : varintFrom A (9 + 1) 0 0 (encodeVarintFrom n n ++ rest) = some (0 + n * 2 ^ 0, rest) :=
    varintFrom_encode le_rfl hn (by simpa using hl)
  simpa using h

theorem nextField_bytesField {payload : List UInt8} (hnum : 0 < num)
    (hl : num * 8 + 2 < A.limit) (hn : num * 8 + 2 < 128 ^ 10) (hp : payload.length < A.limit)
    (hp10 : payload.length < 128 ^ 10) :
    nextField A (bytesField num payload ++ rest) = some (⟨num, .bytes payload⟩, rest) := by
  have hdiv : (num * 8 + 2) / 8 = num := by omega
  have hmod : (num * 8 + 2) % 8 = 2 := by omega
  unfold bytesField nextField
  rw [List.append_assoc, List.append_assoc, varint_encodeVarint hl hn, Option.bind_some]
  rw [hdiv, hmod, if_neg (by omega)]
  rw [value_two.mpr ⟨payload, rfl, varint_encodeVarint hp hp10⟩]
  rfl

theorem nextField_varintField (hnum : 0 < num) (hl : num * 8 < A.limit)
    (h10 : num * 8 < 128 ^ 10) (hn : n < A.limit) (hn10 : n < 128 ^ 10) :
    nextField A (varintField num n ++ rest) = some (⟨num, .varint n⟩, rest) := by
  have hdiv : num * 8 / 8 = num := by omega
  have hmod : num * 8 % 8 = 0 := by omega
  unfold varintField nextField
  rw [List.append_assoc, varint_encodeVarint hl h10, Option.bind_some]
  rw [hdiv, hmod, if_neg (by omega)]
  rw [value_zero.mpr ⟨n, rfl, varint_encodeVarint hn hn10⟩]
  rfl

theorem fields_flatten {parts : List (List UInt8 × Field)}
    (h : ∀ p ∈ parts, ∀ rest, nextField A (p.1 ++ rest) = some (p.2, rest)) :
    fields A (parts.map (·.1)).flatten = some (parts.map (·.2)) := by
  induction parts with
  | nil => rfl
  | cons p rest ih =>
    have hnext := h p List.mem_cons_self (rest.map (·.1)).flatten
    rw [List.map_cons, List.flatten_cons, fields_of_nextField hnext,
      ih fun q hq => h q (List.mem_cons_of_mem _ hq)]
    rfl

theorem encodeVarint_length_pos (n : Nat) : 0 < (encodeVarint n).length := by
  unfold encodeVarint
  cases n with
  | zero => exact Nat.one_pos
  | succ n =>
    unfold encodeVarintFrom
    split
    · exact Nat.one_pos
    · exact Nat.succ_pos _

theorem length_lt_bytesField (num : Nat) (payload : List UInt8) :
    payload.length < (bytesField num payload).length := by
  unfold bytesField
  rw [List.length_append, List.length_append]
  have := encodeVarint_length_pos payload.length
  omega

end Written

end Wire
