import Mathlib.Data.List.Basic
import Mathlib.Data.Nat.Bitwise

/-!
# The bits of bytes

Bytes as they stand in an address or a packed table: the most significant bit first.

* `bitsOf` — the bits of a list of bytes; `bitsOf_injective`, `bitsOf_take`.
* `setBit` — one bit set in place; `bitsOf_setBit`.
* `bytesBE`, `valueBE` — a number in so many bytes, the most significant first, and back.
-/

set_option autoImplicit false

namespace ByteBits

def byteBits (b : UInt8) : List Bool := (List.range 8).map fun i => b.toNat.testBit (7 - i)

def bitsOf (bytes : List UInt8) : List Bool := bytes.flatMap byteBits

@[simp] theorem length_byteBits (b : UInt8) : (byteBits b).length = 8 := by simp [byteBits]

@[simp] theorem bitsOf_nil : bitsOf [] = [] := rfl

@[simp] theorem bitsOf_cons (b : UInt8) (bytes : List UInt8) :
    bitsOf (b :: bytes) = byteBits b ++ bitsOf bytes := rfl

@[simp] theorem bitsOf_append (bytes bytes' : List UInt8) :
    bitsOf (bytes ++ bytes') = bitsOf bytes ++ bitsOf bytes' := List.flatMap_append

@[simp] theorem length_bitsOf (bytes : List UInt8) : (bitsOf bytes).length = 8 * bytes.length := by
  induction bytes with
  | nil => rfl
  | cons b bytes ih =>
    rw [bitsOf_cons, List.length_append, ih, length_byteBits, List.length_cons]
    omega

theorem byteBits_injective : Function.Injective byteBits := by
  intro b b' h
  refine UInt8.toNat_inj.mp (Nat.eq_of_testBit_eq fun i => ?_)
  by_cases hi : i < 8
  · have hget := congrArg (fun l => l[7 - i]?) h
    have hsub : 7 - (7 - i) = i := by omega
    simpa [byteBits, hsub, show 7 - i < 8 by omega] using hget
  · have hbig : 2 ^ 8 ≤ 2 ^ i := Nat.pow_le_pow_right (by decide) (by omega)
    rw [Nat.testBit_lt_two_pow (lt_of_lt_of_le b.toNat_lt hbig),
      Nat.testBit_lt_two_pow (lt_of_lt_of_le b'.toNat_lt hbig)]

theorem bitsOf_injective : Function.Injective bitsOf := by
  intro bytes bytes' h
  induction bytes generalizing bytes' with
  | nil =>
    cases bytes' with
    | nil => rfl
    | cons b' bytes' =>
      have hlen := congrArg List.length h
      simp at hlen
      omega
  | cons b bytes ih =>
    cases bytes' with
    | nil => simpa using congrArg List.length h
    | cons b' bytes' =>
      obtain ⟨hb, hrest⟩ := List.append_inj h (by simp)
      rw [byteBits_injective hb, ih hrest]

theorem bitsOf_take (bytes : List UInt8) (k : Nat) :
    (bitsOf bytes).take (8 * k) = bitsOf (bytes.take k) := by
  induction k generalizing bytes with
  | zero => simp
  | succ k ih =>
    cases bytes with
    | nil => simp
    | cons b bytes =>
      rw [bitsOf_cons, List.take_succ_cons, bitsOf_cons, ← ih, List.take_append, length_byteBits]
      rw [List.take_of_length_le (by rw [length_byteBits]; omega)]
      congr 2

theorem byteBits_zero : byteBits 0 = List.replicate 8 false := by decide

theorem bitsOf_replicate_zero (k : Nat) :
    bitsOf (List.replicate k 0) = List.replicate (8 * k) false := by
  induction k with
  | zero => rfl
  | succ k ih =>
    rw [List.replicate_succ, bitsOf_cons, ih, byteBits_zero, List.replicate_append_replicate]
    congr 1
    omega

/-! ## Setting a bit -/

/-- `bytes[i >> 3] |= 0x80 >> (i & 7)` -/
def setBit (bytes : List UInt8) (i : Nat) : List UInt8 :=
  bytes.modify (i / 8) fun b => b ||| (0x80 : UInt8) >>> UInt8.ofNat (i % 8)

theorem byteBits_or {k : Nat} (h : k < 8) (b : UInt8) :
    byteBits (b ||| (0x80 : UInt8) >>> UInt8.ofNat k) = (byteBits b).set k true := by
  have hk : (UInt8.ofNat k).toNat % 8 = k := by
    rw [UInt8.toNat_ofNat']
    omega
  refine List.ext_getElem (by simp) fun i hi _ => ?_
  have hi8 : i < 8 := by simpa using hi
  have hbit : ((0x80 : UInt8).toNat >>> k).testBit (7 - i) = decide (k = i) := by
    rw [Nat.testBit_shiftRight, show (0x80 : UInt8).toNat = 2 ^ 7 from rfl, Nat.testBit_two_pow]
    exact decide_eq_decide.mpr (by omega)
  simp only [byteBits, List.getElem_map, List.getElem_range, List.getElem_set, UInt8.toNat_or,
    UInt8.toNat_shiftRight, Nat.testBit_or, hk, hbit]
  by_cases hki : k = i <;> simp [hki]

theorem bitsOf_setBit {bytes : List UInt8} {i : Nat} (h : i < 8 * bytes.length) :
    bitsOf (setBit bytes i) = (bitsOf bytes).set i true := by
  induction bytes generalizing i with
  | nil => simp at h
  | cons b bytes ih =>
    rw [setBit]
    by_cases hi : i < 8
    · rw [Nat.div_eq_of_lt hi, List.modify_zero_cons, bitsOf_cons, bitsOf_cons, Nat.mod_eq_of_lt hi,
        byteBits_or hi, List.set_append, if_pos (by simpa using hi)]
    · obtain ⟨j, rfl⟩ : ∃ j, i = j + 8 := ⟨i - 8, by omega⟩
      have hdiv : (j + 8) / 8 = j / 8 + 1 := by omega
      have hmod : (j + 8) % 8 = j % 8 := by omega
      have hj := ih (i := j) (by rw [List.length_cons] at h; omega)
      rw [setBit] at hj
      rw [hdiv, hmod, List.modify_succ_cons, bitsOf_cons, hj, bitsOf_cons, List.set_append,
        if_neg (by simp)]
      simp

@[simp] theorem length_setBit (bytes : List UInt8) (i : Nat) :
    (setBit bytes i).length = bytes.length := by simp [setBit]

/-! ## Numbers -/

/-- A number in so many bytes. -/
def bytesBE : Nat → Nat → List UInt8
  | 0, _ => []
  | k + 1, v => bytesBE k (v / 256) ++ [UInt8.ofNat (v % 256)]

def valueBE (bytes : List UInt8) : Nat := bytes.foldl (fun v b => v * 256 + b.toNat) 0

@[simp] theorem length_bytesBE (k v : Nat) : (bytesBE k v).length = k := by
  induction k generalizing v with
  | zero => rfl
  | succ k ih => simp [bytesBE, ih]

theorem valueBE_bytesBE {k v : Nat} (h : v < 256 ^ k) : valueBE (bytesBE k v) = v := by
  induction k generalizing v with
  | zero =>
    obtain rfl : v = 0 := by simpa using h
    rfl
  | succ k ih =>
    have hdiv : v / 256 < 256 ^ k := Nat.div_lt_of_lt_mul (by rw [mul_comm, ← pow_succ]; exact h)
    have hrec := ih hdiv
    rw [valueBE] at hrec ⊢
    rw [bytesBE, List.foldl_append, hrec, List.foldl_cons, List.foldl_nil, UInt8.toNat_ofNat']
    omega

end ByteBits
