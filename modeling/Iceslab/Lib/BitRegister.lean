import Mathlib.Data.List.Basic
import Mathlib.Data.Nat.Bitwise
import Mathlib.Tactic.Ring

/-!
# Bits through a register

A codec that regroups bits pushes digits into a machine word and reads groups off the top.  The word
is never cleared: old bits stay above the ones still to be read, and the highest fall off.

* `ofBits`, `toBits` — a list of bits as a number and back, the most significant first.
* `HoldsBits` — the lowest bits of the word are the ones still to be read; `push`, `read`, `pad`.
* `groups` — a list of bits in groups, the last one as long as it is.
-/

set_option autoImplicit false

namespace BitRegister

/-! ## Numbers and their bits -/

/-- The number whose bits these are. -/
def ofBits (bits : List Bool) : Nat := bits.foldl (fun n b => 2 * n + b.toNat) 0

/-- The lowest `w` bits of a number. -/
def toBits : Nat → Nat → List Bool
  | 0, _ => []
  | w + 1, n => n.testBit w :: toBits w n

@[simp] theorem length_toBits (w n : Nat) : (toBits w n).length = w := by
  induction w with
  | zero => rfl
  | succ w ih => rw [toBits, List.length_cons, ih]

@[simp] theorem ofBits_nil : ofBits [] = 0 := rfl

theorem foldl_ofBits (n : Nat) (bits : List Bool) :
    bits.foldl (fun n b => 2 * n + b.toNat) n = n * 2 ^ bits.length + ofBits bits := by
  induction bits generalizing n with
  | nil => simp
  | cons b bits ih =>
    rw [ofBits, List.foldl_cons, List.foldl_cons, ih, ih, List.length_cons, pow_succ]
    ring

theorem ofBits_append (bits more : List Bool) :
    ofBits (bits ++ more) = ofBits bits * 2 ^ more.length + ofBits more := by
  rw [ofBits, List.foldl_append, foldl_ofBits]
  rfl

theorem ofBits_cons (b : Bool) (bits : List Bool) :
    ofBits (b :: bits) = b.toNat * 2 ^ bits.length + ofBits bits := by
  have h := ofBits_append [b] bits
  simpa [ofBits] using h

theorem ofBits_lt (bits : List Bool) : ofBits bits < 2 ^ bits.length := by
  induction bits with
  | nil => simp
  | cons b bits ih =>
    rw [ofBits_cons, List.length_cons, pow_succ]
    cases b <;> simp <;> omega

theorem ofBits_replicate_false (k : Nat) : ofBits (List.replicate k false) = 0 := by
  induction k with
  | zero => rfl
  | succ k ih => rw [List.replicate_succ, ofBits_cons, ih, Bool.toNat_false, Nat.zero_mul]

theorem ofBits_inj {bits more : List Bool} (hlen : bits.length = more.length)
    (h : ofBits bits = ofBits more) : bits = more := by
  induction bits generalizing more with
  | nil => exact (List.length_eq_zero_iff.mp hlen.symm).symm
  | cons b bits ih =>
    cases more with
    | nil => cases hlen
    | cons b' more =>
      have hlen' : bits.length = more.length := Nat.succ.inj hlen
      have hlow := ofBits_lt bits
      have hlow' := ofBits_lt more
      rw [ofBits_cons, ofBits_cons, ← hlen'] at h
      rw [← hlen'] at hlow'
      -- the first bits weigh more than all that follow
      have hb : b = b' := by
        cases b <;> cases b' <;> simp at h ⊢ <;> omega
      subst hb
      rw [ih hlen' (by omega)]

theorem ofBits_toBits (w n : Nat) : ofBits (toBits w n) = n % 2 ^ w := by
  induction w with
  | zero => rw [toBits, ofBits_nil, pow_zero, Nat.mod_one]
  | succ w ih =>
    rw [toBits, ofBits_cons, length_toBits, ih, Nat.toNat_testBit, pow_succ, Nat.mod_mul]
    ring

theorem toBits_ofBits (bits : List Bool) : toBits bits.length (ofBits bits) = bits := by
  apply ofBits_inj (length_toBits _ _)
  rw [ofBits_toBits, Nat.mod_eq_of_lt (ofBits_lt bits)]

/-! ## The word -/

/-- The bits of the word that are still to be read. -/
structure HoldsBits (value bits : Nat) (pending : List Bool) : Prop where
  count : pending.length = bits
  low : value % 2 ^ bits = ofBits pending

theorem holdsBits_empty : HoldsBits 0 0 [] := ⟨rfl, rfl⟩

section Word

variable {value bits : Nat} {pending : List Bool}

/-- A digit is pushed below the pending bits; what falls off the top was read before. -/
theorem HoldsBits.push (h : HoldsBits value bits pending) {W w d : Nat} (hd : d < 2 ^ w)
    (hfit : bits + w ≤ W) :
    HoldsBits ((value * 2 ^ w + d) % 2 ^ W) (bits + w) (pending ++ toBits w d) where
  count := by rw [List.length_append, length_toBits, h.count]
  low := by
    have hkept : (value * 2 ^ w + d) % 2 ^ W % 2 ^ (bits + w)
        = (value * 2 ^ w + d) % 2 ^ (bits + w) := Nat.mod_mod_of_dvd _ (pow_dvd_pow 2 hfit)
    have hshift : (value * 2 ^ w + d) / 2 ^ w = value := by
      rw [Nat.mul_comm, Nat.mul_add_div (Nat.two_pow_pos w), Nat.div_eq_of_lt hd, Nat.add_zero]
    have hdigit : (value * 2 ^ w + d) % 2 ^ w = d := by
      rw [Nat.mul_comm, Nat.mul_add_mod, Nat.mod_eq_of_lt hd]
    rw [hkept, ofBits_append, length_toBits, ofBits_toBits, Nat.mod_eq_of_lt hd, ← h.low,
      Nat.add_comm bits w, pow_add, Nat.mod_mul, hshift, hdigit]
    ring

/-- A group is read off the top of the pending bits, and the word is left as it is. -/
theorem HoldsBits.read {k : Nat} (h : HoldsBits value (bits + k) pending) :
    value / 2 ^ bits % 2 ^ k = ofBits (pending.take k) ∧ HoldsBits value bits (pending.drop k) := by
  have hcount := h.count
  have hrest : (pending.drop k).length = bits := by
    rw [List.length_drop]
    omega
  have hsplit : value % (2 ^ bits * 2 ^ k)
      = ofBits (pending.take k) * 2 ^ bits + ofBits (pending.drop k) := by
    rw [← pow_add, h.low, ← hrest, ← ofBits_append, List.take_append_drop]
  have hlow : ofBits (pending.drop k) < 2 ^ bits := by
    rw [← hrest]
    exact ofBits_lt _
  constructor
  · rw [← Nat.mod_mul_right_div_self, hsplit, Nat.mul_comm, Nat.mul_add_div (Nat.two_pow_pos bits),
      Nat.div_eq_of_lt hlow, Nat.add_zero]
  · refine ⟨hrest, ?_⟩
    rw [← Nat.mod_mul_right_mod value (2 ^ bits) (2 ^ k), hsplit, Nat.mul_comm, Nat.mul_add_mod,
      Nat.mod_eq_of_lt hlow]

/-- The pending bits are shifted up to a whole group, with zeros below. -/
theorem HoldsBits.pad (h : HoldsBits value bits pending) {W k : Nat} (hbits : bits ≤ k)
    (hfit : k ≤ W) :
    value * 2 ^ (k - bits) % 2 ^ W % 2 ^ k
      = ofBits (pending ++ List.replicate (k - bits) false) := by
  rw [Nat.mod_mod_of_dvd _ (pow_dvd_pow 2 hfit), ofBits_append, ofBits_replicate_false,
    List.length_replicate, Nat.add_zero, ← h.low]
  have hk : 2 ^ k = 2 ^ bits * 2 ^ (k - bits) := by rw [← pow_add, Nat.add_sub_cancel' hbits]
  rw [hk, Nat.mul_mod_mul_right]

end Word

/-! ## Groups of bits -/

/-- Bits in groups of `w + 1`, the last one as long as it is. -/
def groups (w : Nat) (bits : List Bool) : List (List Bool) :=
  match bits with
  | [] => []
  | b :: rest => (b :: rest.take w) :: groups w (rest.drop w)
  termination_by bits.length
  decreasing_by
    rw [List.length_drop, List.length_cons]
    omega

theorem groups_nil (w : Nat) : groups w [] = [] := by rw [groups]

theorem groups_of_ne_nil (w : Nat) {bits : List Bool} (h : bits ≠ []) :
    groups w bits = bits.take (w + 1) :: groups w (bits.drop (w + 1)) := by
  cases bits with
  | nil => exact absurd rfl h
  | cons b rest => rw [groups, List.take_succ_cons, List.drop_succ_cons]

/-- A whole group at the front is the first. -/
theorem groups_append (w : Nat) {bits : List Bool} (h : w + 1 ≤ bits.length) (more : List Bool) :
    groups w (bits ++ more) = bits.take (w + 1) :: groups w (bits.drop (w + 1) ++ more) := by
  have hne : bits ++ more ≠ [] := by
    intro hnil
    rw [(List.append_eq_nil_iff.mp hnil).1] at h
    cases h
  rw [groups_of_ne_nil w hne, List.take_append_of_le_length h, List.drop_append_of_le_length h]

theorem length_groups (w : Nat) (bits : List Bool) :
    (groups w bits).length = (bits.length + w) / (w + 1) := by
  fun_induction groups w bits with
  | case1 =>
    show 0 = (0 + w) / (w + 1)
    rw [Nat.zero_add, Nat.div_eq_of_lt (Nat.lt_succ_self w)]
  | case2 b rest ih =>
    rw [List.length_cons, ih, List.length_drop, List.length_cons]
    have hsum : rest.length + 1 + w = rest.length + (w + 1) := by omega
    rw [hsum, Nat.add_div_right _ (Nat.succ_pos w)]
    by_cases hle : w ≤ rest.length
    · rw [Nat.sub_add_cancel hle]
    · rw [Nat.sub_eq_zero_of_le (by omega), Nat.zero_add, Nat.div_eq_of_lt (Nat.lt_succ_self w),
        Nat.div_eq_of_lt (by omega)]

end BitRegister
