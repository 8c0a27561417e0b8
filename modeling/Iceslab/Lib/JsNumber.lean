import Mathlib.Data.Nat.Log
import Mathlib.Tactic.Ring

/-!
# Integers as JavaScript numbers

An integer that a program reads or adds up becomes the nearest double, ties to even.  Infinity is
written as the number it compares as, `2 ^ 1024`.

* `round` — the double of an integer.
* `round_of_safe` — up to `2 ^ 53` nothing is lost.
* `round_mono` — rounding keeps the order, and up to `2 ^ 53` it decides it (`round_lt_iff`).
-/

set_option autoImplicit false

namespace JsNumber

/-- The multiple of `u` nearest to `n`, of two the even one. -/
def nearest (u n : Nat) : Nat :=
  if 2 * (n % u) < u ∨ (2 * (n % u) = u ∧ n / u % 2 = 0) then n / u * u else (n / u + 1) * u

/-- The distance of the doubles around `n`. -/
def ulp (n : Nat) : Nat := 2 ^ (n.log2 - 52)

/-- `2 ^ 1024` -/
def infinity : Nat := (2 ^ 128) ^ 8

def roundNat (n : Nat) : Nat := min (nearest (ulp n) n) infinity

def round (n : Int) : Int := if n < 0 then -(roundNat n.natAbs : Int) else roundNat n.natAbs

/-! ## Multiples -/

section Multiples

variable {u m n : Nat}

theorem nearest_mul (hu : 0 < u) (k : Nat) : nearest u (k * u) = k * u := by
  unfold nearest
  rw [Nat.mul_mod_left, Nat.mul_div_cancel k hu, if_pos]
  left
  omega

theorem nearest_mono (u : Nat) (h : m ≤ n) : nearest u m ≤ nearest u n := by
  have hdiv : m / u ≤ n / u := Nat.div_le_div_right h
  have hm := Nat.div_add_mod m u
  have hn := Nat.div_add_mod n u
  have hle (k : Nat) (hk : m / u + 1 ≤ k) : nearest u m ≤ k * u := by
    unfold nearest
    split
    · exact Nat.mul_le_mul_right u (by omega)
    · exact Nat.mul_le_mul_right u hk
  rcases Nat.lt_or_eq_of_le hdiv with hlt | heq
  · refine (hle _ hlt).trans ?_
    unfold nearest
    split
    · exact Nat.le_refl _
    · exact Nat.mul_le_mul_right u (by omega)
  · -- in one cell the remainders are in order
    have hmod : m % u ≤ n % u := by
      rw [heq] at hm
      omega
    unfold nearest
    rw [heq]
    split
    · split
      · exact Nat.le_refl _
      · exact Nat.mul_le_mul_right u (by omega)
    · split
      · rename_i h1 h2
        omega
      · exact Nat.le_refl _

end Multiples

/-! ## Doubles -/

section Doubles

variable {m n c : Nat}

theorem ulp_pos (n : Nat) : 0 < ulp n := Nat.two_pow_pos _

theorem lt_two_pow_log2 (n : Nat) : n < 2 ^ (n.log2 + 1) := Nat.lt_log2_self

theorem two_pow_log2_le (h : n ≠ 0) : 2 ^ n.log2 ≤ n := Nat.log2_self_le h

theorem dvd_two_pow {k : Nat} (h : n.log2 ≤ k) : ∃ q, 2 ^ k = q * ulp n := by
  refine ⟨2 ^ (k - (n.log2 - 52)), ?_⟩
  rw [ulp, ← Nat.pow_add]
  congr 1
  omega

theorem nearest_ulp_mono (h : m ≤ n) : nearest (ulp m) m ≤ nearest (ulp n) n := by
  by_cases hlog : m.log2 = n.log2
  · rw [ulp, ulp, hlog]
    exact nearest_mono _ h
  · have hn : n ≠ 0 := by
      rintro rfl
      rw [Nat.le_zero.mp h] at hlog
      exact hlog rfl
    have hlt : m.log2 + 1 ≤ n.log2 := by
      have hm := lt_two_pow_log2 n
      by_cases hm0 : m = 0
      · subst hm0
        simp only [Nat.log2_zero] at hlog ⊢
        omega
      · have := (Nat.pow_lt_pow_iff_right (a := 2) (by omega)).mp
          ((two_pow_log2_le hm0).trans_lt (h.trans_lt hm))
        omega
    -- the power of two between them is a double on both sides
    obtain ⟨p, hp⟩ := dvd_two_pow (n := m) (k := m.log2 + 1) (by omega)
    obtain ⟨q, hq⟩ := dvd_two_pow (n := n) (k := n.log2) (Nat.le_refl _)
    calc nearest (ulp m) m ≤ nearest (ulp m) (p * ulp m) :=
          nearest_mono _ (hp ▸ (lt_two_pow_log2 m).le)
      _ = 2 ^ (m.log2 + 1) := by rw [nearest_mul (ulp_pos m), hp]
      _ ≤ 2 ^ n.log2 := Nat.pow_le_pow_right (by omega) hlt
      _ = nearest (ulp n) (q * ulp n) := by rw [nearest_mul (ulp_pos n), hq]
      _ ≤ nearest (ulp n) n := nearest_mono _ (hq ▸ two_pow_log2_le hn)

theorem roundNat_mono (h : m ≤ n) : roundNat m ≤ roundNat n := by
  have := nearest_ulp_mono h
  unfold roundNat
  omega

theorem safe_le_infinity : 2 ^ 53 ≤ infinity := by decide

theorem roundNat_of_safe (h : n ≤ 2 ^ 53) : roundNat n = n := by
  have hinf : n ≤ infinity := h.trans safe_le_infinity
  have hnear : nearest (ulp n) n = n := by
    by_cases hn : n = 2 ^ 53
    · obtain ⟨q, hq⟩ := dvd_two_pow (n := n) (k := 53) (by rw [hn, Nat.log2_two_pow])
      conv_rhs => rw [hn, hq]
      rw [← nearest_mul (ulp_pos n) q, ← hq, ← hn]
    · have hlog : n.log2 < 53 := by
        by_cases h0 : n = 0
        · simp [h0]
        · exact (Nat.log2_lt h0).mpr (by omega)
      have hone : ulp n = 1 := by
        rw [ulp, Nat.sub_eq_zero_of_le (by omega), Nat.pow_zero]
      simpa [hone] using nearest_mul (u := 1) (by omega) n
  rw [roundNat, hnear]
  omega

end Doubles

section Order

variable {m n c : Int}

theorem round_mono (h : m ≤ n) : round m ≤ round n := by
  unfold round
  split
  · split
    · have := roundNat_mono (m := n.natAbs) (n := m.natAbs) (by omega)
      omega
    · omega
  · split
    · omega
    · have := roundNat_mono (m := m.natAbs) (n := n.natAbs) (by omega)
      omega

theorem round_of_safe (h : n.natAbs ≤ 2 ^ 53) : round n = n := by
  unfold round
  rw [roundNat_of_safe h]
  split <;> omega

/-- A bound a double can tell exactly is passed by a number when it is passed by its double. -/
theorem round_lt_iff (hc : c.natAbs < 2 ^ 53) : round n < c ↔ n < c := by
  constructor
  · intro h
    by_contra hn
    have := round_mono (not_lt.mp hn)
    rw [round_of_safe hc.le] at this
    omega
  · intro h
    have hle := round_mono (m := n) (n := c - 1) (by omega)
    have hsafe := round_of_safe (n := c - 1) (by omega)
    omega

theorem round_le_iff (hc : c.natAbs < 2 ^ 53) : round n ≤ c ↔ n ≤ c := by
  constructor
  · intro h
    by_contra hn
    have hle := round_mono (m := c + 1) (n := n) (by omega)
    have hsafe := round_of_safe (n := c + 1) (by omega)
    omega
  · intro h
    have := round_mono h
    rwa [round_of_safe hc.le] at this

end Order

end JsNumber
