import Iceslab.Lib.IpText
import Iceslab.Lib.JsNumber
import Mathlib.Data.List.TakeWhile
import Mathlib.Tactic.Linarith

/-!
# Numbers off their text

`Number(s)` and `parseInt(s, 16)`, with the doubles they give as multiples of the smallest one.

* `Double`, `ofRatio` — the double nearest to a ratio, ties to even.
* `number`, `parseHex` — a text as a number.
* `toInteger?`, `toInt32` — the integer a double is, and the one the bit operators take it for.
* `number_digits` — a text of digits is its number.
* `ofRatio_near` — how far a double is off its ratio.
* `mathRound?_tenths` — a number of tenths comes back whole.
-/

set_option autoImplicit false

namespace JsNumeral

open JsNumber

/-! ## Doubles -/

/-- How many times the smallest double goes into one. -/
def unit : Nat := 2 ^ 1074

inductive Double where
  | nan
  | infinite (neg : Bool)
  | finite (neg : Bool) (units : Nat)
  deriving DecidableEq, Repr

/-- The double nearest to a ratio. -/
def ofRatio (neg : Bool) (num den : Nat) : Double :=
  let n := num * unit
  let units := nearest (den * ulp (n / den)) n / den
  if units < infinity * unit then .finite neg units else .infinite neg

def signed (neg : Bool) (n : Nat) : Int := if neg then -(n : Int) else n

/-- The value, where `Number.isInteger` holds. -/
def Double.toInteger? : Double → Option Int
  | .finite neg units => if units % unit = 0 then some (signed neg (units / unit)) else none
  | _ => none

/-- `ToInt32` -/
def Double.toInt32 : Double → Int
  | .finite neg units => Int.bmod (signed neg (units / unit)) (2 ^ 32)
  | _ => 0

/-! ## `Number` -/

def radixNumeral (base : Nat) (cs : List Char) : Double :=
  match cs.mapM IpText.hexDigit with
  | some ds =>
    if ds ≠ [] ∧ ds.all (· < base) then ofRatio false (ds.foldl (fun n d => n * base + d) 0) 1
    else .nan
  | none => .nan

/-- What follows the digits of a decimal: nothing, or an exponent. -/
def exponent : List Char → Option Int
  | [] => some 0
  | c :: cs =>
    let digits := if cs.head? = some '-' ∨ cs.head? = some '+' then cs.tail else cs
    if (c = 'e' ∨ c = 'E') ∧ digits ≠ [] ∧ digits.all Char.isDigit then
      some (signed (decide (cs.head? = some '-')) (Nat.ofDigitChars 10 digits 0))
    else none

def decimalNumeral (neg : Bool) (cs : List Char) : Double :=
  if cs = "Infinity".toList then .infinite neg
  else
    let whole := cs.takeWhile Char.isDigit
    let rest := cs.dropWhile Char.isDigit
    let point := decide (rest.head? = some '.')
    let frac := if point then rest.tail.takeWhile Char.isDigit else []
    let rest := if point then rest.tail.dropWhile Char.isDigit else rest
    if whole = [] ∧ frac = [] then .nan
    else
      match exponent rest with
      | none => .nan
      | some e =>
        let m := Nat.ofDigitChars 10 (whole ++ frac) 0
        let e := e - frac.length
        if 0 ≤ e then ofRatio neg (m * 10 ^ e.toNat) 1 else ofRatio neg m (10 ^ (-e).toNat)

/-- `Number(s)` -/
def number (s : String) : Double :=
  match (JsText.trim s).toList with
  | [] => .finite false 0
  | '0' :: 'x' :: cs => radixNumeral 16 cs
  | '0' :: 'X' :: cs => radixNumeral 16 cs
  | '0' :: 'o' :: cs => radixNumeral 8 cs
  | '0' :: 'O' :: cs => radixNumeral 8 cs
  | '0' :: 'b' :: cs => radixNumeral 2 cs
  | '0' :: 'B' :: cs => radixNumeral 2 cs
  | '-' :: cs => decimalNumeral true cs
  | '+' :: cs => decimalNumeral false cs
  | cs => decimalNumeral false cs

example : ["24", "", " 24 ", "0x10", "1e1", "2.5", "24.0", "-3", "1e-400", "a"].map
    (fun s => (number s).toInteger?) =
    [some 24, some 0, some 24, some 16, some 10, none, some 24, some (-3), some 0, none] := by
  decide +kernel

/-- `parseInt(s, 16)`, none for NaN -/
def parseHex (s : String) : Option Int :=
  let body := s.toList.dropWhile JsText.isSpace
  let neg := decide (body.head? = some '-')
  let body := if body.head? = some '-' ∨ body.head? = some '+' then body.tail else body
  let body := if body.take 2 = ['0', 'x'] ∨ body.take 2 = ['0', 'X'] then body.drop 2 else body
  match body.takeWhile (fun c => (IpText.hexDigit c).isSome) with
  | [] => none
  | ds => (IpText.hexValue ds).map fun n => signed neg (roundNat n)

/-! ## Texts of digits -/

section Digits

variable {n : Nat} {s : String}

theorem unit_pos : 0 < unit := Nat.pow_pos Nat.two_pos

theorem ulp_dvd_unit (h : n < 2 ^ 53) : ulp (n * unit) ∣ unit := by
  rcases Nat.eq_zero_or_pos n with rfl | hn
  · rw [Nat.zero_mul]
    exact Nat.one_dvd _
  · have hlt : n * unit < 2 ^ 1127 := by
      have := Nat.mul_lt_mul_of_pos_right h unit_pos
      rwa [unit, ← pow_add] at this
    have hlog := (Nat.log2_lt (Nat.mul_pos hn unit_pos).ne').mpr hlt
    exact Nat.pow_dvd_pow 2 (by omega)

theorem nearest_units (h : n < 2 ^ 53) : nearest (ulp (n * unit)) (n * unit) = n * unit := by
  obtain ⟨k, hk⟩ := ulp_dvd_unit h
  have hmul := nearest_mul (ulp_pos (n * unit)) (n * k)
  rwa [show n * k * ulp (n * unit) = n * unit by rw [Nat.mul_assoc, Nat.mul_comm k, ← hk]] at hmul

theorem ofRatio_small (h : n < 2 ^ 53) : ofRatio false n 1 = .finite false (n * unit) := by
  have hlt : n * unit < infinity * unit :=
    Nat.mul_lt_mul_of_pos_right (h.trans_le safe_le_infinity) unit_pos
  rw [ofRatio, Nat.div_one, Nat.one_mul, Nat.div_one, nearest_units h, if_pos hlt]

theorem ofRatio_large (h : 2 ^ 53 ≤ n) {p : Int} (hp : (ofRatio false n 1).toInteger? = some p) :
    2 ^ 52 ≤ p := by
  have hmono := nearest_ulp_mono (Nat.mul_le_mul_right unit (show 2 ^ 52 ≤ n by omega))
  rw [nearest_units (by decide)] at hmono
  rw [ofRatio, Nat.div_one, Nat.one_mul, Nat.div_one] at hp
  split at hp
  · rw [Double.toInteger?] at hp
    split at hp
    · obtain rfl := Option.some.inj hp
      have hdiv := (Nat.le_div_iff_mul_le unit_pos).mpr hmono
      rw [signed, if_neg (by decide)]
      exact_mod_cast hdiv
    · cases hp
  · cases hp

theorem number_digits (h : JsText.isDigits s = true) :
    number s = ofRatio false (JsText.numberOf s) 1 := by
  simp only [JsText.isDigits, Bool.and_eq_true, decide_eq_true_eq, List.all_eq_true] at h
  obtain ⟨hne, hall⟩ := h
  have htrim : JsText.trim s = s := JsText.trim_of_noSpace fun c hc =>
    JsText.isSpace_of_isAlphanum (by simp [Char.isAlphanum, hall c hc])
  have hcs : s.toList ≠ [] := fun hnil => hne (String.toList_eq_nil_iff.mp hnil)
  have hdecimal : number s = decimalNumeral false s.toList := by
    rw [number, htrim]
    generalize s.toList = cs at hall hcs
    have hno (c : Char) (hc : c.isDigit = false) : c ∉ cs := fun hmem => by
      rw [hall c hmem] at hc
      cases hc
    split
    · exact absurd rfl hcs
    · exact absurd (by simp) (hno 'x' (by decide))
    · exact absurd (by simp) (hno 'X' (by decide))
    · exact absurd (by simp) (hno 'o' (by decide))
    · exact absurd (by simp) (hno 'O' (by decide))
    · exact absurd (by simp) (hno 'b' (by decide))
    · exact absurd (by simp) (hno 'B' (by decide))
    · exact absurd (by simp) (hno '-' (by decide))
    · exact absurd (by simp) (hno '+' (by decide))
    · rfl
  have hinf : s.toList ≠ "Infinity".toList := fun heq => by
    have := hall 'I' (by rw [heq]; decide)
    exact absurd this (by decide)
  have htake : s.toList.takeWhile Char.isDigit = s.toList := List.takeWhile_eq_self_iff.mpr hall
  have hdrop : s.toList.dropWhile Char.isDigit = [] := List.dropWhile_eq_nil_iff.mpr hall
  rw [hdecimal, decimalNumeral, if_neg hinf, htake, hdrop]
  simp [hcs, exponent, JsText.numberOf]

/-- A text of digits is the number it spells, as far as doubles tell numbers apart. -/
theorem toInteger_digits (h : JsText.isDigits s = true) :
    (JsText.numberOf s < 2 ^ 53 ∧ (number s).toInteger? = some (JsText.numberOf s : Int)) ∨
      (2 ^ 53 ≤ JsText.numberOf s ∧ ∀ p, (number s).toInteger? = some p → 2 ^ 52 ≤ p) := by
  rw [number_digits h]
  rcases Nat.lt_or_ge (JsText.numberOf s) (2 ^ 53) with hlt | hge
  · left
    refine ⟨hlt, ?_⟩
    rw [ofRatio_small hlt, Double.toInteger?, Nat.mul_mod_left, if_pos rfl,
      Nat.mul_div_cancel _ unit_pos]
    rfl
  · exact .inr ⟨hge, fun p hp => ofRatio_large hge hp⟩

end Digits

/-! ## Arithmetic -/

/-- `x * k`, for a whole number over 0 that is a double. -/
def Double.timesNat (k : Nat) : Double → Double
  | .nan => .nan
  | .infinite neg => .infinite neg
  | .finite neg units => ofRatio neg (units * k) unit

/-- `Math.round(x)`, none where that is no integer. -/
def Double.mathRound? : Double → Option Int
  | .finite neg units => some ((2 * signed neg units + unit) / (2 * unit))
  | _ => none

section Near

variable {u n num den k t : Nat}

theorem nearest_near (hu : 0 < u) (n : Nat) :
    2 * n ≤ 2 * nearest u n + u ∧ 2 * nearest u n ≤ 2 * n + u := by
  have hdiv := Nat.div_add_mod' n u
  have hmod := Nat.mod_lt n hu
  unfold nearest
  split
  · omega
  · rw [Nat.add_mul, Nat.one_mul]
    omega

theorem ulp_le (h : n < 2 ^ (53 + k)) : ulp n ≤ 2 ^ k := by
  refine Nat.pow_le_pow_right Nat.two_pos ?_
  rcases Nat.eq_zero_or_pos n with rfl | hn
  · simp
  · have := (Nat.log2_lt hn.ne').mpr h
    omega

theorem den_dvd_nearest (den u n : Nat) : den ∣ nearest (den * u) n := by
  unfold nearest
  split
  · exact (Nat.dvd_mul_right den u).mul_left _
  · exact (Nat.dvd_mul_right den u).mul_left _

/-- A ratio is off its double by half the distance of the doubles there at most. -/
theorem ofRatio_near (neg : Bool) (hden : 0 < den) (h : num * unit < den * 2 ^ (53 + k))
    (hk : k < 2000) :
    ∃ units, ofRatio neg num den = .finite neg units ∧
      2 * (num * unit) ≤ 2 * (units * den) + den * 2 ^ k ∧
      2 * (units * den) ≤ 2 * (num * unit) + den * 2 ^ k := by
  have hquot : num * unit / den < 2 ^ (53 + k) := Nat.div_lt_of_lt_mul h
  have hulp := Nat.mul_le_mul_left den (ulp_le hquot)
  obtain ⟨hlow, hhigh⟩ :=
    nearest_near (Nat.mul_pos hden (ulp_pos (num * unit / den))) (num * unit)
  have hexact := Nat.div_mul_cancel (den_dvd_nearest den (ulp (num * unit / den)) (num * unit))
  have hfinite : nearest (den * ulp (num * unit / den)) (num * unit) / den < infinity * unit := by
    refine Nat.div_lt_of_lt_mul ?_
    have htop : den * 2 ^ (54 + k) ≤ den * (infinity * unit) := by
      refine Nat.mul_le_mul_left den ?_
      rw [infinity, unit, ← Nat.pow_mul, ← Nat.pow_add]
      exact Nat.pow_le_pow_right Nat.two_pos (by omega)
    have hstep : den * 2 ^ k ≤ den * 2 ^ (53 + k) :=
      Nat.mul_le_mul_left den (Nat.pow_le_pow_right Nat.two_pos (by omega))
    have hdouble : den * 2 ^ (54 + k) = 2 * (den * 2 ^ (53 + k)) := by
      rw [show 54 + k = (53 + k) + 1 by omega, pow_succ]
      ring
    omega
  rw [ofRatio, if_pos hfinite]
  exact ⟨_, rfl, by omega, by omega⟩

theorem mathRound?_near {units : Nat} (hlow : 2 * (t * unit) < 2 * units + unit)
    (hhigh : 2 * units + unit < 2 * (t * unit) + 2 * unit) :
    (Double.finite false units).mathRound? = some (t : Int) := by
  have hdiv : (2 * units + unit) / (2 * unit) = t :=
    Nat.div_eq_of_lt_le (by linarith) (by linarith)
  have hcast : (2 * signed false units + unit) / (2 * (unit : Int)) = (t : Int) := by
    rw [← hdiv, Int.natCast_ediv, Nat.cast_add, Nat.cast_mul, Nat.cast_mul, Nat.cast_ofNat]
    simp only [signed, Bool.false_eq_true, if_false]
  rw [Double.mathRound?, hcast]

/-- `Math.round(t / 10 * 10)` is `t`, whatever the two roundings do. -/
theorem mathRound?_tenths (h : t < 2 ^ 40) :
    ((ofRatio false t 10).timesNat 10).mathRound? = some (t : Int) := by
  have hunit : unit = 2 ^ 13 * 2 ^ 1061 := by rw [unit, ← pow_add]
  have hfirst : 2 ^ (53 + 1061) = 2 ^ 53 * 2 ^ 1061 := pow_add 2 53 1061
  have hsecond : 2 ^ (53 + 1062) = 2 ^ 54 * 2 ^ 1061 := by rw [← pow_add]
  have htwice : 2 ^ 1062 = 2 * 2 ^ 1061 := pow_succ' 2 1061
  have ht : t * unit < 2 ^ 40 * unit := Nat.mul_lt_mul_of_pos_right h unit_pos
  have hpos : 0 < 2 ^ 1061 := Nat.two_pow_pos 1061
  have hsmall : t * unit < 10 * 2 ^ (53 + 1061) := by
    rw [hfirst]
    omega
  obtain ⟨units, hunits, hlow, hhigh⟩ :=
    ofRatio_near false (show 0 < 10 by decide) hsmall (by decide)
  have hlt : units * 10 * unit < unit * 2 ^ (53 + 1062) := by
    rw [Nat.mul_comm unit, hsecond]
    refine Nat.mul_lt_mul_of_pos_right ?_ unit_pos
    omega
  obtain ⟨units', hunits', hlow', hhigh'⟩ :=
    ofRatio_near false unit_pos hlt (by decide)
  rw [hunits, Double.timesNat, hunits']
  -- the second rounding is stated in multiples of the unit
  have hlow' : 2 * (units * 10) ≤ 2 * units' + 2 ^ 1062 := by
    refine Nat.le_of_mul_le_mul_right ?_ unit_pos
    linarith
  have hhigh' : 2 * units' ≤ 2 * (units * 10) + 2 ^ 1062 := by
    refine Nat.le_of_mul_le_mul_right ?_ unit_pos
    linarith
  rw [htwice] at hlow' hhigh'
  generalize 2 ^ 1061 = e at *
  exact mathRound?_near (by omega) (by omega)

end Near
end JsNumeral
