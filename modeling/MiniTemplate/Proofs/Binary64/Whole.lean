import Mathlib.Algebra.Group.Nat.Defs
import MiniTemplate.Binary64.Basic

/-!
# Whole numbers as doubles

A natural number below `2 ^ 53` is a double as it is: rounding keeps it, `floor` gives it
back, and its decimal numeral without fraction and exponent means the same double.
-/

namespace MiniTemplate.Binary64

/-- The whole part of a finite number, its sign aside. -/
def floor (x : Binary64) : Nat := x.ratio.1 / x.ratio.2

theorem roundQuotient_mul (a : Nat) {d : Nat} (positive : 0 < d) :
    roundQuotient (a * d) d = a := by
  simp [roundQuotient, Nat.mul_div_cancel _ positive, positive]

theorem pow_split {a b c : Nat} (sum : a + b = c) :
    Nat.pow 2 c = Nat.pow 2 a * Nat.pow 2 b := by
  subst sum
  exact Nat.pow_add 2 a b

theorem scaleOf_positive {n : Nat} (positive : n ≠ 0) : scaleOf n 1 = n.log2 + 1022 := by
  have log2_one : Nat.log2 1 = 0 := by decide
  have guess : n.log2 + 1074 - (Nat.log2 1 + 52) = n.log2 + 1022 := by omega
  have split := pow_split (show n.log2 + 1074 = 52 + (n.log2 + 1022) by omega)
  have enough : ¬ n * Nat.pow 2 1074 < 1 * Nat.pow 2 (52 + (n.log2 + 1022)) := by
    rw [Nat.not_lt, Nat.one_mul, split]
    exact Nat.mul_le_mul_right (Nat.pow 2 1074) (Nat.log2_self_le positive)
  simp only [scaleOf, guess, if_neg enough]

section
variable {n : Nat} (positive : n ≠ 0) (small : n < Nat.pow 2 53)
include positive small

theorem log2_le_of_small : n.log2 ≤ 52 := by
  have below : n.log2 < 53 := (Nat.log2_lt positive).2 small
  omega

/-- The significand of a small number fills 53 bits. -/
theorem significand_small :
    roundQuotient (n * Nat.pow 2 1074) (1 * Nat.pow 2 (n.log2 + 1022)) = n * 2 ^ (52 - n.log2) := by
  have most := log2_le_of_small positive small
  have split := pow_split (show (52 - n.log2) + (n.log2 + 1022) = 1074 by omega)
  rw [split, ← Nat.mul_assoc, Nat.one_mul]
  exact roundQuotient_mul _ (Nat.two_pow_pos _)

theorem significand_bounds :
    2 ^ 52 ≤ n * 2 ^ (52 - n.log2) ∧ n * 2 ^ (52 - n.log2) < 2 ^ 53 := by
  have most := log2_le_of_small positive small
  have least : 2 ^ n.log2 ≤ n := Nat.log2_self_le positive
  have above : n < 2 ^ (n.log2 + 1) := Nat.lt_log2_self
  have low : 2 ^ 52 = 2 ^ n.log2 * 2 ^ (52 - n.log2) := by
    rw [← Nat.pow_add]
    congr 1
    omega
  have high : 2 ^ 53 = 2 ^ (n.log2 + 1) * 2 ^ (52 - n.log2) := by
    rw [← Nat.pow_add]
    congr 1
    omega
  constructor
  · rw [low]
    exact Nat.mul_le_mul_right _ least
  · rw [high]
    exact Nat.mul_lt_mul_of_pos_right above (Nat.two_pow_pos _)

theorem bits_ofNat_small :
    (ofNat n).bits = (n.log2 + 1022) * 2 ^ 52 + n * 2 ^ (52 - n.log2) := by
  have most := log2_le_of_small positive small
  have bounds := significand_bounds positive small
  have finite : (n.log2 + 1022) * 2 ^ 52 + n * 2 ^ (52 - n.log2) ≤ infiniteBits := by
    unfold infiniteBits
    omega
  have magnitude : magnitudeOfRatio n 1 = (n.log2 + 1022) * 2 ^ 52 + n * 2 ^ (52 - n.log2) := by
    simp only [magnitudeOfRatio, if_neg positive, scaleOf_positive positive,
      significand_small positive small]
    rw [Nat.pow_eq]
    exact Nat.min_eq_left finite
  simp [ofNat, ofRatio, withSign, magnitude]

theorem parts_ofNat_small :
    (ofNat n).parts = ⟨n * 2 ^ (52 - n.log2), n.log2 + 1022⟩ := by
  have most := log2_le_of_small positive small
  have bounds := significand_bounds positive small
  have bits := bits_ofNat_small positive small
  have unsigned : (ofNat n).isNegative = false := by
    simp only [isNegative, bits, signBit, decide_eq_false_iff_not]
    omega
  have magnitude : (ofNat n).magnitude = (n.log2 + 1022) * 2 ^ 52 + n * 2 ^ (52 - n.log2) := by
    simp [Binary64.magnitude, unsigned, bits]
  have field : (ofNat n).magnitude / Nat.pow 2 52 = n.log2 + 1023 := by
    rw [magnitude, Nat.pow_eq]
    omega
  have fraction : Nat.pow 2 52 + (ofNat n).magnitude % Nat.pow 2 52 = n * 2 ^ (52 - n.log2) := by
    rw [magnitude, Nat.pow_eq]
    omega
  simp only [parts, fraction, field]
  simp

end

/-- **A natural number below `2 ^ 53` is not rounded.** -/
theorem floor_ofNat {n : Nat} (small : n < Nat.pow 2 53) : (ofNat n).floor = n := by
  by_cases zero : n = 0
  · subst zero
    have parts : (ofNat 0).parts = ⟨0, 0⟩ := by decide
    simp only [floor, ratio, parts, Nat.zero_lt_succ, if_true]
    exact Nat.zero_div _
  · have most := log2_le_of_small zero small
    have parts := parts_ofNat_small zero small
    simp only [floor, ratio, parts]
    by_cases fits : n.log2 + 1022 < 1074
    · rw [if_pos fits]
      have width : 1074 - (n.log2 + 1022) = 52 - n.log2 := by omega
      rw [Nat.pow_eq, width]
      exact Nat.mul_div_cancel _ (Nat.two_pow_pos _)
    · rw [if_neg fits]
      have top : n.log2 = 52 := by omega
      simp [top]

/-- A decimal numeral without fraction and exponent. -/
theorem ofDecimal_whole {n : Nat} (small : n < Nat.pow 2 53) : ofDecimal false n 0 = ofNat n := by
  by_cases zero : n = 0
  · subst zero
    decide
  · have short : digitCount n ≤ 320 := by
      refine (Nat.length_toDigits_le_iff (by decide) (by decide)).2 ?_
      calc
        n < 2 ^ 53 := small
        _ ≤ 10 ^ 53 := Nat.pow_le_pow_left (by decide) 53
        _ ≤ 10 ^ 320 := Nat.pow_le_pow_right (by decide) (by decide)
    have order : ¬ ((digitCount n : Int) + 0 < -330) := by omega
    have finite : ¬ (320 < (digitCount n : Int) + 0) := by omega
    simp only [ofDecimal, zero, order, finite, or_self, if_false]
    show ofRatio false (n * Nat.pow 10 0) 1 = ofNat n
    simp [ofNat]

end MiniTemplate.Binary64
