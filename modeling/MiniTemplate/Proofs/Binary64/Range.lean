import Mathlib.Algebra.Group.Nat.Defs
import MiniTemplate.Proofs.Binary64.Whole

/-!
# Doubles in range

A quotient that is far enough below `2 ^ 1024` is rounded to a finite double: its exponent
stays below the greatest one, and its significand fills 53 bits at most. So every integer of
64 bits has a finite double, and so has the quotient of a finite double and one that is eight
at least.
-/

namespace MiniTemplate.Binary64

theorem roundQuotient_le {num den bound : Nat} (below : num < den * bound) :
    roundQuotient num den ≤ bound := by
  have quotient : num / den < bound := Nat.div_lt_of_lt_mul below
  unfold roundQuotient
  dsimp only
  split
  · omega
  · split
    · omega
    · split <;> omega

/-- A quotient by the binary logarithms of its two sides, in units of `2 ^ -p`. -/
theorem mul_pow_lt_of_log2 (num p : Nat) {den : Nat} (denominator : den ≠ 0) :
    num * Nat.pow 2 p < den * Nat.pow 2 (53 + (num.log2 + p - (den.log2 + 52))) := by
  have above : num < 2 ^ (num.log2 + 1) := Nat.lt_log2_self
  have least : 2 ^ den.log2 ≤ den := Nat.log2_self_le denominator
  calc
    num * 2 ^ p < 2 ^ (num.log2 + 1) * 2 ^ p :=
      Nat.mul_lt_mul_of_pos_right above (Nat.two_pow_pos _)
    _ = 2 ^ (num.log2 + 1 + p) := (Nat.pow_add 2 _ _).symm
    _ ≤ 2 ^ (den.log2 + (53 + (num.log2 + p - (den.log2 + 52)))) :=
      Nat.pow_le_pow_right (by decide) (by omega)
    _ = 2 ^ den.log2 * 2 ^ (53 + (num.log2 + p - (den.log2 + 52))) := Nat.pow_add 2 _ _
    _ ≤ den * 2 ^ (53 + (num.log2 + p - (den.log2 + 52))) := Nat.mul_le_mul_right _ least

/-- At its scale a quotient is less than `2 ^ 53`. -/
theorem lt_scaleOf (num : Nat) {den : Nat} (denominator : den ≠ 0) :
    num * Nat.pow 2 1074 < den * Nat.pow 2 (53 + scaleOf num den) := by
  unfold scaleOf
  dsimp only
  split
  · rename_i less
    apply Nat.lt_of_lt_of_le less
    apply Nat.mul_le_mul_left
    apply Nat.pow_le_pow_right (by decide)
    omega
  · exact mul_pow_lt_of_log2 num 1074 denominator

theorem scaleOf_le {num den k : Nat} (positive : num ≠ 0) (small : num < den * 2 ^ k) :
    scaleOf num den ≤ 1022 + k := by
  have above : den < 2 ^ (den.log2 + 1) := Nat.lt_log2_self
  have order : num.log2 < den.log2 + 1 + k := by
    apply (Nat.log2_lt positive).2
    calc
      num < den * 2 ^ k := small
      _ ≤ 2 ^ (den.log2 + 1) * 2 ^ k := Nat.mul_le_mul_right _ (Nat.le_of_lt above)
      _ = 2 ^ (den.log2 + 1 + k) := (Nat.pow_add 2 _ _).symm
  unfold scaleOf
  dsimp only
  split <;> omega

/-- **A quotient below `2 ^ 1021` has a finite magnitude.** -/
theorem magnitudeOfRatio_lt {num den k : Nat} (denominator : den ≠ 0) (small : num < den * 2 ^ k)
    (far : k ≤ 1021) : magnitudeOfRatio num den < infiniteBits := by
  by_cases positive : num = 0
  · rw [magnitudeOfRatio, if_pos positive]
    decide
  · have scale := scaleOf_le positive small
    have significand : roundQuotient (num * Nat.pow 2 1074) (den * Nat.pow 2 (scaleOf num den))
        ≤ Nat.pow 2 53 := by
      apply roundQuotient_le
      have split : Nat.pow 2 (53 + scaleOf num den) = Nat.pow 2 (scaleOf num den) * Nat.pow 2 53 := by
        rw [Nat.add_comm]
        exact Nat.pow_add 2 _ _
      rw [Nat.mul_assoc, ← split]
      exact lt_scaleOf num denominator
    have bound : Nat.pow 2 53 = 2 * Nat.pow 2 52 := rfl
    rw [magnitudeOfRatio, if_neg positive]
    apply Nat.lt_of_le_of_lt (Nat.min_le_left _ _)
    have finite : infiniteBits = 2047 * Nat.pow 2 52 := rfl
    rw [finite]
    calc
      scaleOf num den * Nat.pow 2 52 + roundQuotient _ _
          ≤ scaleOf num den * Nat.pow 2 52 + 2 * Nat.pow 2 52 := by
        rw [← bound]
        exact Nat.add_le_add_left significand _
      _ = (scaleOf num den + 2) * Nat.pow 2 52 := (Nat.add_mul _ _ _).symm
      _ < 2047 * Nat.pow 2 52 :=
        Nat.mul_lt_mul_of_pos_right (by omega) (Nat.two_pow_pos 52)

theorem magnitude_withSign {magnitude : Nat} (negative : Bool) (small : magnitude ≤ infiniteBits) :
    (withSign negative magnitude).magnitude = magnitude := by
  have unsigned : ¬ signBit ≤ magnitude := by
    unfold signBit
    unfold infiniteBits at small
    omega
  cases negative with
  | false => simp [Binary64.magnitude, isNegative, withSign, unsigned]
  | true => simp [Binary64.magnitude, isNegative, withSign]

theorem isInfinite_withSign {magnitude : Nat} (negative : Bool) (small : magnitude < infiniteBits) :
    (withSign negative magnitude).isInfinite = false := by
  rw [isInfinite, magnitude_withSign negative (Nat.le_of_lt small)]
  simpa using small

/-- **An integer of 64 bits has a finite double.** -/
theorem isInfinite_ofInt {i : Int} (least : -0x8000000000000000 ≤ i)
    (most : i < 0x10000000000000000) : (ofInt i).isInfinite = false := by
  apply isInfinite_withSign
  have order : i.natAbs < 1 * 2 ^ 64 := by omega
  exact magnitudeOfRatio_lt (by decide) order (by decide)

/-- **A natural number of 64 bits has a finite double.** -/
theorem isInfinite_ofNat {n : Nat} (most : n < 2 ^ 64) : (ofNat n).isInfinite = false := by
  apply isInfinite_withSign
  have order : n < 1 * 2 ^ 64 := by omega
  exact magnitudeOfRatio_lt (by decide) order (by decide)

theorem ratio_positive (x : Binary64) : 0 < x.ratio.2 := by
  unfold ratio
  dsimp only
  split
  · exact Nat.two_pow_pos _
  · exact Nat.zero_lt_one

/-- A finite double has 53 significant bits, and the exponent of its last one is at most 971. -/
theorem parts_of_finite {x : Binary64} (finite : x.isInfinite = false) :
    x.parts.significand < 2 ^ 53 ∧ x.parts.exponent ≤ 1074 + 971 := by
  have small : x.magnitude < infiniteBits := by simpa [isInfinite] using finite
  have field : x.magnitude / Nat.pow 2 52 < 2047 := by
    apply Nat.div_lt_of_lt_mul
    rw [Nat.mul_comm]
    exact small
  have fraction : x.magnitude % Nat.pow 2 52 < Nat.pow 2 52 := Nat.mod_lt _ (Nat.two_pow_pos 52)
  have half : Nat.pow 2 52 = 4503599627370496 := rfl
  unfold parts
  dsimp only
  split
  · dsimp only
    omega
  · dsimp only
    omega

/-- A finite double is less than `2 ^ 1024`. -/
theorem ratio_lt {x : Binary64} {k : Nat} (finite : x.isInfinite = false) (far : 53 + 971 ≤ k) :
    x.ratio.1 < x.ratio.2 * 2 ^ k := by
  obtain ⟨significand, exponent⟩ := parts_of_finite finite
  unfold ratio
  dsimp only
  split
  · calc
      x.parts.significand < 2 ^ 53 := significand
      _ ≤ 2 ^ k := Nat.pow_le_pow_right (by decide) (by omega)
      _ ≤ Nat.pow 2 (1074 - x.parts.exponent) * 2 ^ k :=
        Nat.le_mul_of_pos_left _ (Nat.two_pow_pos _)
  · calc
      x.parts.significand * 2 ^ (x.parts.exponent - 1074)
          < 2 ^ 53 * 2 ^ (x.parts.exponent - 1074) :=
        Nat.mul_lt_mul_of_pos_right significand (Nat.two_pow_pos _)
      _ = 2 ^ (53 + (x.parts.exponent - 1074)) := (Nat.pow_add 2 _ _).symm
      _ ≤ 2 ^ k := Nat.pow_le_pow_right (by decide) (by omega)
      _ = 1 * 2 ^ k := (Nat.one_mul _).symm

theorem le_roundQuotient {num den bound : Nat} (denominator : 0 < den) (above : bound * den ≤ num) :
    bound ≤ roundQuotient num den := by
  have quotient : bound ≤ num / den := (Nat.le_div_iff_mul_le denominator).2 above
  unfold roundQuotient
  dsimp only
  split
  · omega
  · split
    · omega
    · split <;> omega

theorem magnitude_ofRatio (negative : Bool) (num den : Nat) :
    (ofRatio negative num den).magnitude = magnitudeOfRatio num den := by
  apply magnitude_withSign
  unfold magnitudeOfRatio
  split
  · exact Nat.zero_le _
  · exact Nat.min_le_right _ _

/-- The bit pattern of a number that is eight or more is that of eight or more. -/
theorem le_magnitudeOfRatio {n : Nat} (large : 8 ≤ n) :
    1026 * Nat.pow 2 52 ≤ magnitudeOfRatio n 1 := by
  have positive : n ≠ 0 := by omega
  have order : 3 ≤ n.log2 := (Nat.le_log2 positive).2 large
  have split := pow_split (show 52 + (n.log2 + 1022) = n.log2 + 1074 by omega)
  have significand : Nat.pow 2 52 ≤
      roundQuotient (n * Nat.pow 2 1074) (1 * Nat.pow 2 (n.log2 + 1022)) := by
    apply le_roundQuotient
    · rw [Nat.one_mul]
      exact Nat.two_pow_pos _
    · rw [Nat.one_mul, ← split, pow_split rfl]
      exact Nat.mul_le_mul_right _ (Nat.log2_self_le positive)
  rw [magnitudeOfRatio, if_neg positive]
  dsimp only
  rw [scaleOf_positive positive]
  apply Nat.le_min_of_le_of_le
  · calc
      1026 * Nat.pow 2 52 ≤ (n.log2 + 1023) * Nat.pow 2 52 := Nat.mul_le_mul_right _ (by omega)
      _ = (n.log2 + 1022) * Nat.pow 2 52 + Nat.pow 2 52 := Nat.succ_mul _ _
      _ ≤ _ := Nat.add_le_add_left significand _
  · decide

theorem ratio_large {x : Binary64} (large : 1026 * Nat.pow 2 52 ≤ x.magnitude) :
    x.ratio.2 * 8 ≤ x.ratio.1 := by
  have field : 1026 ≤ x.magnitude / Nat.pow 2 52 :=
    (Nat.le_div_iff_mul_le (Nat.two_pow_pos 52)).2 large
  have parts : 1025 ≤ x.parts.exponent ∧ Nat.pow 2 52 ≤ x.parts.significand := by
    unfold parts
    rw [if_neg (by omega)]
    exact ⟨by dsimp only; omega, Nat.le_add_right _ _⟩
  obtain ⟨exponent, significand⟩ := parts
  unfold ratio
  dsimp only
  split
  · calc
      Nat.pow 2 (1074 - x.parts.exponent) * 8 = 2 ^ (1074 - x.parts.exponent + 3) :=
        (Nat.pow_add 2 _ 3).symm
      _ ≤ 2 ^ 52 := Nat.pow_le_pow_right (by decide) (by omega)
      _ ≤ x.parts.significand := significand
  · calc
      1 * 8 ≤ Nat.pow 2 52 := by decide
      _ ≤ x.parts.significand := significand
      _ ≤ x.parts.significand * Nat.pow 2 (x.parts.exponent - 1074) :=
        Nat.le_mul_of_pos_right _ (Nat.two_pow_pos _)

/-- **A finite double divided by eight or more is finite.** -/
theorem isInfinite_div {x y : Binary64} (finite : x.isInfinite = false)
    (large : y.ratio.2 * 8 ≤ y.ratio.1) : (x.div y).isInfinite = false := by
  have positive := y.ratio_positive
  have denominator : x.ratio.2 * y.ratio.1 ≠ 0 :=
    Nat.mul_ne_zero (Nat.ne_of_gt x.ratio_positive) (by omega)
  -- The exponent has a name, so that no power is computed.
  obtain ⟨k, far⟩ : ∃ k, k = 1021 := ⟨_, rfl⟩
  have small : x.ratio.1 * y.ratio.2 < x.ratio.2 * y.ratio.1 * 2 ^ k := by
    calc
      x.ratio.1 * y.ratio.2 < x.ratio.2 * 2 ^ (3 + k) * y.ratio.2 :=
        Nat.mul_lt_mul_of_pos_right (ratio_lt finite (by omega)) positive
      _ = x.ratio.2 * (y.ratio.2 * 8) * 2 ^ k := by
        rw [Nat.pow_add, show 2 ^ 3 = 8 from rfl]
        ac_rfl
      _ ≤ x.ratio.2 * y.ratio.1 * 2 ^ k :=
        Nat.mul_le_mul_right _ (Nat.mul_le_mul_left _ large)
  apply isInfinite_withSign
  exact magnitudeOfRatio_lt denominator small (Nat.le_of_eq far)

end MiniTemplate.Binary64
