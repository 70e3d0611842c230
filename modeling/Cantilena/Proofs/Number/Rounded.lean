import Cantilena.Number.Dyadic
import Mathlib.Algebra.Order.Field.Basic
import Mathlib.Algebra.Order.Ring.Rat
import Mathlib.Data.Rat.Cast.Order
import Mathlib.Tactic.Linarith
import Mathlib.Tactic.Positivity

/-!
# Rounding

A quotient is rounded to the closest whole number, and halfway between two of them to the even one.

* `IsRounded` -- the closest whole number;
* `IsRounded.nonneg` -- it is on the same side of zero;
* `isRounded_roundQuotient` -- a rounded quotient is the closest whole number to it.
-/

namespace Cantilena.Number

/-- Whether a whole number is the closest to a number, or the even one of the two closest. -/
def IsRounded (x : ℚ) (n : ℤ) : Prop := |x - n| ≤ 1 / 2 ∧ (|x - n| = 1 / 2 → n % 2 = 0)

namespace IsRounded

variable {x : ℚ} {n : ℤ}

theorem nonneg (hx : 0 ≤ x) (h : IsRounded x n) : 0 ≤ n := by
  have hle := (abs_le.mp h.1).2
  by_contra hneg
  have : (n : ℚ) ≤ -1 := by exact_mod_cast Int.le_sub_one_of_lt (not_le.mp hneg)
  linarith

end IsRounded

/-- **A rounded quotient is the closest whole number**, halfway between two of them the even one. -/
theorem isRounded_roundQuotient (num : ℕ) {den : ℕ} (h : 0 < den) :
    IsRounded ((num : ℚ) / den) (roundQuotient num den) := by
  have hden : (0 : ℚ) < den := Nat.cast_pos.mpr h
  -- the quotient is its whole part and a fraction, which is compared with a half
  have hsplit : (num : ℚ) / den = (num / den : ℕ) + (num % den : ℕ) / den := by
    have hnum : (num : ℚ) = den * (num / den : ℕ) + (num % den : ℕ) := by
      exact_mod_cast (Nat.div_add_mod num den).symm
    rw [div_eq_iff hden.ne', add_mul, div_mul_cancel₀ _ hden.ne', mul_comm]
    exact hnum
  have hfraction : 0 ≤ ((num % den : ℕ) : ℚ) / den ∧ ((num % den : ℕ) : ℚ) / den < 1 := by
    refine ⟨by positivity, (div_lt_one hden).mpr ?_⟩
    exact_mod_cast Nat.mod_lt num h
  have hhalf : ((num % den : ℕ) : ℚ) / den * (2 * den) = 2 * (num % den : ℕ) := by
    rw [mul_left_comm, div_mul_cancel₀ _ hden.ne']
  unfold roundQuotient
  rw [hsplit]
  generalize num / den = q at *
  generalize num % den = r at *
  generalize (r : ℚ) / den = f at *
  dsimp only
  split
  · rename_i hlow
    have hlow : (2 : ℚ) * r < den := by exact_mod_cast hlow
    have hf : f < 1 / 2 := by nlinarith
    have habs : |(q : ℚ) + f - ((q : ℕ) : ℤ)| = f := by
      rw [Int.cast_natCast, add_sub_cancel_left, abs_of_nonneg hfraction.1]
    refine ⟨habs.trans_le hf.le, fun he => ?_⟩
    rw [habs] at he
    exact absurd he hf.ne
  · split
    · rename_i hhigh
      have hhigh : (den : ℚ) < 2 * r := by exact_mod_cast hhigh
      have hf : 1 / 2 < f := by nlinarith
      have habs : |(q : ℚ) + f - ((q + 1 : ℕ) : ℤ)| = 1 - f := by
        push_cast
        rw [add_sub_add_left_eq_sub, abs_sub_comm, abs_of_nonneg (by linarith)]
      rw [IsRounded, habs]
      exact ⟨by linarith, fun he => by linarith⟩
    · rename_i hlow hhigh
      have hr : (2 : ℚ) * r = den := by exact_mod_cast (by omega : 2 * r = den)
      have hf : f = 1 / 2 := by nlinarith
      subst hf
      rcases Nat.mod_two_eq_zero_or_one q with heven | hodd
      · rw [heven, Nat.add_zero, IsRounded, Int.cast_natCast, add_sub_cancel_left]
        exact ⟨by norm_num, fun _ => by omega⟩
      · have habs : |(q : ℚ) + 1 / 2 - ((q + 1 : ℕ) : ℤ)| = 1 / 2 := by
          push_cast
          rw [add_sub_add_left_eq_sub]
          norm_num
        rw [hodd, IsRounded, habs]
        exact ⟨le_refl _, fun _ => by omega⟩

end Cantilena.Number
