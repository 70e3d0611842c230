import Cantilena.Proofs.Number.Packed

/-!
# Sums with zero and parts of a number

* `le_add_zero_iff` -- a number with zero added to it compares as it did;
* `shift_spec` -- what a shift to the exponent of the format does to a mantissa;
* `round_below` -- a number below another one is not rounded beyond it;
* `mul_le_right` -- the part of a number that a share from 0 on and below 1 makes is not above it.
-/

namespace Cantilena.Number

open Float.Model Float.Model.UnpackedFloat

/-! ## 1. Sums with zero -/

/-- A number with zero added to it. The sign of zero may change. -/
theorem unpack_add_zero {x z : Float} {s : UnpackedFloat.Sign} (hz : z.toModel.unpack = .zero s) :
    (x + z).toModel.unpack = x.toModel.unpack
      ∨ ∃ s₁ s₂, x.toModel.unpack = .zero s₁ ∧ (x + z).toModel.unpack = .zero s₂ := by
  have hsum : (x + z).toModel.unpack = (Float.Model.pack
      (UnpackedFloat.add Format.binary64 x.toModel.unpack z.toModel.unpack)).unpack := rfl
  have hx := isPacked_unpack x
  rw [hsum, hz]
  cases hu : x.toModel.unpack with
  | notANumber => exact .inl unpack_pack_notANumber
  | infinity s₁ => exact .inl (unpack_pack_infinity s₁)
  | zero s₁ =>
    have hzero : ∃ s₂, UnpackedFloat.add Format.binary64 (.zero s₁) (.zero s) = .zero s₂ := by
      cases s₁ <;> cases s <;> exact ⟨_, rfl⟩
    obtain ⟨s₂, hs₂⟩ := hzero
    rw [hs₂]
    exact .inr ⟨s₁, s₂, rfl, unpack_pack_zero s₂⟩
  | finite s₁ m e hpos =>
    rw [hu] at hx
    exact .inl (unpack_pack hx)

/-- **A number with zero added to it compares as it did.** -/
theorem le_add_zero_iff {x y z : Float} {s : UnpackedFloat.Sign}
    (hz : z.toModel.unpack = .zero s) : y ≤ x + z ↔ y ≤ x := by
  rcases unpack_add_zero (x := x) hz with h | ⟨s₁, s₂, hx, h⟩
  · rw [le_iff, le_iff, h]
  · -- both zeros stand at one place
    rw [le_iff, le_iff, hx, h]
    refine and_congr_right fun _ => and_congr_left fun _ => ?_
    exact iff_of_true UnpackedFloat.noConfusion UnpackedFloat.noConfusion

/-! ## 2. Rounding -/

theorem mantissa_shift (m : ExtendedMantissa) (k : Nat) :
    (m >>> k).mantissa = m.mantissa / 2 ^ k := by
  induction k with
  | zero => exact (Nat.div_one _).symm
  | succ k ih =>
    show (m >>> k).mantissa / 2 = _
    rw [ih, Nat.div_div_eq_div_mul, Nat.pow_succ]

theorem roundedMantissa_le (m : ExtendedMantissa) : m.roundedMantissa ≤ m.mantissa + 1 := by
  obtain ⟨mantissa, roundBit, stickyBit⟩ := m
  have hodd : mantissa + mantissa % 2 ≤ mantissa + 1 := by omega
  cases roundBit <;> cases stickyBit
  · exact Nat.le_succ _
  · exact Nat.le_succ _
  · exact hodd
  · exact Nat.le_refl _

/-- **What a shift to the exponent of the format does to a mantissa**: it drops so many bits that
    at most 53 are left and the exponent is not below the least one, and no more than that. -/
theorem shift_spec (m : Nat) (e : Int) :
    ∃ k : Nat, (shiftToTargetExponent Format.binary64 m e .exact).2 = e + k
      ∧ (shiftToTargetExponent Format.binary64 m e .exact).1.mantissa = m / 2 ^ k
      ∧ -1074 ≤ e + k ∧ m / 2 ^ k < 2 ^ 53
      ∧ ∀ top : Int, e ≤ top → -1074 ≤ top → m < 2 ^ 53 * 2 ^ (top - e).toNat → e + k ≤ top := by
  have htarget : Format.binary64.targetExponent (totalExponent m e)
      = max ((m.log2 : Int) + 1 + e - 53) (-1074) := rfl
  unfold shiftToTargetExponent shiftToExponent
  rw [htarget]
  dsimp only
  generalize hk : (max ((m.log2 : Int) + 1 + e - 53) (-1074) - e).toNat = k
  refine ⟨k, rfl, mantissa_shift _ k, by omega, ?_, fun top hle hlow hm => ?_⟩
  · rw [Nat.div_lt_iff_lt_mul (Nat.two_pow_pos k), ← Nat.pow_add]
    refine Nat.lt_of_lt_of_le Nat.lt_log2_self (Nat.pow_le_pow_right (by decide) (by omega))
  · rw [← Nat.pow_add] at hm
    rcases Nat.eq_zero_or_pos m with rfl | hpos
    · have hzero : Nat.log2 0 = 0 := by decide
      omega
    · have := (Nat.log2_lt (Nat.ne_of_gt hpos)).mpr hm
      omega

/-- **A number below another one is not rounded beyond it.** -/
theorem round_below {m n : Nat} {e top : Int} (hn : n < 2 ^ 53) (htop : -1074 ≤ top)
    (hle : e ≤ top) (hm : m < n * 2 ^ (top - e).toNat) (s : UnpackedFloat.Sign) :
    roundWithAccuracy Format.binary64 s m e .exact = .zero s
      ∨ ∃ m' e' h, roundWithAccuracy Format.binary64 s m e .exact = .finite s m' e' h
        ∧ m' < 2 ^ 53 ∧ -1074 ≤ e' ∧ e' ≤ top ∧ (e' = top → m' ≤ n) := by
  obtain ⟨k, he₁, hm₁, hlow₁, -, hmost₁⟩ := shift_spec m e
  have htop₁ : e + k ≤ top := hmost₁ top hle htop
    (Nat.lt_of_lt_of_le hm (Nat.mul_le_mul_right _ (Nat.le_of_lt hn)))
  -- the first shift leaves a mantissa below the other one, and rounding does not go beyond it
  have hsplit : (top - e).toNat = (top - (e + k)).toNat + k := by omega
  have hfirst : (shiftToTargetExponent Format.binary64 m e .exact).1.roundedMantissa
      ≤ n * 2 ^ (top - (e + k)).toNat := by
    have hround := roundedMantissa_le (shiftToTargetExponent Format.binary64 m e .exact).1
    rw [hsplit, Nat.pow_add, ← Nat.mul_assoc, ← Nat.div_lt_iff_lt_mul (Nat.two_pow_pos k)] at hm
    omega
  have hcases := roundWithAccuracy_cases s m e .exact
  dsimp only at hcases
  generalize hem : shiftToTargetExponent Format.binary64 m e .exact = first at *
  obtain ⟨m₁, e₁⟩ := first
  dsimp only at *
  subst he₁
  generalize m₁.roundedMantissa = r at *
  -- the second shift drops what rounding may have added in front
  obtain ⟨k', he₂, hm₂, hlow₂, hfits₂, hmost₂⟩ := shift_spec r (e + k)
  have htop₂ : e + k + k' ≤ top := hmost₂ top htop₁ htop
    (Nat.lt_of_le_of_lt hfirst (Nat.mul_lt_mul_of_pos_right hn (Nat.two_pow_pos _)))
  rcases hcases with hround | ⟨hpos, hround⟩
  · exact .inl hround
  · refine .inr ⟨_, _, hpos, hround, ?_, ?_, ?_, fun he => ?_⟩
    · rw [hm₂]
      exact hfits₂
    · rw [he₂]
      exact hlow₂
    · rw [he₂]
      exact htop₂
    · rw [he₂] at he
      rw [hm₂]
      have hk' : (top - (e + k)).toNat = k' := by omega
      rw [hk'] at hfirst
      exact Nat.div_le_of_le_mul (by rwa [Nat.mul_comm])

/-! ## 3. Parts of a number -/

/-- A number from 0 on is zero, or positive and finite, or positive and infinite. -/
theorem unpack_of_nonneg {x : Float} (h : 0.0 ≤ x) :
    (∃ s, x.toModel.unpack = .zero s) ∨ x.toModel.unpack = .infinity .positive
      ∨ ∃ m e hpos, x.toModel.unpack = .finite .positive m e hpos := by
  have hx := zero_le_iff.mp h
  cases hu : x.toModel.unpack with
  | notANumber =>
    rw [hu] at hx
    exact hx.elim
  | zero s => exact .inl ⟨s, rfl⟩
  | infinity s =>
    rw [hu] at hx
    obtain rfl : s = .positive := hx
    exact .inr (.inl rfl)
  | finite s m e hpos =>
    rw [hu] at hx
    obtain rfl : s = .positive := hx
    exact .inr (.inr ⟨m, e, hpos, rfl⟩)

/-- A number from 0 on and below 1 is zero, or finite with an exponent so small that its mantissa
    stands behind the point. -/
theorem unpack_of_share {x : Float} (h : 0.0 ≤ x) (hone : x < 1.0) :
    (∃ s, x.toModel.unpack = .zero s)
      ∨ ∃ m e hpos, x.toModel.unpack = .finite .positive m e hpos ∧ m < 2 ^ 53 ∧ e ≤ -53 := by
  have hunit : (1.0 : Float).toModel.unpack = .finite .positive (2 ^ 52) (-52) (by decide) := rfl
  obtain ⟨hx, hy⟩ := isNaN_of_lt hone
  have hplace := (lt_iff_place hx hy).mp hone
  rw [place, place, hunit] at hplace
  rcases unpack_of_nonneg h with hzero | hinf | ⟨m, e, hpos, hfin⟩
  · exact .inl hzero
  · rw [hinf] at hplace
    exact absurd hplace (by decide)
  · have hpacked := isPacked_unpack x
    rw [hfin] at hpacked hplace
    obtain ⟨hm, hlow, -, hfull⟩ := hpacked
    refine .inr ⟨m, e, hpos, hfin, hm, ?_⟩
    rcases Prod.Lex.toLex_lt_toLex.mp hplace with hside | ⟨-, hsize⟩
    · exact absurd hside (lt_irrefl _)
    · have hsize := Prod.Lex.toLex_lt_toLex.mp hsize
      dsimp only at hsize
      omega

theorem placeOf_zero_le (s : UnpackedFloat.Sign) {n : Nat} (top : Int) (hn : 0 < n) :
    placeOf (.zero s) ≤ placeOf (.finite .positive n top hn) := by
  exact Prod.Lex.toLex_le_toLex.mpr (.inl Int.zero_lt_one)

/-- A number that is packed does not go beyond one that it is not above. -/
theorem placeOf_pack_le {m n : Nat} {e top : Int} (hpos : 0 < m) (hn : 0 < n) (hm : m < 2 ^ 53)
    (hlow : -1074 ≤ e) (hle : e ≤ top) (htop : top ≤ 971) (hlast : e = top → m ≤ n) :
    placeOf (Float.Model.pack (.finite .positive m e hpos)).unpack
      ≤ placeOf (.finite .positive n top hn) := by
  rw [unpack_pack_finite .positive hpos hm hlow (Int.le_trans hle htop)]
  refine Prod.Lex.toLex_le_toLex.mpr (.inr ⟨rfl, Prod.Lex.toLex_le_toLex.mpr ?_⟩)
  dsimp only
  split <;> omega

/-- **The part of a number that a share makes is not above it.** Only nothing of infinity is no
    number. -/
theorem mul_le_right {x y : Float} (h : 0.0 ≤ x) (hone : x < 1.0) (hy : 0.0 ≤ y)
    (hnan : (x * y).isNaN = false) : x * y ≤ y := by
  have hproduct : (x * y).toModel.unpack = (Float.Model.pack
      (UnpackedFloat.mul Format.binary64 x.toModel.unpack y.toModel.unpack)).unpack := rfl
  have hsign : (Sign.positive * Sign.positive : UnpackedFloat.Sign) = .positive := rfl
  have hne := unpack_ne_notANumber hnan
  refine le_iff.mpr ⟨hne, unpack_ne_notANumber (isNaN_of_le hy).2, ?_⟩
  rw [hproduct] at hne ⊢
  rcases unpack_of_share h hone with ⟨s, hx⟩ | ⟨m, e, hpos, hx, hm, he⟩
  · -- nothing of a number is nothing
    rw [hx] at hne ⊢
    rcases unpack_of_nonneg hy with ⟨t, hy⟩ | hy | ⟨n, top, hn, hy⟩
    · rw [hy]
      show placeOf (Float.Model.pack (.zero (s * t))).unpack ≤ _
      rw [unpack_pack_zero]
      exact le_refl _
    · rw [hy] at hne
      exact absurd unpack_pack_notANumber hne
    · rw [hy]
      show placeOf (Float.Model.pack (.zero (s * .positive))).unpack ≤ _
      rw [unpack_pack_zero]
      exact placeOf_zero_le _ top hn
  · rw [hx] at hne ⊢
    rcases unpack_of_nonneg hy with ⟨t, hy⟩ | hy | ⟨n, top, hn, hy⟩
    · rw [hy]
      show placeOf (Float.Model.pack (.zero (.positive * t))).unpack ≤ _
      rw [unpack_pack_zero]
      exact le_refl _
    · rw [hy]
      show placeOf (Float.Model.pack (.infinity (.positive * .positive))).unpack ≤ _
      rw [hsign, unpack_pack_infinity]
    · -- the product is below the number before it is rounded
      have hpacked := isPacked_unpack y
      rw [hy] at hpacked
      obtain ⟨hn₁, hlow, hhigh, -⟩ := hpacked
      have hbelow : m * n < n * 2 ^ (top - (e + top)).toNat := by
        rw [Nat.mul_comm]
        refine Nat.mul_lt_mul_of_pos_left (Nat.lt_of_lt_of_le hm ?_) hn
        exact Nat.pow_le_pow_right (by decide) (by omega)
      rw [hy]
      show placeOf (Float.Model.pack (roundWithAccuracy Format.binary64 (.positive * .positive)
        (m * n) (e + top) .exact)).unpack ≤ _
      rw [hsign]
      rcases round_below hn₁ hlow (by omega) hbelow .positive with hround | hround
      · rw [hround, unpack_pack_zero]
        exact placeOf_zero_le _ top hn
      · obtain ⟨m', e', hpos', hround, hm', hlow', hle', hlast⟩ := hround
        rw [hround]
        exact placeOf_pack_le hpos' hn hm' hlow' hle' hhigh hlast

end Cantilena.Number
