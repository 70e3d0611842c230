import Cantilena.Number.Dyadic

/-!
# Dyadic numbers and comparisons

Comparisons of binary floating-point numbers go by sign, mantissa and exponent; a dyadic number is
read off the bits. Both say the same.

* `unpack_cases` -- a finite number other than zero has its mantissa for units and its exponent for
  scale, and no other number has any units;
* `unpack_of_between` -- what lies between a fifth and one is such a number, and small;
* `nearest_fits` -- a quotient of a numerator far below the largest numbers does not overflow;
* `nearest_whole` -- a whole quotient of few bits is not rounded;
* `nearest_fits_of_le` -- where a whole number does not overflow, no smaller one does.
-/

namespace Cantilena.Number

open Float.Model Float.Model.UnpackedFloat

/-! ## 1. Bits -/

variable {x : Float}

theorem toNat_toBits (x : Float) : x.toBits.toNat = x.toModel.toBits.toNat := rfl

theorem toNat_unpackExponent (x : Float) :
    (unpackExponent x.toModel.toBits.toBitVec : BitVec Format.binary64.exponentBits).toNat
      = x.toBits.toNat / 2 ^ 52 % 2 ^ 11 := by
  rw [toNat_toBits]
  simp [unpackExponent, BitVec.extractLsb, BitVec.extractLsb', Nat.shiftRight_eq_div_pow]

theorem toNat_unpackMantissa (x : Float) :
    (unpackMantissa x.toModel.toBits.toBitVec
      : BitVec Format.binary64.mantissaBitsWithoutImplicit).toNat = x.toBits.toNat % 2 ^ 52 := by
  rw [toNat_toBits]
  simp [unpackMantissa, BitVec.extractLsb, BitVec.extractLsb']

theorem exponent_eq_iff (x : Float) (e : BitVec 11) :
    (unpackExponent x.toModel.toBits.toBitVec : BitVec Format.binary64.exponentBits) = e
      ↔ x.toBits.toNat / 2 ^ 52 % 2 ^ 11 = e.toNat := by
  rw [← toNat_unpackExponent]
  exact BitVec.toNat_inj.symm

theorem mantissa_eq_iff (x : Float) (m : BitVec 52) :
    (unpackMantissa x.toModel.toBits.toBitVec
      : BitVec Format.binary64.mantissaBitsWithoutImplicit) = m
      ↔ x.toBits.toNat % 2 ^ 52 = m.toNat := by
  rw [← toNat_unpackMantissa]
  exact BitVec.toNat_inj.symm

/-- The sign of a number. -/
def signOf (x : Float) : UnpackedFloat.Sign := if hasMinus x then .negative else .positive

theorem ofBitVec_unpackSign (x : Float) :
    Sign.ofBitVec (@unpackSign Format.binary64 x.toModel.toBits.toBitVec) = signOf x := by
  have hbits : x.toBits.toNat < 2 ^ 64 := x.toBits.toNat_lt
  have hsign : (@unpackSign Format.binary64 x.toModel.toBits.toBitVec).toNat
      = x.toBits.toNat / 2 ^ 63 := by
    show (x.toBits.toNat >>> 63) % 2 = _
    rw [Nat.shiftRight_eq_div_pow]
    omega
  unfold signOf hasMinus
  by_cases hminus : x.toBits.toNat ≥ 2 ^ 63
  · have hone : @unpackSign Format.binary64 x.toModel.toBits.toBitVec = 1#1 := by
      refine BitVec.eq_of_toNat_eq (hsign.trans ?_)
      show _ = 1
      omega
    rw [hone, decide_eq_true hminus]
    rfl
  · have hzero : @unpackSign Format.binary64 x.toModel.toBits.toBitVec = 0#1 := by
      refine BitVec.eq_of_toNat_eq (hsign.trans ?_)
      show _ = 0
      omega
    rw [hzero, decide_eq_false hminus]
    rfl

/-- A mantissa with its hidden bit. -/
theorem toNat_hidden (v : BitVec 52) : (1#1 ++ v).toNat = 2 ^ 52 + v.toNat := by
  show 2 ^ 52 ||| v.toNat = _
  rw [Nat.or_comm, Nat.or_two_pow_eq_add_of_lt v.isLt, Nat.add_comm]

theorem finite_congr {s s' : UnpackedFloat.Sign} {m m' : Nat} {e e' : Int} {h : 0 < m} {h' : 0 < m'}
    (hs : s = s') (hm : m = m') (he : e = e') :
    UnpackedFloat.finite s m e h = .finite s' m' e' h' := by
  subst hs hm he
  rfl

/-- **What the bits of a number are unpacked to, and which dyadic number they are**: none, or zero,
    or one with the mantissa for units and the exponent for scale. -/
theorem unpack_cases (x : Float) :
    (Dyadic.ofFloat? x = none
        ∧ (x.toModel.unpack = .notANumber ∨ x.toModel.unpack = .infinity (signOf x)))
      ∨ (∃ e, Dyadic.ofFloat? x = some ⟨0, e⟩ ∧ x.toModel.unpack = .zero (signOf x))
      ∨ ∃ m e h, Dyadic.ofFloat? x = some ⟨m, e⟩ ∧ m < 2 ^ 53
        ∧ x.toModel.unpack = .finite (signOf x) m e h := by
  have hm := toNat_unpackMantissa x
  have hlt : x.toBits.toNat % 2 ^ 52 < 2 ^ 52 := Nat.mod_lt _ (Nat.two_pow_pos 52)
  unfold Float.Model.unpack UnpackedFloat.unpack Dyadic.ofFloat?
  dsimp only
  rw [ofBitVec_unpackSign]
  by_cases hinf : x.toBits.toNat / 2 ^ 52 % 2 ^ 11 = 2047
  · -- all ones: the number is infinite or no number
    rw [if_pos ((exponent_eq_iff x (-1#11)).mpr hinf), if_pos hinf]
    refine .inl ⟨rfl, ?_⟩
    split
    · exact .inr rfl
    · exact .inl rfl
  · rw [if_neg fun h => hinf ((exponent_eq_iff x (-1#11)).mp h), if_neg hinf]
    by_cases hsmall : x.toBits.toNat / 2 ^ 52 % 2 ^ 11 = 0
    · have hleast := (exponent_eq_iff x 0#11).mpr hsmall
      rw [if_pos hleast, if_pos hsmall]
      by_cases hzero : x.toBits.toNat % 2 ^ 52 = 0
      · refine .inr (.inl ⟨-1074, by rw [hzero], ?_⟩)
        exact dif_pos ((mantissa_eq_iff x 0#52).mpr hzero)
      · refine .inr (.inr ⟨_, _, Nat.pos_of_ne_zero hzero, rfl, Nat.lt_trans hlt (by decide), ?_⟩)
        rw [dif_neg fun h => hzero ((mantissa_eq_iff x 0#52).mp h), hleast]
        exact finite_congr rfl hm rfl
    · rw [if_neg fun h => hsmall ((exponent_eq_iff x 0#11).mp h), if_neg hsmall]
      refine .inr (.inr ⟨_, _, Nat.lt_of_lt_of_le (Nat.two_pow_pos 52) (Nat.le_add_right _ _), rfl,
        by omega, ?_⟩)
      refine finite_congr rfl ?_ ?_
      · rw [toNat_hidden, hm]
      · rw [toNat_unpackExponent]
        rfl

/-- A finite number other than zero, as a dyadic number. -/
theorem ofFloat?_of_unpack {s : UnpackedFloat.Sign} {m : Nat} {e : Int} {h : 0 < m}
    (hu : x.toModel.unpack = .finite s m e h) :
    Dyadic.ofFloat? x = some ⟨m, e⟩ ∧ m < 2 ^ 53 := by
  rcases unpack_cases x with ⟨-, hx | hx⟩ | ⟨e', -, hx⟩ | ⟨m', e', h', hd, hlt, hx⟩
  · rw [hx] at hu
    cases hu
  · rw [hx] at hu
    cases hu
  · rw [hx] at hu
    cases hu
  · rw [hx] at hu
    obtain ⟨-, rfl, rfl⟩ := UnpackedFloat.finite.inj hu
    exact ⟨hd, hlt⟩

/-! ## 2. Between two numbers -/

theorem lt_iff_compare {x y : Float} :
    x < y ↔ x.toModel.unpack.compare y.toModel.unpack = some .lt := by
  show decide (Float.Model.lt x.toModel y.toModel = true) = true ↔ _
  rw [decide_eq_true_iff]
  show (x.toModel.unpack.compare y.toModel.unpack == some .lt) = true ↔ _
  rw [beq_iff_eq]

/-- A number between two positive ones is finite, and its exponent is not above that of the
    upper one. -/
theorem unpack_of_between {low high : Float} {m₁ m₂ : Nat} {e₁ e₂ : Int} {h₁ : 0 < m₁}
    {h₂ : 0 < m₂} (hlow : low.toModel.unpack = .finite .positive m₁ e₁ h₁)
    (hhigh : high.toModel.unpack = .finite .positive m₂ e₂ h₂) (hl : low < x) (hh : x < high) :
    ∃ m e h, x.toModel.unpack = .finite .positive m e h ∧ e ≤ e₂ := by
  rw [lt_iff_compare, hlow] at hl
  rw [lt_iff_compare, hhigh] at hh
  cases hx : x.toModel.unpack with
  | notANumber =>
    rw [hx] at hl
    cases hl
  | infinity s =>
    rw [hx] at hl hh
    cases s with
    | positive => cases hh
    | negative => cases hl
  | zero s =>
    rw [hx] at hl
    cases hl
  | finite s m e h =>
    rw [hx] at hl hh
    cases s with
    | negative => cases hl
    | positive =>
      refine ⟨m, e, h, rfl, ?_⟩
      have hc : (compare e e₂).then (compare m m₂) = .lt := Option.some.inj hh
      rcases Ordering.then_eq_lt.mp hc with h | h
      · exact Int.le_of_lt (Int.compare_eq_lt.mp h)
      · exact Int.le_of_eq (Int.compare_eq_eq.mp h.1)

/-! ## 3. Quotients -/

theorem roundQuotient_le_succ (num den : Nat) : roundQuotient num den ≤ num / den + 1 := by
  unfold roundQuotient
  simp only
  split
  · omega
  · split <;> omega

theorem roundQuotient_le (num den : Nat) : roundQuotient num den ≤ num + 1 :=
  Nat.le_trans (roundQuotient_le_succ num den) (Nat.succ_le_succ (Nat.div_le_self num den))

/-- **A quotient does not overflow where the numerator is far below the largest numbers.** -/
theorem nearest_fits {num den : Nat} (h : num < 2 ^ 100) :
    (Dyadic.nearest num den).overflows = false := by
  unfold Dyadic.nearest
  split
  · decide +kernel
  · rename_i hnum
    have hlog : num.log2 < 100 := (Nat.log2_lt hnum).mpr h
    have hguess : (num.log2 : Int) - den.log2 ≤ num.log2 := by omega
    generalize (num.log2 : Int) - den.log2 = guess at hguess
    simp only
    generalize hscale : (if den * 2 ^ guess.toNat ≤ num * 2 ^ (-guess).toNat then guess
      else guess - 1) - 52 = scale
    have hle : scale.toNat ≤ 100 := by
      split at hscale <;> omega
    have hunits := roundQuotient_le (num * 2 ^ (-scale).toNat) (den * 2 ^ scale.toNat)
    generalize roundQuotient (num * 2 ^ (-scale).toNat) (den * 2 ^ scale.toNat) = units at hunits
    have hone : 1 ≤ 2 ^ (-scale).toNat := Nat.one_le_two_pow
    have hbelow (n : Nat) (hn : 200 < n) : units * 2 ^ scale.toNat < 2 ^ n * 2 ^ (-scale).toNat := by
      calc units * 2 ^ scale.toNat
          ≤ (num * 2 ^ (-scale).toNat + 1) * 2 ^ scale.toNat := Nat.mul_le_mul_right _ hunits
        _ ≤ ((num + 1) * 2 ^ (-scale).toNat) * 2 ^ scale.toNat := by
            refine Nat.mul_le_mul_right _ ?_
            rw [Nat.add_mul, Nat.one_mul]
            exact Nat.add_le_add_left hone _
        _ ≤ (2 ^ 100 * 2 ^ (-scale).toNat) * 2 ^ 100 :=
            Nat.mul_le_mul (Nat.mul_le_mul_right _ h) (Nat.pow_le_pow_right (by decide) hle)
        _ = 2 ^ 200 * 2 ^ (-scale).toNat := by
            rw [Nat.mul_right_comm, ← Nat.pow_add]
        _ < 2 ^ n * 2 ^ (-scale).toNat :=
            Nat.mul_lt_mul_of_pos_right (Nat.pow_lt_pow_right (by decide) hn) hone
    unfold Dyadic.overflows Dyadic.num Dyadic.den
    rw [decide_eq_false_iff_not, Nat.not_le]
    generalize hn : 1024 = n
    exact hbelow n (hn ▸ by decide)

/-! ## 4. Whole quotients -/

/-- A whole quotient is not rounded. -/
theorem roundQuotient_mul {den : Nat} (h : 0 < den) (q : Nat) :
    roundQuotient (q * den) den = q := by
  unfold roundQuotient
  simp only [Nat.mul_mod_left, Nat.mul_div_cancel q h]
  rw [if_pos (by omega)]

theorem Dyadic.den_pos (d : Dyadic) : 0 < d.den := Nat.two_pow_pos _

/-- **A whole quotient of few bits is the nearest dyadic number to itself.** -/
theorem nearest_whole {den m : Nat} (hden : 0 < den) (hm : m < 2 ^ 53) :
    (Dyadic.nearest (m * den) den).num = m * (Dyadic.nearest (m * den) den).den := by
  unfold Dyadic.nearest
  split
  · rename_i hzero
    obtain rfl : m = 0 := (Nat.mul_eq_zero.mp hzero).resolve_right (by omega)
    rfl
  · rename_i hnum
    have hbelow : m * den < 2 ^ 53 * den := Nat.mul_lt_mul_of_pos_right hm hden
    have hguess : ((m * den).log2 : Int) - den.log2 ≤ 53 := by
      have hlog : (m * den).log2 < 53 + (den.log2 + 1) := by
        rw [Nat.log2_lt hnum, Nat.pow_add]
        exact Nat.lt_trans hbelow (Nat.mul_lt_mul_of_pos_left Nat.lt_log2_self (by decide))
      omega
    generalize ((m * den).log2 : Int) - den.log2 = guess at hguess
    simp only
    -- the guess is too high by one at most, and then it is taken back
    have horder : (if den * 2 ^ guess.toNat ≤ m * den * 2 ^ (-guess).toNat then guess
        else guess - 1) ≤ 52 := by
      split
      · rename_i hle
        refine Int.le_of_lt_add_one (Int.lt_iff_le_and_ne.mpr ⟨hguess, fun h => ?_⟩)
        obtain rfl : guess = 53 := h
        rw [show (-53 : Int).toNat = 0 from rfl, Nat.pow_zero, Nat.mul_one, Nat.mul_comm] at hle
        exact absurd hbelow (Nat.not_lt.mpr hle)
      · omega
    generalize (if den * 2 ^ guess.toNat ≤ m * den * 2 ^ (-guess).toNat then guess
        else guess - 1) = order at horder
    have hscale : (order - 52).toNat = 0 := by omega
    unfold Dyadic.num Dyadic.den
    simp only [hscale, Nat.pow_zero, Nat.mul_one]
    rw [Nat.mul_right_comm, roundQuotient_mul hden]

/-- Such a quotient does not overflow. -/
theorem nearest_whole_fits {den m : Nat} (hden : 0 < den) (hm : m < 2 ^ 53) :
    (Dyadic.nearest (m * den) den).overflows = false := by
  unfold Dyadic.overflows
  rw [decide_eq_false_iff_not, Nat.not_le, nearest_whole hden hm]
  generalize hbound : 1024 = bound
  refine Nat.mul_lt_mul_of_pos_right (Nat.lt_trans hm ?_) (Dyadic.den_pos _)
  exact Nat.pow_lt_pow_right (by decide) (hbound ▸ by decide)

theorem div_le_roundQuotient (num den : Nat) : num / den ≤ roundQuotient num den := by
  unfold roundQuotient
  simp only
  split
  · exact Nat.le_refl _
  · split <;> omega

/-! ## 5. Whole numbers that overflow -/

/-- A larger numerator does not have a smaller quotient. -/
theorem roundQuotient_mono {m n : Nat} (h : m ≤ n) (den : Nat) :
    roundQuotient m den ≤ roundQuotient n den := by
  rcases Nat.lt_or_eq_of_le (Nat.div_le_div_right (c := den) h) with hlt | heq
  · have := roundQuotient_le_succ m den
    have := div_le_roundQuotient n den
    omega
  · have hrest : m % den ≤ n % den := by
      have hm := Nat.div_add_mod m den
      have hn := Nat.div_add_mod n den
      rw [heq] at hm
      omega
    unfold roundQuotient
    simp only [heq]
    repeat' split
    all_goals omega

/-- A whole number overflows if it does when its last bits are rounded off. -/
theorem overflows_nearest_iff {n : Nat} (hne : n ≠ 0) :
    (Dyadic.nearest n 1).overflows = true
      ↔ 2 ^ 1024 ≤ roundQuotient n (2 ^ (n.log2 - 52)) * 2 ^ (n.log2 - 52) := by
  generalize hbound : 1024 = bound
  -- the scale is that of the highest bit, and so the units have all the bits they can have
  have horder : (if 1 * 2 ^ ((n.log2 : Int) - (1 : Nat).log2).toNat
      ≤ n * 2 ^ (-((n.log2 : Int) - (1 : Nat).log2)).toNat
      then (n.log2 : Int) - (1 : Nat).log2 else (n.log2 : Int) - (1 : Nat).log2 - 1)
        = n.log2 := by
    rw [show (1 : Nat).log2 = 0 from by decide, if_pos]
    · omega
    · rw [Int.natCast_zero, Int.sub_zero, Int.toNat_natCast, Nat.one_mul]
      exact Nat.le_trans (Nat.log2_self_le hne) (Nat.le_mul_of_pos_right _ (Nat.two_pow_pos _))
  have hscale : ((n.log2 : Int) - 52).toNat = n.log2 - 52 := by omega
  unfold Dyadic.overflows Dyadic.nearest
  rw [if_neg hne, hbound, decide_eq_true_iff]
  simp only [horder]
  simp only [Dyadic.num, Dyadic.den, hscale, Nat.one_mul]
  rcases Nat.le_total 52 n.log2 with hle | hle
  · have hnone : (-((n.log2 : Int) - 52)).toNat = 0 := by omega
    rw [hnone, Nat.pow_zero, Nat.mul_one, Nat.mul_one]
  · -- a short number has no bits to round off
    have hnone : n.log2 - 52 = 0 := by omega
    have hone (m : Nat) : roundQuotient m 1 = m := by
      have := roundQuotient_mul Nat.one_pos m
      rwa [Nat.mul_one] at this
    rw [hnone, Nat.pow_zero, Nat.mul_one, Nat.mul_one, hone, hone]
    exact Nat.mul_le_mul_right_iff (Nat.two_pow_pos _)

/-- A whole number that does not overflow is below the bound for numbers that do. -/
theorem lt_of_nearest_fits {n : Nat} (h : (Dyadic.nearest n 1).overflows = false) :
    n < 2 ^ 1024 := by
  refine Nat.lt_of_not_le fun hle => ?_
  have hne : n ≠ 0 := Nat.ne_of_gt (Nat.lt_of_lt_of_le (Nat.two_pow_pos 1024) hle)
  rw [Bool.eq_false_iff, Ne, overflows_nearest_iff hne] at h
  generalize hbound : 1024 = bound at h hle
  have hlog : bound ≤ n.log2 := (Nat.le_log2 hne).mpr hle
  obtain ⟨k, hk⟩ : ∃ k, n.log2 = k + 52 := ⟨n.log2 - 52, by omega⟩
  rw [hk, Nat.add_sub_cancel] at h
  refine h ?_
  calc 2 ^ bound
      ≤ 2 ^ n.log2 := Nat.pow_le_pow_right (by decide) hlog
    _ = 2 ^ 52 * 2 ^ k := by rw [hk, Nat.add_comm, Nat.pow_add]
    _ ≤ n / 2 ^ k * 2 ^ k := by
        refine Nat.mul_le_mul_right _ ((Nat.le_div_iff_mul_le (Nat.two_pow_pos k)).mpr ?_)
        rw [← Nat.pow_add, Nat.add_comm, ← hk]
        exact Nat.log2_self_le hne
    _ ≤ roundQuotient n (2 ^ k) * 2 ^ k := Nat.mul_le_mul_right _ (div_le_roundQuotient _ _)

/-- **A smaller whole number does not overflow either.** -/
theorem nearest_fits_of_le {m n : Nat} (hle : m ≤ n)
    (h : (Dyadic.nearest n 1).overflows = false) : (Dyadic.nearest m 1).overflows = false := by
  rcases Nat.eq_zero_or_pos m with rfl | hpos
  · decide +kernel
  have hm : m ≠ 0 := Nat.ne_of_gt hpos
  have hn : n ≠ 0 := by omega
  have hsmall := lt_of_nearest_fits h
  rw [Bool.eq_false_iff, Ne, overflows_nearest_iff hm]
  rw [Bool.eq_false_iff, Ne, overflows_nearest_iff hn] at h
  have hlogn : n.log2 < 1024 := (Nat.log2_lt hn).mpr hsmall
  generalize hk : m.log2 - 52 = k
  intro hover
  -- what is rounded up to the bound has as many bits as the larger number
  have hbits : m / 2 ^ k < 2 ^ 53 := by
    rw [Nat.div_lt_iff_lt_mul (Nat.two_pow_pos k), ← Nat.pow_add]
    exact Nat.lt_of_lt_of_le Nat.lt_log2_self (Nat.pow_le_pow_right (by decide) (by omega))
  have hunits : roundQuotient m (2 ^ k) ≤ 2 ^ 53 := Nat.le_trans (roundQuotient_le_succ _ _) hbits
  have hpow : 2 ^ 1024 ≤ 2 ^ (53 + k) := by
    rw [Nat.pow_add]
    exact Nat.le_trans hover (Nat.mul_le_mul_right _ hunits)
  have hlogm : 1024 ≤ 53 + k := (Nat.pow_le_pow_iff_right Nat.one_lt_two).mp hpow
  have hmono : m.log2 ≤ n.log2 :=
    (Nat.le_log2 hn).mpr (Nat.le_trans (Nat.log2_self_le hm) hle)
  have hsame : n.log2 - 52 = k := by omega
  rw [hsame] at h
  exact h (Nat.le_trans hover (Nat.mul_le_mul_right _ (roundQuotient_mono hle _)))

end Cantilena.Number
