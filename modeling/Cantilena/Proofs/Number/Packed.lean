import Cantilena.Proofs.Number.Order

/-!
# Numbers packed into bits

The result of an operation on floating-point numbers is packed into bits, and the next operation
unpacks it. A mantissa of at most 53 bits comes back as it was, and so does its exponent unless the
mantissa is too short for it.

* `unpack_pack_finite` -- a packed finite number, unpacked again;
* `IsPacked`, `isPacked_unpack` -- what is unpacked from bits;
* `unpack_pack` -- hence it is packed and unpacked without a change.
-/

namespace Cantilena.Number

open Float.Model Float.Model.UnpackedFloat

/-! ## 1. Finite numbers -/

theorem unpackSign_packComponents (s : UnpackedFloat.Sign)
    (e : BitVec Format.binary64.exponentBits)
    (m : BitVec Format.binary64.mantissaBitsWithoutImplicit) :
    Sign.ofBitVec (unpackSign (packComponents Format.binary64 s e m)) = s := by
  have hsign : unpackSign (packComponents Format.binary64 s e m) = s.toBitVec := by
    show (s.toBitVec ++ e ++ m).extractLsb' 63 1 = s.toBitVec
    rw [BitVec.extractLsb'_append_eq_of_le (by decide),
      BitVec.extractLsb'_append_eq_of_le (by decide)]
    exact BitVec.extractLsb'_eq_self
  rw [hsign]
  cases s <;> rfl

theorem ofNat_ne {w n k : Nat} (hn : n < 2 ^ w) (hk : k < 2 ^ w) (h : n ≠ k) :
    BitVec.ofNat w n ≠ BitVec.ofNat w k := by
  intro he
  have he := congrArg BitVec.toNat he
  rw [BitVec.toNat_ofNat, BitVec.toNat_ofNat, Nat.mod_eq_of_lt hn, Nat.mod_eq_of_lt hk] at he
  exact h he

section

variable (s : UnpackedFloat.Sign) {e : BitVec 11} {m : BitVec 52}

/-- An exponent field that is neither the least nor the greatest is read with the highest bit of the
    mantissa, which is hidden. -/
theorem unpack_packComponents_normal (hones : e ≠ -1#11) (hzero : e ≠ 0#11) :
    ∃ h, UnpackedFloat.unpack Format.binary64 (packComponents Format.binary64 s e m)
      = .finite s (2 ^ 52 + m.toNat) (e.toNat - 1075) h := by
  have hexp : unpackExponent (packComponents Format.binary64 s e m) = e :=
    unpackExponent_packComponents
  have hmant : unpackMantissa (packComponents Format.binary64 s e m) = m :=
    unpackMantissa_packComponents
  rw [← hexp] at hones hzero
  refine ⟨Nat.lt_of_lt_of_le (Nat.two_pow_pos 52) (Nat.le_add_right _ _), ?_⟩
  unfold UnpackedFloat.unpack
  dsimp only
  rw [if_neg hones, if_neg hzero]
  refine finite_congr (unpackSign_packComponents s e m) ?_ ?_
  · rw [toNat_hidden, hmant]
  · rw [hexp]
    rfl

/-- The least exponent field is read with the mantissa as it is. -/
theorem unpack_packComponents_short (hm : m ≠ 0#52) :
    ∃ h, UnpackedFloat.unpack Format.binary64 (packComponents Format.binary64 s 0#11 m)
      = .finite s m.toNat (-1074) h := by
  have hexp : unpackExponent (packComponents Format.binary64 s 0#11 m) = 0#11 :=
    unpackExponent_packComponents
  have hmant : unpackMantissa (packComponents Format.binary64 s 0#11 m) = m :=
    unpackMantissa_packComponents
  have hones : unpackExponent (packComponents Format.binary64 s 0#11 m) ≠ -1#11 := by
    rw [hexp]
    decide
  refine ⟨Nat.pos_of_ne_zero fun h => hm (BitVec.eq_of_toNat_eq h), ?_⟩
  have hm' : unpackMantissa (packComponents Format.binary64 s 0#11 m) ≠ 0#52 := by
    rw [hmant]
    exact hm
  unfold UnpackedFloat.unpack
  dsimp only
  rw [if_neg hones, if_pos hexp, dif_neg hm']
  refine finite_congr (unpackSign_packComponents s 0#11 m) ?_ ?_
  · rw [hmant]
  · rw [hexp]
    rfl

end

/-- What a finite number is packed into: infinity, where the exponent has no field, and the field of the
    least exponent, where the mantissa lacks the highest bit. -/
theorem pack_finite (s : UnpackedFloat.Sign) {m : Nat} (e : Int) (hpos : 0 < m) :
    UnpackedFloat.pack Format.binary64 (.finite s m e hpos)
      = if 2048 ≤ (e + 1023 + 52).toNat + 1 then packedInfinity Format.binary64 s
        else if m.log2 + 1 = 53 then packComponents Format.binary64 s
          (BitVec.ofNat 11 (e + 1023 + 52).toNat) (BitVec.ofNat 52 m)
        else packComponents Format.binary64 s 0#11 (BitVec.ofNat 52 m) := rfl

/-- **A packed finite number, unpacked again.** A mantissa without the highest bit is read with the
    least exponent. -/
theorem unpack_pack_finite (s : UnpackedFloat.Sign) {m : Nat} {e : Int} (hpos : 0 < m)
    (hm : m < 2 ^ 53) (hlow : -1074 ≤ e) (hhigh : e ≤ 971) :
    (Float.Model.pack (.finite s m e hpos)).unpack
      = .finite s m (if m.log2 = 52 then e else -1074) hpos := by
  show UnpackedFloat.unpack Format.binary64 (UnpackedFloat.pack Format.binary64 _) = _
  rw [pack_finite, if_neg (by omega)]
  by_cases hlog : m.log2 = 52
  · -- the highest bit is hidden
    have hle : 2 ^ 52 ≤ m := hlog ▸ Nat.log2_self_le (Nat.ne_of_gt hpos)
    obtain ⟨_, hfinite⟩ := unpack_packComponents_normal s (m := BitVec.ofNat 52 m)
      (ofNat_ne (n := (e + 1023 + 52).toNat) (k := 2047) (by omega) (by decide) (by omega))
      (ofNat_ne (k := 0) (by omega) (by decide) (by omega))
    rw [if_pos (by omega), if_pos hlog, hfinite]
    refine finite_congr rfl ?_ ?_
    · rw [BitVec.toNat_ofNat]
      omega
    · rw [BitVec.toNat_ofNat, Nat.mod_eq_of_lt (by omega)]
      omega
  · have hlt : m.log2 < 53 := (Nat.log2_lt (Nat.ne_of_gt hpos)).mpr hm
    have hshort : m < 2 ^ 52 := (Nat.log2_lt (Nat.ne_of_gt hpos)).mp (by omega)
    obtain ⟨_, hfinite⟩ := unpack_packComponents_short s
      (ofNat_ne (k := 0) hshort (by decide) (Nat.ne_of_gt hpos))
    rw [if_neg (by omega), if_neg hlog, hfinite]
    refine finite_congr rfl ?_ rfl
    rw [BitVec.toNat_ofNat, Nat.mod_eq_of_lt hshort]

/-! ## 2. What is unpacked -/

/-- Whether a number is as it is unpacked from bits: a mantissa of at most 53 bits, an exponent in
    range, and the highest bit unless the exponent is the least one. -/
def IsPacked : UnpackedFloat → Prop
  | .finite _ m e _ => m < 2 ^ 53 ∧ -1074 ≤ e ∧ e ≤ 971 ∧ (e = -1074 ∨ 2 ^ 52 ≤ m)
  | _ => True

/-- **What is unpacked from bits is so.** -/
theorem isPacked_unpack (x : Float) : IsPacked x.toModel.unpack := by
  cases hu : x.toModel.unpack with
  | finite s m e hpos =>
    obtain ⟨hx, hm⟩ := ofFloat?_of_unpack hu
    have hfield : x.toBits.toNat / 2 ^ 52 % 2 ^ 11 < 2 ^ 11 := Nat.mod_lt _ (Nat.two_pow_pos 11)
    unfold Dyadic.ofFloat? at hx
    simp only at hx
    split at hx
    · cases hx
    · split at hx
      · obtain ⟨-, rfl⟩ := Dyadic.mk.inj (Option.some.inj hx)
        exact ⟨hm, Int.le_refl _, by decide, Or.inl rfl⟩
      · obtain ⟨rfl, rfl⟩ := Dyadic.mk.inj (Option.some.inj hx)
        exact ⟨hm, by omega, by omega, Or.inr (Nat.le_add_right _ _)⟩
  | _ => trivial

@[simp] theorem unpack_pack_notANumber :
    (Float.Model.pack .notANumber).unpack = .notANumber := rfl

@[simp] theorem unpack_pack_infinity (s : UnpackedFloat.Sign) :
    (Float.Model.pack (.infinity s)).unpack = .infinity s := by
  cases s <;> rfl

@[simp] theorem unpack_pack_zero (s : UnpackedFloat.Sign) :
    (Float.Model.pack (.zero s)).unpack = .zero s := by
  cases s <;> rfl

/-- **It is packed and unpacked without a change.** -/
theorem unpack_pack {u : UnpackedFloat} (h : IsPacked u) : (Float.Model.pack u).unpack = u := by
  cases u with
  | notANumber => exact unpack_pack_notANumber
  | infinity s => exact unpack_pack_infinity s
  | zero s => exact unpack_pack_zero s
  | finite s m e hpos =>
    obtain ⟨hm, hlow, hhigh, hfull⟩ := h
    rw [unpack_pack_finite s hpos hm hlow hhigh]
    refine finite_congr rfl rfl ?_
    split
    · rfl
    · rename_i hlog
      have hlt : m.log2 < 53 := (Nat.log2_lt (Nat.ne_of_gt hpos)).mpr hm
      rcases hfull with rfl | hle
      · rfl
      · have := (Nat.le_log2 (Nat.ne_of_gt hpos)).mpr hle
        omega

/-! ## 3. Numbers from 0 on -/

theorem isNonneg_pack {u : UnpackedFloat} (h : IsNonneg u) :
    IsNonneg (Float.Model.pack u).unpack := by
  cases u with
  | notANumber => exact h.elim
  | infinity s => rwa [unpack_pack_infinity]
  | zero s => rwa [unpack_pack_zero]
  | finite s m e hpos =>
    obtain rfl : s = .positive := h
    have hparts {e : BitVec 11} (hones : e ≠ -1#11) (m : BitVec 52) : IsNonneg
        (UnpackedFloat.unpack Format.binary64 (packComponents Format.binary64 .positive e m)) := by
      by_cases hzero : e = 0#11
      · subst hzero
        by_cases hm : m = 0#52
        · subst hm
          trivial
        · obtain ⟨_, hfinite⟩ := unpack_packComponents_short .positive hm
          rw [hfinite]
          rfl
      · obtain ⟨_, hfinite⟩ := unpack_packComponents_normal .positive (m := m) hones hzero
        rw [hfinite]
        rfl
    show IsNonneg (UnpackedFloat.unpack Format.binary64 (UnpackedFloat.pack Format.binary64 _))
    rw [pack_finite]
    split
    · exact rfl
    · split
      · exact hparts (ofNat_ne (k := 2047) (by omega) (by decide) (by omega)) _
      · exact hparts (by decide) _

/-- What is rounded is zero, or has the mantissa and the exponent of the second shift. -/
theorem roundWithAccuracy_cases (s : UnpackedFloat.Sign) (m : Nat) (e : Int) (a : Accuracy) :
    let first := shiftToTargetExponent Format.binary64 m e a
    let last := shiftToTargetExponent Format.binary64 first.1.roundedMantissa first.2 .exact
    roundWithAccuracy Format.binary64 s m e a = .zero s
      ∨ ∃ h, roundWithAccuracy Format.binary64 s m e a = .finite s last.1.mantissa last.2 h := by
  intro first last
  by_cases h : last.1.mantissa = 0
  · exact .inl (dif_pos h)
  · exact .inr ⟨Nat.pos_of_ne_zero h, dif_neg h⟩

theorem isNonneg_round (m : Nat) (e : Int) (a : Accuracy) :
    IsNonneg (roundWithAccuracy Format.binary64 .positive m e a) := by
  rcases roundWithAccuracy_cases .positive m e a with hround | ⟨_, hround⟩
  · rw [hround]
    trivial
  · rw [hround]
    rfl

theorem isNonneg_mul_finite {u : UnpackedFloat} (hu : IsNonneg u) (m : Nat) (e : Int)
    (h : 0 < m) : IsNonneg (UnpackedFloat.mul Format.binary64 u (.finite .positive m e h)) := by
  cases u with
  | notANumber => exact hu.elim
  | zero s => trivial
  | infinity s =>
    obtain rfl : s = .positive := hu
    rfl
  | finite s n f hn =>
    obtain rfl : s = .positive := hu
    exact isNonneg_round _ _ _

theorem isNonneg_ofNat (n : Nat) : IsNonneg (UnpackedFloat.ofNat Format.binary64 n) := by
  unfold UnpackedFloat.ofNat UnpackedFloat.ofInt UnpackedFloat.normalize
  cases hc : compare (n : Int) 0 with
  | lt => exact absurd (Int.compare_eq_lt.mp hc) (by omega)
  | eq => trivial
  | gt => exact isNonneg_round _ _ _

/-- A number counted is from 0 on, also where it is rounded. -/
theorem zero_le_ofNat (n : Nat) : 0.0 ≤ Float.ofNat n := by
  have hone : (Float.ofBits 4607182418800017408).toModel.unpack
      = .finite .positive (2 ^ 52) (-52) (by decide) := rfl
  show 0.0 ≤ Float.ofScientific n false 0
  unfold Float.ofScientific
  split
  · rw [zero_le_iff]
    show IsNonneg (Float.Model.pack (UnpackedFloat.mul Format.binary64 (Float.Model.pack
      (UnpackedFloat.ofNat Format.binary64 n.toUInt64.toNat)).unpack
      (Float.ofBits 4607182418800017408).toModel.unpack)).unpack
    rw [hone]
    exact isNonneg_pack (isNonneg_mul_finite (isNonneg_pack (isNonneg_ofNat _)) _ _ _)
  · rw [zero_le_iff]
    show IsNonneg (Float.Model.pack (UnpackedFloat.ofScientific Format.binary64 n 0)).unpack
    refine isNonneg_pack ?_
    unfold UnpackedFloat.ofScientific
    by_cases hn : n = 0
    · rw [dif_pos hn]
      trivial
    · have hfew : ¬ (0 : Int) > 2 ^ Format.binary64.exponentBits := by decide
      have hmany : ¬ (0 : Int) < -(2 ^ Format.binary64.exponentBits + n.log2) := by
        show ¬ (0 : Int) < -(2048 + n.log2)
        omega
      rw [dif_neg hn, if_neg hfew, if_neg hmany, if_pos (le_refl 0)]
      refine isNonneg_mul_finite ?_ _ _ _
      rfl

/-- Zero and a number from 0 on add up to such a number. -/
theorem zero_le_zero_add {x : Float} (h : 0.0 ≤ x) : 0.0 ≤ 0.0 + x := by
  rw [zero_le_iff] at h ⊢
  show IsNonneg (Float.Model.pack
    (UnpackedFloat.add Format.binary64 (.zero .positive) x.toModel.unpack)).unpack
  refine isNonneg_pack ?_
  cases hu : x.toModel.unpack with
  | notANumber =>
    rw [hu] at h
    exact h.elim
  | zero s => cases s <;> trivial
  | infinity s => rwa [hu] at h
  | finite s m e hpos => rwa [hu] at h

end Cantilena.Number
