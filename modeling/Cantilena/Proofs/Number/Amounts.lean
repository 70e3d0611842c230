import Cantilena.Number.Amount
import Cantilena.Proofs.Number.Packed
import Cantilena.Proofs.Outcome

/-!
# Amounts from zero on

* `not_le_zero_of_pos` -- an amount above zero is a number, and not below it;
* `toFloat_of_zero` -- an amount that is neither below nor above zero is a floating-point zero;
* `zero_le_toFloat` -- an amount from 0 on is a floating-point number from 0 on;
* `exists_toFloat_of_le`, `exists_toFloat_of_plus` -- where a whole number has a floating-point
  number near it, so has every smaller one; where a sum has one, so have its parts.
-/

namespace Cantilena

open Number Float.Model

variable {a : Amount} {x : Float} {m n : Int}

/-! ## 1. Amounts above zero -/

/-- A number above zero is a number, and not below it. -/
theorem not_le_zero_of_pos (h : 0 < a) : a.isNumber = true ∧ ¬ a ≤ 0 := by
  have hcompare : Amount.compare (.whole 0) a = some .lt := beq_iff_eq.mp h
  have hgt : a.isNumber = true ∧ a.compare (.whole 0) = some .gt := by
    cases a with
    | whole n =>
      refine ⟨rfl, congrArg some ?_⟩
      exact Int.compare_eq_gt.mpr (Int.compare_eq_lt.mp (Option.some.inj hcompare))
    | real x =>
      have hx : Amount.compareWhole 0 x = some .lt := hcompare
      refine ⟨rfl, ?_⟩
      show (Amount.compareWhole 0 x).map Ordering.swap = _
      rw [hx]
      rfl
    | missing cause => cases hcompare
  refine ⟨hgt.1, fun hle => ?_⟩
  have hle : a.atMost (.whole 0) = true := hle
  rw [Amount.atMost, Amount.below, hgt.2] at hle
  cases hle

theorem le_of_pos (h : 0 < a) : 0 ≤ a := by
  have hlt : Amount.below (.whole 0) a = true := h
  show Amount.atMost (.whole 0) a = true
  rw [Amount.atMost, hlt]
  rfl

/-! ## 2. Floating-point numbers from 0 on -/

theorem toFloat_zero : (Amount.whole 0).toFloat = .ok (Float.ofInt 0) := by
  have hnearest : Number.Dyadic.nearest (0 : Int).natAbs 1 = ⟨0, 0⟩ := if_pos rfl
  have hfits : (⟨0, 0⟩ : Number.Dyadic).overflows = false := by decide +kernel
  rw [Amount.toFloat, floatOfWhole, hnearest, hfits]
  rfl

/-- **An amount that is neither below nor above zero is a floating-point zero.** -/
theorem toFloat_of_zero (h : 0 ≤ a) (hpos : ¬ 0 < a) :
    ∃ z s, a.toFloat = .ok z ∧ z.toModel.unpack = .zero s := by
  have hle : Amount.atMost (.whole 0) a = true := h
  have hlt : ¬ Amount.below (.whole 0) a = true := hpos
  have hcompare : Amount.compare (.whole 0) a = some .eq := by
    rw [Amount.atMost, Bool.or_eq_true] at hle
    exact beq_iff_eq.mp (hle.resolve_left hlt)
  cases a with
  | whole n =>
    obtain rfl := Int.compare_eq_eq.mp (Option.some.inj hcompare)
    exact ⟨_, .positive, toFloat_zero, rfl⟩
  | real x =>
    have hcompare : Amount.compareWhole 0 x = some .eq := hcompare
    refine ⟨x, signOf x, rfl, ?_⟩
    unfold Amount.compareWhole at hcompare
    rcases unpack_cases x with ⟨hd, -⟩ | ⟨e, -, hx⟩ | ⟨m, e, hm, hd, -, -⟩
    · rw [hd] at hcompare
      simp only at hcompare
      split at hcompare
      · cases hcompare
      · split at hcompare <;> cases hcompare
    · exact hx
    · rw [hd] at hcompare
      have hnum : 0 < Number.Dyadic.num ⟨m, e⟩ := Nat.mul_pos hm (Nat.two_pow_pos _)
      have hsame := Int.compare_eq_eq.mp (Option.some.inj hcompare)
      rw [Int.zero_mul, signed] at hsame
      split at hsame <;> omega
  | missing cause => cases hcompare

theorem zero_le_of_pos (h : 0 < Amount.real x) : 0.0 ≤ x := by
  have hcompare : Amount.compareWhole 0 x = some .lt := beq_iff_eq.mp h
  have hsign (hminus : ¬ hasMinus x = true) : signOf x = .positive := if_neg hminus
  unfold Amount.compareWhole at hcompare
  rw [zero_le_iff]
  rcases unpack_cases x with ⟨hd, hx | hx⟩ | ⟨e, hd, hx⟩ | ⟨m, e, hm, hd, -, hx⟩
  · have hnan : x.isNaN = true := by
      rw [isNaN_unpack, hx]
      rfl
    rw [hd, hnan] at hcompare
    cases hcompare
  · have hnan : x.isNaN = false := by
      rw [isNaN_unpack, hx]
      rfl
    rw [hx]
    refine hsign fun hminus => ?_
    rw [hd, hnan, hminus] at hcompare
    cases hcompare
  · rw [hx]
    trivial
  · rw [hx]
    -- a number with a minus is not above zero
    refine hsign fun hminus => ?_
    rw [hd, hminus] at hcompare
    have hpos := Int.compare_eq_lt.mp (Option.some.inj hcompare)
    rw [Int.zero_mul, signed, if_pos rfl] at hpos
    omega

/-- Whether an amount is from 0 on if it is a whole number. -/
def FromZero (a : Amount) : Prop := ∀ n, a = .whole n → 0 ≤ n

theorem fromZero_of_nonneg (h : 0 ≤ a) : FromZero a := by
  intro n hn
  subst hn
  have hle : Amount.atMost (.whole 0) (.whole n) = true := h
  simpa [Amount.atMost, Amount.below, Amount.compare, Int.compare_eq_lt, Int.compare_eq_eq,
    ← Int.le_iff_lt_or_eq] using hle

/-- **An amount from 0 on is a floating-point number from 0 on**, also where it is rounded. -/
theorem zero_le_toFloat (h : 0 ≤ a) (hx : a.toFloat = .ok x) : 0.0 ≤ x := by
  by_cases hpos : 0 < a
  · cases a with
    | whole n =>
      have hn := fromZero_of_nonneg h n rfl
      obtain ⟨k, rfl⟩ := Int.eq_ofNat_of_zero_le hn
      rw [Amount.toFloat, floatOfWhole] at hx
      split at hx
      · cases hx
      · obtain rfl := Except.ok.inj hx
        exact zero_le_ofNat k
    | real y =>
      obtain rfl := Except.ok.inj hx
      exact zero_le_of_pos hpos
    | missing cause => cases hx
  · obtain ⟨z, s, hz, hzero⟩ := toFloat_of_zero h hpos
    obtain rfl := Except.ok.inj (hx.symm.trans hz)
    rw [zero_le_iff, hzero]
    trivial

/-! ## 3. Whole amounts -/

/-- **Where a whole number has a floating-point number near it, so has every smaller one.** -/
theorem exists_toFloat_of_le (hm : 0 ≤ m) (hle : m ≤ n)
    (h : (Amount.whole n).toFloat = .ok x) : ∃ y, (Amount.whole m).toFloat = .ok y := by
  rw [Amount.toFloat, floatOfWhole] at h
  rw [Amount.toFloat, floatOfWhole]
  cases hn : (Number.Dyadic.nearest n.natAbs 1).overflows with
  | true =>
    rw [hn] at h
    cases h
  | false =>
    rw [nearest_fits_of_le (by omega) hn]
    exact ⟨_, rfl⟩

/-! ## 4. Sums -/

theorem plus_of_real {b : Amount} (h : (∃ x, a = .real x) ∨ ∃ y, b = .real y) :
    a.plus b = do return .real ((← a.toFloat) + (← b.toFloat)) := by
  cases a with
  | missing cause => cases b <;> rfl
  | whole m =>
    obtain ⟨y, rfl⟩ := h.resolve_left nofun
    have hy : (Amount.real y).toFloat = .ok y := rfl
    cases hm : (Amount.whole m).toFloat <;>
    · rw [Amount.plus, Amount.combine, hm, hy]
      · rfl
      all_goals nofun
  | real x =>
    have hx : (Amount.real x).toFloat = .ok x := rfl
    cases b with
    | missing cause => rfl
    | real y => rfl
    | whole n =>
      cases hn : (Amount.whole n).toFloat <;>
      · rw [Amount.plus, Amount.combine, hn, hx]
        · rfl
        all_goals nofun

/-- A sum is made of whole numbers or of floating-point numbers. -/
theorem plus_eq_ok {b c : Amount} (h : a.plus b = .ok c) :
    (∃ m n, a = .whole m ∧ b = .whole n ∧ c = .whole (m + n))
      ∨ ∃ x y, a.toFloat = .ok x ∧ b.toFloat = .ok y ∧ c = .real (x + y) := by
  have hreal (h' : (∃ x, a = .real x) ∨ ∃ y, b = .real y) :
      ∃ x y, a.toFloat = .ok x ∧ b.toFloat = .ok y ∧ c = .real (x + y) := by
    rw [plus_of_real h'] at h
    obtain ⟨x, hx, h⟩ := bind_eq_ok.mp h
    obtain ⟨y, hy, h⟩ := bind_eq_ok.mp h
    exact ⟨x, y, hx, hy, (Except.ok.inj h).symm⟩
  cases a with
  | missing cause => cases b <;> cases h
  | real x => exact .inr (hreal (.inl ⟨x, rfl⟩))
  | whole m =>
    cases b with
    | missing cause => cases h
    | real y => exact .inr (hreal (.inr ⟨y, rfl⟩))
    | whole n => exact .inl ⟨m, n, rfl, rfl, (Except.ok.inj h).symm⟩

theorem fromZero_plus {b c : Amount} (ha : FromZero a) (hb : FromZero b) (h : a.plus b = .ok c) :
    FromZero c := by
  rcases plus_eq_ok h with ⟨m, n, rfl, rfl, rfl⟩ | ⟨y, z, -, -, rfl⟩
  · intro k hk
    obtain rfl := Amount.whole.inj hk
    exact Int.add_nonneg (ha m rfl) (hb n rfl)
  · exact nofun

/-- **Where a sum has a floating-point number near it, so have both of its parts.** A whole number
    below zero could hide a large one. -/
theorem exists_toFloat_of_plus {b c : Amount} (ha : FromZero a) (hb : FromZero b)
    (h : a.plus b = .ok c) (hc : c.toFloat = .ok x) :
    (∃ y, a.toFloat = .ok y) ∧ ∃ y, b.toFloat = .ok y := by
  rcases plus_eq_ok h with ⟨m, n, rfl, rfl, rfl⟩ | ⟨y, z, hy, hz, rfl⟩
  · have hm := ha m rfl
    have hn := hb n rfl
    exact ⟨exists_toFloat_of_le hm (by omega) hc, exists_toFloat_of_le hn (by omega) hc⟩
  · exact ⟨⟨y, hy⟩, ⟨z, hz⟩⟩

end Cantilena
