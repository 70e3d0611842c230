import Cantilena.Proofs.Number.Dyadic
import Mathlib.Data.Prod.Lex

/-!
# The order of floating-point numbers

Floating-point numbers are compared by the side of zero on which they are, then by their exponents,
then by their mantissas; below zero the other way round. So all that are numbers stand in a row.

* `placeOf` -- where a number stands in that row;
* `compare_eq_place`, `lt_iff_place`, `le_iff_place` -- comparisons of numbers are those of their
  places;
* `isNaN_of_lt`, `isNaN_of_le` -- what is compared are numbers, so comparisons go on from one to the
  next;
* `zero_le_iff` -- the numbers from 0 on.
-/

namespace Cantilena.Number

open Float.Model

/-- Where a number stands: its side of zero, its exponent and its mantissa. What is no number stands
    where zero does. -/
def placeOf : UnpackedFloat → ℤ ×ₗ ℤ ×ₗ ℤ
  | .infinity .negative => toLex (-2, toLex (0, 0))
  | .finite .negative m e _ => toLex (-1, toLex (-e, -(m : ℤ)))
  | .zero _ | .notANumber => toLex (0, toLex (0, 0))
  | .finite .positive m e _ => toLex (1, toLex (e, (m : ℤ)))
  | .infinity .positive => toLex (2, toLex (0, 0))

theorem compare_toLex {α β : Type} [LinearOrder α] [LinearOrder β] (a c : α) (b d : β) :
    compare (toLex (a, b)) (toLex (c, d)) = (compare a c).then (compare b d) := by
  rw [Prod.Lex.compare_def]
  rfl

theorem compare_neg (a b : ℤ) : compare (-a) (-b) = (compare a b).swap := by
  have hanti : StrictAnti fun n : ℤ => -n := fun _ _ h => Int.neg_lt_neg h
  rw [← cmp_eq_compare, ← cmp_eq_compare, cmp_swap]
  exact hanti.cmp_map_eq a b

theorem compare_natCast (m n : ℕ) : compare (m : ℤ) n = compare m n := by
  have hmono : StrictMono fun n : ℕ => (n : ℤ) := fun _ _ h => Int.ofNat_lt.mpr h
  rw [← cmp_eq_compare, ← cmp_eq_compare]
  exact hmono.cmp_map_eq m n

/-- **Numbers are compared by their places.** -/
theorem compare_eq_place {x y : UnpackedFloat} (hx : x ≠ .notANumber) (hy : y ≠ .notANumber) :
    x.compare y = some (compare (placeOf x) (placeOf y)) := by
  cases x with
  | notANumber => exact absurd rfl hx
  | infinity s =>
    cases y with
    | notANumber => exact absurd rfl hy
    | infinity t => cases s <;> cases t <;> rfl
    | zero t => cases s <;> rfl
    | finite t m e h => cases s <;> cases t <;> rfl
  | zero s =>
    cases y with
    | notANumber => exact absurd rfl hy
    | infinity t => cases t <;> rfl
    | zero t => rfl
    | finite t m e h => cases t <;> rfl
  | finite s m e h =>
    cases y with
    | notANumber => exact absurd rfl hy
    | infinity t => cases s <;> cases t <;> rfl
    | zero t => cases s <;> rfl
    | finite t n f h' =>
      cases s with
      | positive =>
        cases t with
        | positive =>
          show some ((compare e f).then (compare m n)) = some (compare (toLex (1, _)) (toLex (1, _)))
          rw [compare_toLex, compare_toLex, compare_natCast]
          rfl
        | negative => rfl
      | negative =>
        cases t with
        | positive => rfl
        | negative =>
          show some ((compare e f).then (compare m n)).swap
            = some (compare (toLex (-1, _)) (toLex (-1, _)))
          rw [compare_toLex, compare_toLex, compare_neg e, compare_neg m, compare_natCast,
            Ordering.swap_then]
          rfl

section

variable {x y : Float} (hx : x.isNaN = false) (hy : y.isNaN = false)

theorem isNaN_unpack (x : Float) : x.isNaN = x.toModel.unpack.isNaN := rfl

theorem unpack_ne_notANumber {x : Float} (hx : x.isNaN = false) :
    x.toModel.unpack ≠ .notANumber := by
  intro h
  rw [isNaN_unpack, h] at hx
  cases hx

/-- The place of a floating-point number. -/
def place (x : Float) : ℤ ×ₗ ℤ ×ₗ ℤ := placeOf x.toModel.unpack

include hx hy

theorem lt_iff_place : x < y ↔ place x < place y := by
  rw [lt_iff_compare, compare_eq_place (unpack_ne_notANumber hx) (unpack_ne_notANumber hy),
    Option.some_inj, compare_lt_iff_lt]
  rfl

theorem le_iff_place : x ≤ y ↔ place x ≤ place y := by
  show decide (x.toModel.unpack.le y.toModel.unpack = true) = true ↔ _
  rw [decide_eq_true_iff, UnpackedFloat.le,
    compare_eq_place (unpack_ne_notANumber hx) (unpack_ne_notANumber hy)]
  show (compare (place x) (place y)).isLE = true ↔ _
  rw [← compare_le_iff_le, Ordering.isLE_iff_ne_gt]

end

section

variable {x y z : Float}

/-- What is no number is neither below nor above anything. -/
theorem isNaN_of_compare {o : Ordering} (h : x.toModel.unpack.compare y.toModel.unpack = some o) :
    x.isNaN = false ∧ y.isNaN = false := by
  rw [isNaN_unpack, isNaN_unpack]
  cases hx : x.toModel.unpack with
  | notANumber =>
    rw [hx] at h
    cases h
  | infinity s =>
    cases hy : y.toModel.unpack with
    | notANumber =>
      rw [hx, hy] at h
      cases h
    | _ => exact ⟨rfl, rfl⟩
  | zero s =>
    cases hy : y.toModel.unpack with
    | notANumber =>
      rw [hx, hy] at h
      cases h
    | _ => exact ⟨rfl, rfl⟩
  | finite s m e hm =>
    cases hy : y.toModel.unpack with
    | notANumber =>
      rw [hx, hy] at h
      cases s <;> cases h
    | _ => exact ⟨rfl, rfl⟩

theorem isNaN_of_lt (h : x < y) : x.isNaN = false ∧ y.isNaN = false :=
  isNaN_of_compare (lt_iff_compare.mp h)

theorem isNaN_of_le (h : x ≤ y) : x.isNaN = false ∧ y.isNaN = false := by
  have h : decide (x.toModel.unpack.le y.toModel.unpack = true) = true := h
  rw [decide_eq_true_iff, UnpackedFloat.le] at h
  cases hc : x.toModel.unpack.compare y.toModel.unpack with
  | none =>
    rw [hc] at h
    cases h
  | some o => exact isNaN_of_compare hc

/-- Numbers compare by their places, and what is no number does not compare. -/
theorem le_iff : x ≤ y ↔ x.toModel.unpack ≠ .notANumber ∧ y.toModel.unpack ≠ .notANumber
    ∧ placeOf x.toModel.unpack ≤ placeOf y.toModel.unpack := by
  constructor
  · intro h
    obtain ⟨hx, hy⟩ := isNaN_of_le h
    exact ⟨unpack_ne_notANumber hx, unpack_ne_notANumber hy, (le_iff_place hx hy).mp h⟩
  · intro ⟨hx, hy, h⟩
    have hnan {z : Float} (hz : z.toModel.unpack ≠ .notANumber) : z.isNaN = false := by
      rw [isNaN_unpack]
      cases hu : z.toModel.unpack with
      | notANumber => exact absurd hu hz
      | _ => rfl
    exact (le_iff_place (hnan hx) (hnan hy)).mpr h

theorem le_of_lt (h : x < y) : x ≤ y := by
  obtain ⟨hx, hy⟩ := isNaN_of_lt h
  rw [lt_iff_place hx hy] at h
  exact (le_iff_place hx hy).mpr h.le

theorem lt_of_lt_le (h : x < y) (h' : y ≤ z) : x < z := by
  obtain ⟨hx, hy⟩ := isNaN_of_lt h
  have hz := (isNaN_of_le h').2
  rw [lt_iff_place hx hy] at h
  rw [le_iff_place hy hz] at h'
  exact (lt_iff_place hx hz).mpr (h.trans_le h')

theorem le_of_le_le (h : x ≤ y) (h' : y ≤ z) : x ≤ z := by
  obtain ⟨hx, hy⟩ := isNaN_of_le h
  have hz := (isNaN_of_le h').2
  rw [le_iff_place hx hy] at h
  rw [le_iff_place hy hz] at h'
  exact (le_iff_place hx hz).mpr (h.trans h')

theorem not_below_of_le (h : x ≤ y) : ¬ y < x := by
  obtain ⟨hx, hy⟩ := isNaN_of_le h
  rw [le_iff_place hx hy] at h
  rw [lt_iff_place hy hx]
  exact h.not_gt

end

/-- Whether a number is positive, or zero of either sign. -/
def IsNonneg : UnpackedFloat → Prop
  | .infinity s | .finite s _ _ _ => s = .positive
  | .zero _ => True
  | .notANumber => False

/-- **Such are the numbers from 0 on.** -/
theorem zero_le_iff {x : Float} : 0.0 ≤ x ↔ IsNonneg x.toModel.unpack := by
  have hzero : (0.0 : Float).toModel.unpack = .zero .positive := rfl
  rw [le_iff, hzero]
  cases x.toModel.unpack with
  | notANumber => exact iff_of_false (fun h => h.2.1 rfl) id
  | zero s =>
    refine iff_of_true ⟨UnpackedFloat.noConfusion, UnpackedFloat.noConfusion, le_refl _⟩ trivial
  | infinity s =>
    cases s with
    | positive =>
      exact iff_of_true ⟨UnpackedFloat.noConfusion, UnpackedFloat.noConfusion, by decide⟩ rfl
    | negative => exact iff_of_false (fun h => absurd h.2.2 (by decide)) UnpackedFloat.Sign.noConfusion
  | finite s m e hm =>
    cases s with
    | positive =>
      refine iff_of_true ⟨UnpackedFloat.noConfusion, UnpackedFloat.noConfusion, ?_⟩ rfl
      exact Prod.Lex.toLex_le_toLex.mpr (.inl Int.zero_lt_one)
    | negative =>
      refine iff_of_false (fun h => ?_) UnpackedFloat.Sign.noConfusion
      rcases Prod.Lex.toLex_le_toLex.mp h.2.2 with hlt | ⟨heq, -⟩
      · exact absurd (show (0 : ℤ) < -1 from hlt) (by decide)
      · exact absurd (show (0 : ℤ) = -1 from heq) (by decide)

end Cantilena.Number
