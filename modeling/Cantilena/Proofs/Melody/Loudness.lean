import Cantilena.Melody.Phrase
import Cantilena.Proofs.Number.Dyadic

/-!
# Loudness

The loudness of a note is kept between a fifth and one, whatever is computed, and therefore has a
velocity.

* `velocityOf_kept` -- a loudness between a fifth and one has a velocity from 1 to 127.
-/

namespace Cantilena

open Number Float.Model

theorem unpack_fifth :
    (0.2 : Float).toModel.unpack = .finite .positive 7205759403792794 (-55) (by decide) := rfl

theorem unpack_one :
    (1.0 : Float).toModel.unpack = .finite .positive 4503599627370496 (-52) (by decide) := rfl

/-- A number kept between a fifth and one is finite and small. What is no number is kept too. -/
theorem ofFloat?_kept (x : Float) :
    ∃ d, Dyadic.ofFloat? (keepBetween 0.2 1.0 x) = some d ∧ d.num < 2 ^ 53 := by
  have hdyadic {y : Float} {m : Nat} {e : Int} {h : 0 < m}
      (hy : y.toModel.unpack = .finite .positive m e h) (he : e ≤ 0) :
      ∃ d, Dyadic.ofFloat? y = some d ∧ d.num < 2 ^ 53 := by
    obtain ⟨hd, hm⟩ := ofFloat?_of_unpack hy
    refine ⟨_, hd, ?_⟩
    rw [Dyadic.num, Int.toNat_of_nonpos he, Nat.pow_zero, Nat.mul_one]
    exact hm
  unfold keepBetween
  simp only
  by_cases hone : x < 1.0
  · rw [if_pos hone]
    split
    · rename_i hfifth
      obtain ⟨m, e, h, hx, he⟩ := unpack_of_between unpack_fifth unpack_one hfifth hone
      exact hdyadic hx (Int.le_trans he (by decide))
    · exact hdyadic unpack_fifth (by decide)
  · rw [if_neg hone]
    split
    · exact hdyadic unpack_one (by decide)
    · exact hdyadic unpack_fifth (by decide)

/-- **A loudness between a fifth and one has a velocity from 1 to 127.** -/
theorem velocityOf_kept (x : Float) :
    ∃ v, velocityOf (.real (keepBetween 0.2 1.0 x)) = .ok v ∧ 1 ≤ v ∧ v ≤ 127 := by
  obtain ⟨d, hd, hnum⟩ := ofFloat?_kept x
  have hfits : (Dyadic.nearest (127 * d.num) d.den).overflows = false := nearest_fits (by omega)
  refine ⟨_, by rw [velocityOf, hd]; simp only [hfits]; rfl, ?_⟩
  rw [keepBetween_eq]
  omega

end Cantilena
