import Cantilena.Proofs.Number.Order
import Cantilena.Proofs.Random.Drawing

/-!
# Numbers from the unit interval

* `Source.DrawsUnits` -- a source whose numbers are from 0 on and below 1;
* `InUnit.not_above`, `InUnit.not_below` -- no such number is above one or more, and none is below
  nothing or less.
-/

namespace Cantilena

variable {σ : Type} {src : Source σ} {x y : Float}

/-- Whether a number is from 0 on and below 1. -/
def InUnit (x : Float) : Prop := 0.0 ≤ x ∧ x < 1.0

/-- A source whose numbers are from 0 on and below 1. -/
def Source.DrawsUnits (src : Source σ) : Prop := ∀ s, InUnit (src.unit s).1

theorem Source.drawsUnits_fixed (h : InUnit x) : (Source.fixed x).DrawsUnits := fun _ => h

theorem yields_draw_unit (h : src.DrawsUnits) : Yields src.draw InUnit :=
  fun s => ⟨(src.unit s).1, (src.unit s).2, rfl, h s⟩

/-- Nothing that is drawn is above one. -/
theorem InUnit.not_above (h : InUnit x) (hy : 1.0 ≤ y) : ¬ x > y :=
  Number.not_below_of_le (Number.le_of_lt (Number.lt_of_lt_le h.2 hy))

/-- Nothing that is drawn is below nothing. -/
theorem InUnit.not_below (h : InUnit x) (hy : y ≤ 0.0) : ¬ x < y :=
  Number.not_below_of_le (Number.le_of_le_le hy h.1)

end Cantilena
