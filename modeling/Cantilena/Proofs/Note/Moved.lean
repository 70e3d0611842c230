import Cantilena.Note.Event
import Cantilena.Proofs.Note.Order
import Cantilena.Proofs.Outcome

/-!
# Notes moved in time

* `Note.later` -- a note that starts some ticks later;
* `Note.make_later_eq` -- the numbers of a note that starts later are checked as they were;
* `byStart_later` -- notes that are all moved keep their order.
-/

namespace Cantilena

/-- A note that starts some ticks later. -/
def Note.later (ticks : Nat) (n : Note) : Note :=
  { n with
    start := n.start + ticks
    valid := ⟨n.valid.1, Int.add_nonneg n.valid.2.1 (Int.natCast_nonneg ticks), n.valid.2.2⟩ }

@[simp] theorem Note.later_zero (n : Note) : n.later 0 = n := by
  simp [Note.later]

namespace Note

@[simp] theorem start_later (ticks : Nat) (n : Note) : (n.later ticks).start = n.start + ticks := rfl

/-- From the first tick on the numbers of a note are checked alike wherever it starts. -/
theorem make_later_eq {start : Int} (hstart : 0 ≤ start) (ticks : Nat)
    (pitch length velocity : Int) :
    make pitch (start + ticks) length velocity
      = (make pitch start length velocity).map (later ticks) := by
  have hlater : 0 ≤ start + ticks := Int.add_nonneg hstart (Int.natCast_nonneg ticks)
  by_cases hp : 0 ≤ pitch ∧ pitch ≤ 127
  · by_cases hl : 1 ≤ length
    · by_cases hv : 0 ≤ velocity ∧ velocity ≤ 127
      · rw [make_eq_ok ⟨hp, hstart, hl, hv⟩, make_eq_ok ⟨hp, hlater, hl, hv⟩]
        rfl
      · simp [make, hp, hstart, hlater, hl, hv, Except.map]
    · simp [make, hp, hstart, hlater, hl, Except.map]
  · simp [make, hp, Except.map]

theorem make_later {pitch start length velocity : Int} {n : Note} (ticks : Nat)
    (h : make pitch start length velocity = .ok n) :
    make pitch (start + ticks) length velocity = .ok (n.later ticks) := by
  by_cases hstart : 0 ≤ start
  · rw [make_later_eq hstart, h]
    rfl
  · by_cases hp : 0 ≤ pitch ∧ pitch ≤ 127
    · simp [make, hp, hstart] at h
    · simp [make, hp] at h

end Note

theorem startsBy_later (ticks : Nat) (a b : Note) :
    startsBy (a.later ticks) (b.later ticks) = startsBy a b := by
  show (!decide (b.start + ticks < a.start + ticks)) = !decide (b.start < a.start)
  rw [decide_eq_decide.mpr (Int.add_lt_add_iff_right (ticks : Int))]

/-- Notes that are all moved keep their order. -/
theorem byStart_later (ticks : Nat) (l : List Note) :
    byStart (l.map (Note.later ticks)) = (byStart l).map (Note.later ticks) :=
  byStart_map (startsBy_later ticks) l

end Cantilena
