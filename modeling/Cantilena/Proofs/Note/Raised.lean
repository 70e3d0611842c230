import Cantilena.Pitch
import Cantilena.Proofs.Note.Order

/-!
# Notes raised in pitch

A note can be raised as far as its new pitch is one of the pitches that notes have.

* `Note.raised` -- a note some semitones higher;
* `Note.CanRise` -- that the higher pitch is one of a note;
* `Note.make_raised` -- the numbers of a raised note are checked as those of the note;
* `byStart_raised` -- notes that are all raised keep their order.
-/

namespace Cantilena

namespace Note

/-- A note some semitones higher. It goes no higher and no lower than notes do. -/
def raised (semitones : Int) (n : Note) : Note :=
  { n with
    pitch := keepBetween Pitch.lowest Pitch.highest (n.pitch + semitones)
    valid := by
      refine ⟨?_, n.valid.2⟩
      rw [keepBetween_eq, Pitch.lowest, Pitch.highest]
      omega }

/-- That a note can be raised by some semitones. -/
def CanRise (semitones : Int) (n : Note) : Prop :=
  0 ≤ n.pitch + semitones ∧ n.pitch + semitones ≤ 127

/-- A note that can be raised is raised by all of the semitones. -/
theorem CanRise.pitch_raised {semitones : Int} {n : Note} (h : n.CanRise semitones) :
    (n.raised semitones).pitch = n.pitch + semitones := by
  obtain ⟨hlow, hhigh⟩ := h
  show keepBetween 0 127 (n.pitch + semitones) = n.pitch + semitones
  rw [keepBetween_eq]
  omega

/-- Among the pitches of notes the numbers of a note are checked alike on whichever it is. -/
theorem make_raised {pitch semitones : Int} (hpitch : 0 ≤ pitch ∧ pitch ≤ 127)
    (hraised : 0 ≤ pitch + semitones ∧ pitch + semitones ≤ 127) (start length velocity : Int) :
    make (pitch + semitones) start length velocity
      = (make pitch start length velocity).map (raised semitones) := by
  by_cases hs : 0 ≤ start
  · by_cases hl : 1 ≤ length
    · by_cases hv : 0 ≤ velocity ∧ velocity ≤ 127
      · have hrise : keepBetween 0 127 (pitch + semitones) = pitch + semitones := by
          rw [keepBetween_eq]
          omega
        rw [make_eq_ok ⟨hpitch, hs, hl, hv⟩, make_eq_ok ⟨hraised, hs, hl, hv⟩]
        simp only [Except.map, raised, Pitch.lowest, Pitch.highest, hrise]
      · simp [make, hpitch, hraised, hs, hl, hv, Except.map]
    · simp [make, hpitch, hraised, hs, hl, Except.map]
  · simp [make, hpitch, hraised, hs, Except.map]

end Note

/-- Notes that are all raised keep their order. -/
theorem byStart_raised (semitones : Int) (l : List Note) :
    byStart (l.map (Note.raised semitones)) = (byStart l).map (Note.raised semitones) :=
  byStart_map (f := Note.raised semitones) (fun _ _ => rfl) l

end Cantilena
