import Cantilena.Number.Numeral

/-!
# Notes on the tick grid

A tick is a sixteenth note. A note has a pitch and a velocity from 0 to 127, starts at tick 0 or
later and lasts at least one tick; the type holds no others.

* `Note.make` -- a note from its four numbers, or the cause for which there is none;
* `sortNotes` -- by start, then by pitch; notes alike in both keep their order.
-/

namespace Cantilena

/-- The four numbers of a note that can be. -/
def Note.Valid (pitch start length velocity : Int) : Prop :=
  (0 ≤ pitch ∧ pitch ≤ 127) ∧ 0 ≤ start ∧ 1 ≤ length ∧ 0 ≤ velocity ∧ velocity ≤ 127

instance (pitch start length velocity : Int) :
    Decidable (Note.Valid pitch start length velocity) := by
  unfold Note.Valid; infer_instance

/-- A note: its pitch, its first tick, its number of ticks and its velocity. -/
structure Note where
  pitch : Int
  start : Int
  length : Int
  velocity : Int
  valid : Note.Valid pitch start length velocity
  deriving DecidableEq, Repr

namespace Note

/-- The velocity of a note where none is given. -/
def defaultVelocity : Int := 100

/-- The velocity of a note of a block chord where none is given. -/
def chordVelocity : Int := 90

/-- A note from its four numbers. The first of them that is out of range is the cause if there is
    none. -/
def make (pitch start length velocity : Int) : Except Fault Note :=
  if hp : 0 ≤ pitch ∧ pitch ≤ 127 then
    if hs : 0 ≤ start then
      if hl : 1 ≤ length then
        if hv : 0 ≤ velocity ∧ velocity ≤ 127 then
          .ok ⟨pitch, start, length, velocity, hp, hs, hl, hv⟩
        else .error (Number.shows velocity (.velocityRange velocity))
      else .error .lengthTooShort
    else .error .startNegative
  else .error (Number.shows pitch (.pitchRange pitch))

/-- The first tick after a note. -/
def stop (n : Note) : Int := n.start + n.length

/-- The same note with another length of at least one tick. -/
def withLength (n : Note) (length : Int) (h : 1 ≤ length) : Note :=
  { n with length, valid := ⟨n.valid.1, n.valid.2.1, h, n.valid.2.2.2⟩ }

/-- Whether a note comes no later than another: by start, then by pitch. -/
def comesBy (a b : Note) : Bool := a.start < b.start || (a.start == b.start && a.pitch ≤ b.pitch)

theorem make_eq_ok {pitch start length velocity : Int} (h : Valid pitch start length velocity) :
    make pitch start length velocity = .ok ⟨pitch, start, length, velocity, h⟩ := by
  obtain ⟨hp, hs, hl, hv⟩ := h
  simp [make, hp, hs, hl, hv]

/-- The note that is made of four numbers has these numbers. -/
theorem of_make_eq_ok {pitch start length velocity : Int} {n : Note}
    (h : make pitch start length velocity = .ok n) :
    n.pitch = pitch ∧ n.start = start ∧ n.length = length ∧ n.velocity = velocity := by
  unfold make at h
  split at h
  · split at h
    · split at h
      · split at h
        · obtain rfl := Except.ok.inj h
          exact ⟨rfl, rfl, rfl, rfl⟩
        · cases h
      · cases h
    · cases h
  · cases h

end Note

/-- Notes by start, then by pitch. -/
def sortNotes (notes : List Note) : List Note := notes.mergeSort Note.comesBy

end Cantilena
