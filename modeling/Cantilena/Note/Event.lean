import Cantilena.Note
import Cantilena.Number.Quantity

/-!
# Events

Melodies are written in notes on the tick grid. Settings that are fractions call for notes off the
grid as well, and what is written for both is written for events.

* `FineNote` -- a note whose pitch and ticks may be fractions;
* `Event` -- what notes and fine notes have in common;
* `startsBy`, `byStart` -- events by start;
* `onGrid?` -- the note that a fine note is.
-/

namespace Cantilena

/-- A note whose pitch and ticks may be fractions. -/
structure FineNote where
  pitch : Amount
  start : Amount
  length : Amount
  velocity : Int
  deriving DecidableEq, Repr, Inhabited

/-- A fine note from its four numbers; its pitch is within its range already. -/
def FineNote.make (pitch start length : Amount) (velocity : Int) : Except Fault FineNote :=
  if start < 0 then .error .startNegative
  else if length < 1 then .error .lengthTooShort
  else if velocity < 0 ∨ 127 < velocity then .error (Number.shows velocity (.velocityRange velocity))
  else .ok ⟨pitch, start, length, velocity⟩

/-- What sounds with a pitch at a tick, counted in numbers of some kind. -/
class Event (ε : Type) (ν : outParam Type) where
  make : (pitch start length : ν) → (velocity : Int) → Except Fault ε
  pitch : ε → ν
  start : ε → ν
  length : ε → ν
  velocity : ε → Int

instance : Event Note Int := ⟨Note.make, Note.pitch, Note.start, Note.length, Note.velocity⟩

instance : Event FineNote Amount :=
  ⟨FineNote.make, FineNote.pitch, FineNote.start, FineNote.length, FineNote.velocity⟩

section

variable {ε ν : Type} [Quantity ν] [Event ε ν]

/-- Whether an event does not start after another. -/
def startsBy (a b : ε) : Bool := !decide (Event.start b < Event.start a)

/-- Events by start; those that start together keep their order. -/
def byStart (events : List ε) : List ε := events.mergeSort startsBy

end

/-- The note that a fine note is, if all its numbers are whole. -/
def FineNote.onGrid? (n : FineNote) : Option Note := do
  let pitch ← n.pitch.whole?
  let start ← n.start.whole?
  let length ← n.length.whole?
  (Note.make pitch start length n.velocity).toOption

end Cantilena
