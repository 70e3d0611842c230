import Cantilena.Random.Source
import Cantilena.Scale

/-!
# Motifs

A motif is a short melodic fragment: a pitch class for some of the slots of a rhythm.

* `Motif.capture` -- stores a class under a slot;
* `Motif.size` -- the number of slots, if it can be counted;
* `Motif.classAt` -- the class of a slot, with slots past the end starting over;
* `Motif.varied` -- a class nudged by up to two semitones and put back on a scale.
-/

namespace Cantilena

/-- The classes of a fragment by slot; the first entry of a slot counts. -/
structure Motif where
  notes : List (Int × Int) := []
  deriving DecidableEq, Repr, Inhabited

namespace Motif

/-- Entries with one more; it takes the place of an entry of the same slot. -/
def put (slot pc : Int) : List (Int × Int) → List (Int × Int)
  | [] => [(slot, pc)]
  | (s, old) :: rest => if s = slot then (slot, pc) :: rest else (s, old) :: put slot pc rest

/-- A motif with a class stored under a slot. -/
def store (m : Motif) (slot pc : Int) : Motif := ⟨put slot (pc % 12) m.notes⟩

/-- Stores a class under a slot, which cannot be negative. -/
def capture (m : Motif) (slot pc : Int) : Except Fault Motif :=
  if slot < 0 then .error .slotNegative else .ok (m.store slot pc)

/-- The slot behind the last one stored. -/
def stop (m : Motif) : Int :=
  match m.notes with
  | [] => 0
  | (slot, _) :: rest => rest.foldl (fun top n => max top n.1) slot + 1

/-- The number of slots up to the last one stored. -/
def size (m : Motif) : Except Fault Nat :=
  if m.stop < 0 then .error .motifBeforeStart
  else if Source.countLimit ≤ m.stop then .error .tooManyToCount
  else .ok m.stop.toNat

/-- Whether nothing is stored. -/
def isEmpty (m : Motif) : Bool := m.notes.isEmpty

/-- The class of a slot. Slots past the end start over; one never stored has none. -/
def classAt (m : Motif) (slot : Int) : Except Fault (Option Int) := do
  let size ← m.size
  return if size = 0 then none else m.notes.lookup (slot % size)

/-- A class nudged by up to two semitones and put back on a scale. -/
def varied {σ : Type} (src : Source σ) (classes : List Int) (pc : Int) : Drawing σ Int := do
  let nudge ← src.choose (-2) [-1, 1, 2]
  return nearestIn classes (pc + nudge) % 12

end Motif

end Cantilena
