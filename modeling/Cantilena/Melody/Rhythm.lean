/-!
# Rhythms

Each genre has a few one-bar rhythms. A rhythm is a list of slots, each with the step of the bar on
which it falls, its duration in steps and its accent.
-/

namespace Cantilena

/-- One note position in a bar. -/
structure Slot where
  step : Nat
  duration : Nat
  accent : Float
  deriving DecidableEq, Repr, Inhabited

/-- A one-bar rhythm. -/
abbrev Rhythm := List Slot

/-- The genres. -/
inductive Genre
  | pop | edm | hiphop | jazz
  deriving DecidableEq, Repr, Inhabited

namespace Genre

/-- The genres by name. -/
def names : List (String × Genre) :=
  [("pop", .pop), ("edm", .edm), ("hiphop", .hiphop), ("jazz", .jazz)]

/-- The name of a genre. -/
def name : Genre → String
  | .pop => "pop"
  | .edm => "edm"
  | .hiphop => "hiphop"
  | .jazz => "jazz"

/-- The names in order. -/
def available : List String := (names.map (·.1)).mergeSort (· ≤ ·)

/-- The genre of a name. -/
def ofName? (name : String) : Option Genre := names.lookup name

/-- The first rhythm of a genre. -/
def firstRhythm : Genre → Rhythm
  | .pop =>
    [⟨0, 2, 1.0⟩, ⟨2, 2, 0.6⟩, ⟨4, 2, 0.9⟩, ⟨6, 1, 0.7⟩, ⟨7, 1, 0.55⟩, ⟨8, 2, 0.85⟩,
      ⟨10, 2, 0.6⟩, ⟨12, 4, 0.95⟩]
  | .edm =>
    [⟨0, 2, 0.9⟩, ⟨2, 2, 0.7⟩, ⟨4, 2, 0.9⟩, ⟨6, 2, 0.7⟩, ⟨8, 2, 0.95⟩, ⟨10, 2, 0.7⟩,
      ⟨12, 2, 0.9⟩, ⟨14, 2, 0.7⟩]
  | .hiphop =>
    [⟨0, 2, 1.0⟩, ⟨3, 1, 0.55⟩, ⟨4, 2, 0.8⟩, ⟨7, 1, 0.5⟩, ⟨8, 3, 0.85⟩, ⟨12, 4, 0.9⟩]
  | .jazz =>
    [⟨0, 3, 0.9⟩, ⟨3, 1, 0.6⟩, ⟨4, 3, 0.85⟩, ⟨7, 1, 0.55⟩, ⟨8, 3, 0.9⟩, ⟨11, 1, 0.55⟩,
      ⟨12, 4, 0.8⟩]

/-- The other rhythms of a genre. -/
def otherRhythms : Genre → List Rhythm
  | .pop =>
    [[⟨0, 3, 1.0⟩, ⟨3, 1, 0.6⟩, ⟨4, 2, 0.9⟩, ⟨6, 2, 0.7⟩, ⟨8, 3, 0.95⟩, ⟨11, 1, 0.55⟩,
      ⟨12, 4, 0.9⟩]]
  | .edm => [[⟨0, 4, 1.0⟩, ⟨4, 2, 0.85⟩, ⟨6, 2, 0.65⟩, ⟨8, 4, 0.95⟩, ⟨12, 4, 0.9⟩]]
  | .hiphop =>
    [[⟨0, 2, 1.0⟩, ⟨2, 1, 0.6⟩, ⟨3, 1, 0.55⟩, ⟨4, 2, 0.85⟩, ⟨8, 2, 0.9⟩, ⟨10, 1, 0.6⟩,
      ⟨11, 1, 0.55⟩, ⟨12, 4, 0.9⟩]]
  | .jazz =>
    [[⟨0, 1, 0.8⟩, ⟨1, 1, 0.55⟩, ⟨2, 1, 0.55⟩, ⟨3, 1, 0.55⟩, ⟨4, 2, 0.85⟩, ⟨6, 2, 0.65⟩,
      ⟨8, 2, 0.9⟩, ⟨10, 2, 0.65⟩, ⟨12, 4, 0.85⟩]]

/-- All rhythms of a genre. -/
def rhythms (g : Genre) : List Rhythm := g.firstRhythm :: g.otherRhythms

end Genre

end Cantilena
