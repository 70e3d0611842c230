import Cantilena.Pitch
import Cantilena.Text.Blank
import Cantilena.Text.Lowercase

/-!
# Chords and chord symbols

A chord is a root class, a triad and at most one seventh.

* `Chord.tones`, `Chord.pitchClasses`, `Chord.name` -- what it sounds and how it is named;
* `Chord.make` -- a chord from the names of its triad and its seventh;
* `Chord.ofSymbol?` -- reads the symbols of chord charts, leniently: what is not understood after
  the root is passed over.
-/

namespace Cantilena

/-- The triads. -/
inductive Triad
  | major | minor | diminished | augmented
  deriving DecidableEq, Repr, Inhabited

/-- The sevenths a chord may have. -/
inductive Seventh
  | absent | dominant | major
  deriving DecidableEq, Repr, Inhabited

/-- A chord. -/
structure Chord where
  root : Int
  triad : Triad := .major
  seventh : Seventh := .absent
  deriving DecidableEq, Repr, Inhabited

/-! ## 1. Names and tones -/

namespace Triad

/-- The triads by name. -/
def names : List (String × Triad) :=
  [("major", .major), ("minor", .minor), ("diminished", .diminished), ("augmented", .augmented)]

/-- The name of a triad. -/
def name : Triad → String
  | .major => "major"
  | .minor => "minor"
  | .diminished => "diminished"
  | .augmented => "augmented"

/-- The triad of a name. -/
def ofName (name : String) : Except Fault Triad :=
  match names.lookup name with
  | some t => .ok t
  | none => .error (.unknownQuality name)

/-- Semitones above the root. -/
def intervals : Triad → List Int
  | .major => [0, 4, 7]
  | .minor => [0, 3, 7]
  | .diminished => [0, 3, 6]
  | .augmented => [0, 4, 8]

/-- How a chord name shows a triad. -/
def suffix : Triad → String
  | .major => ""
  | .minor => "m"
  | .diminished => "dim"
  | .augmented => "aug"

end Triad

namespace Seventh

/-- The sevenths by name. -/
def names : List (String × Seventh) :=
  [("none", .absent), ("dominant7", .dominant), ("major7", .major)]

/-- The name of a seventh. -/
def name : Seventh → String
  | .absent => "none"
  | .dominant => "dominant7"
  | .major => "major7"

/-- The seventh of a name. -/
def ofName (name : String) : Except Fault Seventh :=
  match names.lookup name with
  | some s => .ok s
  | none => .error (.unknownSeventh name)

/-- Semitones above the root. -/
def intervals : Seventh → List Int
  | .absent => []
  | .dominant => [10]
  | .major => [11]

/-- How a chord name shows a seventh. -/
def suffix : Seventh → String
  | .absent => ""
  | .dominant => "7"
  | .major => "maj7"

end Seventh

namespace Chord

/-- A chord from the names of its triad and its seventh. -/
def make (root : Int) (triad seventh : String) : Except Fault Chord := do
  let triad ← Triad.ofName triad
  let seventh ← Seventh.ofName seventh
  return ⟨root, triad, seventh⟩

/-- Semitones above the root. -/
def intervals (c : Chord) : List Int := c.triad.intervals ++ c.seventh.intervals

/-- The classes of the tones, the root first. -/
def pitchClasses (c : Chord) : List Int := c.intervals.map fun i => (c.root + i) % 12

/-- The pitches of the tones with the root in an octave. -/
def tones (c : Chord) (octave : Int) : List Int :=
  c.intervals.map fun i => Pitch.ofClass c.root octave + i

/-- The name of a chord. -/
def name (c : Chord) : String :=
  Pitch.className c.root ++
    (if c.triad = .diminished ∧ c.seventh = .dominant then "m7b5"
    else c.triad.suffix ++ c.seventh.suffix)

end Chord

/-! ## 2. Reading chord symbols -/

/-- Whether a text occurs in another. -/
def occursIn (part : List Char) : List Char → Bool
  | [] => part.isEmpty
  | c :: rest => part.isPrefixOf (c :: rest) || occursIn part rest

/-- The same of strings that stand in this file. -/
def mentions (text : List Char) (part : String) : Bool := occursIn part.toList text

/-- Whether a text starts with a string that stands in this file. -/
def startsWith (text : List Char) (part : String) : Bool := part.toList.isPrefixOf text

/-- Whether a ninth, eleventh or thirteenth occurs that is not merely added to the triad.
    `before` holds the text passed so far, the last character first. -/
def extendsFrom (before : List Char) : List Char → Bool
  | [] => false
  | c :: rest =>
    (["9", "11", "13"].any (startsWith (c :: rest)) && !startsWith before "dda")
      || extendsFrom (c :: before) rest

/-- The spellings of a major seventh, which the higher extensions imply. -/
def majorSevenths : List String :=
  ["maj", "ma", "δ"].flatMap fun m => ["7", "9", "11", "13"].map (m ++ ·)

namespace Chord

/-- Whether lower-case text after the root means a diminished triad with a minor seventh. -/
def halfDiminished (text : List Char) : Bool := mentions text "m7b5" || mentions text "ø"

/-- The triad that lower-case text after the root means. -/
def triadOf (text : List Char) : Triad :=
  if mentions text "sus" then .major
  else if mentions text "aug" || mentions text "+" then .augmented
  else if mentions text "dim" || text == ['o'] || text == ['o', '7'] || startsWith text "°"
      || halfDiminished text then .diminished
  else if (startsWith text "m" && !startsWith text "maj") || mentions text "min" then .minor
  else .major

/-- The seventh that lower-case text after the root means. -/
def seventhOf (text : List Char) : Seventh :=
  if majorSevenths.any (mentions text) then .major
  else if mentions text "7" || halfDiminished text || extendsFrom [] text then .dominant
  else .absent

/-- Reads a chord symbol. Only a text that starts with a note name and stands on one line is
    one. -/
def ofSymbol? (symbol : List Char) : Option Chord :=
  match NoteName.leading? (plainAccidentals (Text.strip symbol)) with
  | none => none
  | some (root, rest) =>
    if rest.contains '\n' then none
    else
      let text := Text.lower rest
      some ⟨root.pitchClass, triadOf text, seventhOf text⟩

end Chord

end Cantilena
