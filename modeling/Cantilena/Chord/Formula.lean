import Cantilena.Text.Lowercase

/-!
# Chord formulas

A formula is the text that names a chord quality and the semitones of its tones above the root.
A quality has the first formula of the table whose name it starts with, so each name stands
before the shorter names it starts with itself.
-/

namespace Cantilena

/-- A chord quality by its written name, with the semitones of its tones above the root. -/
structure Formula where
  name : String
  intervals : List Int
  deriving DecidableEq, Repr, Inhabited

namespace Formula

/-- The formulas in the order in which they are tried. -/
def table : List Formula :=
  [⟨"sus2", [0, 2, 7]⟩,
    ⟨"sus4", [0, 5, 7]⟩,
    ⟨"maj7", [0, 4, 7, 11]⟩,
    ⟨"min7", [0, 3, 7, 10]⟩,
    ⟨"dim7", [0, 3, 6, 9]⟩,
    ⟨"m7b5", [0, 3, 6, 10]⟩,
    ⟨"maj9", [0, 4, 7, 11, 14]⟩,
    ⟨"min9", [0, 3, 7, 10, 14]⟩,
    ⟨"maj", [0, 4, 7]⟩,
    ⟨"min", [0, 3, 7]⟩,
    ⟨"dim", [0, 3, 6]⟩,
    ⟨"aug", [0, 4, 8]⟩,
    ⟨"m7", [0, 3, 7, 10]⟩,
    ⟨"11", [0, 4, 7, 10, 14, 17]⟩,
    ⟨"13", [0, 4, 7, 10, 14, 21]⟩,
    ⟨"7", [0, 4, 7, 10]⟩,
    ⟨"9", [0, 4, 7, 10, 14]⟩]

/-- Whether a text starts with the name of a formula. -/
def starts (f : Formula) (quality : List Char) : Bool := f.name.toList.isPrefixOf quality

/-- The formula of a quality, whatever the case of its letters. No quality at all is a major
    triad. -/
def find? (quality : List Char) : Option Formula :=
  let written := if quality.isEmpty then ['m', 'a', 'j'] else quality
  table.find? (·.starts (Text.lower written))

end Formula

end Cantilena
