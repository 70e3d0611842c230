import Cantilena.Text.CodePoint

/-!
# Blanks

* `isBlank` -- the characters that separate words: the ASCII blanks, the four information
  separators, and the space characters of Unicode 14;
* `strip`, `stripRight` -- a text without the blanks at its ends;
* `words` -- the maximal runs of characters that are not blank.
-/

namespace Cantilena.Text

/-- The blanks, as ranges. -/
def blankRanges : List CodeRange :=
  [(0x9, 0xd), (0x1c, 0x20), (0x85, 0x85), (0xa0, 0xa0), (0x1680, 0x1680), (0x2000, 0x200a),
    (0x2028, 0x2029), (0x202f, 0x202f), (0x205f, 0x205f), (0x3000, 0x3000)]

/-- A character that separates words. -/
def isBlank (c : Char) : Bool := inRanges blankRanges c.toNat

/-- A text without the characters of a class at its end. -/
def dropEnd (p : Char → Bool) (s : List Char) : List Char := (s.reverse.dropWhile p).reverse

/-- A text without the blanks at its ends. -/
def strip (s : List Char) : List Char := dropEnd isBlank (s.dropWhile isBlank)

/-- The words of a text, with the letters of the word being read in reverse. -/
def wordsFrom (current : List Char) : List Char → List (List Char)
  | [] => if current.isEmpty then [] else [current.reverse]
  | c :: rest =>
    if isBlank c then
      if current.isEmpty then wordsFrom [] rest else current.reverse :: wordsFrom [] rest
    else wordsFrom (c :: current) rest

/-- The maximal runs of characters that are not blank, in order. -/
def words (s : List Char) : List (List Char) := wordsFrom [] s

theorem length_dropWhile_le (p : Char → Bool) (s : List Char) :
    (s.dropWhile p).length ≤ s.length :=
  (List.dropWhile_suffix p).length_le

theorem length_dropEnd_le (p : Char → Bool) (s : List Char) :
    (dropEnd p s).length ≤ s.length := by
  have := length_dropWhile_le p s.reverse
  simpa [dropEnd] using this

theorem length_strip_le (s : List Char) : (strip s).length ≤ s.length :=
  Nat.le_trans (length_dropEnd_le _ _) (length_dropWhile_le _ _)

end Cantilena.Text
