/-!
# Lines

* `splitLines` -- the lines of a text, each ended by a line feed, a carriage return, the pair
  of both, or one of the vertical tab, form feed, separator and paragraph characters;
* `unifyLineEnds` -- a stored text with every carriage return, alone or before a line feed,
  read as a line feed.
-/

namespace Cantilena.Text

/-- A character that ends a line. The pair of carriage return and line feed ends one line. -/
def isLineEnd (c : Char) : Bool :=
  [0xa, 0xb, 0xc, 0xd, 0x1c, 0x1d, 0x1e, 0x85, 0x2028, 0x2029].contains c.toNat

/-- The lines of a text, with the characters of the line being read in reverse. -/
def splitLinesFrom (current : List Char) : List Char → List (List Char)
  | [] => if current.isEmpty then [] else [current.reverse]
  | '\r' :: '\n' :: rest => current.reverse :: splitLinesFrom [] rest
  | c :: rest =>
    if isLineEnd c then current.reverse :: splitLinesFrom [] rest
    else splitLinesFrom (c :: current) rest

/-- The lines of a text. A line end at the very end starts no further line. -/
def splitLines (s : List Char) : List (List Char) := splitLinesFrom [] s

/-- A stored text with all its line ends as line feeds. -/
def unifyLineEnds : List Char → List Char
  | [] => []
  | '\r' :: '\n' :: rest => '\n' :: unifyLineEnds rest
  | '\r' :: rest => '\n' :: unifyLineEnds rest
  | c :: rest => c :: unifyLineEnds rest

end Cantilena.Text
