import Cantilena.Document.Flow
import Cantilena.Text.Line

/-!
# Configuration documents

A document is a list of rows, each a line with its indent; empty lines and comments are none. Rows
of one indent are the items of a list, each behind a dash, or the entries of a mapping, each a key
and a colon; what stands behind a dash or a colon, or indented further below it, is the value. A
key that comes again replaces the value in the place of the first.

* `Row`, `rowsOf` -- the rows of a text;
* `keyOf?` -- the key at the front of a row;
* `block` -- the value that rows write;
* `Document.read` -- the value of a document.
-/

namespace Cantilena.Document

/-! ## 1. Rows -/

/-- A line without its indent. -/
structure Row where
  indent : Nat
  text : List Char
  deriving DecidableEq, Repr, Inhabited

/-- The parts of a text between line feeds, with the characters of the part being read in
    reverse. -/
def partsFrom (current : List Char) : List Char → List (List Char)
  | [] => [current.reverse]
  | '\n' :: rest => current.reverse :: partsFrom [] rest
  | c :: rest => partsFrom (c :: current) rest

/-- The row of a line, unless it is empty or a comment. -/
def rowOf? (line : List Char) : Option Row :=
  if isBare line then none
  else some ⟨(line.takeWhile (· == ' ')).length, line.dropWhile (· == ' ')⟩

/-- The rows of a text. -/
def rowsOf (text : List Char) : List Row :=
  (partsFrom [] (Text.unifyLineEnds text)).filterMap rowOf?

/-- The text behind a dash that starts an item. -/
def itemOf? : List Char → Option (List Char)
  | '-' :: rest => if colonEnds false rest then some rest else none
  | _ => none

/-- The text behind a colon that ends a key. -/
def behindColon? (s : List Char) : Option (List Char) :=
  match s.dropWhile isSpace with
  | ':' :: rest => if colonEnds false rest then some rest else none
  | _ => none

/-- The key at the front of a row as it is spelled, with a note of whether it stands in quotes, and
    the text behind its colon. -/
def keyOf? (s : List Char) : Option ((Bool × List Char) × List Char) :=
  let (quoted, key, tail) := match quotedText? s with
    | some (key, tail) => (true, key, tail)
    | none => if refused s || s.head? == some '[' || s.head? == some '\x7b' then (false, [], [])
      else (false, plainText false s)
  (behindColon? tail).map fun rest => ((quoted, key), rest)

/-- The value of a key: what stands in quotes is a text. -/
def keyValue : Bool × List Char → Except Fault Scalar
  | (true, key) => .ok (.text (String.ofList key))
  | (false, key) => scalarOf key

/-! ## 2. Blocks -/

/-- Whether the first of some rows is indented further than a row. -/
def goesDeeper (indent : Nat) : List Row → Bool
  | [] => false
  | r :: _ => indent < r.indent

/-- Whether the first of some rows is an item with the indent of a row. -/
def goesOnAsList (indent : Nat) : List Row → Bool
  | [] => false
  | r :: _ => r.indent == indent && (itemOf? r.text).isSome

mutual

/-- The value that the first rows write, and the rows behind it. -/
def block : (fuel : Nat) → List Row → Except Fault (Value × List Row)
  | 0, _ => .error .configurationText
  | _ + 1, [] => .ok (.null, [])
  | fuel + 1, r :: rest =>
    if (itemOf? r.text).isSome then
      (items fuel r.indent (r :: rest)).map fun (items, rest) => (.list items, rest)
    else if (keyOf? r.text).isSome then
      (entries fuel r.indent [] (r :: rest)).map fun (entries, rest) => (.mapping entries, rest)
    else (oneLine r.text).map fun v => (v, rest)

/-- The items of an indent that the first rows write, and the rows behind them. -/
def items : (fuel indent : Nat) → List Row → Except Fault (List Value × List Row)
  | 0, _, _ => .error .configurationText
  | _ + 1, _, [] => .ok ([], [])
  | fuel + 1, indent, r :: rest =>
    if r.indent < indent then .ok ([], r :: rest)
    else if indent < r.indent then .error .configurationText
    else
      match itemOf? r.text with
      | none => .ok ([], r :: rest)
      | some text => do
        let inner := text.dropWhile isSpace
        let (v, rest) ←
          if isBare text then
            if goesDeeper indent rest then block fuel rest else .ok (.null, rest)
          else block fuel (⟨indent + 1 + (text.length - inner.length), inner⟩ :: rest)
        let (more, rest) ← items fuel indent rest
        return (v :: more, rest)

/-- Entries with those of an indent that the first rows write, and the rows behind them. -/
def entries : (fuel indent : Nat) → Entries → List Row → Except Fault (Entries × List Row)
  | 0, _, _, _ => .error .configurationText
  | _ + 1, _, before, [] => .ok (before, [])
  | fuel + 1, indent, before, r :: rest =>
    if r.indent < indent then .ok (before, r :: rest)
    else if indent < r.indent then .error .configurationText
    else
      match keyOf? r.text with
      | none => .error .configurationText
      | some (key, text) => do
        let (v, rest) ←
          if isBare text then
            if goesDeeper indent rest || goesOnAsList indent rest then block fuel rest
            else .ok (.null, rest)
          else (oneLine text).map fun v => (v, rest)
        entries fuel indent (Value.put (← keyValue key) v before) rest

end

/-- A number of steps that is enough for rows: each step uses up a row, a key or a dash. -/
def enough (rows : List Row) : Nat := (rows.map fun r => 4 * (r.text.length + 1)).sum + 1

/-- Whether a row is a mark of a document, three characters on their own at the start of a line. -/
def Row.isMark (mark : List Char) (r : Row) : Bool :=
  r.indent = 0 && mark.isPrefixOf r.text && isBare (r.text.drop mark.length)

/-- The rows of a document between its marks, which may be missing. -/
def withoutMarks (rows : List Row) : List Row :=
  let rows := match rows with
    | r :: rest => if r.isMark ['-', '-', '-'] then rest else r :: rest
    | [] => []
  match rows.getLast? with
  | some r => if r.isMark ['.', '.', '.'] then rows.dropLast else rows
  | none => []

/-- Reads a document. One without rows is nothing. A mark of the order of bytes at its start is
    passed over. -/
def read (text : List Char) : Except Fault Value :=
  let text := match text with
    | '\ufeff' :: rest => rest
    | text => text
  let rows := withoutMarks (rowsOf text)
  match block (enough rows) rows with
  | .ok (v, []) => .ok v
  | .ok _ => .error .configurationText
  | .error e => .error e

end Cantilena.Document
