import Cantilena.Number.Amount
import Cantilena.Number.Shortest

/-!
# Document values

The values of configuration documents: scalars, lists and mappings. A scalar is nothing, a truth
value, a number or a text.

* `Value.shown`, `Value.plain` -- how messages show a value, and a value as a text;
* `Value.whole`, `Value.decimal`, `Value.amount`, `Value.isTrue` -- a value as a number or a truth
  value;
* `Value.get?`, `Value.put` -- the entries of a mapping; numbers that are equal are the same key,
  and a truth value is the same key as the number it counts as;
* `Value.pairs` -- a value as a mapping.
-/

namespace Cantilena

/-! ## 1. Scalars -/

/-- A value without parts. -/
inductive Scalar
  | null
  | bool (b : Bool)
  | int (n : Int)
  | float (x : Float)
  | text (s : String)
  deriving DecidableEq, Repr, Inhabited

namespace Scalar

/-- How messages show a scalar. -/
def shown : Scalar → String
  | .null => "None"
  | .bool b => if b then "True" else "False"
  | .int n => toString n
  | .float x => Number.floatText x
  | .text s => Text.quotedString s

/-- A scalar as a text: a text itself, and any other as it is shown. -/
def plain : Scalar → String
  | .text s => s
  | s => s.shown

/-- A scalar as an amount. -/
def amount : Scalar → Amount
  | .bool b => .whole (if b then 1 else 0)
  | .int n => .whole n
  | .float x => .real x
  | _ => .missing .wrongKind

/-- Whether two scalars are the same key. -/
def isSameKey : Scalar → Scalar → Bool
  | .null, .null => true
  | .text s, .text t => s = t
  | a, b => a.amount == b.amount

/-- Whether a scalar can be written as a text. -/
def isWritable : Scalar → Bool
  | .int n => Number.isWritable n
  | _ => true

end Scalar

/-! ## 2. Values -/

/-- A value of a document. A mapping keeps the order of its keys. -/
inductive Value
  | scalar (s : Scalar)
  | list (items : List Value)
  | mapping (entries : List (Scalar × Value))
  deriving Inhabited

/-- The entries of a mapping. -/
abbrev Entries := List (Scalar × Value)

namespace Value

/-- Nothing. -/
@[match_pattern] abbrev null : Value := .scalar .null

/-- A truth value. -/
@[match_pattern] abbrev bool (b : Bool) : Value := .scalar (.bool b)

/-- A whole number. -/
@[match_pattern] abbrev int (n : Int) : Value := .scalar (.int n)

/-- A binary floating-point number. -/
@[match_pattern] abbrev float (x : Float) : Value := .scalar (.float x)

/-- A text. -/
@[match_pattern] abbrev text (s : String) : Value := .scalar (.text s)

mutual

/-- How messages show a value. -/
def shown : Value → String
  | .scalar s => s.shown
  | .list items => "[" ++ String.intercalate ", " (shownItems items) ++ "]"
  | .mapping entries => "\x7b" ++ String.intercalate ", " (shownEntries entries) ++ "\x7d"

/-- How messages show the items of a list. -/
def shownItems : List Value → List String
  | [] => []
  | v :: rest => v.shown :: shownItems rest

/-- How messages show the entries of a mapping. -/
def shownEntries : Entries → List String
  | [] => []
  | (k, v) :: rest => (k.shown ++ ": " ++ v.shown) :: shownEntries rest

end

mutual

/-- Whether a value can be written as a text. -/
def isWritable : Value → Bool
  | .scalar s => s.isWritable
  | .list items => areWritable items
  | .mapping entries => haveWritable entries

/-- Whether all items of a list can be written. -/
def areWritable : List Value → Bool
  | [] => true
  | v :: rest => v.isWritable && areWritable rest

/-- Whether all entries of a mapping can be written. -/
def haveWritable : Entries → Bool
  | [] => true
  | (k, v) :: rest => k.isWritable && v.isWritable && haveWritable rest

end

/-- How messages show a value, if it can be written. -/
def toShown (v : Value) : Except Fault String :=
  if v.isWritable then .ok v.shown else .error .tooManyToWrite

/-- A value as a text: a text itself, and any other as it is shown, if it can be written. -/
def plain : Value → Except Fault String
  | .text s => .ok s
  | v => v.toShown

/-! ## 3. Numbers and truth values -/

/-- A value as a whole number. -/
def whole : Value → Except Fault Int
  | .bool b => .ok (if b then 1 else 0)
  | .int n => .ok n
  | .float x => Number.wholePart x
  | .text s => Number.wholeNumber s.toList
  | _ => .error .wrongKind

/-- A value as a binary floating-point number. -/
def decimal : Value → Except Fault Float
  | .bool b => .ok (if b then 1.0 else 0.0)
  | .int n => Number.floatOfWhole n
  | .float x => .ok x
  | .text s => Number.decimalNumber s.toList
  | _ => .error .wrongKind

/-- A value as an amount. -/
def amount : Value → Amount
  | .scalar s => s.amount
  | _ => .missing .wrongKind

/-- Whether a value counts as true: anything but nothing, no, zero and what is empty. -/
def isTrue : Value → Bool
  | .null => false
  | .bool b => b
  | .int n => n ≠ 0
  | .float x => x != 0.0
  | .text s => !s.isEmpty
  | .list items => !items.isEmpty
  | .mapping entries => !entries.isEmpty

/-! ## 4. Mappings -/

/-- The value of a key that is a text. -/
def get? (entries : Entries) (key : String) : Option Value :=
  (entries.find? fun e => e.1 == .text key).map (·.2)

/-- Entries with a value put under a key: in the place of the one there, or behind the others. -/
def put (key : Scalar) (v : Value) : Entries → Entries
  | [] => [(key, v)]
  | (k, old) :: rest => if k.isSameKey key then (k, v) :: rest else (k, old) :: put key v rest

/-- The key of an entry that is given as a value. Lists and mappings are none. -/
def asKey : Value → Except Fault Scalar
  | .scalar s => .ok s
  | _ => .error .wrongKind

/-- The key and the value of an entry given as a pair, at a place of a list. -/
def asPair (place : Nat) : Value → Except Fault (Scalar × Value)
  | .list [k, v] => k.asKey.map fun k => (k, v)
  | .list items => .error (.noPair place items.length)
  | .text s =>
    match s.toList with
    | [k, v] => .ok (.text (String.singleton k), .text (String.singleton v))
    | chars => .error (.noPair place chars.length)
  | .mapping entries =>
    match entries with
    | [(k, _), (v, _)] => .ok (k, .scalar v)
    | _ => .error (.noPair place entries.length)
  | _ => .error .wrongKind

/-- The entries given as a list of pairs. -/
def ofPairs (entries : Entries) (place : Nat) : List Value → Except Fault Entries
  | [] => .ok entries
  | v :: rest => do
    let (k, v) ← asPair place v
    ofPairs (put k v entries) (place + 1) rest

/-- A value as the entries of a mapping. A list of pairs counts as one, and so does a text, if
    only it had pairs for characters. -/
def pairs : Value → Except Fault Entries
  | .mapping entries => .ok entries
  | .list items => ofPairs [] 0 items
  | .text s => ofPairs [] 0 (s.toList.map fun c => .text (String.singleton c))
  | _ => .error .wrongKind

end Value

end Cantilena
