import Cantilena.Number.Numeral

/-!
# Orderings of chord tones

* `OrderingSearch` -- the lists that a search for orderings works on;
* `OrderingSearch.search` -- every ordering of the elements that are left, by the place of the first
  one, then by the orderings of the others;
* `looped` -- an ordering followed by its inside backwards, so that it climbs and comes down
  without repeating its ends;
* `Orderings.of` -- both families for a number of tones;
* `readPattern` -- reads tone indices separated by blanks.
-/

namespace Cantilena

/-- The lists that a search for orderings works on: the elements that are left, those that are
    placed, and the orderings found so far. -/
structure OrderingSearch (α : Type) where
  left : List α
  placed : List α := []
  found : Array (List α) := #[]

namespace OrderingSearch

variable {α : Type}

/-- Takes the element at a place out of those that are left and puts it behind those placed. -/
def place (s : OrderingSearch α) (i : Nat) (a : α) : OrderingSearch α :=
  { s with left := s.left.eraseIdx i, placed := s.placed ++ [a] }

/-- Writes down what is placed. -/
def record (s : OrderingSearch α) : OrderingSearch α := { s with found := s.found.push s.placed }

/-- Puts the element that was placed last back to its place among those that are left. -/
def putBack (s : OrderingSearch α) (i : Nat) (a : α) : OrderingSearch α :=
  { s with left := s.left.take i ++ a :: s.left.drop i, placed := s.placed.dropLast }

/-- One turn of a search: the element at a place is placed, the search goes on with the others or
    writes down what is placed, and the element is put back. -/
def turn (goOn : OrderingSearch α → Except Fault (OrderingSearch α)) (s : OrderingSearch α)
    (i : Nat) : Except Fault (OrderingSearch α) :=
  match s.left[i]? with
  | none => .error (.noSuchPlace "pop")
  | some a =>
    let next := s.place i a
    (if next.left.isEmpty then .ok next.record else goOn next).map fun after => after.putBack i a

/-- A search that goes on to a depth. -/
def run : (depth : Nat) → OrderingSearch α → Except Fault (OrderingSearch α)
  | 0, s => .ok s
  | depth + 1, s => (List.range s.left.length).foldlM (turn (run depth)) s

/-- Takes each element that is left in turn. No search goes deeper than there are elements left. -/
def search (s : OrderingSearch α) : Except Fault (OrderingSearch α) := run s.left.length s

end OrderingSearch

/-- An ordering followed by its inside backwards. -/
def looped {α : Type} (l : List α) : List α := l ++ l.tail.dropLast.reverse

/-- Both families of orderings of the numbers below `size`. -/
structure Orderings where
  size : Nat
  straight : List (List Nat)
  loops : List (List Nat)
  deriving DecidableEq, Repr

/-- Both families for a number of tones, which is at least one. -/
def Orderings.of (size : Int) : Except Fault Orderings :=
  if size ≤ 0 then .error .arpeggioSize
  else
    (OrderingSearch.search { left := List.range size.toNat }).map fun s =>
      ⟨size.toNat, s.found.toList, s.found.toList.map looped⟩

/-- Reads tone indices. -/
def readPattern (text : List Char) : Except Fault (List Int) :=
  match (Text.words text).mapM Number.wholeNumber with
  | .error _ => .error (.patternNotWhole text)
  | .ok indices => if indices.any (· < 0) then .error (.patternNegative text) else .ok indices

end Cantilena
