import Cantilena.Sorting.Place

/-!
# Merging

Two rows in order are merged into one. Value by value the lower one is taken, and of two that are
equal the one of the first row, until one row has been taken from many times in a row; then as many
values as go ahead of the other row are looked for by leaps, and taken together, as long as that is
worth it.

* `Side` -- from which end rows are merged, and with it what goes ahead;
* `Merge` -- a merge as far as it has come: what is merged, and what is left of the two rows;
* `Merge.step` -- one value, or two leaps;
* `merged` -- a row of two, with the eagerness to leap that is left behind;
* `joined` -- the same, where what is in its place already is left alone.

How often a row has to be taken from before leaps begin is the eagerness; it falls while leaps are
worth it and rises where they are not, from one merge to the next.
-/

namespace Cantilena.Sorting

variable {α : Type}

/-! ## 1. Merges -/

/-- The end from which two rows are merged: from the front, the lowest value first, or from the
    back. -/
inductive Side
  | front | back
  deriving DecidableEq, Repr, Inhabited

/-- How a merge goes on: value by value, after a number of values that were taken one after the
    other from the held row and from the other row; or by leaps. -/
inductive Pace
  | single (fromHeld fromOther : Nat)
  | leaping
  deriving DecidableEq, Repr, Inhabited

/-- A merge as far as it has come. The rows start at the end from which they are merged. One of
    them, the shorter one, is held apart, and its last value is known to come last. -/
structure Merge (α : Type) where
  eagerness : Nat
  pace : Pace := .single 0 0
  /-- The values merged, the last one first. -/
  done : List α := []
  held : List α
  other : List α

namespace Merge

/-- Whether nothing is left to compare. -/
def isOver (m : Merge α) : Bool := m.other.isEmpty || m.held.length ≤ 1

/-- The merge with some values taken from the held row. -/
def takeHeld (count : Nat) (m : Merge α) : Merge α :=
  if m.isOver then m
  else { m with done := (m.held.take count).reverse ++ m.done, held := m.held.drop count }

/-- The merge with some values taken from the other row. -/
def takeOther (count : Nat) (m : Merge α) : Merge α :=
  if m.isOver then m
  else { m with done := (m.other.take count).reverse ++ m.done, other := m.other.drop count }

/-- The merge with another eagerness and pace, unless it is over. -/
def goOn (eagerness : Nat) (pace : Pace) (m : Merge α) : Merge α :=
  if m.isOver then m else { m with eagerness, pace }

/-- All values of a merge that is over. -/
def result (m : Merge α) : List α := m.done.reverse ++ m.other ++ m.held

end Merge

/-! ## 2. Steps -/

section

variable (below : α → α → Bool)

/-- Whether a value of the other row goes ahead of one of the held row. -/
def otherAhead (side : Side) (other held : α) : Bool :=
  match side with
  | .front => below other held
  | .back => below held other

/-- The number of values of a row that go ahead. From the back the row is looked through in its
    own order. -/
def countAhead (side : Side) (ahead : α → Bool) (row : List α) : Nat :=
  match side with
  | .front => countFront ahead row.toArray
  | .back => row.length - countFromBack (fun a => !ahead a) row.reverse.toArray

namespace Merge

/-- The number of values of the held row that go ahead of the other row. -/
def heldLeap (side : Side) (m : Merge α) : Nat :=
  match m.other with
  | [] => 0
  | b :: _ => countAhead side (fun a => !otherAhead below side b a) m.held

/-- The number of values of the other row that go ahead of the held row. -/
def otherLeap (side : Side) (m : Merge α) : Nat :=
  match m.held with
  | [] => 0
  | a :: _ => countAhead side (fun b => otherAhead below side b a) m.other

/-- The length from which a leap is worth it. -/
def worthwhile : Nat := 7

/-- A leap in the one row and a leap in the other, each with the value behind it; first in the row
    that stands in front. -/
def leap (side : Side) (m : Merge α) : Merge α :=
  let eagerness := if 1 < m.eagerness then m.eagerness - 1 else m.eagerness
  let m := { m with eagerness }
  let (m, first, second) :=
    match side with
    | .front =>
      let first := m.heldLeap below side
      let m := (m.takeHeld first).takeOther 1
      let second := m.otherLeap below side
      ((m.takeOther second).takeHeld 1, first, second)
    | .back =>
      let first := m.otherLeap below side
      let m := (m.takeOther first).takeHeld 1
      let second := m.heldLeap below side
      ((m.takeHeld second).takeOther 1, first, second)
  if worthwhile ≤ first ∨ worthwhile ≤ second then m
  else m.goOn (eagerness + 1) (.single 0 0)

/-- The next value. Where one row has been taken from often enough, leaps begin. -/
def single (side : Side) (fromHeld fromOther : Nat) (m : Merge α) : Merge α :=
  match m.held, m.other with
  | a :: _, b :: _ =>
    let takesOther := otherAhead below side b a
    let count := if takesOther then fromOther + 1 else fromHeld + 1
    let m := if takesOther then m.takeOther 1 else m.takeHeld 1
    if m.eagerness ≤ count then m.goOn (m.eagerness + 1) .leaping
    else m.goOn m.eagerness (if takesOther then .single 0 count else .single count 0)
  | _, _ => m

/-- One step of a merge. -/
def step (side : Side) (m : Merge α) : Merge α :=
  match m.pace with
  | .single fromHeld fromOther => m.single below side fromHeld fromOther
  | .leaping => m.leap below side

/-- At most a number of steps, up to the end of the merge. -/
def run (side : Side) : (most : Nat) → Merge α → Merge α
  | 0, m => m
  | most + 1, m => if m.isOver then m else run side most (m.step below side)

end Merge

/-! ## 3. Rows -/

/-- Two rows merged from an end, the shorter one held. The first value of the other row is known to
    come first. Each step takes a value at least. -/
def mergeFrom (side : Side) (eagerness : Nat) (held other : List α) : List α × Nat :=
  let start : Merge α := { eagerness, held, other }
  let m := (start.takeOther 1).run below side (held.length + other.length)
  (m.result, m.eagerness)

/-- Two rows merged, from the front if the first is not the longer one. -/
def merged (eagerness : Nat) (first second : List α) : List α × Nat :=
  if first.length ≤ second.length then mergeFrom below .front eagerness first second
  else
    let (row, eagerness) := mergeFrom below .back eagerness second.reverse first.reverse
    (row.reverse, eagerness)

/-- Two rows merged, without the values of the first that go ahead of all of the second, and the
    values of the second that come after all of the first. -/
def joined (eagerness : Nat) (first second : List α) : List α × Nat :=
  let ahead :=
    match second with
    | [] => first.length
    | b :: _ => countFront (fun a => !below b a) first.toArray
  let middle := first.drop ahead
  let kept :=
    match middle.getLast? with
    | none => 0
    | some a => countFromBack (fun b => below b a) second.toArray
  if kept = 0 then (first ++ second, eagerness)
  else
    let (row, eagerness) := merged below eagerness middle (second.take kept)
    (first.take ahead ++ row ++ second.drop kept, eagerness)

end

end Cantilena.Sorting
