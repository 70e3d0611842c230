import Cantilena.Number.Power
import Cantilena.Sorting.Merge
import Cantilena.Sorting.Run

/-!
# Sorting by runs

The runs of a row are merged two neighbours at a time. Between two runs stands a boundary, and its
power says how deep it would lie if the row were halved again and again; boundaries of higher power
are merged away first. The runs that are not merged yet are kept on a stack.

* `power` -- the power of a boundary;
* `Pending` -- a run on the stack, with the power of the boundary behind it;
* `Stack` -- the runs that are not merged yet;
* `sorted` -- the values of a row, the lowest first.
-/

namespace Cantilena.Sorting

variable {α : Type} (below : α → α → Bool)

/-! ## 1. Powers -/

/-- The power of the boundary between two runs in a row of some size: the first binary place by
    which the middles of the two runs differ, as parts of the row. -/
def power (size start first second : Nat) : Nat :=
  let middle := 2 * start + first
  let next := middle + first + second
  let differ (place : Nat) : Bool := middle * 2 ^ place / size != next * 2 ^ place / size
  (List.range (size.log2 + 2)).findIdx differ

/-! ## 2. The stack -/

/-- A run that is not merged yet: where it starts, its values, and the power of the boundary behind
    it. -/
structure Pending (α : Type) where
  start : Nat
  row : List α
  power : Nat := 0

/-- The runs that are not merged yet, the last one first, and the eagerness of the merges. -/
structure Stack (α : Type) where
  eagerness : Nat := Merge.worthwhile
  runs : List (Pending α) := []

/-- A run merged with the one behind it, and the eagerness then. -/
def Pending.join (eagerness : Nat) (first second : Pending α) : Pending α × Nat :=
  let (row, eagerness) := joined below eagerness first.row second.row
  ({ first with row, power := second.power }, eagerness)

/-- The last two runs merged as long as the boundary between them has a power above one. -/
def settle (power eagerness : Nat) (runs : List (Pending α)) : Stack α :=
  match runs with
  | last :: before :: rest =>
    if power < before.power then
      let (both, eagerness) := before.join below eagerness last
      settle power eagerness (both :: rest)
    else ⟨eagerness, runs⟩
  | _ => ⟨eagerness, runs⟩
termination_by runs.length

/-- The stack with one more run, of a row of some size. -/
def Stack.push (size : Nat) (s : Stack α) (run : List α) : Stack α :=
  match s.runs with
  | [] => { s with runs := [⟨0, run, 0⟩] }
  | last :: _ =>
    let power := power size last.start last.row.length run.length
    let start := last.start + last.row.length
    let s := settle below power s.eagerness s.runs
    match s.runs with
    | [] => { s with runs := [⟨start, run, 0⟩] }
    | last :: rest => { s with runs := ⟨start, run, 0⟩ :: { last with power } :: rest }

/-- The values of all runs of a stack merged, the last runs first; but the two before the last are
    merged where the first of them is shorter than the last. -/
def collapse (eagerness : Nat) (runs : List (Pending α)) : List α :=
  match runs with
  | [] => []
  | [only] => only.row
  | last :: before :: rest =>
    match rest with
    | third :: more =>
      if third.row.length < last.row.length then
        let (both, eagerness) := third.join below eagerness before
        collapse eagerness (last :: both :: more)
      else
        let (both, eagerness) := before.join below eagerness last
        collapse eagerness (both :: third :: more)
    | [] => (before.join below eagerness last).1.row
termination_by runs.length

/-! ## 3. Sorting -/

/-- The values of a row, the lowest first; values of which none is below the other keep their
    order. -/
def sorted (l : List α) : List α :=
  let s : Stack α := (runs below l).foldl (Stack.push below l.length) {}
  collapse below s.eagerness s.runs

end Cantilena.Sorting
