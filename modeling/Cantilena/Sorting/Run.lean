import Cantilena.Sorting.Place

/-!
# Runs

A row is cut into runs, each in order. A run is as long as the values rise or fall by themselves;
where that is shorter than a least length, the values behind it are inserted into it.

* `firstRun` -- the run at the front of a row;
* `leastRun` -- the least length of a run in a row of some size;
* `insertInto`, `runAndRest` -- the first run, made long enough, and the values behind it;
* `runs` -- all runs of a row.

The order is given by a relation that says which values are below which others.
-/

namespace Cantilena.Sorting

variable {α : Type} (below : α → α → Bool)

/-! ## 1. Natural runs -/

/-- The number of values at the front of which each is below the one before it. -/
def fallingRun : List α → Nat
  | a :: b :: rest => if below b a then 1 + fallingRun (b :: rest) else 1
  | l => l.length

/-- The number of values at the front of which none is below the one before it. -/
def risingRun : List α → Nat
  | a :: b :: rest => if below b a then 1 else 1 + risingRun (b :: rest)
  | l => l.length

/-- The first run, the lowest value first, and the values behind it. -/
def firstRun (l : List α) : List α × List α :=
  let falling := fallingRun below l
  if 1 < falling then ((l.take falling).reverse, l.drop falling)
  else (l.take (risingRun below l), l.drop (risingRun below l))

/-! ## 2. Runs of a least length -/

/-- The size of a row without its lowest bits, so that it is below 64, and one more if a bit that
    is dropped is set. -/
def leastFrom (dropped size : Nat) : Nat :=
  if _h : size < 64 then size + dropped else leastFrom (max dropped (size % 2)) (size / 2)
termination_by size
decreasing_by omega

/-- The least length of a run in a row of some size: the whole row if it is short, and else such
    that about a power of two runs make it up. -/
def leastRun (size : Nat) : Nat := leastFrom 0 size

/-- A row in order with a value inserted behind all that it is not below. -/
def insertInto (row : Array α) (a : α) : Array α :=
  let place := halve (holdsAt (fun b => !below a b) row) 0 row.size
  row.take place ++ #[a] ++ row.drop place

/-- The first run of a row, at least as long as is asked for or else the whole row, and the values
    behind it. -/
def runAndRest (least : Nat) (l : List α) : List α × List α :=
  let (run, rest) := firstRun below l
  let missing := least - run.length
  (((rest.take missing).foldl (insertInto below) run.toArray).toList, rest.drop missing)

/-- The runs of a row of at most as many values as are given first. -/
def runsOf (least : Nat) : (most : Nat) → List α → List (List α)
  | 0, _ => []
  | _ + 1, [] => []
  | most + 1, a :: l =>
    let (run, rest) := runAndRest below least (a :: l)
    run :: runsOf least most rest

/-- The runs of a row. -/
def runs (l : List α) : List (List α) := runsOf below (leastRun l.length) l.length l

end Cantilena.Sorting
