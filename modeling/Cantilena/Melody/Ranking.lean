import Cantilena.Sorting.Pending

/-!
# Ranking by score

Values are put in the order of their scores, the highest first, and equal ones keep their order.
Scores that are no numbers compare with nothing; where there are some, the order is that of a
sorting by runs.

* `scoresBelow` -- whether a value has a lower score than another;
* `ranked` -- the values by score.
-/

namespace Cantilena

variable {α : Type} (score : α → Float)

/-- Whether a value has a lower score than another. -/
def scoresBelow (a b : α) : Bool := score a < score b

/-- Values by score, the highest first; equal ones keep their order. -/
def ranked (l : List α) : List α :=
  if l.any fun a => (score a).isNaN then (Sorting.sorted (scoresBelow score) l.reverse).reverse
  else l.mergeSort fun a b => score b ≤ score a

end Cantilena
