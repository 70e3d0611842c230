/-!
# Sets of code points, written as ranges

The character classes of this library are tables of code point ranges, in ascending order:

* `CodeRange.holds` -- membership in one range, both ends included;
* `inRanges` -- membership in a table.
-/

namespace Cantilena.Text

/-- A range of code points, both ends included. -/
abbrev CodeRange := Nat × Nat

/-- Membership in one range. -/
def CodeRange.holds (r : CodeRange) (n : Nat) : Bool := r.1 ≤ n && n ≤ r.2

/-- Membership in a table of ranges. -/
def inRanges (table : List CodeRange) (n : Nat) : Bool := table.any (·.holds n)

theorem inRanges_iff (table : List CodeRange) (n : Nat) :
    inRanges table n = true ↔ ∃ r ∈ table, r.1 ≤ n ∧ n ≤ r.2 := by
  simp [inRanges, CodeRange.holds]

end Cantilena.Text
