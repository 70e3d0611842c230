/-!
# Places in a row

Where a row splits into values that go in front and values that do not, the place of the split is
found without a look at every value: by leaps that double, from a place where it is expected, and
then by halving. Where the values are not split at one place, the place found depends on the values
looked at, and so their choice is fixed here.

* `halve` -- the place between two bounds, found by halving;
* `leapFrom` -- how far the leaps from a place go;
* `placeFrom` -- the place, found from where it is expected;
* `countFront` -- the number of values in front, expected to be few.
-/

namespace Cantilena.Sorting

/-! ## 1. Halving -/

/-- The place between two bounds where the values in front end. -/
def halve (front : Nat → Bool) (low high : Nat) : Nat :=
  if _h : low < high then
    let middle := low + (high - low) / 2
    if front middle then halve front (middle + 1) high else halve front low middle
  else low
termination_by high - low
decreasing_by all_goals omega

/-! ## 2. Leaps -/

/-- The last leap that goes on, and the one behind it, which is at most as long as is allowed. -/
def leapsFrom (goesOn : Nat → Bool) (most last next : Nat) : Nat × Nat :=
  if _h : next < most then
    if goesOn next then leapsFrom goesOn most next (2 * next + 1) else (last, next)
  else (last, most)
termination_by most - next
decreasing_by omega

/-- The leaps from a place on, of one step, of three, of seven and so on. -/
def leaps (goesOn : Nat → Bool) (most : Nat) : Nat × Nat := leapsFrom goesOn most 0 1

/-- The place in a row of some size where the values in front end, which is expected near a
    place. -/
def placeFrom (front : Nat → Bool) (size near : Nat) : Nat :=
  if front near then
    let (last, far) := leaps (fun k => front (near + k)) (size - near)
    halve front (near + last + 1) (near + far)
  else
    let (last, far) := leaps (fun k => !front (near - k)) (near + 1)
    halve front (near + 1 - far) (near - last)

/-! ## 3. Rows -/

variable {α : Type}

/-- Whether the value at a place of a row has a property. -/
def holdsAt (property : α → Bool) (row : Array α) (place : Nat) : Bool :=
  match row[place]? with
  | some a => property a
  | none => false

/-- The number of values in front of a row, looked for from its front. -/
def countFront (front : α → Bool) (row : Array α) : Nat := placeFrom (holdsAt front row) row.size 0

/-- The number of values in front of a row, looked for from its back. -/
def countFromBack (front : α → Bool) (row : Array α) : Nat :=
  placeFrom (holdsAt front row) row.size (row.size - 1)

end Cantilena.Sorting
