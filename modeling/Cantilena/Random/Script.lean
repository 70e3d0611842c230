import Cantilena.Number.Dyadic
import Cantilena.Random.Source

/-!
# Scripted chance

A script is a list of numbers given out in turn, starting over at its end. A pick takes the next
number too and places it among the things to pick from.
-/

namespace Cantilena

theorem toNat_lt_succ {n : Nat} {place : Int} (h : 0 ≤ place ∧ place ≤ n) :
    place.toNat < n + 1 := by
  omega

/-- The place of a number among `n + 1` things. A number of the unit interval has one; a number
    below it counts from the end. -/
def placeAmong (n : Nat) (x : Float) : Option (Fin (n + 1)) :=
  match Number.wholePart (x * Float.ofNat (n + 1)) with
  | .ok i =>
    let place := if i < 0 then i + (n + 1) else i
    if h : 0 ≤ place ∧ place ≤ n then some ⟨place.toNat, toNat_lt_succ h⟩ else none
  | .error _ => none

/-- The source of a script; its state counts the numbers given out. -/
def scriptSource (script : Array Float) : Source Nat where
  unit i := (script.getD (i % script.size) 0.0, i + 1)
  pick n i := (placeAmong n (script.getD (i % script.size) 0.0), i + 1)

end Cantilena
