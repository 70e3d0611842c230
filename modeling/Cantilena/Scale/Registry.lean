import Cantilena.Scale
import Cantilena.Text.Lowercase

/-!
# The registry of scales

A registry holds scales, the latest first, so that a scale inserted under a known name takes its
place.

* `Registry.builtin` -- the scales known from the start;
* `Registry.register` -- checks the parts of a scale and inserts it;
* `Registry.get` -- the scale of a mode: names are read in lower case, and four short names
  stand for others;
* `Registry.available` -- every accepted name in order.
-/

namespace Cantilena

/-- The known scales, the latest first. -/
structure Registry where
  scales : List Scale
  deriving DecidableEq, Repr, Inhabited

namespace Registry

/-- The scales known from the start. -/
def builtin : Registry := ⟨Scale.builtin⟩

/-- The names that stand for others. -/
def aliases : List (String × String) :=
  [("major", "ionian"), ("minor", "aeolian"), ("melodic", "melodic_minor"),
    ("harmonic", "harmonic_minor")]

/-- The scale inserted last under a name. -/
def find? (r : Registry) (name : String) : Option Scale := r.scales.find? (·.name == name)

/-- A registry with one more scale. -/
def insert (r : Registry) (s : Scale) : Registry := ⟨s :: r.scales⟩

/-- Checks the parts of a scale and inserts it. -/
def register (r : Registry) (name : String) (intervals : List Int) (triads : List String) :
    Except Fault (Scale × Registry) :=
  (Scale.make name intervals triads).map fun s => (s, r.insert s)

/-- Every accepted name in order. -/
def available (r : Registry) : List String :=
  (r.scales.map (·.name) ++ aliases.map (·.1)).eraseDups.mergeSort (· ≤ ·)

/-- The name under which a mode is looked up. -/
def nameOf (mode : String) : String :=
  let plain := Text.lowerString mode
  (aliases.lookup plain).getD plain

/-- The scale of a mode. -/
def get (r : Registry) (mode : String) : Except Fault Scale :=
  match r.find? (nameOf mode) with
  | some s => .ok s
  | none => .error (.unknownMode mode r.available)

/-- The classes of a mode on a tonic. -/
def pitchClasses (r : Registry) (tonic : Int) (mode : String) : Except Fault (List Int) :=
  (r.get mode).map (·.pitchClasses tonic)

end Registry

end Cantilena
