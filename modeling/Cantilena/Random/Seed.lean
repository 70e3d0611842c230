import Cantilena.Random.Digest
import Cantilena.Random.Twister
import Cantilena.Value

/-!
# Seeds

What a generator is seeded with: nothing, a whole number, a binary floating-point number, or a text.

* `Seed.ofValue` -- the seed a value is;
* `Seed.plus` -- the seed some numbers further on;
* `Seed.twister` -- the generator a seed starts.
-/

namespace Cantilena

/-- What a generator is seeded with. -/
inductive Seed
  | open
  | whole (n : Int)
  | real (x : Float)
  | text (s : String)
  /-- A value that seeds nothing. -/
  | other
  deriving DecidableEq, Repr, Inhabited

namespace Seed

/-- The seed a value is. -/
def ofValue : Value → Seed
  | .null => .open
  | .bool b => .whole (if b then 1 else 0)
  | .int n => .whole n
  | .float x => .real x
  | .text s => .text s
  | _ => .other

/-- The seed some numbers further on. -/
def plus : Seed → Int → Except Fault Seed
  | .open, _ => .ok .open
  | .whole n, k => .ok (.whole (n + k))
  | .real x, k => .ok (.real (x + Float.ofInt k))
  | _, _ => .error .wrongKind

/-- How messages show a seed, if it can be written. -/
def shown : Seed → Except Fault String
  | .whole n => if Number.isWritable n then .ok (toString n) else .error .tooManyToWrite
  | .real x => .ok (Number.floatText x)
  | .text s => .ok s
  | _ => .ok "None"

/-- The prime modulo which floating-point numbers are reduced to seeds. -/
def modulus : Nat := 2 ^ 61 - 1

/-- The residue of a floating-point number: of a finite one that of its units times its power of
    two, whose exponent counts modulo 61. -/
def residue (x : Float) : Nat :=
  match Number.Dyadic.ofFloat? x with
  | some d => d.units * 2 ^ (d.scale % 61).toNat % modulus
  | none => if x.isNaN then 0 else 314159

/-- The whole number that a floating-point number seeds by: its residue with its sign, in 64 bits.
    Minus one is no residue and counts as minus two. -/
def ofFloat (x : Float) : Nat :=
  let n := residue x
  if !Number.hasMinus x || n = 0 then n else 2 ^ 64 - (if n = 1 then 2 else n)

/-- The whole number that bytes write, the highest first. -/
def wholeOfBytes (bytes : List UInt8) : Nat := bytes.foldl (fun n b => 256 * n + b.toNat) 0

/-- The whole number that a text seeds by: its bytes with their digest behind them. -/
def ofText (s : String) : Nat :=
  let bytes := s.toUTF8.toList
  wholeOfBytes (bytes ++ Digest.ofBytes bytes)

/-- The generator a seed starts. Without a seed a spare number takes its place. -/
def twister (spare : Int) : Seed → Except Fault Twister
  | .open => .ok (Twister.ofSeed spare)
  | .whole n => .ok (Twister.ofSeed n)
  | .real x => .ok (Twister.ofSeed (ofFloat x))
  | .text s => .ok (Twister.ofSeed (ofText s))
  | .other => .error .wrongKind

end Seed

end Cantilena
