import Cantilena.Random.Source

/-!
# The Mersenne twister

The generator of 32-bit words with a period of 2 ^ 19937 - 1, after Matsumoto and Nishimura.

* `Twister.ofSeed` -- the state that a whole number seeds: its magnitude, in words of 32 bits,
  the lowest first;
* `Twister.word` -- the next word;
* `Twister.source` -- numbers in the unit interval from 53 bits of two words, and picks from the
  highest bits of a word, drawn again until they fall below the bound.
-/

namespace Cantilena

/-- The state of the generator: its words, and how many of them have been given out. -/
structure Twister where
  words : Array UInt32
  used : Nat
  deriving Inhabited

namespace Twister

/-- The number of words of the state. -/
def size : Nat := 624

/-- The word that follows a word in the plain seeding. -/
def seedStep (i : Nat) (before : UInt32) : UInt32 :=
  (1812433253 : UInt32) * (before ^^^ (before >>> 30)) + UInt32.ofNat i

/-- The state that one word seeds. -/
def ofWord (seed : UInt32) : Array UInt32 :=
  ((List.range (size - 1)).foldl
    (fun (words, before) i =>
      let next := seedStep (i + 1) before
      (words.push next, next))
    ((Array.emptyWithCapacity size).push seed, seed)).1

/-- A state that is being mixed: its words and the place where the mixing stands. -/
abbrev Mixing := Array UInt32 × Nat

/-- Moves on to the next place. After the last one the last word takes the place of the first. -/
def advance (m : Mixing) : Mixing :=
  if m.2 + 1 < size then (m.1, m.2 + 1)
  else (m.1.setIfInBounds 0 (m.1.getD (size - 1) 0), 1)

/-- Mixes the word before into the word at a place. -/
def mixed (m : Mixing) (factor : UInt32) : UInt32 :=
  let before := m.1.getD (m.2 - 1) 0
  m.1.getD m.2 0 ^^^ ((before ^^^ (before >>> 30)) * factor)

/-- Mixes the `j`th word of a key into a state. -/
def mixKey (m : Mixing) (j : Nat) (key : UInt32) : Mixing :=
  advance (m.1.setIfInBounds m.2 (mixed m 1664525 + key + UInt32.ofNat j), m.2)

/-- Mixes a place into a state. -/
def mixPlace (m : Mixing) : Mixing :=
  advance (m.1.setIfInBounds m.2 (mixed m 1566083941 - UInt32.ofNat m.2), m.2)

/-- The state that a key of words seeds. -/
def ofKey (key : Array UInt32) : Twister :=
  let start : Mixing := (ofWord 19650218, 1)
  let keyed := (List.range (max size key.size)).foldl
    (fun m k => mixKey m (k % key.size) (key.getD (k % key.size) 0)) start
  let placed := (List.range (size - 1)).foldl (fun m _ => mixPlace m) keyed
  ⟨placed.1.setIfInBounds 0 0x80000000, size⟩

/-- The words of a number, the lowest first. -/
def wordsOf (n : Nat) : List UInt32 :=
  if h : n < 2 ^ 32 then [UInt32.ofNat n]
  else UInt32.ofNat (n % 2 ^ 32) :: wordsOf (n / 2 ^ 32)
termination_by n
decreasing_by omega

/-- The state that a whole number seeds. -/
def ofSeed (seed : Int) : Twister := ofKey (wordsOf seed.natAbs).toArray

/-- The next state of one word. -/
def twist (words : Array UInt32) (k : Nat) : Array UInt32 :=
  let joined := (words.getD k 0 &&& 0x80000000) ||| (words.getD ((k + 1) % size) 0 &&& 0x7fffffff)
  let folded := (joined >>> 1) ^^^ (if joined &&& 1 = 0 then 0 else 0x9908b0df)
  words.setIfInBounds k (words.getD ((k + 397) % size) 0 ^^^ folded)

/-- The words of a state in its next round. -/
def round (words : Array UInt32) : Array UInt32 := (List.range size).foldl twist words

/-- A word as it is given out. -/
def temper (w : UInt32) : UInt32 :=
  let w := w ^^^ (w >>> 11)
  let w := w ^^^ ((w <<< 7) &&& 0x9d2c5680)
  let w := w ^^^ ((w <<< 15) &&& 0xefc60000)
  w ^^^ (w >>> 18)

/-- The next word. -/
def word (t : Twister) : UInt32 × Twister :=
  if t.used < size then (temper (t.words.getD t.used 0), { t with used := t.used + 1 })
  else
    let words := round t.words
    (temper (words.getD 0 0), ⟨words, 1⟩)

/-- The next number in the unit interval: 27 bits of one word above 26 bits of the next. -/
def unit (t : Twister) : Float × Twister :=
  let (a, t) := t.word
  let (b, t) := t.word
  (Float.ofNat ((a >>> 5).toNat * 67108864 + (b >>> 6).toNat) / 9007199254740992.0, t)

/-- The next number of some bits: whole words, the lowest first, and the highest bits of the word
    that remains. -/
def bits (count : Nat) (t : Twister) : Nat × Twister :=
  let (w, t) := t.word
  if h : count ≤ 32 then (w.toNat / 2 ^ (32 - count), t)
  else
    let (high, t) := bits (count - 32) t
    (w.toNat + 2 ^ 32 * high, t)
termination_by count
decreasing_by omega

/-- How often a number above the bound is drawn again. -/
def mostDraws : Nat := 10000

/-- The next number up to a bound. Each draw is within it with a chance of at least one half; the
    last one allowed is reduced. -/
def upTo (bound : Nat) : (draws : Nat) → Twister → Fin (bound + 1) × Twister
  | 0, t =>
    let (n, t) := bits ((bound + 1).log2 + 1) t
    (Fin.ofNat (bound + 1) n, t)
  | draws + 1, t =>
    let (n, t) := bits ((bound + 1).log2 + 1) t
    if h : n < bound + 1 then (⟨n, h⟩, t) else upTo bound draws t

/-- The twister as a source. -/
def source : Source Twister where
  unit := unit
  pick bound t := let (i, t) := upTo bound mostDraws t; (some i, t)

end Twister

end Cantilena
