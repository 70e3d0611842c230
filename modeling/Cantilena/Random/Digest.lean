import Cantilena.Number.Power

/-!
# Digests of bytes

The secure hash of 512 bits over words of 64 bits: a text of bytes is padded to blocks of 128, and
each block is mixed into a state of eight words in eighty rounds.

* `Digest.padded` -- the bytes with their padding;
* `Digest.ofBytes` -- the 64 bytes of the digest.
-/

namespace Cantilena.Digest

/-! ## 1. Words -/

/-- The constants of the rounds: the first bits of the fractions of the cube roots of the first
    eighty primes. -/
def roundConstants : Array UInt64 :=
  #[0x428a2f98d728ae22, 0x7137449123ef65cd, 0xb5c0fbcfec4d3b2f, 0xe9b5dba58189dbbc,
    0x3956c25bf348b538, 0x59f111f1b605d019, 0x923f82a4af194f9b, 0xab1c5ed5da6d8118,
    0xd807aa98a3030242, 0x12835b0145706fbe, 0x243185be4ee4b28c, 0x550c7dc3d5ffb4e2,
    0x72be5d74f27b896f, 0x80deb1fe3b1696b1, 0x9bdc06a725c71235, 0xc19bf174cf692694,
    0xe49b69c19ef14ad2, 0xefbe4786384f25e3, 0x0fc19dc68b8cd5b5, 0x240ca1cc77ac9c65,
    0x2de92c6f592b0275, 0x4a7484aa6ea6e483, 0x5cb0a9dcbd41fbd4, 0x76f988da831153b5,
    0x983e5152ee66dfab, 0xa831c66d2db43210, 0xb00327c898fb213f, 0xbf597fc7beef0ee4,
    0xc6e00bf33da88fc2, 0xd5a79147930aa725, 0x06ca6351e003826f, 0x142929670a0e6e70,
    0x27b70a8546d22ffc, 0x2e1b21385c26c926, 0x4d2c6dfc5ac42aed, 0x53380d139d95b3df,
    0x650a73548baf63de, 0x766a0abb3c77b2a8, 0x81c2c92e47edaee6, 0x92722c851482353b,
    0xa2bfe8a14cf10364, 0xa81a664bbc423001, 0xc24b8b70d0f89791, 0xc76c51a30654be30,
    0xd192e819d6ef5218, 0xd69906245565a910, 0xf40e35855771202a, 0x106aa07032bbd1b8,
    0x19a4c116b8d2d0c8, 0x1e376c085141ab53, 0x2748774cdf8eeb99, 0x34b0bcb5e19b48a8,
    0x391c0cb3c5c95a63, 0x4ed8aa4ae3418acb, 0x5b9cca4f7763e373, 0x682e6ff3d6b2b8a3,
    0x748f82ee5defb2fc, 0x78a5636f43172f60, 0x84c87814a1f0ab72, 0x8cc702081a6439ec,
    0x90befffa23631e28, 0xa4506cebde82bde9, 0xbef9a3f7b2c67915, 0xc67178f2e372532b,
    0xca273eceea26619c, 0xd186b8c721c0c207, 0xeada7dd6cde0eb1e, 0xf57d4f7fee6ed178,
    0x06f067aa72176fba, 0x0a637dc5a2c898a6, 0x113f9804bef90dae, 0x1b710b35131c471b,
    0x28db77f523047d84, 0x32caab7b40c72493, 0x3c9ebe0a15c9bebc, 0x431d67c49c100d4c,
    0x4cc5d4becb3e42b6, 0x597f299cfc657e2a, 0x5fcb6fab3ad6faec, 0x6c44198c4a475817]

/-- The first state: the first bits of the fractions of the square roots of the first eight
    primes. -/
def start : List UInt64 :=
  [0x6a09e667f3bcc908, 0xbb67ae8584caa73b, 0x3c6ef372fe94f82b, 0xa54ff53a5f1d36f1,
    0x510e527fade682d1, 0x9b05688c2b3e6c1f, 0x1f83d9abfb41bd6b, 0x5be0cd19137e2179]

/-- A word turned to the right. -/
def turn (w k : UInt64) : UInt64 := (w >>> k) ||| (w <<< (64 - k))

/-- The word of some bytes, the highest first. -/
def wordOf (bytes : List UInt8) : UInt64 :=
  bytes.foldl (fun w b => (w <<< 8) ||| b.toUInt64) 0

/-- The bytes of a number, as many as are asked for, the highest first. -/
def bytesOf (count n : Nat) : List UInt8 :=
  (List.range count).map fun i => UInt8.ofNat (n / 256 ^ (count - 1 - i))

/-! ## 2. Blocks -/

/-- The bytes with a mark, zeros, and their length in bits behind them, in whole blocks. -/
def padded (bytes : List UInt8) : List UInt8 :=
  bytes ++ 0x80 :: List.replicate ((239 - bytes.length % 128) % 128) 0
    ++ bytesOf 16 (8 * bytes.length)

/-- The words of a block, as many as there are rounds. -/
def schedule (block : List UInt8) : Array UInt64 :=
  let first := (List.range 16).map fun i => wordOf ((block.drop (8 * i)).take 8)
  (List.range 64).foldl
    (fun words i =>
      let a := words.getD (i + 1) 0
      let b := words.getD (i + 14) 0
      let mixedA := turn a 1 ^^^ turn a 8 ^^^ (a >>> 7)
      let mixedB := turn b 19 ^^^ turn b 61 ^^^ (b >>> 6)
      words.push (words.getD i 0 + mixedA + words.getD (i + 9) 0 + mixedB))
    first.toArray

/-- The state after one round with a word and a constant. -/
def round (state : List UInt64) (word constant : UInt64) : List UInt64 :=
  match state with
  | [a, b, c, d, e, f, g, h] =>
    let chosen := (e &&& f) ^^^ (~~~e &&& g)
    let first := h + (turn e 14 ^^^ turn e 18 ^^^ turn e 41) + chosen + constant + word
    let most := (a &&& b) ^^^ (a &&& c) ^^^ (b &&& c)
    let second := (turn a 28 ^^^ turn a 34 ^^^ turn a 39) + most
    [first + second, a, b, c, d + first, e, f, g]
  | state => state

/-- The state with a block mixed into it. -/
def mix (state : List UInt64) (block : List UInt8) : List UInt64 :=
  let words := schedule block
  let mixed := (List.range 80).foldl
    (fun s i => round s (words.getD i 0) (roundConstants.getD i 0)) state
  List.zipWith (· + ·) state mixed

/-- The state after the blocks of some bytes. -/
def mixAll (state : List UInt64) (bytes : List UInt8) : List UInt64 :=
  if bytes.isEmpty then state else mixAll (mix state (bytes.take 128)) (bytes.drop 128)
termination_by bytes.length
decreasing_by
  cases bytes
  · contradiction
  · simp only [List.length_drop, List.length_cons]; omega

/-- The digest of some bytes. -/
def ofBytes (bytes : List UInt8) : List UInt8 :=
  (mixAll start (padded bytes)).flatMap fun w => bytesOf 8 w.toNat

end Cantilena.Digest
