import Cantilena.Melody.Phrase
import Cantilena.Progression

/-!
# Melodies

A melody is a row of phrases, question and answer in turn, each handed the motif of the one
before.

* `loudestPerTick` -- of the notes on one tick the loudest, and of those the first written;
* `Composer.writePhrases` -- the strokes of all phrases;
* `Composer.compose` -- the melody, at most one note per tick.
-/

namespace Cantilena

section

variable {ε ν : Type} [Quantity ν] [Event ε ν]

/-! ## 1. One note per tick -/

/-- Of events in the order of their starts, the loudest on each tick, and of those the first. -/
def thin : List ε → List ε
  | [] => []
  | [a] => [a]
  | a :: b :: rest =>
    if Event.start a == Event.start b then
      thin ((if Event.velocity a < Event.velocity b then b else a) :: rest)
    else a :: thin (b :: rest)
termination_by l => l.length

/-- The loudest event on each tick, and of those the first written, by start. -/
def loudestPerTick (events : List ε) : List ε := thin (byStart events)

end

namespace Composer

variable {σ ν ε : Type} [Quantity ν] [Event ε ν] (src : Source σ) (c : Composer ν)

/-! ## 2. The row of phrases -/

/-- The number of bars of a phrase where some are left. Bars are counted by whole numbers; a
    fraction will do only where fewer are left. -/
def phraseLength (left : Nat) : Except Fault Nat :=
  let bars := c.params.frame.barsPerPhrase
  if ((left : Int) : ν) < bars then .ok left
  else
    match (Quantity.amount bars).whole? with
    | some n => .ok n.toNat
    | none => .error .wrongKind

/-- The strokes of the phrases from one on: its number, the number of its first bar, and the bars
    that are left. A phrase has at least one bar. -/
def writePhrases (index first : Nat) (motif : Motif) (bars : List (Option Chord)) :
    Drawing σ (List (Stroke ε)) :=
  match bars with
  | [] => pure []
  | bar :: rest => do
    let more := (← c.phraseLength (rest.length + 1)) - 1
    let here := numbered first (bar :: rest.take more)
    let line : Line ε ν ← c.writeBars src (Role.ofIndex index) motif here
    let others ← writePhrases (index + 1) (first + here.length) line.motif (rest.drop more)
    return line.strokes.toList ++ others
termination_by bars.length
decreasing_by simp only [List.length_drop, List.length_cons]; omega

/-- The strokes of a melody in the order in which they are written. -/
def strokes : Drawing σ (List (Stroke ε)) := c.writePhrases src 0 0 {} c.bars

/-- The melody, by start, with at most one event per tick. -/
def compose : Drawing σ (List ε) := do
  let strokes ← c.strokes src
  return loudestPerTick (strokes.map (·.note))

end Composer

/-! ## 3. Melodies over progressions -/

/-- The composer of a progression. Symbols that cannot be read are reported. -/
def composerFor {ν : Type} [Quantity ν] (r : Registry) (params : Params ν)
    (entries : List Entry) : Logged (Composer ν) := do
  Logged.tell (unreadSymbols entries)
  (Composer.make r params (barChords entries) : Except Fault (Composer ν))

end Cantilena
