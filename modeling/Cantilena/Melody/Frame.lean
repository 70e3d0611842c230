import Cantilena.Number.Quantity
import Cantilena.Value

/-!
# Frames

The numbers that frame a melody: the bars of its phrases, where it starts, the beats of a bar, and
its register. They are meant to be whole, but fractions will do as long as nothing is counted by
them.

* `Frame` -- the numbers, within their bounds;
* `Frame.stepsPerBar` -- the steps of a bar;
* `Frame.ofEntries` -- the numbers that the entries of a mapping give, the others as they are from
  the start;
* `Frame.whole?` -- the same frame in whole numbers.
-/

namespace Cantilena

/-- The numbers that frame a melody. -/
structure Frame (ν : Type) [Quantity ν] where
  barsPerPhrase : ν := 4
  startBar : ν := 0
  beatsPerBar : ν := 4
  octave : ν := 4
  range : ν := 12
  maxLeap : ν := 9
  barsPerPhrase_ok : ¬ barsPerPhrase < 1 := by decide
  beatsPerBar_ok : ¬ beatsPerBar < 1 := by decide
  startBar_ok : ¬ startBar < 0 := by decide
  range_ok : ¬ range < 0 := by decide
  maxLeap_ok : ¬ maxLeap < 1 := by decide

namespace Frame

/-- The frame from the start. -/
def start : Frame Int := {}

/-- The steps of a bar. -/
def stepsPerBar {ν : Type} [Quantity ν] (f : Frame ν) : ν := f.beatsPerBar * 4

/-! ## 1. Reading -/

/-- The number under a name, or what holds where there is none. -/
def number (entries : Entries) (name : String) (start : Int) : Amount :=
  match Value.get? entries name with
  | some v => v.amount
  | none => .whole start

/-- The number under a name, which must not be below a bound. -/
def bounded (entries : Entries) (name : String) (start : Int) (bound : Amount)
    (cause : Fault) : Except Fault { a : Amount // ¬ a < bound } :=
  let a := number entries name start
  if !a.isNumber then .error .wrongKind
  else if h : a < bound then .error cause
  else .ok ⟨a, h⟩

/-- The frame that entries give. The octave is not looked at before it is needed. -/
def ofEntries (entries : Entries) : Except Fault (Frame Amount) := do
  let bars ← bounded entries "bars_per_phrase" start.barsPerPhrase 1 .phraseTooShort
  let beats ← bounded entries "beats_per_bar" start.beatsPerBar 1 .beatsTooFew
  let first ← bounded entries "start_bar" start.startBar 0 .startBarNegative
  let range ← bounded entries "range_semitones" start.range 0 .rangeNegative
  let leap ← bounded entries "max_leap_semitones" start.maxLeap 1 .leapTooSmall
  return {
    barsPerPhrase := bars.1, beatsPerBar := beats.1, startBar := first.1, range := range.1
    maxLeap := leap.1, octave := number entries "preferred_octave" start.octave
    barsPerPhrase_ok := bars.2, beatsPerBar_ok := beats.2, startBar_ok := first.2
    range_ok := range.2, maxLeap_ok := leap.2 }

/-! ## 2. Whole numbers -/

/-- A whole number that an amount is, within the same bound. -/
def bounded? (bound : Nat) (a : Amount) (h : ¬ a < .whole bound) :
    Option { n : Int // ¬ n < bound } :=
  match a, h with
  | .whole n, h => some ⟨n, fun below => h (Amount.whole_lt_whole.2 below)⟩
  | _, _ => none

/-- The same frame in whole numbers, if it is in whole numbers. -/
def whole? (f : Frame Amount) : Option (Frame Int) := do
  let bars ← bounded? 1 f.barsPerPhrase f.barsPerPhrase_ok
  let beats ← bounded? 1 f.beatsPerBar f.beatsPerBar_ok
  let first ← bounded? 0 f.startBar f.startBar_ok
  let range ← bounded? 0 f.range f.range_ok
  let leap ← bounded? 1 f.maxLeap f.maxLeap_ok
  let octave ← f.octave.whole?
  return {
    barsPerPhrase := bars.1, beatsPerBar := beats.1, startBar := first.1, range := range.1
    maxLeap := leap.1, octave
    barsPerPhrase_ok := bars.2, beatsPerBar_ok := beats.2, startBar_ok := first.2
    range_ok := range.2, maxLeap_ok := leap.2 }

end Frame

end Cantilena
