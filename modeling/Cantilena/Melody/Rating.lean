import Cantilena.Melody

/-!
# Rating melodies

A melody is rated against the progression it was written over by weighted parts: notes outside the
scale, chord tones on the beat, the span, leaps and turns, repeated shapes, cadences and repeated
gaps. What is counted is counted in whole numbers; the weights come in last, in a fixed order. A
weight is looked at only where its part is weighed.

* `Weights` -- the weight of each part;
* `Contour` -- what is counted of the steps from note to note;
* `rateOver`, `rate` -- the rating; a melody of fewer than four notes has a fixed low one.
-/

namespace Cantilena

/-! ## 1. Weights -/

/-- The weight of each part of a rating. -/
structure Weights where
  chordTone : Amount := .real 2.2
  outOfScale : Amount := .real 6.0
  leaps : Amount := .real 1.8
  turns : Amount := .real 1.1
  repeats : Amount := .real 1.6
  answerCadence : Amount := .real 2.0
  questionCadence : Amount := .real 1.0
  rhythm : Amount := .real 1.1
  span : Amount := .real 1.0
  deriving DecidableEq, Repr, Inhabited

namespace Weights

/-- The names under which weights are given. -/
def names : List String :=
  ["chord_tone_strong", "scale_penalty", "too_many_leaps_penalty", "direction_jitter_penalty",
    "motif_reuse_bonus", "cadence_answer_bonus", "cadence_question_bonus", "rhythm_motif_bonus",
    "range_penalty"]

/-- The weight under a name, or what holds where there is none. -/
def weight (entries : Entries) (name : String) (start : Amount) : Amount :=
  ((Value.get? entries name).map Value.amount).getD start

/-- The weights that entries give, the others as they are from the start. -/
def ofEntries (entries : Entries) : Except Fault Weights :=
  let d : Weights := {}
  let known : Scalar → Bool
    | .text s => names.contains s
    | _ => false
  if entries.any fun e => !known e.1 then .error .unknownSetting
  else .ok {
    chordTone := weight entries "chord_tone_strong" d.chordTone
    outOfScale := weight entries "scale_penalty" d.outOfScale
    leaps := weight entries "too_many_leaps_penalty" d.leaps
    turns := weight entries "direction_jitter_penalty" d.turns
    repeats := weight entries "motif_reuse_bonus" d.repeats
    answerCadence := weight entries "cadence_answer_bonus" d.answerCadence
    questionCadence := weight entries "cadence_question_bonus" d.questionCadence
    rhythm := weight entries "rhythm_motif_bonus" d.rhythm
    span := weight entries "range_penalty" d.span }

end Weights

/-- A score with a part that counts for it. -/
def credit (score : Float) (count weight : Amount) : Except Fault Float := do
  Amount.addTo score (← count.times weight)

/-- A score with a part that counts against it. -/
def debit (score : Float) (count weight : Amount) : Except Fault Float := do
  Amount.takeFrom score (← count.times weight)

/-! ## 2. Contours -/

section

variable {ν : Type} [Quantity ν]

/-- The differences between neighbours. -/
def differences : List ν → List ν
  | a :: b :: rest => (b - a) :: differences (b :: rest)
  | _ => []

/-- What is counted of the steps of a line: leaps, turns, and repeated pairs of steps. -/
structure Contour where
  leaps : Nat
  turns : Nat
  repeats : Nat
  deriving DecidableEq, Repr, Inhabited

namespace Contour

/-- A step of a fifth or more. -/
def isLeap (step : ν) : Bool := 7 ≤ magnitude step

/-- The changes of direction after a direction, where steps in place change nothing. -/
def turnsAfter (before : Int) : List ν → Nat
  | [] => 0
  | step :: rest =>
    let next := direction step
    (if before ≠ 0 ∧ next ≠ 0 ∧ next ≠ before then 1 else 0) +
      turnsAfter (if next ≠ 0 then next else before) rest

/-- A step as it is compared: its direction and its size up to an octave. -/
def shape (step : ν) : Int × ν :=
  (direction step, if magnitude step < 12 then magnitude step else 12)

/-- The pairs of neighbouring steps as they are compared. -/
def pairs : List ν → List ((Int × ν) × (Int × ν))
  | a :: b :: rest => (shape a, shape b) :: pairs (b :: rest)
  | _ => []

/-- The pairs that have occurred before. -/
def repeated {α : Type} [BEq α] (l : List α) : Nat :=
  (l.eraseDups.map fun a => l.count a - 1).sum

/-- The contour of a line of pitches. -/
def of (pitches : List ν) : Contour :=
  let steps := differences pitches
  ⟨steps.countP isLeap, turnsAfter 0 steps, repeated (pairs steps)⟩

/-- The part of a rating that a contour makes. -/
def score (c : Contour) (w : Weights) : Except Fault Float := do
  let score ← debit 0.0 (.whole c.leaps) w.leaps
  let score ← debit score (.whole c.turns) w.turns
  credit score (.whole c.repeats) w.repeats

end Contour

end

/-! ## 3. Ratings -/

/-- The rating of a melody that is too short to judge. -/
def lowestRating : Float := -9999.0

/-- What a melody is rated against: the chord of every bar, the key, and the settings. -/
structure Judge (ν : Type) [Quantity ν] where
  bars : List (Option Chord)
  key : Key
  params : Params ν
  weights : Weights

namespace Judge

variable {ν ε : Type} [Quantity ν] [Event ε ν] (j : Judge ν)

/-- The steps of a bar. -/
def stepsPerBar : ν := j.params.frame.stepsPerBar

/-- The first tick of the first bar. -/
def offset : ν := j.params.frame.startBar * j.stepsPerBar

/-- Whether the class of an event is one of some classes. -/
def hasClass (e : ε) (classes : List Int) : Bool :=
  Quantity.isOneOf (Event.pitch e % 12) classes

/-- The chord of the bar in which a step falls, if there is one. Bars are counted by whole
    numbers. -/
def chordAt (step : ν) : Except Fault (Option Chord) := do
  let bar ← settled (step / j.stepsPerBar)
  if !decide (bar < ((j.bars.length : Int) : ν)) then .ok none
  else
    match (Quantity.amount bar).whole? with
    | some n => .ok (j.bars.getD n.toNat none)
    | none => .error .wrongKind

/-- Whether an event is a tone of the chord of its bar, on a beat. -/
def hitsChord (e : ε) : Except Fault Bool := do
  let step ← settled (Event.start e - j.offset)
  if step < 0 || step % 4 != 0 then return false
  else
    match ← j.chordAt step with
    | some chord => return hasClass e chord.pitchClasses
    | none => return false

/-- The rating with the part of one event. -/
def addEvent (score : Float) (e : ε) : Except Fault Float := do
  let score ←
    if hasClass e j.key.classes then pure score else Amount.takeFrom score j.weights.outOfScale
  if ← j.hitsChord e then Amount.addTo score j.weights.chordTone else return score

/-- The distance of the highest pitch from the lowest. -/
def spanOf (pitches : List ν) : ν :=
  match pitches with
  | [] => 0
  | p :: rest =>
    rest.foldl (fun top p => if top < p then p else top) p
      - rest.foldl (fun bottom p => if p < bottom then p else bottom) p

/-- The rating with the part of a span of more than sixteen semitones. -/
def addSpan (score : Float) (span : ν) : Except Fault Float :=
  if 16 < span then debit score (Quantity.amount (span - 16)) j.weights.span else .ok score

/-- The bars of a phrase, which are counted by a whole number. -/
def barsPerPhrase : Except Fault Nat :=
  match (Quantity.amount j.params.frame.barsPerPhrase).whole? with
  | some n => .ok n.toNat
  | none => .error .wrongKind

/-- The number of the last bar of a phrase of some bars by its number. -/
def lastBar (bars phrase : Nat) : Nat := min (j.bars.length - 1) (phrase * bars + bars - 1)

/-- The number of phrases of some bars. -/
def phraseCount (bars : Nat) : Nat := (j.bars.length + bars - 1) / bars

/-- The last event of a bar. -/
def lastEvent (events : List ε) (bar : Nat) : Except Fault (Option ε) := do
  let start ← settled (j.offset + ((bar : Int) : ν) * j.stepsPerBar)
  let later := events.filter fun e => start ≤ Event.start e
  if later.isEmpty then return none
  let stop ← settled (start + j.stepsPerBar)
  return (later.filter fun e => Event.start e < stop).getLast?

/-- The rating with the part of the cadence of a phrase of some bars: an answer should end on the
    tonic, and a question off it. -/
def addCadence (events : List ε) (bars : Nat) (score : Float) (phrase : Nat) :
    Except Fault Float := do
  match ← j.lastEvent events (j.lastBar bars phrase) with
  | none => return score
  | some e =>
    let onTonic := hasClass e [j.key.tonic]
    if Role.ofIndex phrase = .answer then
      Amount.addTo score (if onTonic then j.weights.answerCadence else .real (-0.8))
    else Amount.addTo score (if onTonic then .real (-0.6) else j.weights.questionCadence)

/-- The number of gaps between neighbouring starts that occur three times or more. -/
def frequentGaps (events : List ε) : Nat :=
  let gaps := differences (events.map Event.start)
  (gaps.eraseDups.filter fun g => 3 ≤ gaps.count g).length

/-- The rating of events in the order of their starts. -/
def score (events : List ε) : Except Fault Float := do
  let pitches := events.map Event.pitch
  discard (settled j.offset)
  let score ← events.foldlM j.addEvent 0.0
  let score ← j.addSpan score (spanOf pitches)
  let score := score + (← (Contour.of pitches).score j.weights)
  let bars ← j.barsPerPhrase
  let score ← (List.range (j.phraseCount bars)).foldlM (j.addCadence events bars) score
  credit score (.whole (frequentGaps events)) j.weights.rhythm

end Judge

section

variable {ν ε : Type} [Quantity ν] [Event ε ν]

/-- The fewest events that are judged. -/
def fewestRated : Nat := 4

/-- The rating of a melody over a progression that is still to be read. It is read only where there
    are events enough to judge. -/
def rateOver (r : Registry) (events : List ε) (progression : Except Fault (List Entry))
    (params : Params ν) (weights : Weights) : Logged Float :=
  if events.length < fewestRated then .ok lowestRating
  else do
    let entries ← progression
    Logged.tell (unreadSymbols entries)
    let bars := barChords entries
    let key ← (params.key r bars : Except Fault Key)
    let j : Judge ν := ⟨bars, key, params, weights⟩
    (j.score (byStart events) : Except Fault Float)

/-- The rating of a melody over a progression. -/
def rate (r : Registry) (events : List ε) (entries : List Entry) (params : Params ν)
    (weights : Weights) : Logged Float :=
  rateOver r events (.ok entries) params weights

end

end Cantilena
