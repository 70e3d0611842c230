import Cantilena.Melody.Params
import Cantilena.Motif
import Cantilena.Note.Event

/-!
# Writing phrases

A phrase is written bar by bar, slot by slot, and every decision is drawn from a source.

* `Composer` -- what is fixed for a melody: its settings, its key and the chord of every bar;
* `Composer.targetClass` -- the pitch class a slot aims for;
* `Composer.nextPitch` -- where a class is placed after the previous note: in the nearest octave,
  within the largest leap, within the register, on the scale;
* `Composer.writeSlot`, `Composer.writeBar`, `Composer.writeBars` -- the strokes of a slot, of a
  bar, of a phrase, with the motif they replay or record;
* `Composer.writePhrase` -- a phrase from some bar on; bars before the first count from the end.
-/

namespace Cantilena

/-! ## 1. Strokes -/

/-- What a phrase does: a question records its motif, an answer replays it with variations. -/
inductive Role
  | question | answer | other
  deriving DecidableEq, Repr, Inhabited

/-- The role of a phrase by its number: questions and answers take turns. -/
def Role.ofIndex (index : Nat) : Role := if index % 2 = 0 then .question else .answer

/-- Why a stroke is written: for a slot, as a neighbour leading into the note of a slot, or as a
    fill behind it. -/
inductive StrokeKind
  | main | approach | fill
  deriving DecidableEq, Repr, Inhabited

/-- A note of a phrase with the reason why it is written. -/
structure Stroke (ε : Type) where
  kind : StrokeKind
  note : ε
  deriving DecidableEq, Repr, Inhabited

/-- The velocity of a loudness: 127 times as much, rounded, and never below 1 or above 127. A
    product of a binary floating-point number is one itself. -/
def velocityOf : Amount → Except Fault Int
  | .whole n => .ok (keepBetween 1 127 (127 * n))
  | .real x =>
    match Number.Dyadic.ofFloat? x with
    | none => .error (Number.notFinite x)
    | some d =>
      let product := Number.Dyadic.nearest (127 * d.num) d.den
      if product.overflows then .error .wholeOfInfinity
      else
        let n := Number.roundQuotient product.num product.den
        .ok (keepBetween 1 127 (Number.signed (Number.hasMinus x) n))
  | .missing cause => .error cause

/-! ## 2. Composers -/

/-- What is fixed for a melody. -/
structure Composer (ν : Type) [Quantity ν] where
  params : Params ν
  key : Key
  bars : List (Option Chord)

namespace Composer

variable {σ ν ε : Type} [Quantity ν] [Event ε ν] (src : Source σ) (c : Composer ν)

/-- The pitch of a class in the preferred octave. -/
def middle (pc : Int) : ν := pc + 12 * (c.params.frame.octave + 1)

/-- The middle of the register: the tonic in the preferred octave. -/
def centre : ν := c.middle c.key.tonic

/-- The composer of a progression. Its octave has to be a number. -/
def make (r : Registry) (params : Params ν) (bars : List (Option Chord)) :
    Except Fault (Composer ν) := do
  let c : Composer ν := ⟨params, ← params.key r bars, bars⟩
  discard (settled c.centre)
  return c

/-- The steps of a bar. -/
def stepsPerBar : ν := c.params.frame.stepsPerBar

/-- Whether a step is on a beat. -/
def isStrong (step : Nat) : Bool := step % 4 == 0

/-- Whether a step is in the last beat of a bar. -/
def atCadence (step : Nat) : Bool := c.stepsPerBar - 4 ≤ ((step : Int) : ν)

/-! ### 2.1 Targets -/

/-- The weight of a class of the scale: the second, fourth, sixth and seventh degrees of the major
    scale colour a line. -/
def colourWeight (pc : Int) : Float :=
  if (pc - c.key.tonic) % 12 ∈ [2, 5, 9, 11] then 1.15 else 1.0

/-- Any class of the scale, by its weight. -/
def scaleTone : Drawing σ Int :=
  match c.key.classes.map fun pc => (pc, Amount.real (c.colourWeight pc)) with
  | [] => pure c.key.tonic
  | first :: others => src.weightedFrom first others

/-- Any class of a chord. -/
def anyTone (chord : Chord) : Drawing σ Int :=
  match chord.pitchClasses with
  | [] => pure chord.root
  | first :: others => src.choose first others

/-- A class of a chord. On the beat it is one of the scale, if those outside are avoided; off the
    beat it may stay outside, if that is allowed. -/
def chordTone (chord : Chord) (strong : Bool) : Drawing σ Int := do
  let p := c.params
  if p.avoidOutOfScale && strong then
    match chord.pitchClasses.filter (· ∈ c.key.classes) with
    | [] => return c.key.snap chord.root % 12
    | first :: others => src.choose first others
  else
    let t := p.tendencies
    let free ←
      if p.allowChromatic && !strong then
        src.chance (t.chromaticChance.value * (0.5 + t.randomness.value))
      else pure false
    let pc ← anyTone src chord
    return if free then pc else c.key.snap pc % 12

/-- The class on which a bar comes to rest: mostly the root of its chord, or else the tonic. -/
def cadenceTone (chord : Chord) : Drawing σ Int := do
  let pc ← src.weightedFrom (chord.root, .real 0.65) [(c.key.tonic, .real 0.35)]
  return c.key.snap pc % 12

/-- The class a slot aims for. -/
def targetClass (chord : Chord) (step : Nat) (role : Role) : Drawing σ Int := do
  let t := c.params.tendencies
  let strong := isStrong step
  let bias := t.chordToneBias.value
  let wantsChord ← src.chance (if strong then bias else bias * 0.55)
  let cadence := if role = .question then t.questionCadence else t.answerCadence
  let rests ← if c.atCadence step then src.chance cadence.value else pure false
  if rests then c.cadenceTone src chord
  else if wantsChord then c.chordTone src chord strong
  else c.scaleTone src

/-! ### 2.2 Placing -/

/-- Whichever of two pitches is nearer to a third; the first if both are equally near. -/
def nearer (last a b : ν) : ν := if magnitude (b - last) < magnitude (a - last) then b else a

/-- The pitch of a class nearest to the previous note, of the preferred octave and the two octaves
    on either side of it. -/
def nearestOctave (pc : Int) (last : ν) : ν :=
  let middle := c.middle pc
  [middle, middle + 12, middle + 24, middle - 24].foldl (nearer last) (middle - 12)

/-- The lowest pitch of the register. -/
def lowest : ν := c.centre - c.params.frame.range

/-- The highest pitch of the register. -/
def highest : ν := c.centre + c.params.frame.range

/-- A pitch kept within the register and put on the scale. -/
def place (pitch : ν) : ν :=
  keepBetween 0 127 (c.key.snap (keepBetween c.lowest c.highest pitch))

/-- That the register has bounds. -/
def checkRegister : Except Fault Unit := do
  discard (settled c.lowest)
  discard (settled c.highest)

/-- A pitch kept within the largest leap from the previous note. -/
def withinLeap (last pitch : ν) : ν :=
  let most := c.params.frame.maxLeap
  if most < magnitude (pitch - last) then
    last + (if 0 < pitch - last then most else -most)
  else pitch

/-- A near pitch moved by a fifth now and then, where steps are not preferred. -/
def maybeLeap (last near : ν) : Drawing σ ν := do
  let t := c.params.tendencies
  let prefersStep ← src.chance t.stepwiseBias.value
  if !prefersStep && magnitude (near - last) < 3 then
    if ← src.chance (0.35 + 0.35 * t.randomness.value) then
      return near + (if ← src.chance 0.5 then 7 else -7)
    else return near
  else return near

/-- The pitch of a class after the previous note. -/
def nextPitch (last : Option ν) (pc : Int) : Drawing σ ν := do
  match last with
  | none =>
    c.checkRegister
    return c.place (c.middle pc)
  | some last =>
    let pitch ← c.maybeLeap src last (c.nearestOctave pc last)
    c.checkRegister
    return c.place (c.withinLeap last pitch)

/-- A neighbour that leads into a pitch, from below if the line does not fall. -/
def neighbour (last pitch : ν) : ν :=
  keepBetween 0 127 (c.key.snap (if last ≤ pitch then pitch - 1 else pitch + 1))

/-- The neighbour that leads into a pitch, if one is written. -/
def approach (last : Option ν) (pitch : ν) : Drawing σ (Option ν) := do
  match last with
  | none => return none
  | some last =>
    if ← src.chance c.params.tendencies.approachChance.value then
      return some (c.neighbour last pitch)
    else return none

/-! ### 2.3 Lengths and loudness -/

/-- The longest note. -/
def longest : Int := 8

/-- The length of a note, tied over now and then. -/
def lengthOf (duration : Nat) : Drawing σ Int := do
  if ← src.chance c.params.tendencies.legatoChance.value then
    return keepBetween 1 longest (duration + (← src.choose 1 [2]))
  else return duration

/-- The loudness of a note with an accent. -/
def loudnessOf (accent : Float) : Drawing σ Float := do
  let t := c.params.tendencies
  let x ← src.draw
  return keepBetween 0.2 1.0
    (t.loudness.value * (0.75 + 0.5 * accent) + (x * 2.0 - 1.0) * t.humanize.value)

/-! ## 3. Slots, bars, phrases -/

/-- How far a phrase has come: its strokes, its motif, and the pitch of its last main note or
    fill. -/
structure Line (ε ν : Type) where
  strokes : Array (Stroke ε) := #[]
  motif : Motif := {}
  last : Option ν := none

/-- Where a bar stands: its first tick, its chord, the role of its phrase, and whether it replays
    the motif. -/
structure Bar (ν : Type) where
  tick : ν
  chord : Chord
  role : Role
  replays : Bool

/-- A line with one more stroke of a loudness. -/
def push (kind : StrokeKind) (pitch start : ν) (length : Int) (loudness : Float)
    (line : Line ε ν) : Except Fault (Line ε ν) := do
  let note ← Event.make pitch start length (← velocityOf (.real loudness))
  return { line with strokes := line.strokes.push ⟨kind, note⟩ }

/-- The class a slot aims for, recalled from the motif or chosen anew; a question records what it
    chooses. -/
def aim (bar : Bar ν) (i : Nat) (slot : Slot) (motif : Motif) : Drawing σ (Int × Motif) := do
  match ← if bar.replays then motif.classAt i else pure none with
  | some pc =>
    let varies ←
      if bar.role = .answer then src.chance c.params.tendencies.answerVariation.value
      else pure false
    if varies then return (← Motif.varied src c.key.classes pc, motif) else return (pc, motif)
  | none =>
    let pc ← c.targetClass src bar.chord slot.step bar.role
    return (pc, if bar.role = .question then motif.store i pc else motif)

/-- A fill at a step behind a note, if one is written. -/
def fill (bar : Bar ν) (step : Nat) (pc : Int) (loudness : Float) (line : Line ε ν) :
    Drawing σ (Line ε ν) := do
  if c.stepsPerBar ≤ ((step : Int) : ν) then return line
  else if ← src.chance 0.55 then return line
  else
    let nudge ← src.choose (-2) [-1, 1, 2]
    let pitch ← c.nextPitch src line.last (c.key.snap (pc + nudge) % 12)
    let line ← push .fill pitch (bar.tick + (step : Int)) 1
      (keepBetween 0.2 1.0 (loudness * 0.7)) line
    return { line with last := some pitch }

/-- The fills behind a note, now and then. -/
def fills (bar : Bar ν) (slot : Slot) (pc : Int) (loudness : Float) (line : Line ε ν) :
    Drawing σ (Line ε ν) := do
  let t := c.params.tendencies
  let filled ← src.chance (t.fillChance.value * t.randomness.value)
  if filled && ((slot.step : Int) : ν) ≤ c.stepsPerBar - 4 then
    let line ← c.fill src bar (slot.step + 1) pc loudness line
    c.fill src bar (slot.step + 2) pc loudness line
  else return line

/-- The stroke that leads into the note of a slot, if one is written. -/
def leadIn (bar : Bar ν) (slot : Slot) (approach : Option ν) (loudness : Float)
    (line : Line ε ν) : Drawing σ (Line ε ν) := do
  match approach with
  | none => return line
  | some pitch =>
    if slot.step = 0 then return line
    else if ← src.chance (0.55 + 0.25 * c.params.tendencies.randomness.value) then
      push .approach pitch (bar.tick + (slot.step : Int) - 1) 1
        (keepBetween 0.2 1.0 (loudness * 0.78)) line
    else return line

/-- The strokes of a slot that sounds. -/
def soundSlot (bar : Bar ν) (i : Nat) (slot : Slot) (line : Line ε ν) :
    Drawing σ (Line ε ν) := do
  let (pc, motif) ← c.aim src bar i slot line.motif
  let pitch ← c.nextPitch src line.last pc
  let approach ← c.approach src line.last pitch
  let length ← c.lengthOf src slot.duration
  let loudness ← c.loudnessOf src slot.accent
  let line ← c.leadIn src bar slot approach loudness { line with motif }
  let line ← push .main pitch (bar.tick + (slot.step : Int)) length loudness line
  c.fills src bar slot pc loudness { line with last := some pitch }

/-- The strokes of a slot, which may stay silent. -/
def writeSlot (bar : Bar ν) (line : Line ε ν) (slot : Slot × Nat) : Drawing σ (Line ε ν) := do
  if (← src.draw) > c.params.tendencies.density.value then return line
  else if (← src.draw) < c.params.tendencies.restChance.value then return line
  else c.soundSlot src bar slot.2 slot.1 line

/-- The slots of a rhythm that fall in the bar; without syncopation only those on even steps. -/
def slotsOf (rhythm : Rhythm) (syncopated : Bool) : List Slot :=
  (if syncopated then rhythm else rhythm.filter (·.step % 2 == 0)).filter
    fun slot => ((slot.step : Int) : ν) < c.stepsPerBar

/-- The first tick of a bar by its number. -/
def tickOfBar (index : Int) : ν := (c.params.frame.startBar + index) * c.stepsPerBar

/-- The strokes of a bar with a chord. -/
def writeBar (role : Role) (line : Line ε ν) (bar : Option Chord × Int) :
    Drawing σ (Line ε ν) := do
  let genre := c.params.genre
  let t := c.params.tendencies
  let tick ← settled (c.tickOfBar bar.2)
  let rhythm ← src.chooseFrom "tuple" genre.firstRhythm genre.otherRhythms
  let syncopated ← src.chance t.syncopation.value
  let slots := c.slotsOf rhythm syncopated
  let replays ← if line.motif.isEmpty then pure false else src.chance t.motifReuse.value
  let bar : Bar ν := ⟨tick, bar.1.getD fallbackChord, role, replays⟩
  slots.zipIdx.foldlM (c.writeSlot src bar) line

/-- Bars with their numbers from one on. -/
def numbered (first : Int) (bars : List (Option Chord)) : List (Option Chord × Int) :=
  bars.zipIdx.map fun (chord, i) => (chord, first + (i : Int))

/-- The strokes of numbered bars, and the motif they end with. -/
def writeBars (role : Role) (motif : Motif) (bars : List (Option Chord × Int)) :
    Drawing σ (Line ε ν) :=
  bars.foldlM (c.writeBar src role) { motif }

/-- The bars from a number on. Numbers below zero count from the end. -/
def barsFrom (first : Int) : List (Option Chord × Int) :=
  let size : Int := c.bars.length
  if 0 ≤ first then numbered first (c.bars.drop first.toNat)
  else if -size ≤ first then
    numbered first (c.bars.drop (size + first).toNat) ++ numbered 0 c.bars
  else []

/-- The notes of a phrase of some bars, and its motif. The bars are written as far as there are
    any; a phrase that goes past the last one has no result. -/
def writePhrase (first count : Int) (role : Role) (motif : Motif) :
    Drawing σ (List ε × Motif) := do
  let bars := (c.barsFrom first).take count.toNat
  let line : Line ε ν ← c.writeBars src role motif bars
  if (bars.length : Int) < count then throw (.noSuchPlace "list")
  return (line.strokes.toList.map (·.note), line.motif)

end Composer

end Cantilena
