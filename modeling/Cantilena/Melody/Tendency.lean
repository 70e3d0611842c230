import Cantilena.Value

/-!
# Tendencies

How a melody leans is set by shares, numbers from 0 to 1.

* `Share` -- a number from 0 to 1;
* `Tendencies` -- the shares that steer a melody;
* `Tendencies.ofEntries` -- the shares that the entries of a mapping give, the others as they are
  from the start.
-/

namespace Cantilena

/-! ## 1. Shares -/

/-- A number from 0 to 1. -/
structure Share where
  value : Float
  nonneg : 0.0 ≤ value
  le_one : value ≤ 1.0
  deriving DecidableEq, Repr

namespace Share

/-- The share a number is, or the cause why it is none. -/
def ofFloat (x : Float) (cause : Fault) : Except Fault Share :=
  if h : 0.0 ≤ x ∧ x ≤ 1.0 then .ok ⟨x, h.1, h.2⟩ else .error cause

/-- The share a value is. Whole numbers are compared exactly. -/
def ofValue (setting : String) : Value → Except Fault Share
  | .bool b => ofFloat (if b then 1.0 else 0.0) .wrongKind
  | .int n =>
    let cause := Number.shows n (.outsideUnit setting (toString n))
    if n = 0 ∨ n = 1 then ofFloat (Float.ofInt n) cause else .error cause
  | .float x => ofFloat x (.outsideUnit setting (Number.floatText x))
  | _ => .error .wrongKind

end Share

/-! ## 2. Tendencies -/

/-- The shares that steer a melody. -/
structure Tendencies where
  chromaticChance : Share := ⟨0.08, by decide, by decide⟩
  chordToneBias : Share := ⟨0.72, by decide, by decide⟩
  approachChance : Share := ⟨0.25, by decide, by decide⟩
  stepwiseBias : Share := ⟨0.70, by decide, by decide⟩
  motifReuse : Share := ⟨0.55, by decide, by decide⟩
  questionCadence : Share := ⟨0.35, by decide, by decide⟩
  answerCadence : Share := ⟨0.85, by decide, by decide⟩
  answerVariation : Share := ⟨0.30, by decide, by decide⟩
  density : Share := ⟨0.65, by decide, by decide⟩
  syncopation : Share := ⟨0.35, by decide, by decide⟩
  restChance : Share := ⟨0.18, by decide, by decide⟩
  fillChance : Share := ⟨0.08, by decide, by decide⟩
  legatoChance : Share := ⟨0.35, by decide, by decide⟩
  humanize : Share := ⟨0.12, by decide, by decide⟩
  loudness : Share := ⟨0.82, by decide, by decide⟩
  randomness : Share := ⟨0.35, by decide, by decide⟩
  deriving DecidableEq, Repr

namespace Tendencies

/-- The tendencies from the start. -/
def start : Tendencies := {}

/-- The share under a name, or what holds where there is none. -/
def share (entries : Entries) (name : String) (start : Share) :
    Except Fault Share :=
  match Value.get? entries name with
  | some v => Share.ofValue name v
  | none => .ok start

/-- The tendencies that entries give. The first share that is none is the cause if there are
    no tendencies. -/
def ofEntries (entries : Entries) : Except Fault Tendencies := do
  let d := start
  return {
    chromaticChance := ← share entries "chromatic_passing_chance" d.chromaticChance
    chordToneBias := ← share entries "target_chord_tones_bias" d.chordToneBias
    approachChance := ← share entries "approach_note_chance" d.approachChance
    stepwiseBias := ← share entries "stepwise_bias" d.stepwiseBias
    motifReuse := ← share entries "motif_reuse_chance" d.motifReuse
    questionCadence := ← share entries "question_cadence_bias" d.questionCadence
    answerCadence := ← share entries "answer_cadence_bias" d.answerCadence
    answerVariation := ← share entries "answer_variation" d.answerVariation
    density := ← share entries "density" d.density
    syncopation := ← share entries "syncopation" d.syncopation
    restChance := ← share entries "rest_chance" d.restChance
    fillChance := ← share entries "use_triplets_chance" d.fillChance
    legatoChance := ← share entries "legato_chance" d.legatoChance
    humanize := ← share entries "velocity_humanize" d.humanize
    loudness := ← share entries "base_velocity" d.loudness
    randomness := ← share entries "randomness" d.randomness }

end Tendencies

end Cantilena
