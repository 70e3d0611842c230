import Cantilena.Melody.Frame
import Cantilena.Melody.Key
import Cantilena.Melody.Rhythm
import Cantilena.Melody.Tendency
import Cantilena.Random.Seed

/-!
# The settings of a melody

* `Params` -- all settings of a melody. The type holds no others than those that are allowed;
* `Params.ofEntries` -- the settings that the entries of a mapping give, the others as they are
  from the start;
* `Params.key` -- the key: a scale chosen up front, or a chosen mode on the root of the first
  chord, or the mode that this chord implies.
-/

namespace Cantilena

/-! ## 1. Settings -/

/-- The word for a mode that is taken from the first chord. -/
def automatic : String := "auto"

/-- The settings of a melody. -/
structure Params (ν : Type) [Quantity ν] where
  genre : Genre := .pop
  frame : Frame ν
  preferred : Option PreferredScale := none
  mode : String := automatic
  avoidOutOfScale : Bool := true
  allowChromatic : Bool := false
  tendencies : Tendencies := .start
  seed : Seed := .open

namespace Params

/-- The settings from the start. -/
def start : Params Int := { frame := .start }

/-- The same settings in whole numbers, if they are in whole numbers. -/
def whole? (p : Params Amount) : Option (Params Int) :=
  p.frame.whole?.map fun frame =>
    { genre := p.genre, frame, preferred := p.preferred, mode := p.mode
      avoidOutOfScale := p.avoidOutOfScale, allowChromatic := p.allowChromatic
      tendencies := p.tendencies, seed := p.seed }

/-- The names under which settings are given. -/
def names : List String :=
  ["genre", "bars_per_phrase", "start_bar", "beats_per_bar", "preferred_octave",
    "range_semitones", "preferred_scale", "scale_mode", "avoid_out_of_scale_chord_tones",
    "allow_chromatic_passing", "chromatic_passing_chance", "target_chord_tones_bias",
    "approach_note_chance", "stepwise_bias", "max_leap_semitones", "motif_reuse_chance",
    "question_cadence_bias", "answer_cadence_bias", "answer_variation", "density",
    "syncopation", "rest_chance", "use_triplets_chance", "legato_chance", "velocity_humanize",
    "base_velocity", "seed", "randomness"]

/-- Whether a key is the name of a setting. -/
def isName : Scalar → Bool
  | .text s => names.contains s
  | _ => false

/-! ## 2. Reading settings -/

/-- The genre a value names. -/
def genreOf : Value → Except Fault Genre
  | .list _ => .error .wrongKind
  | .mapping _ => .error .wrongKind
  | v => do
    let name ← v.plain
    match Genre.ofName? name with
    | some g => return g
    | none => throw (.unknownGenre name Genre.available)

/-- The mode a value names, which has to be there unless it is taken from the first chord. -/
def modeOf (r : Registry) : Value → Except Fault String
  | .text mode =>
    if Text.lowerString mode = automatic then .ok mode else (r.get mode).map fun _ => mode
  | _ => .error .noText

/-- What a named entry is read as, or what holds where there is none. -/
def setting {α : Type} (entries : Entries) (name : String) (start : α)
    (read : Value → Except Fault α) : Except Fault α :=
  match Value.get? entries name with
  | some v => read v
  | none => .ok start

/-- Whether a named entry counts as true, or what holds where there is none. -/
def flag (entries : Entries) (name : String) (start : Bool) : Bool :=
  ((Value.get? entries name).map Value.isTrue).getD start

/-- The settings that entries give, with the scale chosen up front. Settings are checked in a
    fixed order; the first that is not allowed is the cause if there are none. -/
def ofEntries (r : Registry) (preferred : Option PreferredScale)
    (entries : Entries) : Except Fault (Params Amount) := do
  if entries.any fun e => !isName e.1 then throw .unknownSetting
  let genre ← setting entries "genre" start.genre genreOf
  let frame ← Frame.ofEntries entries
  let mode ← setting entries "scale_mode" start.mode (modeOf r)
  let tendencies ← Tendencies.ofEntries entries
  return {
    genre, frame, preferred, mode, tendencies
    avoidOutOfScale := flag entries "avoid_out_of_scale_chord_tones" start.avoidOutOfScale
    allowChromatic := flag entries "allow_chromatic_passing" start.allowChromatic
    seed := ((Value.get? entries "seed").map Seed.ofValue).getD .open }

/-! ## 3. The key -/

/-- The key of a melody over bars of chords. A first chord that is missing or cannot be read counts
    as C major. -/
def key {ν : Type} [Quantity ν] (p : Params ν) (r : Registry) (bars : List (Option Chord)) :
    Except Fault Key :=
  match p.preferred with
  | some s => s.resolve r
  | none =>
    let first := (bars.headD none).getD fallbackChord
    let automatically := Text.lowerString p.mode == automatic
    r.key first.root (if automatically then impliedMode first else p.mode)

end Params

end Cantilena
