import Cantilena.Disk
import Cantilena.Document
import Cantilena.Melody.Params
import Cantilena.Notation.Line

/-!
# Settings of the program

* `DocumentReader`, `configurationEntries` -- a way to read documents, and the entries of a
  configuration file that is read in this way, none if there is no such file;
* `Settings.ofEntries` -- the settings that the entries give, the others as they are from the
  start;
* `melodyParams` -- the settings of melodies that a section of the configuration gives.
-/

namespace Cantilena

/-! ## 1. Configuration files -/

/-- The path of the configuration where none is given. -/
def configurationPath : String := "groovix.yaml"

/-- The text of a file, with all its line ends as line feeds. -/
def Disk.readText (d : Disk) (path : String) : Except Fault (List Char) := do
  let bytes ← d.read path
  match String.fromUTF8? ⟨bytes.toArray⟩ with
  | some text => return Text.unifyLineEnds text.toList
  | none => throw .fileText

/-- The entries that a document holds at its top level. An empty document has none. -/
def topEntries (path : String) : Value → Except Fault (Entries)
  | .null => .ok []
  | .mapping entries => .ok entries
  | _ => .error (.configurationShape path)

/-- A way to read the text of a document. A value of a kind of its own, such as a date, is read as one
    that settings treat in the same way. -/
abbrev DocumentReader := List Char → Except Fault Value

/-- The entries of a configuration file, in the way of a reader. A file that is missing is reported
    and has none. -/
def configurationEntries (read : DocumentReader) (d : Disk) (path : String) : Logged Entries :=
  if d.holds path then do
    let text ← (d.readText path : Except Fault (List Char))
    let document ← (read text : Except Fault Value)
    (topEntries path document : Except Fault Entries)
  else do
    Logged.say .warning ("Config file " ++ path ++ " not found. Using defaults.")
    return []

/-- The entries of a configuration file. -/
def loadConfiguration (d : Disk) (path : String) : Logged Entries :=
  configurationEntries Document.read d path

/-! ## 2. Settings -/

/-- The settings of the program. -/
structure Settings where
  octave : Int := Pitch.defaultOctave
  length : Int := 1
  limit : Int := Notation.defaultLimit
  tempo : Float := 120.0
  beatsPerBar : Int := 4
  melody : Entries := []

/-- A section of a configuration, if it is there and counts as true. -/
def section? (entries : Entries) (name : String) : Option Value :=
  (Value.get? entries name).filter Value.isTrue

/-- The entries of a section that has to be a mapping. -/
def mappingSection (entries : Entries) (name : String) :
    Except Fault (Entries) :=
  match section? entries name with
  | none => .ok []
  | some (.mapping entries) => .ok entries
  | some _ => .error .noMapping

namespace Settings

/-- The settings that the entries of a configuration give. -/
def read (entries : Entries) : Except Fault Settings := do
  let d : Settings := {}
  let lines ← mappingSection entries "notation"
  let octave ← Params.setting lines "default_octave" d.octave Value.whole
  let length ← Params.setting lines "default_length" d.length Value.whole
  let limit ← Params.setting lines "max_expanded_tokens" d.limit Value.whole
  let clip ← mappingSection entries "clip"
  let tempo ← Params.setting clip "bpm" d.tempo Value.decimal
  let beatsPerBar ← Params.setting clip "beats_per_bar" d.beatsPerBar Value.whole
  let melody ← match section? entries "melody" with
    | none => pure []
    | some v => v.pairs
  return { octave, length, limit, tempo, beatsPerBar, melody }

/-- Settings that are allowed. -/
def checked (s : Settings) : Except Fault Settings :=
  if s.length < 1 then .error .defaultLength
  else if s.limit < 1 then .error .tokenLimit
  else if s.tempo ≤ 0.0 then .error .tempoSetting
  else .ok s

/-- The settings that the entries of a configuration give, if they are allowed. -/
def ofEntries (entries : Entries) : Except Fault Settings :=
  read entries >>= checked

end Settings

/-! ## 3. Settings of melodies -/

/-- The names of notes that values list. -/
def namesOf (items : List Value) : Except Fault (List String) := items.mapM Value.plain

/-- The names of notes that a value lists. -/
def noteNames : Value → Except Fault (List String)
  | .list items => namesOf items
  | .text s => .ok (s.toList.map String.singleton)
  | .mapping entries => namesOf (entries.map fun e => .scalar e.1)
  | _ => .error .wrongKind

/-- The scale chosen up front that a value gives: a tonic, a list of notes, or a mapping. -/
def preferredScale : Value → Except Fault (Option PreferredScale)
  | .null => .ok none
  | .text root => .ok (some { root })
  | .list items => do return some { notes := ← namesOf items }
  | .mapping entries => do
    let d : PreferredScale := {}
    let root ← Params.setting entries "root" d.root Value.plain
    let mode ← Params.setting entries "mode" d.mode Value.plain
    let notes ← match section? entries "notes" with
      | none => pure []
      | some v => noteNames v
    return some { root, mode, notes }
  | v => do throw (.unreadableScale (← v.toShown))

/-- The same, if it has a key. -/
def preferredWithKey (r : Registry) (v : Value) : Except Fault (Option PreferredScale) := do
  match ← preferredScale v with
  | none => return none
  | some s =>
    let _ ← s.resolve r
    return some s

/-- The entries that are settings of melodies. The others are reported. -/
def knownSettings : Entries → Logged Entries
  | [] => .ok []
  | (key, v) :: rest =>
    if Params.isName key then do return (key, v) :: (← knownSettings rest)
    else do
      let name ← ((Value.scalar key).plain : Except Fault String)
      Logged.say .warning ("Ignoring unknown melody setting '" ++ name ++ "'")
      knownSettings rest

/-- Entries with a value under a key that is not there. -/
def withDefault (key : String) (value : Option Value) (entries : Entries) : Entries :=
  match value, Value.get? entries key with
  | some v, none => Value.put (.text key) v entries
  | _, _ => entries

/-- Entries with a value under a key, whether it is there or not. -/
def withValue (key : String) (value : Option Value) (entries : Entries) : Entries :=
  match value with
  | some v => Value.put (.text key) v entries
  | none => entries

/-- The settings of melodies that entries give, with the entries that count. The beats of a bar fill
    in where the entries leave them open; a seed takes the place of theirs. -/
def melodyParams (r : Registry) (entries : Entries) (beatsPerBar seed : Option Value) :
    Logged (Entries × Params Amount) := do
  let known ← knownSettings entries
  let chosen := (Value.get? known "preferred_scale").getD .null
  let preferred ← (preferredWithKey r chosen : Except Fault (Option PreferredScale))
  let counting := withValue "seed" seed (withDefault "beats_per_bar" beatsPerBar known)
  let params ← (Params.ofEntries r preferred counting : Except Fault (Params Amount))
  return (counting, params)

end Cantilena
