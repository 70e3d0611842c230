import Cantilena.Chord
import Cantilena.Log
import Cantilena.Value

/-!
# Progressions

A progression is a list of entries, each a chord symbol and the number of bars it lasts.

* `Entry.make` -- an entry lasts at least one bar;
* `Entry.ofValue` -- an entry from a symbol, a pair of symbol and bars, or a mapping;
* `readProgression` -- reads symbols separated by blanks. A number among them sets the length in
  beats of those that follow, and a colon with a number behind a symbol its own length in bars;
* `barChords` -- the chord of every bar.
-/

namespace Cantilena

/-- A chord symbol held for a number of bars. -/
structure Entry where
  chord : List Char
  bars : Nat
  bars_pos : 0 < bars
  deriving DecidableEq, Repr

namespace Entry

/-- An entry of a number of bars, which is at least one. -/
def make (chord : List Char) (bars : Int) : Except Fault Entry :=
  if h : 1 ≤ bars then .ok ⟨chord, bars.toNat, by omega⟩ else .error (.entryTooShort chord)

/-- An entry of the symbol and the bars that two values give. -/
def ofParts (chord bars : Value) : Except Fault Entry := do
  make (← chord.plain).toList (← bars.whole)

/-- An entry from a value: a symbol, a pair of symbol and bars, or a mapping. -/
def ofValue : Value → Except Fault Entry
  | .text s => make s.toList 1
  | .list [chord, bars] => ofParts chord bars
  | .list (_ :: _ :: _ :: _) => .error .entryTooMany
  | .list items => .error (.entryTooFew items.length)
  | .mapping entries =>
    match Value.get? entries "chord" with
    | none => .error .entryWithoutChord
    | some chord => ofParts chord ((Value.get? entries "bars").getD (.int 1))
  | v => do throw (.unreadableEntry (← v.toShown))

end Entry

/-! ## Reading -/

/-- The text before the first colon, and the text behind it. -/
def splitColon (item : List Char) : List Char × List Char :=
  (item.takeWhile (· != ':'), (item.dropWhile (· != ':')).drop 1)

/-- The entries of items, where symbols without a length of their own last `bars` bars. -/
def readItems (beatsPerBar : Int) (bars : Nat) : List (List Char) → Except Fault (List Entry)
  | [] => .ok []
  | item :: rest =>
    if Text.isDigits item then do
      let beats ← Number.wholeNumber item
      readItems beatsPerBar (max 1 (beats / beatsPerBar)).toNat rest
    else do
      let (symbol, count) := splitColon item
      let entry ←
        if count.isEmpty then Entry.make symbol bars
        else if !Text.isDigits count then throw (.barCount item)
        else do
          let own ← Number.wholeNumber count
          if own < 1 then throw (.barCount item)
          Entry.make symbol own
      return entry :: (← readItems beatsPerBar bars rest)

/-- Reads a progression. -/
def readProgression (text : List Char) (beatsPerBar : Int) : Except Fault (List Entry) :=
  if beatsPerBar ≤ 0 then .error .beatsNotPositive
  else readItems beatsPerBar 1 (Text.words text)

/-! ## Bars -/

/-- The chord of every bar; none where a symbol cannot be read. -/
def barChords (entries : List Entry) : List (Option Chord) :=
  entries.flatMap fun e => List.replicate e.bars (Chord.ofSymbol? e.chord)

/-- The reports of the symbols that cannot be read. -/
def unreadSymbols (entries : List Entry) : List LogEntry :=
  (entries.filter fun e => (Chord.ofSymbol? e.chord).isNone).map fun e =>
    ⟨.warning, "Could not read chord " ++ Text.quoted e.chord ++ "; using C major for its bars"⟩

end Cantilena
