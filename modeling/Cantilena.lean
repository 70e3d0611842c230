import Cantilena.Arpeggio
import Cantilena.Arpeggio.Ordering
import Cantilena.Chord
import Cantilena.Chord.Formula
import Cantilena.Chord.Token
import Cantilena.Clip
import Cantilena.Command
import Cantilena.Command.Invocation
import Cantilena.Command.Option
import Cantilena.Disk
import Cantilena.Document
import Cantilena.Document.Flow
import Cantilena.Document.Scalar
import Cantilena.Fault
import Cantilena.Log
import Cantilena.Main
import Cantilena.Melody
import Cantilena.Melody.Frame
import Cantilena.Melody.Key
import Cantilena.Melody.Params
import Cantilena.Melody.Phrase
import Cantilena.Melody.Ranking
import Cantilena.Melody.Rating
import Cantilena.Melody.Rhythm
import Cantilena.Melody.Search
import Cantilena.Melody.Tendency
import Cantilena.Midi
import Cantilena.Midi.Attribute
import Cantilena.Midi.Decoding
import Cantilena.Midi.Encoding
import Cantilena.Midi.Message
import Cantilena.Midi.Pairing
import Cantilena.Midi.Sheet
import Cantilena.Midi.Timeline
import Cantilena.Motif
import Cantilena.Notation.Line
import Cantilena.Notation.NoteToken
import Cantilena.Notation.Repeat
import Cantilena.Notation.Token
import Cantilena.Note
import Cantilena.Note.Event
import Cantilena.Number.Amount
import Cantilena.Number.Dyadic
import Cantilena.Number.Numeral
import Cantilena.Number.Power
import Cantilena.Number.Quantity
import Cantilena.Number.Shortest
import Cantilena.Pitch
import Cantilena.Progression
import Cantilena.Progression.Block
import Cantilena.Proofs.Chord.Legible
import Cantilena.Proofs.Chord.Parts
import Cantilena.Proofs.Chord.Reading
import Cantilena.Proofs.Chord.Triads
import Cantilena.Proofs.Clip.Filing
import Cantilena.Proofs.Clip.Record
import Cantilena.Proofs.Command.Accompaniment
import Cantilena.Proofs.Command.Output
import Cantilena.Proofs.Disk.Written
import Cantilena.Proofs.Melody.Best
import Cantilena.Proofs.Melody.Causality
import Cantilena.Proofs.Melody.Classes
import Cantilena.Proofs.Melody.Contour
import Cantilena.Proofs.Melody.Decisions
import Cantilena.Proofs.Melody.InScale
import Cantilena.Proofs.Melody.Key
import Cantilena.Proofs.Melody.Later
import Cantilena.Proofs.Melody.Loudness
import Cantilena.Proofs.Melody.Nearest
import Cantilena.Proofs.Melody.Octave
import Cantilena.Proofs.Melody.Origin
import Cantilena.Proofs.Melody.Phrases
import Cantilena.Proofs.Melody.Pick
import Cantilena.Proofs.Melody.Raised
import Cantilena.Proofs.Melody.Rated
import Cantilena.Proofs.Melody.Rating
import Cantilena.Proofs.Melody.Reach
import Cantilena.Proofs.Melody.Register
import Cantilena.Proofs.Melody.Search
import Cantilena.Proofs.Melody.Shape
import Cantilena.Proofs.Melody.StartBar
import Cantilena.Proofs.Melody.Together
import Cantilena.Proofs.Melody.Tonic
import Cantilena.Proofs.Melody.Writing
import Cantilena.Proofs.Midi.Edges
import Cantilena.Proofs.Midi.Lanes
import Cantilena.Proofs.Midi.Pairing
import Cantilena.Proofs.Midi.Queue
import Cantilena.Proofs.Midi.Reading
import Cantilena.Proofs.Midi.RoundTrip
import Cantilena.Proofs.Notation.Cutting
import Cantilena.Proofs.Notation.Expansion
import Cantilena.Proofs.Notation.Grouped
import Cantilena.Proofs.Notation.Joined
import Cantilena.Proofs.Notation.Legible
import Cantilena.Proofs.Notation.Modest
import Cantilena.Proofs.Notation.Numbered
import Cantilena.Proofs.Notation.Overlay
import Cantilena.Proofs.Notation.Passage
import Cantilena.Proofs.Notation.Refusal
import Cantilena.Proofs.Notation.RepeatedLine
import Cantilena.Proofs.Notation.Resolved
import Cantilena.Proofs.Notation.Scanning
import Cantilena.Proofs.Notation.Spelling
import Cantilena.Proofs.Notation.Told
import Cantilena.Proofs.Notation.Walking
import Cantilena.Proofs.Note.Moved
import Cantilena.Proofs.Note.Order
import Cantilena.Proofs.Note.Raised
import Cantilena.Proofs.Number.Decimal
import Cantilena.Proofs.Number.Dyadic
import Cantilena.Proofs.Number.Order
import Cantilena.Proofs.Number.Readable
import Cantilena.Proofs.Number.Rounded
import Cantilena.Proofs.Outcome
import Cantilena.Proofs.Progression.Octave
import Cantilena.Proofs.Progression.Rows
import Cantilena.Proofs.Progression.Triads
import Cantilena.Proofs.Random.Coupled
import Cantilena.Proofs.Random.Drawing
import Cantilena.Proofs.Random.Recorded
import Cantilena.Proofs.Random.Results
import Cantilena.Proofs.Scale.History
import Cantilena.Proofs.Scale.Nearest
import Cantilena.Proofs.Scale.Reach
import Cantilena.Proofs.Scale.Registry
import Cantilena.Proofs.Sorting.Mapped
import Cantilena.Proofs.Sorting.Stable
import Cantilena.Proofs.Text.Folded
import Cantilena.Proofs.Text.Lines
import Cantilena.Random.Digest
import Cantilena.Random.Script
import Cantilena.Random.Seed
import Cantilena.Random.Source
import Cantilena.Random.Twister
import Cantilena.Scale
import Cantilena.Scale.Degree
import Cantilena.Scale.Registry
import Cantilena.Settings
import Cantilena.Sorting.Merge
import Cantilena.Sorting.Pending
import Cantilena.Sorting.Place
import Cantilena.Sorting.Run
import Cantilena.Text.Blank
import Cantilena.Text.Casing
import Cantilena.Text.CodePoint
import Cantilena.Text.Digit
import Cantilena.Text.Line
import Cantilena.Text.Lowercase
import Cantilena.Text.Printable
import Cantilena.Text.Quoted
import Cantilena.Value
import Cantilena.Proofs.Notation.Limit
import Cantilena.Proofs.Melody.Captured
import Cantilena.Proofs.Melody.Turns
import Cantilena.Proofs.Notation.Whole
import Cantilena.Proofs.Arpeggio.Orderings
import Cantilena.Proofs.Scale.Triads
import Cantilena.Proofs.Arpeggio.Line
import Cantilena.Proofs.Melody.Loudest
import Cantilena.Proofs.Text.Words
import Cantilena.Proofs.Progression.Written
import Cantilena.Proofs.Random.Unit
import Cantilena.Proofs.Melody.Dense
import Cantilena.Proofs.Number.Packed
import Cantilena.Proofs.Number.Product
import Cantilena.Proofs.Number.Amounts
import Cantilena.Proofs.Random.Weighted
import Cantilena.Proofs.Chord.Longest
import Cantilena.Proofs.Melody.Approach
