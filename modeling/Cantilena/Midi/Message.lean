/-!
# Messages of a track

A track is a list of messages, each with the file ticks that pass before it. Only notes, the
tempo and the end of a track are told apart; every other message merely takes up time. A message
about the track itself whose kind is not known does not even do that.
-/

namespace Cantilena.Midi

/-- A message of a track. -/
inductive Message
  | noteOn (channel pitch velocity : Int)
  | noteOff (channel pitch velocity : Int)
  /-- Microseconds of a beat. -/
  | tempo (microseconds : Int)
  | endOfTrack
  | other
  /-- A message about the track of a kind that is not known. -/
  | unknown
  deriving DecidableEq, Repr, Inhabited

/-- The ticks that pass with a message, given those that stand before it: none with a message that
    is not known. -/
def Message.ticks (delta : Int) : Message → Int
  | .unknown => 0
  | _ => delta

/-- A message and the file ticks that pass before it. -/
structure Timed where
  delta : Int
  message : Message
  deriving DecidableEq, Repr, Inhabited

/-- The messages of a track in order. -/
abbrev Track := List Timed

end Cantilena.Midi
