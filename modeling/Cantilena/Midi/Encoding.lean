import Cantilena.Midi.Sheet

/-!
# Tracks as bytes

* `variableBytes` -- a number in groups of seven bits, the highest first, where every byte but the
  last has its high bit set;
* `messageBytes` -- a message. A status byte that the message before it had too is left out;
* `fileBytes` -- a file of one track;
* `standardWriter` -- tracks as such files. One with fractions for times is cut short behind the
  header.
-/

namespace Cantilena.Midi

/-- The byte of a number below 256. -/
def byteOf (n : Nat) : UInt8 := UInt8.ofNat n

/-- The lowest bytes of a number, the highest of them first. -/
def fixedBytes : (count : Nat) → Nat → List UInt8
  | 0, _ => []
  | count + 1, n => byteOf (n / 256 ^ count % 256) :: fixedBytes count n

/-- The groups of seven bits above the lowest one, the highest first. -/
def upperGroups (n : Nat) : List UInt8 :=
  if n < 128 then []
  else upperGroups (n / 128) ++ [byteOf (n / 128 % 128 + 128)]
termination_by n
decreasing_by omega

/-- A number in groups of seven bits. -/
def variableBytes (n : Nat) : List UInt8 := upperGroups n ++ [byteOf (n % 128)]

/-- The status byte and the data bytes of a message on a channel. -/
def channelBytes : Message → Option (UInt8 × List UInt8)
  | .noteOn channel pitch velocity =>
    some (byteOf (0x90 + channel.toNat), [byteOf pitch.toNat, byteOf velocity.toNat])
  | .noteOff channel pitch velocity =>
    some (byteOf (0x80 + channel.toNat), [byteOf pitch.toNat, byteOf velocity.toNat])
  | _ => none

/-- The bytes of a message about the track itself. -/
def metaBytes : Message → List UInt8
  | .tempo microseconds => [0xff, 0x51, 3] ++ fixedBytes 3 microseconds.toNat
  | _ => [0xff, 0x2f, 0]

/-- The bytes of a message after a status byte, and the status byte then. -/
def messageBytes (status : Option UInt8) (m : Message) : List UInt8 × Option UInt8 :=
  match channelBytes m with
  | some (own, data) => (if status = some own then data else own :: data, some own)
  | none => (metaBytes m, none)

/-- The bytes of messages after a status byte. -/
def trackBytes (status : Option UInt8) : Track → List UInt8
  | [] => []
  | t :: rest =>
    let (bytes, status) := messageBytes status t.message
    variableBytes t.delta.toNat ++ bytes ++ trackBytes status rest

/-- A chunk of a file: its name of four characters, its size, its bytes. -/
def chunk (name : String) (bytes : List UInt8) : List UInt8 :=
  name.toList.map (fun c => byteOf c.toNat) ++ fixedBytes 4 bytes.length ++ bytes

/-- The bytes with which a file of one track begins. -/
def headerBytes : List UInt8 :=
  chunk "MThd" (fixedBytes 2 1 ++ fixedBytes 2 1 ++ fixedBytes 2 resolution.toNat)

/-- The bytes of a file of one track. -/
def fileBytes (track : Track) : List UInt8 := headerBytes ++ chunk "MTrk" (trackBytes none track)

/-- Writes a track as a file of its own. -/
def standardWriter : Writer := fun track =>
  match track.mapM FineTimed.whole? with
  | some track => ⟨fileBytes track, none⟩
  | none => ⟨headerBytes, some .fractionalTime⟩

end Cantilena.Midi
