import Cantilena.Midi.Attribute
import Cantilena.Midi.Message

/-!
# Tracks from bytes

A file is a header and a number of tracks. A track is read message by message until exactly as
many bytes as its size says are used up; a track whose last message goes past its size never ends,
and the file ends first.

* `Reader` -- reads from the front of some bytes;
* `number` -- a number in groups of seven bits;
* `dataCount?` -- the number of data bytes after a status byte;
* `timed` -- a message with the ticks before it, and the status byte then;
* `events` -- the messages up to the end of a track;
* `readFile` -- the ticks of a beat and the tracks of a file.
-/

namespace Cantilena.Midi

/-! ## 1. Bytes -/

/-- Reads from the front of some bytes. -/
abbrev Reader := StateT (List UInt8) (Except Fault)

/-- The next byte. -/
def byte : Reader Nat
  | [] => .error .endOfFile
  | b :: rest => .ok (b.toNat, rest)

/-- The next bytes, if there are that many. -/
def exactly (count : Nat) : Reader (List Nat) := fun s =>
  if s.length < count then .error .endOfFile
  else .ok ((s.take count).map UInt8.toNat, s.drop count)

/-- Reads nothing and goes on where something holds. -/
def check (holds : Bool) (cause : Fault) : Reader Unit :=
  if holds then pure () else throw cause

/-- The longest message that is read. -/
def longestMessage : Nat := 1000000

/-- The next bytes of a message. -/
def messageData (count : Nat) : Reader (List Nat) :=
  if longestMessage < count then throw (Number.shows count (.messageTooLong count))
  else exactly count

/-- The number that groups of seven bits write behind those read before. -/
def numberFrom (before : Nat) : Reader Nat
  | [] => .error .endOfFile
  | b :: rest =>
    if b.toNat < 128 then .ok (before * 128 + b.toNat, rest)
    else numberFrom (before * 128 + (b.toNat - 128)) rest

/-- A number in groups of seven bits. -/
def number : Reader Nat := numberFrom 0

/-- The number that bytes write, the highest first. -/
def ofBytes (bytes : List Nat) : Nat := bytes.foldl (fun n b => 256 * n + b) 0

/-- The signed number that two bytes write. -/
def signedPair (high low : Nat) : Int :=
  let n := 256 * high + low
  if n < 32768 then n else n - 65536

/-! ## 2. Messages -/

/-- The number of data bytes after a status byte. -/
def dataCount? (status : Nat) : Option Nat :=
  match status / 16 with
  | 8 | 9 | 10 | 11 | 14 => some 2
  | 12 | 13 => some 1
  | _ =>
    match status with
    | 0xf2 => some 2
    | 0xf1 | 0xf3 => some 1
    | 0xf6 | 0xf8 | 0xfa | 0xfb | 0xfc | 0xfe => some 0
    | _ => none

/-- The message that a status byte and its data bytes mean. -/
def messageOf (status : Nat) (data : List Nat) : Message :=
  match status / 16, data with
  | 9, [pitch, velocity] => .noteOn (status % 16) pitch velocity
  | 8, [pitch, velocity] => .noteOff (status % 16) pitch velocity
  | _, _ => .other

/-- A message with a fixed number of data bytes, of which some have been read. -/
def plainMessage (status : Nat) (read : List Nat) : Reader Message :=
  match dataCount? status with
  | none => throw (.undefinedStatus status)
  | some count => do
    let more ← messageData (count - read.length)
    let data := read ++ more
    check (data.all (· ≤ 127)) .dataByteRange
    check (data.length == count) (.wrongByteCount status)
    return messageOf status data

/-- The data of a message of a maker of instruments, which may hold its own first and last byte. -/
def systemData (data : List Nat) : List Nat :=
  let data := if data.head? = some 0xf0 then data.drop 1 else data
  if data.getLast? = some 0xf7 then data.dropLast else data

/-- A message of a maker of instruments. -/
def systemMessage : Reader Message := do
  let count ← number
  let data ← messageData count
  check ((systemData data).all (· ≤ 127)) .systemByteRange
  return .other

/-- A message about the track itself. -/
def metaMessage : Reader Message := do
  let kind ← byte
  let count ← number
  let data ← messageData count
  checkAttributes kind data
  return if kind = 0x2f then .endOfTrack else if isKnown kind then .other else .unknown

/-- A message with a status byte, of which some data bytes have been read. -/
def message (status : Nat) (read : List Nat) : Reader Message :=
  if status = 0xff then metaMessage
  else if status = 0xf0 ∨ status = 0xf7 then systemMessage
  else plainMessage status read

/-- The message that a first byte starts, after a status byte; and the status byte then. A message
    may leave out the status byte it shares with the one before it. Messages about the track do not
    count. -/
def messageFrom (status : Option Nat) (first : Nat) : Reader (Message × Option Nat) :=
  if first < 128 then
    match status with
    | none => throw .noRunningStatus
    | some s => do
      let m ← message s [first]
      return (m, status)
  else do
    let m ← message first []
    return (m, if first = 0xff then status else some first)

/-- A message with the ticks before it, and the status byte then. -/
def timed (status : Option Nat) : Reader (Timed × Option Nat) := do
  let delta ← number
  let first ← byte
  let (m, status) ← messageFrom status first
  return (⟨m.ticks delta, m⟩, status)

/-! ## 3. What is left is shorter -/

/-- A reader leaves no more than it was given. -/
def Shortens {α : Type} (r : Reader α) : Prop :=
  ∀ s a rest, r s = .ok (a, rest) → rest.length ≤ s.length

theorem shortens_throw {α : Type} (e : Fault) : Shortens (throw e : Reader α) := by
  intro s a rest h
  cases h

theorem shortens_pure {α : Type} (a : α) : Shortens (pure a : Reader α) := by
  intro s b rest h
  cases h
  exact Nat.le_refl _

theorem shortens_bind {α β : Type} {r : Reader α} {f : α → Reader β} (hr : Shortens r)
    (hf : ∀ a, Shortens (f a)) : Shortens (r >>= f) := by
  intro s b rest h
  simp only [bind, StateT.bind, Except.bind] at h
  split at h
  · cases h
  · rename_i v hv
    exact Nat.le_trans (hf _ _ _ _ h) (hr _ _ _ hv)

theorem shortens_check (holds : Bool) (cause : Fault) : Shortens (check holds cause) := by
  unfold check
  split
  · exact shortens_pure _
  · exact shortens_throw _

theorem shortens_lift {α : Type} (r : Except Fault α) : Shortens (liftM r : Reader α) := by
  intro s a rest h
  cases r with
  | error e => cases h
  | ok b => cases h; exact Nat.le_refl _

theorem shortens_byte : Shortens byte := by
  intro s a rest h
  cases s with
  | nil => cases h
  | cons b tail => cases h; simp

theorem shortens_messageData (count : Nat) : Shortens (messageData count) := by
  unfold messageData
  split
  · exact shortens_throw _
  · intro s a rest h
    unfold exactly at h
    split at h
    · cases h
    · cases h; simp

theorem length_numberFrom {before n : Nat} {s rest : List UInt8}
    (h : numberFrom before s = .ok (n, rest)) : rest.length < s.length := by
  induction s generalizing before with
  | nil => cases h
  | cons b tail ih =>
    unfold numberFrom at h
    split at h
    · cases h; simp
    · have := ih h; simp only [List.length_cons]; omega

theorem shortens_number : Shortens number := fun _ _ _ h => Nat.le_of_lt (length_numberFrom h)

theorem shortens_message (status : Nat) (read : List Nat) : Shortens (message status read) := by
  unfold message
  split
  · exact shortens_bind shortens_byte fun _ => shortens_bind shortens_number fun _ =>
      shortens_bind (shortens_messageData _) fun _ => shortens_bind (shortens_lift _) fun _ =>
      shortens_pure _
  · split
    · exact shortens_bind shortens_number fun _ => shortens_bind (shortens_messageData _) fun _ =>
        shortens_bind (shortens_check _ _) fun _ => shortens_pure _
    · unfold plainMessage
      split
      · exact shortens_throw _
      · exact shortens_bind (shortens_messageData _) fun _ =>
          shortens_bind (shortens_check _ _) fun _ =>
          shortens_bind (shortens_check _ _) fun _ => shortens_pure _

theorem shortens_messageFrom (status : Option Nat) (first : Nat) :
    Shortens (messageFrom status first) := by
  unfold messageFrom
  split
  · split
    · exact shortens_throw _
    · exact shortens_bind (shortens_message _ _) fun _ => shortens_pure _
  · exact shortens_bind (shortens_message _ _) fun _ => shortens_pure _

/-- A message takes at least one byte. -/
theorem length_timed {status : Option Nat} {s rest : List UInt8} {r : Timed × Option Nat}
    (h : timed status s = .ok (r, rest)) : rest.length < s.length := by
  simp only [timed, bind, StateT.bind, Except.bind] at h
  split at h
  · cases h
  · rename_i v hv
    have hrest : Shortens (byte >>= fun first => messageFrom status first >>= fun r =>
        (pure (⟨r.1.ticks v.1, r.1⟩, r.2) : Reader (Timed × Option Nat))) :=
      shortens_bind shortens_byte fun _ =>
        shortens_bind (shortens_messageFrom _ _) fun _ => shortens_pure _
    exact Nat.lt_of_le_of_lt (hrest _ _ _ h) (length_numberFrom hv)

/-! ## 4. Tracks and files -/

/-- The messages after a status byte, up to the place where `left` bytes are left. -/
def events (left : Int) (status : Option Nat) (s : List UInt8) :
    Except Fault (Track × List UInt8) :=
  if (s.length : Int) = left then .ok ([], s)
  else
    match h : timed status s with
    | .error e => .error e
    | .ok ((t, status), rest) =>
      have := length_timed h
      (events left status rest).map fun (more, rest) => (t :: more, rest)
termination_by s.length

/-- The name and the size of a chunk. -/
def chunkHeader : Reader (List Nat × Nat) := do
  let header ← exactly 8
  return (header.take 4, ofBytes (header.drop 4))

/-- A track. -/
def track : Reader Track := fun s => do
  let ((name, size), rest) ← chunkHeader s
  if name ≠ [0x4d, 0x54, 0x72, 0x6b] then throw .noTrackHeader
  events ((rest.length : Int) - size) none rest

/-- A number of tracks. -/
def tracks : (count : Nat) → Reader (List Track)
  | 0 => pure []
  | count + 1 => do
    let first ← track
    let others ← tracks count
    return first :: others

/-- A file: the ticks of a beat, and its tracks. -/
structure File where
  perBeat : Int
  tracks : List Track
  deriving DecidableEq, Repr, Inhabited

/-- The number of tracks and the ticks of a beat. What the header holds behind them is passed
    over, and so is the end of a header that is cut off. -/
def fileHeader : Reader (Int × Int) := fun s => do
  let ((name, size), rest) ← chunkHeader s
  if name ≠ [0x4d, 0x54, 0x68, 0x64] then throw .notMidi
  match (rest.take size).map UInt8.toNat with
  | _ :: _ :: a :: b :: c :: d :: _ => return ((signedPair a b, signedPair c d), rest.drop size)
  | _ => throw .endOfFile

/-- Reads a file. A negative number of tracks counts as none. -/
def readFile (bytes : List UInt8) : Except Fault File := do
  let ((count, perBeat), rest) ← fileHeader bytes
  let (tracks, _) ← tracks count.toNat rest
  return ⟨perBeat, tracks⟩

end Cantilena.Midi
