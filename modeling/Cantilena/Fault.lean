import Cantilena.Text.Quoted

/-!
# Faults

`Fault` lists every cause for which an operation of this library gives no result, and
`Fault.message` words it. A cause holds the values its wording shows; values that are not plain
texts or numbers are held as they are shown.
-/

namespace Cantilena

open Text (quoted quotedString quotedList)

/-- A cause for which an operation gives no result. -/
inductive Fault
  /-- A text that is no whole number. -/
  | notWhole (text : List Char)
  /-- A whole number of more digits than are read. -/
  | tooManyDigits (count : Nat)
  /-- A mark of a base without digits behind it. -/
  | notInBase (base : Nat)
  /-- A whole number of more digits than are written. -/
  | tooManyToWrite
  /-- A text that is no decimal number. -/
  | notDecimal (text : List Char)
  /-- A whole number is asked of a number that is none at all. -/
  | wholeOfNaN
  /-- A whole number is asked of an infinity. -/
  | wholeOfInfinity
  /-- A whole number beyond the range of binary fractions. -/
  | beyondFloat
  /-- A value of a kind that does not fit. -/
  | wrongKind
  /-- A value that is no mapping where one is asked for. -/
  | noMapping
  /-- A value that is no text where one is asked for. -/
  | noText
  /-- A list element that is no pair, by its place and its length. -/
  | noPair (place length : Nat)
  /-- A text that names no note. -/
  | unknownNote (name : List Char)
  | scaleStart (name : String)
  | scaleRange (name : String)
  | scaleRepeat (name : String)
  | scaleTriads (name : String)
  | unknownMode (mode : String) (available : List String)
  | noTriads (mode : String)
  | unknownQuality (name : String)
  | unknownSeventh (name : String)
  | pitchRange (pitch : Int)
  | startNegative
  | lengthTooShort
  | velocityRange (velocity : Int)
  /-- A repeat group that grows beyond the limit. -/
  | tooLarge (limit requested : Int)
  | clipTooShort
  | beatsTooFew
  | tempoTooLow
  | slotNegative
  | noOptions
  | noWeight
  | nothingToPick
  | entryTooShort (chord : List Char)
  | unreadableEntry (shown : String)
  | entryWithoutChord
  | entryTooFew (count : Nat)
  | entryTooMany
  | beatsNotPositive
  | barCount (item : List Char)
  | arpeggioSize
  | patternNotWhole (text : List Char)
  | patternNegative (text : List Char)
  | stepLength
  | repeatCount
  | unknownGenre (name : String) (available : List String)
  | phraseTooShort
  | startBarNegative
  | rangeNegative
  | leapTooSmall
  /-- A setting outside the unit interval, by its name and its value as shown. -/
  | outsideUnit (setting shown : String)
  | unknownSetting
  /-- A place outside a collection of some kind. -/
  | noSuchPlace (kind : String)
  /-- More values than can be counted. -/
  | tooManyToCount
  /-- A motif whose slots all lie before the first one. -/
  | motifBeforeStart
  | candidateCount
  | configurationShape (path : String)
  | configurationText
  | defaultLength
  | tokenLimit
  | tempoSetting
  | unreadableScale (shown : String)
  | channelRange
  /-- An attribute of a track that is below zero or above the most that is allowed. -/
  | attributeRange (most : Nat)
  /-- The rate of frames of a time, by its code. -/
  | frameRate (code : Nat)
  /-- The unit of the beats of a metre. -/
  | metreUnit
  /-- A key of too many sharps or flats, or of no mode. -/
  | keySigns
  | notMidi
  | noTrackHeader
  | noRunningStatus
  | undefinedStatus (status : Nat)
  | dataByteRange
  /-- A byte above 127 in a message of a maker of instruments. -/
  | systemByteRange
  /-- A message without its data bytes, or with too many, by its status byte. -/
  | wrongByteCount (status : Nat)
  | messageTooLong (size : Nat)
  /-- A time between two messages that is no whole number. -/
  | fractionalTime
  | endOfFile
  | noResolution
  | fileMissing (path : String)
  | fileIsFolder (path : String)
  /-- A path that goes through a file as if it were a folder. -/
  | fileInFile (path : String)
  /-- A name in a path that is too long. -/
  | nameTooLong (path : String)
  /-- A path with the character of code zero in it. -/
  | nullInPath
  /-- A file that holds no text. -/
  | fileText
  deriving DecidableEq, Repr, Inhabited

/-- The name of a message without data bytes. -/
def systemMessageName (status : Nat) : String :=
  match status with
  | 0xf6 => "tune_request"
  | 0xf8 => "clock"
  | 0xfa => "start"
  | 0xfb => "continue"
  | 0xfc => "stop"
  | _ => "active_sensing"

/-- The wording of a cause. -/
def Fault.message : Fault → String
  | .notWhole text =>
    "invalid literal for int() with base 10: "
      ++ String.ofList ((Text.quotedChars text).take 200)
  | .tooManyDigits count =>
    "Exceeds the limit (4300 digits) for integer string conversion: value has "
      ++ toString count ++ " digits; use sys.set_int_max_str_digits() to increase the limit"
  | .notInBase base => "invalid literal for int() with base " ++ toString base ++ ": ''"
  | .tooManyToWrite =>
    "Exceeds the limit (4300 digits) for integer string conversion; use "
      ++ "sys.set_int_max_str_digits() to increase the limit"
  | .notDecimal text => "could not convert string to float: " ++ quoted text
  | .wholeOfNaN => "cannot convert float NaN to integer"
  | .wholeOfInfinity => "cannot convert float infinity to integer"
  | .beyondFloat => "int too large to convert to float"
  | .wrongKind => "value of the wrong kind"
  | .noMapping => "value is not a mapping"
  | .noText => "value is not a text"
  | .noPair place length =>
    "dictionary update sequence element #" ++ toString place ++ " has length "
      ++ toString length ++ "; 2 is required"
  | .unknownNote name =>
    "Unknown note name: " ++ quoted name ++ ". Expected e.g. 'C', 'F#', 'Bb'."
  | .scaleStart name => "Scale " ++ quotedString name ++ " must start at interval 0"
  | .scaleRange name => "Scale " ++ quotedString name ++ " intervals must lie in 0-11"
  | .scaleRepeat name => "Scale " ++ quotedString name ++ " has duplicate intervals"
  | .scaleTriads name => "Scale " ++ quotedString name ++ " needs one triad quality per degree"
  | .unknownMode mode available =>
    "Unknown mode '" ++ mode ++ "'. Available: " ++ quotedList available
  | .noTriads mode => "Mode " ++ quotedString mode ++ " has no diatonic triad qualities"
  | .unknownQuality name => "Unknown chord quality: " ++ name
  | .unknownSeventh name => "Unknown seventh: " ++ name
  | .pitchRange pitch => "Pitch " ++ toString pitch ++ " outside 0-127"
  | .startNegative => "Start tick cannot be negative"
  | .lengthTooShort => "Length must be at least one tick"
  | .velocityRange velocity => "Velocity " ++ toString velocity ++ " outside 0-127"
  | .tooLarge limit requested =>
    "Repeat expansion needs " ++ toString requested ++ " tokens, limit is " ++ toString limit
  | .clipTooShort => "Clip must be at least one bar long"
  | .beatsTooFew => "Beats per bar must be at least 1"
  | .tempoTooLow => "BPM must be positive"
  | .slotNegative => "Slot cannot be negative"
  | .noOptions => "Options list cannot be empty"
  | .noWeight => "Total weight must be positive"
  | .nothingToPick => "Cannot choose from an empty sequence"
  | .entryTooShort chord => "Chord " ++ quoted chord ++ " must last at least one bar"
  | .unreadableEntry shown => "Cannot read a progression entry from " ++ shown
  | .entryWithoutChord => "'chord'"
  | .entryTooFew count =>
    "not enough values to unpack (expected 2, got " ++ toString count ++ ")"
  | .entryTooMany => "too many values to unpack (expected 2)"
  | .beatsNotPositive => "Beats per bar must be positive"
  | .barCount item => "Bar count must be a positive number in " ++ quoted item
  | .arpeggioSize => "Arpeggio size must be positive"
  | .patternNotWhole text => "Arpeggio pattern must be whole numbers: " ++ quoted text
  | .patternNegative text => "Arpeggio pattern indices cannot be negative: " ++ quoted text
  | .stepLength => "Step length must be positive"
  | .repeatCount => "Repeat must be positive"
  | .unknownGenre name available =>
    "Unknown genre '" ++ name ++ "'. Available: " ++ quotedList available
  | .phraseTooShort => "Bars per phrase must be at least 1"
  | .startBarNegative => "Start bar cannot be negative"
  | .rangeNegative => "Range cannot be negative"
  | .leapTooSmall => "Max leap must be at least one semitone"
  | .outsideUnit setting shown => setting ++ " must be between 0.0 and 1.0, got " ++ shown
  | .unknownSetting => "unknown setting"
  | .noSuchPlace kind => kind ++ " index out of range"
  | .tooManyToCount => "more values than can be counted"
  | .motifBeforeStart => "__len__() should return >= 0"
  | .candidateCount => "Candidate count must be at least 1"
  | .configurationShape path =>
    "Config file " ++ path ++ " must contain a mapping at the top level"
  | .configurationText => "malformed configuration"
  | .defaultLength => "default_length must be at least 1"
  | .tokenLimit => "max_expanded_tokens must be at least 1"
  | .tempoSetting => "bpm must be positive"
  | .unreadableScale shown => "Cannot read preferred_scale from " ++ shown
  | .channelRange => "MIDI channel must be 0-15"
  | .attributeRange most => "attribute must be in range 0.." ++ toString most
  | .frameRate code => toString code
  | .metreUnit => "denominator must be a power of 2"
  | .keySigns => "key signature out of range"
  | .notMidi => "MThd not found. Probably not a MIDI file"
  | .noTrackHeader => "no MTrk header at start of track"
  | .noRunningStatus => "running status without last_status"
  | .undefinedStatus status =>
    "undefined status byte 0x" ++ String.ofList (Text.hexDigits 2 status)
  | .dataByteRange => "data byte must be in range 0..127"
  | .systemByteRange => "data byte must be in range 0..127"
  | .wrongByteCount status =>
    "wrong number of bytes for " ++ systemMessageName status ++ " message"
  | .messageTooLong size =>
    "Message length " ++ toString size ++ " exceeds maximum length 1000000"
  | .fractionalTime => "message time must be int in MIDI file"
  | .endOfFile => ""
  | .noResolution => "division by zero"
  | .fileMissing path => "[Errno 2] No such file or directory: " ++ quotedString path
  | .fileIsFolder path => "[Errno 21] Is a directory: " ++ quotedString path
  | .fileInFile path => "[Errno 20] Not a directory: " ++ quotedString path
  | .nameTooLong path => "[Errno 36] File name too long: " ++ quotedString path
  | .nullInPath => "embedded null byte"
  | .fileText => "file is not text"

end Cantilena
