import Cantilena.Command

/-!
# The program

Reads the files a command line names, carries it out, prints its reports, and writes its file.
-/

namespace Cantilena.Main

open Command

/-- A file as an entry of a disk, with the folders a path goes through; nothing if it cannot be
    read. -/
def entryOf (path : String) : IO Disk := do
  try
    let bytes ← IO.FS.readBinFile path
    return { files := [(placeOf [] path, bytes.toList)], folders := passed path }
  catch _ => return {}
where
  /-- The places that a path goes through. -/
  passed (path : String) : List Place :=
    let names := namesOn path
    (List.range names.length).map fun count => (names.take count).foldl Place.step []

/-- The paths a command line reads from. -/
def inputsOf (i : Invocation) : List String :=
  match i.task with
  | .compile path _ => i.shared.configuration.toList ++ [path]
  | _ => i.shared.configuration.toList

/-- The folder a command line writes to; whether it is there shows when it is written to. -/
def folderOf (i : Invocation) : Place := (placeOf [] (shownPath i.shared.output)).dropLast

/-- The part of the disk that an invocation reads and writes. -/
def diskOf (i : Invocation) : IO Disk := do
  let parts ← (inputsOf i).mapM entryOf
  return { files := parts.flatMap (·.files), folders := folderOf i :: parts.flatMap (·.folders) }

/-- How a report is printed. -/
def line (e : LogEntry) : String :=
  (match e.level with
    | .debug => "DEBUG"
    | .info => "INFO"
    | .warning => "WARNING"
    | .error => "ERROR") ++ ": " ++ e.text

/-- Chance that differs from run to run. -/
def chance : IO (Chance Twister) := do
  let seed ← IO.rand 0 (2 ^ 31)
  return ⟨Twister.source, Twister.ofSeed seed, ← IO.rand 0 (2 ^ 31)⟩

/-- Writes the file that an invocation has changed, if it has. -/
def store (i : Invocation) (before after : Disk) : IO Unit := do
  let path := shownPath i.shared.output
  let place := placeOf [] path
  match after.file? place with
  | some bytes =>
    if before.file? place != some bytes then IO.FS.writeBinFile path ⟨bytes.toArray⟩
  | none => pure ()

/-- Carries an invocation out on the files that are there. -/
def perform (i : Invocation) : IO UInt32 := do
  let disk ← diskOf i
  let ending := i.carryOut .standard (← chance) disk
  for e in ending.log do IO.eprintln (line e)
  store i disk ending.disk
  match ending.code with
  | .error e =>
    IO.eprintln e.message
    return 1
  | .ok code => return UInt32.ofNat code.toNat

end Cantilena.Main

/-- Carries out the command line of the program. -/
def main (words : List String) : IO UInt32 := do
  match Cantilena.Command.Invocation.read words with
  | .ok i => Cantilena.Main.perform i
  | .error stop =>
    IO.eprintln "usage: cantilena [OPTIONS] notation FILE | melody PROGRESSION | arpeggio DEGREES"
    return UInt32.ofNat stop.code.toNat
