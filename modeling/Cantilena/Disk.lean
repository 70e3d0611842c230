import Cantilena.Fault

/-!
# Files

A disk holds files and folders at places. A place is the names on the way to it from the root; a
path is a text that names a place, from the root or from the working folder on. On the way every
name but the last has to lead to a folder, also one that the path leaves again.

* `Disk.standing` -- what stands at a place;
* `Disk.locate` -- the place that a path names, or the cause for which there is no way to it;
* `Disk.holds`, `Disk.read`, `Disk.write` -- whether something stands under a path, the content of a
  file, and a disk with other content in one.
-/

namespace Cantilena

/-! ## 1. Paths -/

/-- The names from the root to a file or a folder. -/
abbrev Place := List String

/-- The place one name further on. -/
def Place.step (place : Place) (name : String) : Place :=
  if name = "" ∨ name = "." then place
  else if name = ".." then place.dropLast
  else place ++ [name]

/-- The names that slashes separate, with the characters of the name being read in reverse. -/
def namesFrom (current : List Char) : List Char → List String
  | [] => [String.ofList current.reverse]
  | c :: rest =>
    if c = '/' then String.ofList current.reverse :: namesFrom [] rest
    else namesFrom (c :: current) rest

/-- The names of a path. A path that ends in a slash has an empty last name. -/
def namesOn (path : String) : List String := namesFrom [] path.toList

/-- The place from which a path goes on. -/
def origin (working : Place) (path : String) : Place :=
  if path.startsWith "/" then [] else working

/-- The place that a path names if there is a way to it. -/
def placeOf (working : Place) (path : String) : Place :=
  (namesOn path).foldl Place.step (origin working path)

/-- The most bytes of a name. -/
def longestName : Nat := 255

/-- The most bytes of a path. -/
def longestPath : Nat := 4095

/-! ## 2. Disks -/

/-- Files with their content, folders besides those that the places of files go through, and the
    folder from which paths go on. -/
structure Disk where
  files : List (Place × List UInt8) := []
  folders : List Place := []
  working : Place := []
  deriving DecidableEq, Repr, Inhabited

/-- What stands at a place. -/
inductive Standing
  | nothing
  | folder
  | file (bytes : List UInt8)
  deriving DecidableEq, Repr, Inhabited

namespace Disk

/-- The content of the file at a place. -/
def file? (d : Disk) (place : Place) : Option (List UInt8) := d.files.lookup place

/-- Whether a folder stands at a place: one that is there by itself, or one on the way to something
    else. -/
def isFolder (d : Disk) (place : Place) : Bool :=
  place.isPrefixOf d.working || d.folders.any (place.isPrefixOf ·)
    || d.files.any fun f => place.isPrefixOf f.1 && place != f.1

/-- What stands at a place. -/
def standing (d : Disk) (place : Place) : Standing :=
  if d.isFolder place then .folder
  else
    match d.file? place with
    | some bytes => .file bytes
    | none => .nothing

/-- The place one name further on along a path, which has to come by a folder. -/
def enter (d : Disk) (path : String) (place : Place) (name : String) : Except Fault Place :=
  match d.standing place with
  | .nothing => .error (.fileMissing path)
  | .file _ => .error (.fileInFile path)
  | .folder =>
    if longestName < name.utf8ByteSize then .error (.nameTooLong path) else .ok (place.step name)

/-- The place to which the names of a path lead. -/
def follow (d : Disk) (path : String) (names : List String) : Except Fault Place :=
  if path.toList.contains '\x00' then .error .nullInPath
  else if path = "" then .error (.fileMissing path)
  else if longestPath < path.utf8ByteSize then .error (.nameTooLong path)
  else names.foldlM (d.enter path) (origin d.working path)

/-- The place that a path names. -/
def locate (d : Disk) (path : String) : Except Fault Place := d.follow path (namesOn path)

/-- Whether something stands under a path. -/
def holds (d : Disk) (path : String) : Bool :=
  match d.locate path with
  | .ok place => d.standing place != .nothing
  | .error _ => false

/-- The content of a file. -/
def read (d : Disk) (path : String) : Except Fault (List UInt8) := do
  match d.standing (← d.locate path) with
  | .folder => throw (.fileIsFolder path)
  | .file bytes => return bytes
  | .nothing => throw (.fileMissing path)

/-- Files with one more, in the place of the one that is there already. -/
def put (place : Place) (bytes : List UInt8) :
    List (Place × List UInt8) → List (Place × List UInt8)
  | [] => [(place, bytes)]
  | f :: rest => if f.1 = place then (place, bytes) :: rest else f :: put place bytes rest

/-- The names of a path of a file that is to be written: without those behind its last slashes. -/
def namesToWrite (path : String) : List String :=
  ((namesOn path).reverse.dropWhile (· = "")).reverse

/-- A disk with other content in a file. The folder of the file has to be there; a path that ends
    in a slash names a folder. -/
def write (d : Disk) (path : String) (bytes : List UInt8) : Except Fault Disk := do
  let place ← d.follow path (namesToWrite path)
  if (namesOn path).getLast? = some "" ∨ d.standing place = .folder then
    throw (.fileIsFolder path)
  return { d with files := put place bytes d.files }

end Disk

end Cantilena
