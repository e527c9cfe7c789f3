import Flowchart.Text.Basic

/-!
# Files

Files as a command sees them: the bytes that they hold, the directories that their paths pass through,
and the directory from which relative paths start. Reading and writing fail for the reasons, and with
the messages, of an operating system, which may also refuse access to any place. A path is followed
from left to right, and **the first step that cannot be taken decides the error**. A file is read as a
text, so its bytes must be one in UTF-8.
-/

namespace Flowchart

/-! ## Paths -/

/-- Why a file cannot be read or written. -/
inductive FileError where
  | nulCharacter
  | nameTooLong
  | notFound
  | notDirectory
  | isDirectory
  | notText
  | refused (reason : String)
  deriving DecidableEq, Repr

/-- The message of the operating system, or of reading a text. -/
def FileError.message : FileError → String
  | nulCharacter => "file name contained an unexpected NUL byte"
  | nameTooLong => "File name too long (os error 36)"
  | notFound => "No such file or directory (os error 2)"
  | notDirectory => "Not a directory (os error 20)"
  | isDirectory => "Is a directory (os error 21)"
  | notText => "stream did not contain valid UTF-8"
  | refused reason => reason

namespace Path

/-- The number of bytes that the name of one file may have. -/
def nameLimit : Nat := 255

/-- The number of bytes that a whole path may have. -/
def limit : Nat := 4095

/-- The pieces of a path between its slashes. -/
def pieces (path : String) : List String := (path.toList.splitOn '/').map String.ofList

/-- The pieces of a path that the operating system accepts, wherever it leads. -/
def accepted (path : String) : Except FileError (List String) :=
  if path.toList.contains '\x00' then .error .nulCharacter
  else if path.utf8ByteSize ≤ limit then .ok (pieces path)
  else .error .nameTooLong

/-- The steps of a path: its pieces without those that stay where they are. -/
def steps (path : String) : List String := (pieces path).filter fun p => p ≠ "" && p ≠ "."

/-- The last step of a path, if it is a name. -/
def fileName? (path : String) : Option String :=
  (steps path).getLast?.filter fun name => name ≠ ".."

/-- What follows the last dot of the file name; a dot in front of the whole name does not count. -/
def extension? (path : String) : Option String :=
  match (fileName? path).map fun name => Text.breakAtLast? '.' name.toList with
  | some (some (_ :: _, extension)) => some (String.ofList extension)
  | _ => none

end Path

/-! ## Files and directories -/

/-- What is asked of a place: to go on from a directory, to read a file, or to write one. -/
inductive Access where
  | pass
  | read
  | write
  deriving DecidableEq, Repr

/-- Files by the steps that lead to them from the root, directories that need not hold a file, the
current directory, and the reason why the operating system refuses access to a place, if it does. -/
structure Files where
  contents : List (List String × ByteArray)
  directories : List (List String) := []
  current : List String := []
  refusal? : Access → List String → Option String := fun _ _ => none

/-- What stands at a place. -/
inductive Entry where
  | file (content : ByteArray)
  | directory
  | absent

namespace Files

/-- Text files in a directory, by paths that start from there. -/
def ofList (current : List String) (files : List (String × String)) : Files where
  contents := files.map fun f => (current ++ Path.steps f.1, f.2.toUTF8)
  current := current

/-- A place is a directory if a path passes through it. -/
def isDirectory (fs : Files) (place : List String) : Bool :=
  (fs.current :: fs.directories).any place.isPrefixOf ||
    fs.contents.any fun f => place.isPrefixOf f.1 && place ≠ f.1

/-- What stands at a place. -/
def entry (fs : Files) (place : List String) : Entry :=
  match fs.contents.find? fun f => f.1 = place with
  | some (_, content) => .file content
  | none => if fs.isDirectory place then .directory else .absent

/-- Fails where the operating system refuses access. -/
def permit (fs : Files) (access : Access) (place : List String) : Except FileError Unit :=
  match fs.refusal? access place with
  | none => .ok ()
  | some reason => .error (.refused reason)

/-- Follows the pieces of a path from a place. Every piece, also one that stays where it is, asks
for a directory; only behind another slash none is asked to be passed. -/
def follow (fs : Files) (place : List String) : List String → Except FileError (List String)
  | [] => .ok place
  | piece :: rest =>
    match fs.entry place with
    | .file _ => .error .notDirectory
    | .absent => .error .notFound
    | .directory =>
      if piece = "" then follow fs place rest
      else match fs.permit .pass place with
      | .error error => .error error
      | .ok () =>
        if piece = "." then follow fs place rest
        else if piece = ".." then follow fs place.dropLast rest
        else if piece.utf8ByteSize ≤ Path.nameLimit then follow fs (place ++ [piece]) rest
        else .error .nameTooLong

/-- The place that a list of pieces leads to: from the root if the first one is empty, and else from
the current directory. The empty path leads nowhere. -/
def placeOf (fs : Files) : List String → Except FileError (List String)
  | [] | [""] => .error .notFound
  | "" :: pieces => fs.follow [] pieces
  | pieces => fs.follow fs.current pieces

/-- The place at the end of a path. -/
def locate (fs : Files) (path : String) : Except FileError (List String) := do
  fs.placeOf (← Path.accepted path)

/-- Reads a text file. A directory can be opened, but not read. -/
def read (fs : Files) (path : String) : Except FileError String := do
  let place ← fs.locate path
  match fs.entry place with
  | .absent => throw .notFound
  | .directory =>
    fs.permit .read place
    throw .isDirectory
  | .file content =>
    fs.permit .read place
    match String.fromUTF8? content with
    | some text => return text
    | none => throw .notText

/-- Something stands at the end of a path; it need not be readable. -/
def hasEntry (fs : Files) (path : String) : Bool :=
  match fs.locate path with
  | .error _ => false
  | .ok place =>
    match fs.entry place with
    | .file _ | .directory => true
    | .absent => false

/-- Replaces a file or adds it. -/
def put (fs : Files) (place : List String) (content : ByteArray) : Files :=
  { fs with contents := (fs.contents.filter fun f => f.1 ≠ place) ++ [(place, content)] }

/-- The pieces that lead to the directory of what a path with slashes at its end names. -/
def parentPieces (pieces : List String) : List String :=
  (pieces.reverse.dropWhile fun p => p = "").tail.reverse ++ ["."]

/-- Writes a text file in a directory that exists. A path with a slash at its end can only name a
directory, whatever stands there. -/
def write (fs : Files) (path text : String) : Except FileError Files := do
  let pieces ← Path.accepted path
  if path.endsWith "/" then
    let _ ← fs.placeOf (parentPieces pieces)
    throw .isDirectory
  let place ← fs.placeOf pieces
  match fs.entry place with
  | .directory => throw .isDirectory
  | .file _ | .absent =>
    fs.permit .write place
    return fs.put place text.toUTF8

end Files

end Flowchart
