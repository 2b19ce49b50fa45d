import Stepwise.Text.Decoding

/-! What a program sees of the machine it runs on: files by path, variables, standard input. -/
namespace Stepwise

/-- What is found under a path. A path may also fail to name anything: it leads through a file, a
part of it is too long, or it holds a character that no path holds. -/
inductive Entry where
  | file (bytes : List UInt8)
  | directory
  | missing
  | throughFile
  | tooLong
  | unnameable
  deriving Repr

structure Surroundings where
  look : String → Entry
  valueOf? : String → Option String
  home : String
  current : String
  input : List UInt8

namespace Path

def parts (path : String) : List String :=
  (path.splitOn "/").filter fun part => part ≠ "" ∧ part ≠ "."

def isAbsolute (path : String) : Bool := path.toList.head? = some '/'

/-- Two leading slashes are kept; one, or three and more, count as one. -/
def root (path : String) : String :=
  if isAbsolute path then
    (if (path.toList.takeWhile (· = '/')).length = 2 then "//" else "/")
  else ""

def spelled (path : String) : String :=
  let text := root path ++ "/".intercalate (parts path)
  if text = "" then "." else text

def resolved : List String → List String → List String
  | done, [] => done.reverse
  | done, part :: rest => if part = ".." then resolved (done.drop 1) rest else resolved (part :: done) rest

def absolute (current path : String) : String :=
  let all := if isAbsolute path then parts path else parts current ++ parts path
  (if root path = "//" then "//" else "/") ++ "/".intercalate (resolved [] all)

def beginnings (path : String) : List String :=
  ((List.range (parts path).length).drop 1).map fun count =>
    root path ++ "/".intercalate ((parts path).take count)

def parent (path : String) : String :=
  let above := root path ++ "/".intercalate (parts path).dropLast
  if above = "" then "." else above

end Path

inductive FileFault where
  | missing | directory | throughFile | tooLong
  deriving DecidableEq, Repr

namespace FileFault

def number : FileFault → Nat
  | .missing => 2
  | .throughFile => 20
  | .directory => 21
  | .tooLong => 36

def text : FileFault → String
  | .missing => "No such file or directory"
  | .throughFile => "Not a directory"
  | .directory => "Is a directory"
  | .tooLong => "File name too long"

def message (f : FileFault) (path : String) : String :=
  let number := f.number
  let text := f.text
  let shown := Text.quoted path
  s!"[Errno {number}] {text}: {shown}"

end FileFault

inductive ReadingFault where
  | file (fault : FileFault) (path : String)
  | unnameable
  | decoding (fault : Text.DecodeFault)
  deriving DecidableEq, Repr

def ReadingFault.message : ReadingFault → String
  | .file fault path => fault.message path
  | .unnameable => "embedded null byte"
  | .decoding fault => fault.message

def Surroundings.read (s : Surroundings) (path : String) : Except ReadingFault String :=
  match s.look path with
  | .file bytes => (Text.decode bytes).mapError .decoding
  | .directory => .error (.file .directory (Path.spelled path))
  | .missing => .error (.file .missing (Path.spelled path))
  | .throughFile => .error (.file .throughFile (Path.spelled path))
  | .tooLong => .error (.file .tooLong (Path.spelled path))
  | .unnameable => .error .unnameable

def Surroundings.wouldBe (s : Surroundings) (target path : String) : Bool :=
  match s.look path, s.look (Path.parent path) with
  | .missing, .directory => Path.absolute s.current path = Path.absolute s.current target
  | _, _ => false

/-- The same once a file has been opened for writing: an empty one is there unless there was one
before. -/
def Surroundings.touched (s : Surroundings) (target : String) : Surroundings :=
  { s with look := fun path =>
      match s.look path with
      | .missing =>
          if s.wouldBe target path then .file []
          else if (Path.beginnings path).any (s.wouldBe target) then .throughFile
          else .missing
      | found => found }

/-- A directory tree held in memory: files and directories by the parts of their paths from the
root. A directory that something lies in need not be listed. -/
structure FileTree where
  files : List (List String × List UInt8)
  directories : List (List String)

namespace FileTree

def isDirectory (t : FileTree) (parts : List String) : Bool :=
  parts.isEmpty || t.directories.any (fun d => parts.isPrefixOf d) ||
    t.files.any (fun f => parts.isPrefixOf f.1 && parts != f.1)

def entry (t : FileTree) (parts : List String) : Entry :=
  match t.files.lookup parts with
  | some bytes => .file bytes
  | none => if t.isDirectory parts then .directory else .missing

def partLimit : Nat := 255
def pathLimit : Nat := 4095

/-- Follows the parts of a path from a place in the tree. A step up from the root stays there. -/
def follow (t : FileTree) (place : List String) : List String → Entry
  | [] => t.entry place
  | part :: rest =>
      match t.entry place with
      | .directory =>
          if part = ".." then t.follow place.dropLast rest
          else if partLimit < part.utf8ByteSize then .tooLong
          else t.follow (place ++ [part]) rest
      | .file _ => .throughFile
      | _ => .missing

def look (t : FileTree) (current path : String) : Entry :=
  if path.toList.contains '\x00' then .unnameable
  else if pathLimit < (Path.spelled path).utf8ByteSize then .tooLong
  else if Path.isAbsolute path then t.follow [] (Path.parts path)
  else t.follow (Path.parts current) (Path.parts path)

end FileTree
end Stepwise
