import Census.Text.Parts
import Census.Text.Utf8

/-!
# The disk

The disk is a tree of directories and files with a working directory in it. Paths are followed name by
name the way a file system does it: each name but the last must be a directory, `..` leads to the
directory above, and empty names and `.` lead nowhere. Writing makes or replaces one file and leaves
every other one as it is.
-/

namespace Census

inductive DiskFault
  | missing
  | notDirectory
  | isDirectory
  | nameTooLong
  | nulInName
  | notText
deriving DecidableEq

namespace DiskFault

def message : DiskFault → String
  | missing => "No such file or directory (os error 2)"
  | notDirectory => "Not a directory (os error 20)"
  | isDirectory => "Is a directory (os error 21)"
  | nameTooLong => "File name too long (os error 36)"
  | nulInName => "file name contained an unexpected NUL byte"
  | notText => "stream did not contain valid UTF-8"

end DiskFault

inductive Node
  | directory
  | file (content : List UInt8)
deriving DecidableEq

/-- The names that lead from the root to a place. -/
abbrev Place := List String

structure Disk where
  /-- What is at each place below the root. -/
  nodes : List (Place × Node)
  workingDirectory : Place
deriving DecidableEq

namespace Disk

/-- The names of a path, empty ones included. -/
def namesOf (path : String) : List String := (Text.partsAt '/' path.toList).map String.ofList

def node? (d : Disk) (p : Place) : Option Node :=
  if p = [] then some .directory
  else (d.nodes.find? fun n => n.1 = p).map Prod.snd

/-- Puts a node at a place, over what may be there. -/
def put (d : Disk) (p : Place) (n : Node) : Disk :=
  { d with nodes := (p, n) :: d.nodes.filter fun m => m.1 ≠ p }

/-- Makes the directories that lead to a place and are not there yet. -/
def makeParents (d : Disk) (p : Place) : Disk :=
  (List.range p.length).foldl
    (fun d n => if (d.node? (p.take n)).isSome then d else d.put (p.take n) .directory) d

/-- A disk with nothing but an empty working directory. -/
def empty (workingDirectory : Place) : Disk :=
  let d : Disk := { nodes := [], workingDirectory }
  (d.makeParents workingDirectory).put workingDirectory .directory

/-- The most bytes in a path, and in one name of it. -/
def longestPath : Nat := 4095

def longestName : Nat := 255

/-- Goes into the directory of a given name. -/
def enter (d : Disk) (here : Place) (name : String) : Except DiskFault Place :=
  if name = "" ∨ name = "." then .ok here
  else if name = ".." then .ok here.dropLast
  else if longestName < name.utf8ByteSize then .error .nameTooLong
  else
    match d.node? (here ++ [name]) with
    | none => .error .missing
    | some .directory => .ok (here ++ [name])
    | some (.file _) => .error .notDirectory

/-- Goes through the directories of a path. -/
def walk (d : Disk) : Place → List String → Except DiskFault Place
  | here, [] => .ok here
  | here, name :: rest =>
    match d.enter here name with
    | .error f => .error f
    | .ok here => d.walk here rest

/-- A path as its directories and its last name. Names that end a path without naming anything are
left out, and `slashed` tells whether there were such. -/
structure Route where
  start : Place
  directories : List String
  last : String
  slashed : Bool

/-- Splits a path up, unless it cannot be one. -/
def route (d : Disk) (path : String) : Except DiskFault Route :=
  let cs := path.toList
  if cs.contains (Char.ofNat 0) then .error .nulInName
  else if path = "" then .error .missing
  else if longestPath < path.utf8ByteSize then .error .nameTooLong
  else
    let start := if cs.head? = some '/' then [] else d.workingDirectory
    let names := namesOf path
    let kept := (names.reverse.dropWhile (· = "")).reverse
    .ok {
      start
      directories := kept.dropLast
      last := kept.getLast?.getD ""
      slashed := kept.length < names.length }

/-- Whether a last name stands for a directory whatever the disk holds. -/
def namesDirectory (name : String) : Bool := name = "" || name = "." || name = ".."

def read (d : Disk) (path : String) : Except DiskFault (List UInt8) :=
  match d.route path with
  | .error f => .error f
  | .ok r =>
    match d.walk r.start r.directories with
    | .error f => .error f
    | .ok here =>
      if namesDirectory r.last then .error .isDirectory
      else if longestName < r.last.utf8ByteSize then .error .nameTooLong
      else
        match d.node? (here ++ [r.last]) with
        | none => .error .missing
        | some .directory => .error .isDirectory
        | some (.file content) => if r.slashed then .error .notDirectory else .ok content

def readText (d : Disk) (path : String) : Except DiskFault String :=
  match d.read path with
  | .error f => .error f
  | .ok content =>
    match Text.ofBytes? content with
    | some text => .ok text
    | none => .error .notText

/-- Makes or replaces the file that a path leads to. -/
def write (d : Disk) (path : String) (content : List UInt8) : Except DiskFault Disk :=
  match d.route path with
  | .error f => .error f
  | .ok r =>
    match d.walk r.start r.directories with
    | .error f => .error f
    | .ok here =>
      if namesDirectory r.last ∨ r.slashed then .error .isDirectory
      else if longestName < r.last.utf8ByteSize then .error .nameTooLong
      else
        match d.node? (here ++ [r.last]) with
        | some .directory => .error .isDirectory
        | _ => .ok (d.put (here ++ [r.last]) (.file content))

def writeText (d : Disk) (path : String) (text : String) : Except DiskFault Disk :=
  d.write path (Text.bytes text)

/-- Puts a file where a relative path says, with all directories on the way. -/
def store (d : Disk) (path : String) (content : List UInt8) : Disk :=
  let p := d.workingDirectory ++ (namesOf path).filter (· ≠ "")
  (d.makeParents p).put p (.file content)

/-- Puts an empty directory where a relative path says, with all directories on the way. -/
def storeDirectory (d : Disk) (path : String) : Disk :=
  let p := d.workingDirectory ++ (namesOf path).filter (· ≠ "")
  (d.makeParents p).put p .directory

theorem node?_put_of_ne {d : Disk} {p q : Place} (n : Node) (h : q ≠ p) :
    (d.put p n).node? q = d.node? q := by
  unfold node? put
  split
  · rfl
  · rw [List.find?_cons_of_neg (by simpa using fun e => h e.symm), List.find?_filter]
    congr 2
    funext m
    by_cases hm : m.1 = q
    · simp [hm, h]
    · simp [hm]

end Disk
end Census
