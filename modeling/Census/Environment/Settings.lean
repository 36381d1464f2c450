import Census.Disk
import Census.Environment
import Census.Text.Blank

/-!
# Settings files

A settings file fills in variables that the environment does not have. It holds one assignment a line,
with comments behind `#`, quoted values, which may go over several lines, and references to variables
that are known already. The first line that cannot be read ends the reading, and what stood before it
counts.
-/

namespace Census
namespace Environment

/-! ## Lines -/

/-- The bytes of a file, cut behind each line feed. -/
def rawLines : List UInt8 → List (List UInt8)
  | [] => []
  | b :: rest =>
    if b = 10 then [b] :: rawLines rest
    else match rawLines rest with
      | [] => [[b]]
      | line :: more => (b :: line) :: more

/-- Where the reading of a line is; only at `outside` can the line be complete. -/
inductive Place
  | outside
  | escaped
  | blank
  | literal
  | literalEscaped
  | quoted
  | quotedEscaped
deriving DecidableEq

/-- What a character outside of quotes leads to. -/
def Place.opened (c : Char) : Place :=
  if c = '\\' then .escaped else if c = '"' then .quoted else if c = '\'' then .literal
  else .outside

def Place.next (p : Place) (c : Char) : Place :=
  match p with
  | outside => if Text.isBlank c && c ≠ '\n' && c ≠ '\r' then blank else opened c
  | blank => opened c
  | escaped => outside
  | literal => if c = '\\' then literalEscaped else if c = '\'' then outside else literal
  | literalEscaped => literal
  | quoted => if c = '\\' then quotedEscaped else if c = '"' then outside else quoted
  | quotedEscaped => quoted

/-- Follows a line to its end, or to a comment behind a blank: the place there, and the text in front
of the comment if there is one. -/
def follow (p : Place) (seen : List Char) : List Char → Place × Option (List Char)
  | [] => (p, none)
  | c :: rest =>
    if p = .blank ∧ c = '#' then (p, some seen.reverse)
    else follow (p.next c) (c :: seen) rest

/-- A line without the line feed that ends it and a carriage return before that. -/
def withoutEnd (s : List Char) : List Char :=
  match s.reverse with
  | '\n' :: '\r' :: rest => rest.reverse
  | '\n' :: rest => rest.reverse
  | _ => s

/-- Joins lines that belong together. Nothing stands for the first one that cannot be read, which is
also the last. -/
def joined (p : Place) (before : List Char) : List (List UInt8) → List (Option (List Char))
  | [] => if p = .outside then [] else [none]
  | raw :: rest =>
    match Text.ofBytes? raw with
    | none => [none]
    | some line =>
      let text := before ++ line.toList
      if (Text.trimStart text).head? = some '#' then joined .outside [] rest
      else
        match follow p [] line.toList with
        | (_, some front) => some (before ++ front) :: joined .outside [] rest
        | (.outside, none) => some (withoutEnd text) :: joined .outside [] rest
        | (p, none) => joined p text rest

/-! ## Values -/

/-- How far a value has been read. -/
inductive Stage
  | text
  | escaped
  | literal
  /-- Behind a dollar sign and a part of a name. -/
  | reference (name : List Char)
  /-- The same with an opening brace. -/
  | braced (name : List Char)
  /-- Behind the value. -/
  | over
deriving DecidableEq

/-- The value of a variable that is referred to, which is nothing when there is none. -/
def referred (e : Environment) (name : List Char) : List Char :=
  ((e.value? (String.ofList name)).getD "").toList

/-- Whether a character may be a part of the name in a reference. -/
def isNameChar (c : Char) : Bool := c.isAlphanum || (0x80 ≤ c.toNat && !Text.isBlank c)

/-- What stands for a character behind a backslash. -/
def escape? (c : Char) : Option Char :=
  if c = 'n' then some '\n'
  else if c = '\\' ∨ c = '\'' ∨ c = '"' ∨ c = '$' ∨ c = ' ' then some c
  else none

/-- The rest of a value. `weak` tells whether it stands between double quotes. -/
def valueFrom? (e : Environment) (weak : Bool) : Stage → List Char → Option (List Char)
  | .over, [] => some []
  | .over, c :: rest =>
    if c = ' ' ∨ c = '\t' then valueFrom? e weak .over rest
    else if c = '#' then some []
    else none
  | .escaped, [] => if weak then none else some []
  | .escaped, c :: rest =>
    match escape? c with
    | some d => (valueFrom? e weak .text rest).map (d :: ·)
    | none => none
  | .literal, [] => none
  | .literal, c :: rest =>
    if c = '\'' then valueFrom? e weak .text rest
    else (valueFrom? e weak .literal rest).map (c :: ·)
  | .reference name, [] => if weak then none else some (e.referred name)
  | .reference name, c :: rest =>
    if isNameChar c then valueFrom? e weak (.reference (name ++ [c])) rest
    else if c = '\x7b' ∧ name = [] then valueFrom? e weak (.braced []) rest
    else if c = '$' then (valueFrom? e weak (.reference []) rest).map (e.referred name ++ ·)
    else (valueFrom? e weak .text rest).map (e.referred name ++ c :: ·)
  | .braced _, [] => none
  | .braced name, c :: rest =>
    if c = '\x7d' then (valueFrom? e weak .text rest).map (e.referred name ++ ·)
    else valueFrom? e weak (.braced (name ++ [c])) rest
  | .text, [] => if weak then none else some []
  | .text, c :: rest =>
    if c = '$' then valueFrom? e weak (.reference []) rest
    else if c = '\\' then valueFrom? e weak .escaped rest
    else if c = '"' then valueFrom? e (!weak) .text rest
    else if weak then (valueFrom? e weak .text rest).map (c :: ·)
    else if c = '\'' then valueFrom? e weak .literal rest
    else if c = ' ' ∨ c = '\t' then valueFrom? e weak .over rest
    else (valueFrom? e weak .text rest).map (c :: ·)

/-! ## Assignments -/

/-- A variable name at the start of a text, and what follows it. -/
def name? (s : List Char) : Option (String × List Char) :=
  let isPart (c : Char) : Bool := c.isAlphanum || c = '_' || c = '.'
  match s with
  | c :: _ =>
    if c.isAlpha || c = '_' then some (String.ofList (s.takeWhile isPart), s.dropWhile isPart)
    else none
  | [] => none

/-- A variable name, an equals sign, and what follows them. -/
def assigned? (s : List Char) : Option (String × List Char) := do
  let (name, rest) ← name? s
  match Text.trimStart rest with
  | '=' :: rest => some (name, Text.trimStart rest)
  | _ => none

/-- The word that may stand in front of an assignment. -/
def exportWord : String := "export"

/-- The name of a line and the text of its value. -/
def assignment? (s : List Char) : Option (String × List Char) :=
  (assigned? s).or do
    let (word, rest) ← name? s
    if word = exportWord then assigned? (Text.trimStart rest) else none

/-- Whether nothing, or nothing but a comment, is left. -/
def isBare (s : List Char) : Bool := s = [] || s.head? = some '#'

/-- Carries out a line, unless it cannot be read. -/
def applyLine (e : Environment) (line : List Char) : Option Environment :=
  let line := Text.trimmed line
  if isBare line then some e
  else do
    let (name, value) ← assignment? line
    if isBare value then some (e.fill name "")
    else some (e.fill name (String.ofList (← valueFrom? e false .text value)))

/-- Carries out lines up to the first one that cannot be read, and tells whether there was none. -/
def applyLines (e : Environment) : List (Option (List Char)) → Environment × Bool
  | [] => (e, true)
  | none :: _ => (e, false)
  | some line :: rest =>
    match e.applyLine line with
    | some e => e.applyLines rest
    | none => (e, false)

/-- The bytes that may stand in front of a text to tell that it is UTF-8. -/
def byteOrderMark : List UInt8 := [0xEF, 0xBB, 0xBF]

/-- Carries out a settings file, and tells whether all of it could be read. -/
def apply (e : Environment) (content : List UInt8) : Environment × Bool :=
  let content := if byteOrderMark.isPrefixOf content then content.drop 3 else content
  e.applyLines (joined .outside [] (rawLines content))

/-! ## Files -/

def fileName : String := ".env"

/-- The settings file in the working directory or in the nearest directory above it. -/
def nearest? (d : Disk) : Option (List UInt8) :=
  (List.range (d.workingDirectory.length + 1)).reverse.findSome? fun n =>
    match d.node? (d.workingDirectory.take n ++ [fileName]) with
    | some (.file content) => some content
    | _ => none

/-- Fills in what the settings file holds. Where there is none, or not all of it can be read, the one
in the directory of the program is carried out as well. -/
def load (e : Environment) (d : Disk) (home : String) : Environment :=
  let (e, complete) := match nearest? d with
    | some content => e.apply content
    | none => (e, false)
  if complete then e
  else
    match d.read (home ++ "/" ++ fileName) with
    | .ok content => (e.apply content).1
    | .error _ => e

end Environment
end Census
