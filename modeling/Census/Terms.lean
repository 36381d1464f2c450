import Census.Disk
import Census.Json.Reader
import Census.Log.Note
import Census.Term
import Census.Text.Blank
import Census.Text.Line

/-!
# Lists of terms

A file of terms is either a plain list, one term a line with blank lines and `#` comments in between,
or a JSON object of languages, of which those with a color are the terms. The first character that is
not white space tells which.
-/

namespace Census
namespace Terms

inductive Fault
  | unreadable (fault : DiskFault)
  | notJson (fault : Json.Fault) (text : String)
  | empty
deriving DecidableEq

namespace Fault

/-- What caused the fault, if something else did. -/
def cause? : Fault → Option String
  | unreadable f => some f.message
  | notJson f text => some (f.message text.toList)
  | empty => none

def message (f : Fault) (path : String) : String :=
  match f with
  | unreadable f => "Failed to read input file " ++ path ++ ": " ++ f.message
  | notJson f text =>
    "Failed to parse input file " ++ path ++ " as JSON: " ++ f.message text.toList
  | empty => "Input file " ++ path ++ " contains no terms to query"

/-- The message together with what caused it. -/
def chain (f : Fault) (path : String) : String :=
  f.message path ++ match f.cause? with
    | some cause => ": " ++ cause
    | none => ""

end Fault

/-- Whether a text is to be read as JSON. -/
def isJson (text : List Char) : Bool := (Text.trimStart text).head? = some '\x7b'

/-- Whether a line without white space around it holds a term. -/
def isTerm (line : List Char) : Bool := line ≠ [] && line.head? ≠ some '#'

/-- The terms of a plain list. -/
def plain (text : List Char) : List Term :=
  (((Text.lines text).map Text.trimmed).filter isTerm).map String.ofList

/-- The member that makes a language a term. -/
def color : String := "color"

/-- The names of the members that are languages with a color. -/
def colored (members : List (String × Json.Value)) : List Term :=
  ((Json.lastValues members).filter fun m => m.2.hasMember color).map Prod.fst

/-- The terms in a JSON text. -/
def ofJson (text : List Char) : Except Json.Fault (List Term) :=
  match Json.Value.ofText text with
  | .error f => .error f
  | .ok v => .ok (colored (v.members?.getD []))

/-- The terms, of which there has to be one. -/
def needSome (terms : List Term) : Except Fault (List Term) :=
  if terms = [] then .error .empty else .ok terms

/-- The terms that a text lists, in its order. -/
def ofText (text : String) : Except Fault (List Term) :=
  if isJson text.toList then
    match ofJson text.toList with
    | .error f => .error (.notJson f text)
    | .ok terms => needSome terms
  else needSome (plain text.toList)

def load (disk : Disk) (path : String) : Except Fault (List Term) :=
  match disk.readText path with
  | .error f => .error (.unreadable f)
  | .ok text => ofText text

def noteLoaded (count : Nat) (path : String) : Log.Note :=
  ⟨.info, Log.target "worklist", "Loaded " ++ toString count ++ " terms from " ++ path⟩

end Terms
end Census
