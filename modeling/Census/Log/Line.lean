import Census.Json.Printer
import Census.Log.Note
import Census.Text.Terminal

/-!
# Lines of a log

A note is shown as one line, either for people, with a sign and colors, or as a JSON object. Colors are
control sequences: an inner end of a color starts the outer one again.
-/

namespace Census
namespace Log

/-- How notes are shown. -/
inductive Form
  | plain
  | json
deriving DecidableEq

namespace Level

/-- The sign in front of a note. -/
def sign : Level → String
  | error => "❌"
  | warn => "⚠️"
  | info => "✔️"
  | debug => "🔍"
  | trace => "🔬"

def color : Level → Nat
  | error => 31
  | warn => 33
  | info => 32
  | debug => 34
  | trace => 35

end Level

/-- The control sequence that ends a color. -/
def colorEnd : List Char := "\x1b[0m".toList

/-- A text in which every end of a color is followed by a new start. -/
def reopened (start : List Char) (s : List Char) : List Char :=
  match s with
  | [] => []
  | c :: rest =>
    if colorEnd.isPrefixOf (c :: rest) then
      colorEnd ++ start ++ reopened start (rest.drop (colorEnd.length - 1))
    else c :: reopened start rest
termination_by s.length

def colored (color : Nat) (s : String) : String :=
  let start := "\x1b[" ++ toString color ++ "m"
  start ++ String.ofList (reopened start.toList s.toList) ++ String.ofList colorEnd

def targetColor : Nat := 36

namespace Note

/-- A note as a line for people. -/
def plainLine (n : Note) : String :=
  n.level.sign ++ " " ++ colored targetColor n.target ++ " [" ++ colored n.level.color n.level.text
    ++ "] " ++ n.text ++ "\n"

/-- A note as a JSON object, stamped with the milliseconds since 1970. The target is a name and is not
quoted. -/
def jsonLine (stamp : Int) (n : Note) : String :=
  "\x7b\"ts\":" ++ toString stamp ++ ",\"level\":\"" ++ n.level.text ++ "\",\"target\":\"" ++ n.target
    ++ "\",\"msg\":" ++ Json.quote n.text ++ "\x7d\n"

def line (form : Form) (stamp : Int) (n : Note) : String :=
  match form with
  | .plain => n.plainLine
  | .json => n.jsonLine stamp

end Note
end Log
end Census
