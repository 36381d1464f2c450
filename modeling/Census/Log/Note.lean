/-!
# Log notes

What the census has to say while it works is a list of notes. A note names the part that speaks, how
serious it is, and its text; whether and how it is shown is decided elsewhere.
-/

namespace Census
namespace Log

/-- How serious a note is, the most serious first. -/
inductive Level
  | error
  | warn
  | info
  | debug
  | trace
deriving DecidableEq

namespace Level

/-- The place in the order of levels, from 1 for errors. -/
def rank : Level → Nat
  | error => 1
  | warn => 2
  | info => 3
  | debug => 4
  | trace => 5

def text : Level → String
  | error => "ERROR"
  | warn => "WARN"
  | info => "INFO"
  | debug => "DEBUG"
  | trace => "TRACE"

def all : List Level := [error, warn, info, debug, trace]

end Level

structure Note where
  level : Level
  target : String
  text : String
deriving DecidableEq

/-- The target of a part of the census. -/
def target (part : String) : String := "language_census::" ++ part

end Log
end Census
