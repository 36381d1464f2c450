/-!
# JSON values

Numbers keep the digits they were written with, and objects keep their members in the order of the
text, repeated names included; what a repeated name means is for the reader of a document to say.
-/

namespace Census
namespace Json

inductive Value
  | null
  | bool (b : Bool)
  | number (digits : String)
  | string (text : String)
  | array (items : List Value)
  | object (members : List (String × Value))

namespace Value

def ofNat (n : Nat) : Value := .number (toString n)

def members? : Value → Option (List (String × Value))
  | .object members => some members
  | _ => none

def hasMember (name : String) : Value → Bool
  | .object members => members.any fun m => m.1 == name
  | _ => false

end Value

/-- Gives a name a value: in its place if it stands among the members, and behind them if not. -/
def put (name : String) (value : Value) : List (String × Value) → List (String × Value)
  | [] => [(name, value)]
  | (n, v) :: rest => if n = name then (n, value) :: rest else (n, v) :: put name value rest

/-- Members with each name once: at the place where it first stands, with the value it is given
last. -/
def lastValues (members : List (String × Value)) : List (String × Value) :=
  members.foldl (fun ms m => put m.1 m.2 ms) []

end Json
end Census
