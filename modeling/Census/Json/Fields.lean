import Census.Json.Skim

/-!
# Documents with known fields

A document of known shape is an object, of which only the fields that are asked for are looked at, or
an array with the values of the fields in their order. Field names are read in full and may not hold
half a surrogate pair; a field that is asked for may stand in an object only once.
-/

namespace Census
namespace Json

/-- The content of a document, its values as raw text. -/
inductive Fields
  | byName (members : List (String × List Char))
  | byPlace (items : List (List Char))
deriving DecidableEq

namespace Fields

/-- The members of an object behind its brace or a comma, with the text after the object. `steps`
is at least the number of members. -/
def readMembers : Nat → List Char → Option (List (String × List Char) × List Char)
  | 0, _ => none
  | steps + 1, s =>
    match skipGap s with
    | '"' :: rest =>
      match (Quoted.quoted rest).toOption with
      | none => none
      | some (name, rest) =>
        match skipGap rest with
        | ':' :: rest =>
          match rawValue? rest with
          | none => none
          | some (raw, rest) =>
            match skipGap rest with
            | '\x7d' :: rest => some ([(String.ofList name, raw)], rest)
            | ',' :: rest =>
              (readMembers steps rest).map fun m => ((String.ofList name, raw) :: m.1, m.2)
            | _ => none
        | _ => none
    | _ => none

/-- The items of an array behind its bracket or a comma, with the text after the array. `steps` is at
least the number of items. -/
def readItems : Nat → List Char → Option (List (List Char) × List Char)
  | 0, _ => none
  | steps + 1, s =>
    match rawValue? s with
    | none => none
    | some (raw, rest) =>
      match skipGap rest with
      | ']' :: rest => some ([raw], rest)
      | ',' :: rest => (readItems steps rest).map fun m => (raw :: m.1, m.2)
      | _ => none

/-- The content of a document and the text after it. -/
def read? (s : List Char) : Option (Fields × List Char) :=
  match skipGap s with
  | '\x7b' :: rest =>
    match skipGap rest with
    | '\x7d' :: rest => some (.byName [], rest)
    | rest => (readMembers rest.length rest).map fun m => (.byName m.1, m.2)
  | '[' :: rest =>
    match skipGap rest with
    | ']' :: rest => some (.byPlace [], rest)
    | rest => (readItems rest.length rest).map fun m => (.byPlace m.1, m.2)
  | _ => none

/-- The content of a text that holds one document and nothing else. -/
def ofText? (s : List Char) : Option Fields := do
  let (fields, rest) ← read? s
  if skipGap rest = [] then some fields else none

/-- The raw value of a field that stands in a document at most once: nothing when the document repeats
it, and an empty option when the field is not there. -/
def find? (fields : Fields) (name : String) (place : Nat) : Option (Option (List Char)) :=
  match fields with
  | .byName members =>
    match members.filter fun m => m.1 = name with
    | [] => some none
    | [m] => some (some m.2)
    | _ => none
  | .byPlace items => some items[place]?

/-- Whether an array has no items past the first `count`. -/
def fits (fields : Fields) (count : Nat) : Bool :=
  match fields with
  | .byName _ => true
  | .byPlace items => items.length ≤ count

end Fields

/-- The number of a raw value of digits that fits 64 bits. -/
def nat64? (raw : List Char) : Option Nat :=
  (Numeral.digits? raw).filter (· ≤ Numeral.most64)

/-- The number of a raw value of digits with an optional minus sign that fits 64 bits. A zero with a
sign is a fraction and not a whole number. -/
def int64? (raw : List Char) : Option Int :=
  match raw with
  | '-' :: digits =>
    ((Numeral.digits? digits).filter fun n => 0 < n ∧ n ≤ Nat.pow 2 63).map fun n => -(n : Int)
  | digits => ((Numeral.digits? digits).filter (· < Nat.pow 2 63)).map fun n => (n : Int)

/-- The truth value of a raw value. -/
def bool? (raw : List Char) : Option Bool :=
  if raw = ['t', 'r', 'u', 'e'] then some true
  else if raw = ['f', 'a', 'l', 's', 'e'] then some false
  else none

def isNull (raw : List Char) : Bool := raw = ['n', 'u', 'l', 'l']

end Json
end Census
