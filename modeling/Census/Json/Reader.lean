import Census.Json.Number
import Census.Json.Quoted
import Census.Json.Value

/-!
# Reading JSON values

The reader follows the grammar of RFC 8259 and reports the first flaw from the left. At most 127
arrays and objects may be open at once. Each function gets a number of steps; two steps in a row read
at least one character, so that a text of `n` characters never needs more than `2 * n + 1`.
-/

namespace Census
namespace Json

/-- The number of arrays and objects that may be open at once. -/
def mostOpen : Nat := 127

/-- Reads on a word after its first letter. -/
def readWord : List Char → List Char → Except Fault (List Char)
  | [], s => .ok s
  | _ :: _, [] => .error (.atEnd .endInValue)
  | w :: word, c :: rest =>
    if c = w then readWord word rest else .error (.within .unknownWord (c :: rest))

/-- The name of a member and the colon after it. `s` starts behind the quote. -/
def readName (s : List Char) : Read (List Char) :=
  match Quoted.quoted s with
  | .error f => .error f
  | .ok (name, rest) =>
    match skipGap rest with
    | [] => .error (.atEnd .endInObject)
    | c :: rest => if c = ':' then .ok (name, rest) else .error (.within .noColon (c :: rest))

mutual

/-- A value, with `room` more arrays and objects to open. -/
def readValue : Nat → Nat → List Char → Read Value
  | 0, _, s => .error (.within .endInValue s)
  | steps + 1, room, s =>
    match skipGap s with
    | [] => .error (.atEnd .endInValue)
    | c :: rest =>
      if c = '"' then
        match Quoted.quoted rest with
        | .error f => .error f
        | .ok (cs, rest) => .ok (.string (String.ofList cs), rest)
      else if c = '[' then
        if room = 0 then .error (.within .tooDeep (c :: rest))
        else match readFirstItem steps (room - 1) rest with
          | .error f => .error f
          | .ok (items, rest) => .ok (.array items, rest)
      else if c = '\x7b' then
        if room = 0 then .error (.within .tooDeep (c :: rest))
        else match readFirstMember steps (room - 1) rest with
          | .error f => .error f
          | .ok (members, rest) => .ok (.object members, rest)
      else if c = 'n' then (readWord ['u', 'l', 'l'] rest).map (Value.null, ·)
      else if c = 't' then (readWord ['r', 'u', 'e'] rest).map (Value.bool true, ·)
      else if c = 'f' then (readWord ['a', 'l', 's', 'e'] rest).map (Value.bool false, ·)
      else if c = '-' ∨ c.isDigit then
        match Number.read (c :: rest) with
        | .error f => .error f
        | .ok (_, after) =>
          .ok (.number (String.ofList ((c :: rest).take (rest.length + 1 - after.length))), after)
      else .error (.within .noValue (c :: rest))

/-- The items of an array whose bracket has been opened. -/
def readFirstItem : Nat → Nat → List Char → Read (List Value)
  | 0, _, s => .error (.within .endInList s)
  | steps + 1, room, s =>
    match skipGap s with
    | [] => .error (.atEnd .endInList)
    | c :: rest =>
      if c = ']' then .ok ([], rest)
      else match readValue steps room (c :: rest) with
        | .error f => .error f
        | .ok (v, rest) =>
          match readItems steps room rest with
          | .error f => .error f
          | .ok (vs, rest) => .ok (v :: vs, rest)

/-- The items of an array after at least one of them. -/
def readItems : Nat → Nat → List Char → Read (List Value)
  | 0, _, s => .error (.within .endInList s)
  | steps + 1, room, s =>
    match skipGap s with
    | [] => .error (.atEnd .endInList)
    | c :: rest =>
      if c = ']' then .ok ([], rest)
      else if c = ',' then
        match skipGap rest with
        | [] => .error (.atEnd .endInValue)
        | d :: more =>
          if d = ']' then .error (.within .trailingComma (d :: more))
          else match readValue steps room (d :: more) with
            | .error f => .error f
            | .ok (v, rest) =>
              match readItems steps room rest with
              | .error f => .error f
              | .ok (vs, rest) => .ok (v :: vs, rest)
      else .error (.within .noListComma (c :: rest))

/-- The members of an object whose brace has been opened. -/
def readFirstMember : Nat → Nat → List Char → Read (List (String × Value))
  | 0, _, s => .error (.within .endInObject s)
  | steps + 1, room, s =>
    match skipGap s with
    | [] => .error (.atEnd .endInObject)
    | c :: rest =>
      if c = '\x7d' then .ok ([], rest)
      else if c = '"' then readMember steps room rest
      else .error (.within .keyNotString (c :: rest))

/-- The members of an object after at least one of them. -/
def readMembers : Nat → Nat → List Char → Read (List (String × Value))
  | 0, _, s => .error (.within .endInObject s)
  | steps + 1, room, s =>
    match skipGap s with
    | [] => .error (.atEnd .endInObject)
    | c :: rest =>
      if c = '\x7d' then .ok ([], rest)
      else if c = ',' then
        match skipGap rest with
        | [] => .error (.atEnd .endInValue)
        | d :: more =>
          if d = '"' then readMember steps room more
          else if d = '\x7d' then .error (.within .trailingComma (d :: more))
          else .error (.within .keyNotString (d :: more))
      else .error (.within .noObjectComma (c :: rest))

/-- A member whose name has been opened, and the members after it. -/
def readMember : Nat → Nat → List Char → Read (List (String × Value))
  | 0, _, s => .error (.within .endInObject s)
  | steps + 1, room, s =>
    match readName s with
    | .error f => .error f
    | .ok (name, rest) =>
      match readValue steps room rest with
      | .error f => .error f
      | .ok (v, rest) =>
        match readMembers steps room rest with
        | .error f => .error f
        | .ok (members, rest) => .ok ((String.ofList name, v) :: members, rest)

end

def Value.ofText (s : List Char) : Except Fault Value :=
  match readValue (2 * s.length + 1) mostOpen s with
  | .error f => .error f
  | .ok (v, rest) =>
    match skipGap rest with
    | [] => .ok v
    | c :: more => .error (.within .trailingCharacters (c :: more))

end Json
end Census
