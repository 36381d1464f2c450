import Census.Json.Number
import Census.Json.Quoted

/-!
# Passing over JSON values

Parts of a document that nobody asks for are passed over: their grammar is checked, but not how deep
they nest, how large their numbers are, or which characters their escapes stand for. What is passed
over is the raw text of a value, which a later reader may look at again.
-/

namespace Census
namespace Json

/-- The text behind a string whose opening quote has been read. -/
def skimString : List Char → Option (List Char)
  | [] => none
  | c :: rest =>
    if c = '"' then some rest
    else if c = '\\' then
      match rest with
      | 'u' :: a :: b :: c :: d :: more =>
        if (Quoted.unit? a b c d).isSome then skimString more else none
      | e :: more => if (Quoted.shortEscape? e).isSome then skimString more else none
      | [] => none
    else if c.toNat < 0x20 then none
    else skimString rest

def skimWord : List Char → List Char → Option (List Char)
  | [], s => some s
  | _ :: _, [] => none
  | w :: word, c :: rest => if c = w then skimWord word rest else none

/-- The text behind a name and the colon after it. `s` starts behind the opening quote. -/
def skimName (s : List Char) : Option (List Char) := do
  match skipGap (← skimString s) with
  | ':' :: rest => some rest
  | _ => none

mutual

def skimValue : Nat → List Char → Option (List Char)
  | 0, _ => none
  | steps + 1, s =>
    match skipGap s with
    | [] => none
    | c :: rest =>
      if c = '"' then skimString rest
      else if c = '[' then skimFirstItem steps rest
      else if c = '\x7b' then skimFirstMember steps rest
      else if c = 'n' then skimWord ['u', 'l', 'l'] rest
      else if c = 't' then skimWord ['r', 'u', 'e'] rest
      else if c = 'f' then skimWord ['a', 'l', 's', 'e'] rest
      else if c = '-' ∨ c.isDigit then (Number.scan (c :: rest)).toOption.map Prod.snd
      else none

/-- The text behind an array whose bracket has been opened. -/
def skimFirstItem : Nat → List Char → Option (List Char)
  | 0, _ => none
  | steps + 1, s =>
    match skipGap s with
    | [] => none
    | c :: rest =>
      if c = ']' then some rest
      else match skimValue steps (c :: rest) with
        | none => none
        | some rest => skimItems steps rest

/-- The text behind an array of which at least one item has been passed over. -/
def skimItems : Nat → List Char → Option (List Char)
  | 0, _ => none
  | steps + 1, s =>
    match skipGap s with
    | [] => none
    | c :: rest =>
      if c = ']' then some rest
      else if c = ',' then
        match skimValue steps rest with
        | none => none
        | some rest => skimItems steps rest
      else none

/-- The text behind an object whose brace has been opened. -/
def skimFirstMember : Nat → List Char → Option (List Char)
  | 0, _ => none
  | steps + 1, s =>
    match skipGap s with
    | [] => none
    | c :: rest =>
      if c = '\x7d' then some rest
      else if c = '"' then skimMember steps rest
      else none

/-- The text behind an object of which at least one member has been passed over. -/
def skimMembers : Nat → List Char → Option (List Char)
  | 0, _ => none
  | steps + 1, s =>
    match skipGap s with
    | [] => none
    | c :: rest =>
      if c = '\x7d' then some rest
      else if c = ',' then
        match skipGap rest with
        | '"' :: more => skimMember steps more
        | _ => none
      else none

/-- The text behind an object in the middle of a member whose name has been opened. -/
def skimMember : Nat → List Char → Option (List Char)
  | 0, _ => none
  | steps + 1, s =>
    match skimName s with
    | none => none
    | some rest =>
      match skimValue steps rest with
      | none => none
      | some rest => skimMembers steps rest

end

/-- The raw text of a value at the start of `s`, and the text after it. -/
def rawValue? (s : List Char) : Option (List Char × List Char) :=
  let s := skipGap s
  match skimValue (2 * s.length + 1) s with
  | none => none
  | some rest => some (s.take (s.length - rest.length), rest)

end Json
end Census
