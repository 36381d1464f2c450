/-!
# Faults in JSON text

A fault says what is wrong and how much of the text was left unread when that showed. Places are
counted in bytes of the UTF-8 form, lines from 1 and columns from the last line feed.
-/

namespace Census
namespace Json

/-- What can be wrong with a JSON text. -/
inductive Flaw
  | endInList
  | endInObject
  | endInString
  | endInValue
  | noColon
  | noListComma
  | noObjectComma
  | unknownWord
  | noValue
  | badEscape
  | badNumber
  | outOfRange
  | controlCharacter
  | keyNotString
  | trailingComma
  | trailingCharacters
  | loneSurrogate
  | brokenPair
  | tooDeep
deriving DecidableEq

namespace Flaw

def message : Flaw → String
  | endInList => "EOF while parsing a list"
  | endInObject => "EOF while parsing an object"
  | endInString => "EOF while parsing a string"
  | endInValue => "EOF while parsing a value"
  | noColon => "expected `:`"
  | noListComma => "expected `,` or `]`"
  | noObjectComma => "expected `,` or `\x7d`"
  | unknownWord => "expected ident"
  | noValue => "expected value"
  | badEscape => "invalid escape"
  | badNumber => "invalid number"
  | outOfRange => "number out of range"
  | controlCharacter => "control character (\\u0000-\\u001F) found while parsing a string"
  | keyNotString => "key must be a string"
  | trailingComma => "trailing comma"
  | trailingCharacters => "trailing characters"
  | loneSurrogate => "lone leading surrogate in hex escape"
  | brokenPair => "unexpected end of hex escape"
  | tooDeep => "recursion limit exceeded"

/-- Whether the text ended where more of it was needed. -/
def isEarlyEnd : Flaw → Bool
  | endInList | endInObject | endInString | endInValue => true
  | _ => false

end Flaw

def byteCount (s : List Char) : Nat := s.foldr (fun c n => c.utf8Size + n) 0

/-- A flaw, and how many bytes of the text follow the place where it showed. -/
structure Fault where
  flaw : Flaw
  unread : Nat
deriving DecidableEq

namespace Fault

/-- A fault right before `s`. -/
def before (flaw : Flaw) (s : List Char) : Fault := ⟨flaw, byteCount s⟩

/-- A fault in the first byte of `s`, or at the end of the text when `s` is empty. -/
def within (flaw : Flaw) (s : List Char) : Fault := ⟨flaw, byteCount s - 1⟩

/-- A fault at the end of the text. -/
def atEnd (flaw : Flaw) : Fault := ⟨flaw, 0⟩

/-- Follows a text up to `offset`: the line it is on, and where that line starts. -/
def placeFrom (offset : Nat) : Nat → Nat → Nat → List Char → Nat × Nat
  | _, line, start, [] => (line, offset - start)
  | here, line, start, c :: rest =>
    if offset ≤ here then (line, offset - start)
    else if c = '\n' then placeFrom offset (here + 1) (line + 1) (here + 1) rest
    else placeFrom offset (here + c.utf8Size) line start rest

/-- The line and the column of a fault in the text it was found in. -/
def place (f : Fault) (text : List Char) : Nat × Nat :=
  placeFrom (byteCount text - f.unread) 0 1 0 text

def message (f : Fault) (text : List Char) : String :=
  let (line, column) := f.place text
  f.flaw.message ++ " at line " ++ toString line ++ " column " ++ toString column

end Fault

/-- What a reader returns: what it has read and the text that follows, or a fault. -/
abbrev Read (α : Type) := Except Fault (α × List Char)

/-- The four characters that may stand between the parts of a JSON text. -/
def isGap (c : Char) : Bool := c = ' ' || c = '\t' || c = '\n' || c = '\r'

def skipGap (s : List Char) : List Char := s.dropWhile isGap

end Json
end Census
