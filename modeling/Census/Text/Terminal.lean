import Census.Text.Utf8

/-!
# Text without control sequences

A text for a terminal may hold control sequences, which change colors and the like. Where the output
goes elsewhere they are left out, and so are control characters other than white space. The sequences
are those of ECMA-48: an escape character starts one, and its kind decides which byte ends it. White
space in the middle of a sequence is shown, and with it what follows, up to the next control character.
-/

namespace Census
namespace Text
namespace Terminal

/-- Where the reading of a text is. -/
inductive State
  | ground
  /-- In a character of which some bytes are left. -/
  | character (left : Nat)
  /-- Behind an escape character. -/
  | escape
  | intermediate
  /-- In a control sequence, which a letter ends. -/
  | control
  | deviceEntry
  | deviceParameter
  | deviceIntermediate
  /-- In a string of a device, of an application, or one that nobody reads. -/
  | string
  /-- In a command to the operating system. -/
  | command
deriving DecidableEq

/-- Control characters that are white space. -/
def isBreak (b : Nat) : Bool := b = 0x9 || b = 0xA || b = 0xC || b = 0xD

/-- The bytes that follow the first byte of a character. -/
def followers (b : Nat) : Nat :=
  if 0xF0 ≤ b then 3 else if 0xE0 ≤ b then 2 else if 0xC2 ≤ b then 1 else 0

namespace State

/-- The state behind an escape character and a further byte. -/
def afterEscape (b : Nat) : State :=
  if b = 0x50 then deviceEntry
  else if b = 0x5B then control
  else if b = 0x5D then command
  else if b = 0x58 ∨ b = 0x5E ∨ b = 0x5F then string
  else if 0x20 ≤ b ∧ b ≤ 0x2F then intermediate
  else if 0x30 ≤ b ∧ b ≤ 0x7E then ground
  else escape

/-- Where a byte leads, if it leads away from the state. -/
def next? (s : State) (b : Nat) : Option State :=
  if b = 0x18 ∨ b = 0x1A then some ground
  else if b = 0x1B then some escape
  else match s with
    | ground => if 0xC2 ≤ b ∧ b ≤ 0xF4 then some (character (followers b)) else none
    | character left => some (if left ≤ 1 then ground else character (left - 1))
    | escape => some (afterEscape b)
    | intermediate => if 0x30 ≤ b ∧ b ≤ 0x7E then some ground else none
    | control => if 0x40 ≤ b ∧ b ≤ 0x7E then some ground else none
    | deviceEntry =>
      if 0x20 ≤ b ∧ b ≤ 0x2F then some deviceIntermediate
      else if 0x30 ≤ b ∧ b ≤ 0x3F then some deviceParameter
      else if 0x40 ≤ b ∧ b ≤ 0x7E then some string
      else none
    | deviceParameter =>
      if 0x20 ≤ b ∧ b ≤ 0x2F then some deviceIntermediate
      else if 0x3C ≤ b ∧ b ≤ 0x7E then some string
      else none
    | deviceIntermediate => if 0x30 ≤ b ∧ b ≤ 0x7E then some string else none
    | string => if b = 0x9C then some ground else none
    | command => if b = 0x7 then some ground else none

/-- Whether a byte is shown. -/
def shows (s : State) (b : Nat) : Bool :=
  match s with
  | ground => isBreak b || (0x20 ≤ b && b ≤ 0x7E) || (0xC2 ≤ b && b ≤ 0xF4)
  | character _ => true
  | escape | intermediate | control => isBreak b
  | _ => false

end State

/-- The bytes that are shown. While bytes are shown each one is taken as if it stood outside of all
sequences, but the sequence that white space has interrupted is not forgotten. -/
def shownBytes : Bool → State → List UInt8 → List UInt8
  | _, _, [] => []
  | showing, s, b :: rest =>
    let judged := match s with
      | .character _ => s
      | _ => if showing then .ground else s
    let s := (judged.next? b.toNat).getD s
    if judged.shows b.toNat then b :: shownBytes true s rest else shownBytes false s rest

/-- A text as it is shown where there is no terminal. -/
def shown (s : String) : String := lenient (shownBytes false .ground (bytes s))

example : shown "a\x1b[31mé\x1b[0m\x07b\n" = "aéb\n" := by decide +kernel
example : shown "\x1b]0;title\x07x\x1b[3\n1my" = "x\n1my" := by decide +kernel

end Terminal
end Text
end Census
