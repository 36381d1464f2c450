import Census.Json.Quoted
import Census.Json.Value

/-!
# Writing JSON values

Values are written over several lines, two blanks further in for each level, one item or member a
line. An array or object without content is written in two characters.
-/

namespace Census
namespace Json

/-- A line feed and the blanks that a level is moved in by. -/
def newLine (level : Nat) : List Char := '\n' :: List.replicate (2 * level) ' '

mutual

/-- A value at a level. -/
def writeValue (level : Nat) : Value → List Char
  | .null => ['n', 'u', 'l', 'l']
  | .bool true => ['t', 'r', 'u', 'e']
  | .bool false => ['f', 'a', 'l', 's', 'e']
  | .number digits => digits.toList
  | .string text => Quoted.encode text.toList
  | .array [] => ['[', ']']
  | .array (v :: vs) =>
    '[' :: (newLine (level + 1) ++ writeValue (level + 1) v ++ writeItems (level + 1) vs
      ++ newLine level ++ [']'])
  | .object [] => ['\x7b', '\x7d']
  | .object ((name, v) :: ms) =>
    '\x7b' :: (newLine (level + 1) ++ Quoted.encode name.toList ++ [':', ' ']
      ++ writeValue (level + 1) v ++ writeMembers (level + 1) ms ++ newLine level ++ ['\x7d'])

/-- Items after the first, each behind a comma. -/
def writeItems (level : Nat) : List Value → List Char
  | [] => []
  | v :: vs => ',' :: (newLine level ++ writeValue level v ++ writeItems level vs)

/-- Members after the first, each behind a comma. -/
def writeMembers (level : Nat) : List (String × Value) → List Char
  | [] => []
  | (name, v) :: ms =>
    ',' :: (newLine level ++ Quoted.encode name.toList ++ [':', ' '] ++ writeValue level v
      ++ writeMembers level ms)

end

def Value.text (v : Value) : String := String.ofList (writeValue 0 v)

def quote (s : String) : String := String.ofList (Quoted.encode s.toList)

end Json
end Census
