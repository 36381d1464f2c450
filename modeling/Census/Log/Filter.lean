import Census.Log.Note
import Census.Text.Blank
import Census.Text.Parts

/-!
# Which notes are shown

A rule sets the level for all targets whose names start with its own name, or for all targets when it
has none, and of the rules that fit a target the one with the longest name counts. Rules come from a
specification such as `net=trace,disk=warn/text`, where the text after the slash has to occur in a
note; parts that cannot be read are left out with a warning.
-/

namespace Census
namespace Log

/-- The least serious level that is shown, or none to show nothing. -/
abbrev Threshold := Option Level

namespace Threshold

/-- Whether a note of a level is shown. -/
def allows (t : Threshold) (l : Level) : Bool :=
  match t with
  | some least => l.rank ≤ least.rank
  | none => false

/-- The threshold of a given name, whatever its case. -/
def ofText? (s : List Char) : Option Threshold :=
  let named (name : String) : Bool := s.map Char.toUpper = name.toList
  if named "OFF" then some none
  else (Level.all.find? fun l => named l.text).map some

end Threshold

/-- The level for the targets whose names start with a name, or for all. -/
structure Rule where
  name : Option String
  threshold : Threshold
deriving DecidableEq

namespace Rule

def fits (r : Rule) (target : String) : Bool :=
  match r.name with
  | some name => name.toList.isPrefixOf target.toList
  | none => true

/-- How much of a target the name covers. -/
def weight (r : Rule) : Nat :=
  match r.name with
  | some name => name.utf8ByteSize
  | none => 0

end Rule

/-- The rules in the order in which their names came up, and the text that a note has to hold. -/
structure Filter where
  rules : List Rule
  needle : Option (List Char)
deriving DecidableEq

namespace Filter

def empty : Filter := { rules := [], needle := none }

/-- Puts a rule in the place of the one with the same name, or behind all others. -/
def add (f : Filter) (r : Rule) : Filter :=
  if f.rules.any fun old => old.name = r.name then
    { f with rules := f.rules.map fun old => if old.name = r.name then r else old }
  else { f with rules := f.rules ++ [r] }

/-- The rule that counts for a target; of rules with equally long names it is the last. -/
def rule? (f : Filter) (target : String) : Option Rule :=
  (f.rules.filter fun r => r.fits target).foldl
    (fun best r =>
      match best with
      | some b => if b.weight ≤ r.weight then some r else some b
      | none => some r)
    none

/-- Whether a text occurs in another. -/
def occursIn (needle : List Char) : List Char → Bool
  | [] => needle = []
  | c :: rest => needle.isPrefixOf (c :: rest) || occursIn needle rest

def shows (f : Filter) (n : Note) : Bool :=
  (match f.rule? n.target with
    | some r => Threshold.allows r.threshold n.level
    | none => false)
  && match f.needle with
    | some needle => occursIn needle n.text.toList
    | none => true

/-! ## Specifications -/

def warning (what : String) : String := "warning: invalid logging spec " ++ what ++ ", ignoring it\n"

def quoted (s : List Char) : String := "'" ++ String.ofList s ++ "'"

/-- The rule that an item of a specification gives, or the warning about it. A name without a level
shows everything. -/
def ruleOf (item : List Char) : Except String Rule :=
  match Text.partsAt '=' item with
  | [name] =>
    match Threshold.ofText? name with
    | some threshold => .ok { name := none, threshold }
    | none => .ok { name := some (String.ofList name), threshold := some .trace }
  | [name, level] =>
    let level := Text.trimmed level
    if level = [] then .ok { name := some (String.ofList name), threshold := some .trace }
    else
      match Threshold.ofText? level with
      | some threshold => .ok { name := some (String.ofList name), threshold }
      | none => .error (warning (quoted level))
  | _ => .error (warning (quoted item))

/-- Adds the rule of an item, if it has one. -/
def addItem (f : Filter) (item : List Char) : Filter :=
  match ruleOf item with
  | .ok r => f.add r
  | .error _ => f

/-- The items of a list, without the white space around them. -/
def items (list : List Char) : List (List Char) :=
  ((Text.partsAt ',' list).map Text.trimmed).filter (· ≠ [])

def ofSpec (spec : List Char) : Filter :=
  match Text.partsAt '/' spec with
  | [list] => (items list).foldl addItem empty
  | [list, needle] => { (items list).foldl addItem empty with needle := some needle }
  | _ => empty

def warnings (spec : List Char) : List String :=
  match Text.partsAt '/' spec with
  | list :: more =>
    if more.length ≤ 1 then
      (items list).filterMap fun item =>
        match ruleOf item with
        | .ok _ => none
        | .error w => some w
    else [warning (quoted spec ++ " (too many '/'s)")]
  | [] => []

end Filter
end Log
end Census
