import Census.Text.Utf8

/-!
# HTTP headers

Headers are kept in the order in which they came, repeated names included, and a look-up sees the
first of them. A value is a string of bytes; it is text only when all of its bytes are printable ASCII
characters or tabs.
-/

namespace Census
namespace Http

structure Header where
  name : String
  value : List UInt8
deriving DecidableEq

abbrev Headers := List Header

/-- Whether a byte may stand in the value of a header that is sent. -/
def isValueByte (b : UInt8) : Bool :=
  b.toNat = 0x9 || (0x20 ≤ b.toNat && b.toNat ≠ 0x7F)

/-- Whether a byte may stand in a value that is read as text. -/
def isTextByte (b : UInt8) : Bool :=
  b.toNat = 0x9 || (0x20 ≤ b.toNat && b.toNat ≤ 0x7E)

def isValue (s : String) : Bool := (Text.bytes s).all isValueByte

/-- The characters of a value that is text. -/
def valueText? (value : List UInt8) : Option (List Char) :=
  if value.all isTextByte then some (value.map fun b => Char.ofNat b.toNat) else none

/-- A header name in lower case; only ASCII letters have a case here. -/
def foldCase (name : String) : List Char := name.toList.map Char.toLower

namespace Headers

/-- The first value under a name, whatever its case. -/
def value? (hs : Headers) (name : String) : Option (List UInt8) :=
  (List.find? (fun h => foldCase h.name = foldCase name) hs).map Header.value

/-- The first value under a name, if it is text. A later value does not stand in for one that is
not. -/
def text? (hs : Headers) (name : String) : Option (List Char) :=
  (hs.value? name).bind valueText?

end Headers

structure Response where
  status : Nat
  headers : Headers
  body : List UInt8
deriving DecidableEq

/-- The statuses that a response can have. -/
def IsStatus (n : Nat) : Prop := 100 ≤ n ∧ n ≤ 999

instance (n : Nat) : Decidable (IsStatus n) := inferInstanceAs (Decidable (_ ∧ _))

def isSuccess (status : Nat) : Bool := status / 100 = 2

def isServerError (status : Nat) : Bool := status / 100 = 5

end Http
end Census
