/-!
# Whole numbers in text

Numbers are read from digits with an optional sign, inside bounds that the caller names, and are
written with leading zeros up to a width. A number outside its bounds is refused rather than cut.
-/

namespace Census
namespace Numeral

/-- The number that a string of decimal digits stands for, read on from `acc`. -/
def valueFrom (acc : Nat) (digits : List Char) : Nat :=
  digits.foldl (fun n c => 10 * n + (c.toNat - '0'.toNat)) acc

/-- The number that a non-empty string of decimal digits stands for. -/
def digits? (s : List Char) : Option Nat :=
  if s ≠ [] ∧ s.all Char.isDigit then some (valueFrom 0 s) else none

/-- An unsigned number of at most `most`. A leading plus sign and leading zeros are allowed. -/
def nat? (most : Nat) (s : List Char) : Option Nat :=
  let digits := match s with
    | '+' :: rest => rest
    | s => s
  (digits? digits).filter (· ≤ most)

/-- A number between `least` and `most`, with an optional sign. -/
def int? (least most : Int) (s : List Char) : Option Int :=
  let value : Option Int := match s with
    | '-' :: rest => (digits? rest).map fun n => -(n : Int)
    | '+' :: rest => (digits? rest).map fun n => (n : Int)
    | s => (digits? s).map fun n => (n : Int)
  value.filter fun n => least ≤ n ∧ n ≤ most

def most32 : Nat := Nat.pow 2 32 - 1

def most64 : Nat := Nat.pow 2 64 - 1

def int64? (s : List Char) : Option Int :=
  int? (-(Nat.pow 2 63 : Nat)) ((Nat.pow 2 63 : Nat) - 1) s

/-- The digits of `n`, with zeros in front up to `width` characters. -/
def padded (width n : Nat) : String :=
  let digits := toString n
  String.ofList (List.replicate (width - digits.length) '0') ++ digits

end Numeral
end Census
