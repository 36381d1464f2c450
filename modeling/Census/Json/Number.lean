import Census.Decimal
import Census.Json.Fault

/-!
# JSON numbers

A number is scanned into its parts, and one that is too large for a binary fraction of 64 bits is
refused. How large it is follows from the digits that fit 64 bits and a power of ten, each rounded to
53 bits before they are multiplied.
-/

namespace Census
namespace Json

/-- The parts of a number as it is written. -/
structure Number where
  negative : Bool
  whole : List Char
  fraction : List Char
  /-- The digits of the exponent, and whether it is negative. -/
  exponent : Option (Bool × List Char)
deriving DecidableEq

namespace Number

/-- Digits that must be there. -/
def readDigits (s : List Char) : Read (List Char) :=
  match s.takeWhile Char.isDigit with
  | [] => .error (.within (if s.isEmpty then .endInValue else .badNumber) s)
  | digits => .ok (digits, s.dropWhile Char.isDigit)

/-- The digits before the point: a zero alone, or digits that do not start with one. -/
def readWhole (s : List Char) : Read (List Char) :=
  match s with
  | '0' :: rest =>
    match rest with
    | [] => .ok (['0'], [])
    | c :: more => if c.isDigit then .error (.within .badNumber (c :: more)) else .ok (['0'], c :: more)
  | s => readDigits s

/-- The point and the digits after it, if there is a point. -/
def readFraction (s : List Char) : Read (List Char) :=
  match s with
  | '.' :: rest => readDigits rest
  | s => .ok ([], s)

/-- The exponent, if there is one. -/
def readExponent (s : List Char) : Read (Option (Bool × List Char)) :=
  let digits (negative : Bool) (s : List Char) : Read (Option (Bool × List Char)) :=
    match readDigits s with
    | .error f => .error f
    | .ok (ds, rest) => .ok (some (negative, ds), rest)
  match s with
  | [] => .ok (none, [])
  | c :: rest =>
    if c = 'e' ∨ c = 'E' then
      match rest with
      | '+' :: rest => digits false rest
      | '-' :: rest => digits true rest
      | rest => digits false rest
    else .ok (none, c :: rest)

/-- A number whose sign has been read. -/
def readUnsigned (negative : Bool) (s : List Char) : Read Number :=
  match readWhole s with
  | .error f => .error f
  | .ok (whole, s) =>
    match readFraction s with
    | .error f => .error f
    | .ok (fraction, s) =>
      match readExponent s with
      | .error f => .error f
      | .ok (exponent, s) => .ok ({ negative, whole, fraction, exponent }, s)

/-- A number, wherever its size lies. -/
def scan (s : List Char) : Read Number :=
  match s with
  | '-' :: rest => readUnsigned true rest
  | s => readUnsigned false s

/-- Reads on digits as long as the number fits 64 bits: the number, and how many digits are left. -/
def absorb : Nat → List Char → Nat × Nat
  | n, [] => (n, 0)
  | n, c :: rest =>
    let m := 10 * n + (c.toNat - '0'.toNat)
    if m ≤ Numeral.most64 then absorb m rest else (n, rest.length + 1)

/-- The leading digits that fit 64 bits, and the power of ten they are multiplied by before the
exponent counts. -/
def leading (n : Number) : Nat × Int :=
  let (m, dropped) := absorb 0 n.whole
  let (m, unused) := absorb m n.fraction
  (m, (dropped : Int) - (n.fraction.length - unused : Nat))

/-- The nearest number with 53 significant bits; of two, the one that ends in a zero bit. -/
def nearest53 (n : Nat) : Nat :=
  let unit := Nat.pow 2 (n.log2 - 52)
  Decimal.roundQuotient n unit * unit

/-- The first number that rounds past the largest binary fraction of 64 bits. -/
def tooLarge : Nat := Nat.pow 2 1024 - Nat.pow 2 970

/-- Whether `m * 10 ^ e` overflows. -/
def overflows (m : Nat) (e : Int) : Bool :=
  m ≠ 0 && (308 < e || (0 ≤ e && tooLarge ≤ nearest53 m * nearest53 (Nat.pow 10 e.toNat)))

/-- The largest exponent that is counted in full. -/
def mostExponent : Nat := Nat.pow 2 31 - 1

/-- How many digits follow the one with which an exponent grows past `mostExponent`. -/
def excess? : Nat → List Char → Option Nat
  | _, [] => none
  | n, c :: rest =>
    let m := 10 * n + (c.toNat - '0'.toNat)
    if m ≤ mostExponent then excess? m rest else some rest.length

/-- The place where the size of a number shows to be out of range, given the text after it. -/
def fault? (n : Number) (rest : List Char) : Option Fault :=
  let (m, e) := n.leading
  match n.exponent with
  | none => if overflows m e then some (.before .outOfRange rest) else none
  | some (negative, digits) =>
    match excess? 0 digits with
    | some later =>
      if m ≠ 0 ∧ negative = false then some ⟨.outOfRange, byteCount rest + later⟩ else none
    | none =>
      let x : Int := Numeral.valueFrom 0 digits
      if overflows m (if negative then e - x else e + x) then some (.before .outOfRange rest) else none

/-- A number whose size a binary fraction of 64 bits can hold. -/
def read (s : List Char) : Read Number :=
  match scan s with
  | .error f => .error f
  | .ok (n, rest) =>
    match n.fault? rest with
    | some f => .error f
    | none => .ok (n, rest)

example : (read "1e308".toList).isOk ∧ (read "2e308".toList).isOk = false := by decide +kernel

end Number
end Json
end Census
