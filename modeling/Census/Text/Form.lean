import Census.Text.Utf8

/-!
# Form encoding

The value of a query parameter is written byte by byte: letters, digits and `*-._` stand for
themselves, a space is a plus sign, and every other byte of the UTF-8 form is a percent sign with two
capital hexadecimal digits.
-/

namespace Census
namespace Text
namespace Form

/-- The capital hexadecimal digit of a number below 16. -/
def hexDigit (n : Nat) : Char :=
  Char.ofNat (if n < 10 then 0x30 + n else 0x37 + n)

/-- The number of a hexadecimal digit of either case. -/
def hexValue? (c : Char) : Option Nat :=
  let n := c.toNat
  if 0x30 ≤ n ∧ n ≤ 0x39 then some (n - 0x30)
  else if 0x41 ≤ n ∧ n ≤ 0x46 then some (n - 0x37)
  else if 0x61 ≤ n ∧ n ≤ 0x66 then some (n - 0x57)
  else none

/-- The bytes that stand for themselves. -/
def isPlain (b : UInt8) : Bool :=
  let n := b.toNat
  (0x30 ≤ n && n ≤ 0x39) || (0x41 ≤ n && n ≤ 0x5A) || (0x61 ≤ n && n ≤ 0x7A)
    || n = 0x2A || n = 0x2D || n = 0x2E || n = 0x5F

def encodeByte (b : UInt8) : List Char :=
  if isPlain b then [Char.ofNat b.toNat]
  else if b.toNat = 0x20 then ['+']
  else ['%', hexDigit (b.toNat / 16), hexDigit (b.toNat % 16)]

def encodeBytes (bs : List UInt8) : List Char := bs.flatMap encodeByte

def encode (s : String) : String := String.ofList (encodeBytes (bytes s))

/-- The bytes of an encoded value. Refuses a percent sign without two hexadecimal digits and
characters outside ASCII. -/
def decodeBytes? : List Char → Option (List UInt8)
  | [] => some []
  | '%' :: a :: b :: rest => do
    let hi ← hexValue? a
    let lo ← hexValue? b
    let more ← decodeBytes? rest
    some (UInt8.ofNat (hi * 16 + lo) :: more)
  | c :: rest =>
    if c = '%' ∨ 0x80 ≤ c.toNat then none
    else (decodeBytes? rest).map (UInt8.ofNat (if c = '+' then 0x20 else c.toNat) :: ·)

def decode? (s : String) : Option String := (decodeBytes? s.toList).bind ofBytes?

example : encode "language:\"C# 7\"é*" = "language%3A%22C%23+7%22%C3%A9*" := by decide +kernel

end Form
end Text
end Census
