/-!
# UTF-8

A file is read strictly: one malformed sequence makes it unreadable. The body of an answer is read
leniently: each malformed sequence, as long as it could have been the start of a character, becomes
one replacement character.
-/

namespace Census
namespace Text

def bytes (s : String) : List UInt8 := s.toUTF8.toList

/-- The text that bytes encode, if they are well formed. -/
def ofBytes? (bs : List UInt8) : Option String := String.fromUTF8? (ByteArray.mk bs.toArray)

/-- The character that stands for what could not be decoded. -/
def replacement : Char := Char.ofNat 0xFFFD

/-- A leading byte: how many bytes follow it, the bits it carries, and the range of the first byte
that follows. The range shuts out long forms, surrogates and numbers past the last code point. -/
def leading? (b : Nat) : Option (Nat × Nat × Nat × Nat) :=
  if 0xC2 ≤ b ∧ b ≤ 0xDF then some (1, b % 32, 0x80, 0xBF)
  else if b = 0xE0 then some (2, 0, 0xA0, 0xBF)
  else if b = 0xED then some (2, 13, 0x80, 0x9F)
  else if 0xE1 ≤ b ∧ b ≤ 0xEF then some (2, b % 16, 0x80, 0xBF)
  else if b = 0xF0 then some (3, 0, 0x90, 0xBF)
  else if 0xF1 ≤ b ∧ b ≤ 0xF3 then some (3, b % 8, 0x80, 0xBF)
  else if b = 0xF4 then some (3, 4, 0x80, 0x8F)
  else none

/-- What the decoder still expects of the character it is in the middle of: how many bytes, the bits
so far, and the range of the next byte. -/
structure Partial where
  missing : Nat
  bits : Nat
  least : Nat
  most : Nat

/-- The first byte of a character, or of something malformed. -/
def startByte (b : Nat) : Option Char × Option Partial :=
  if b < 0x80 then (some (Char.ofNat b), none)
  else match leading? b with
    | some (missing, bits, least, most) => (none, some { missing, bits, least, most })
    | none => (some replacement, none)

/-- Decodes from the middle of a character. -/
def lenientFrom : Option Partial → List UInt8 → List Char
  | none, [] => []
  | some _, [] => [replacement]
  | none, b :: rest =>
    let (c, p) := startByte b.toNat
    c.toList ++ lenientFrom p rest
  | some p, b :: rest =>
    if p.least ≤ b.toNat ∧ b.toNat ≤ p.most then
      let bits := p.bits * 64 + b.toNat % 64
      if p.missing = 1 then Char.ofNat bits :: lenientFrom none rest
      else lenientFrom (some { missing := p.missing - 1, bits, least := 0x80, most := 0xBF }) rest
    else
      let (c, p) := startByte b.toNat
      replacement :: (c.toList ++ lenientFrom p rest)

/-- Decodes bytes with replacement characters for what is malformed. -/
def lenient (bs : List UInt8) : String := String.ofList (lenientFrom none bs)

example : lenient [0x61, 0xE2, 0x82, 0x41, 0xC3, 0xA9, 0xF0, 0x9F, 0x98, 0x80]
    = "a\uFFFDAé😀" := by decide +kernel

end Text
end Census
