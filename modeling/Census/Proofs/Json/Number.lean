import Census.Json.Number
import Mathlib.Data.List.Basic

/-!
# Where a number ends

The digits of a number are read up to the last one, provided that what follows them cannot belong to
a number. In a text nothing else follows (`BehindValue`).
-/

namespace Census
namespace Json

/-- What may follow a value in a text. -/
inductive BehindValue : List Char → Prop
  | nothing : BehindValue []
  | comma (more : List Char) : BehindValue (',' :: more)
  | bracket (more : List Char) : BehindValue (']' :: more)
  | brace (more : List Char) : BehindValue ('\x7d' :: more)
  | blank (more : List Char) : BehindValue (' ' :: more)
  | tab (more : List Char) : BehindValue ('\t' :: more)
  | lineFeed (more : List Char) : BehindValue ('\n' :: more)
  | carriageReturn (more : List Char) : BehindValue ('\r' :: more)

/-- No digit comes first. -/
def NoDigit (s : List Char) : Prop := ∀ c ∈ s.head?, c.isDigit = false

theorem BehindValue.noDigit {s : List Char} (behind : BehindValue s) : NoDigit s := by
  intro c hc
  cases behind with
  | nothing => cases hc
  | _ =>
    obtain rfl := Option.some.inj hc
    rfl

namespace Number

section Digits

variable {ds rest : List Char}

theorem takeWhile_digits (all : ∀ c ∈ ds, c.isDigit = true) (stops : NoDigit rest) :
    (ds ++ rest).takeWhile Char.isDigit = ds := by
  rw [List.takeWhile_append_of_pos all]
  cases rest with
  | nil => rw [List.takeWhile_nil, List.append_nil]
  | cons c rest => rw [List.takeWhile_cons, stops c rfl, if_neg Bool.false_ne_true, List.append_nil]

theorem dropWhile_digits (all : ∀ c ∈ ds, c.isDigit = true) (stops : NoDigit rest) :
    (ds ++ rest).dropWhile Char.isDigit = rest := by
  rw [List.dropWhile_append_of_pos all]
  cases rest with
  | nil => rfl
  | cons c rest => rw [List.dropWhile_cons, stops c rfl, if_neg Bool.false_ne_true]

theorem readDigits_append (all : ∀ c ∈ ds, c.isDigit = true) (some_digit : ds ≠ [])
    (stops : NoDigit rest) : readDigits (ds ++ rest) = .ok (ds, rest) := by
  rw [readDigits, takeWhile_digits all stops, dropWhile_digits all stops]
  cases ds with
  | nil => exact absurd rfl some_digit
  | cons c ds => rfl

theorem readWhole_of_head? {s : List Char} (h : s.head? ≠ some '0') :
    readWhole s = readDigits s := by
  unfold readWhole
  split
  · exact absurd rfl h
  · rfl

theorem scan_of_head? {s : List Char} (h : s.head? ≠ some '-') : scan s = readUnsigned false s := by
  unfold scan
  split
  · exact absurd rfl h
  · rfl

theorem readExponent_behind (behind : BehindValue rest) : readExponent rest = .ok (none, rest) := by
  cases behind <;> rfl

end Digits

/-- A number of digits alone. -/
def ofDigits (ds : List Char) : Number where
  negative := false
  whole := ds
  fraction := []
  exponent := none

end Number
end Json
end Census
