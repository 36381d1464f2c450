import Census.Text.Numeral

/-!
# Spans of time

A span is a whole number of nanoseconds, so adding, comparing and capping spans is exact. Spans that
are measured or configured stay below `Span.limit`, the first one whose seconds need more than 64
bits; only a sum can reach it, and where that can happen the sum is taken with `Span.add?`.
-/

namespace Census

/-- A length of time in nanoseconds. -/
structure Span where
  nanos : Nat
deriving DecidableEq

namespace Span

def zero : Span := ⟨0⟩

def ofSeconds (n : Nat) : Span := ⟨n * 1000000000⟩

def ofMillis (n : Nat) : Span := ⟨n * 1000000⟩

/-- Whole seconds, rounded down. -/
def seconds (d : Span) : Nat := d.nanos / 1000000000

/-- What is left after the whole seconds, in nanoseconds. -/
def subsecond (d : Span) : Nat := d.nanos % 1000000000

/-- Whole milliseconds, rounded down. -/
def millis (d : Span) : Nat := d.nanos / 1000000

/-- The first span whose seconds do not fit 64 bits. -/
def limit : Span := ofSeconds (Nat.pow 2 64)

instance : Add Span := ⟨fun a b => ⟨a.nanos + b.nanos⟩⟩

instance : LE Span := ⟨fun a b => a.nanos ≤ b.nanos⟩

instance : LT Span := ⟨fun a b => a.nanos < b.nanos⟩

instance (a b : Span) : Decidable (a ≤ b) := inferInstanceAs (Decidable (a.nanos ≤ b.nanos))

instance (a b : Span) : Decidable (a < b) := inferInstanceAs (Decidable (a.nanos < b.nanos))

/-- The sum of two spans, or nothing when its seconds do not fit 64 bits. -/
def add? (a b : Span) : Option Span := if a + b < limit then some (a + b) else none

def shorter (a b : Span) : Span := ⟨min a.nanos b.nanos⟩

def longer (a b : Span) : Span := ⟨max a.nanos b.nanos⟩

@[simp] theorem nanos_zero : zero.nanos = 0 := rfl

@[simp] theorem nanos_add (a b : Span) : (a + b).nanos = a.nanos + b.nanos := rfl

@[simp] theorem nanos_shorter (a b : Span) : (shorter a b).nanos = min a.nanos b.nanos := rfl

@[simp] theorem nanos_longer (a b : Span) : (longer a b).nanos = max a.nanos b.nanos := rfl

theorem add?_of_lt {a b : Span} (fits : a.nanos + b.nanos < limit.nanos) :
    add? a b = some ⟨a.nanos + b.nanos⟩ := if_pos fits

theorem add?_eq_none_iff {a b : Span} : add? a b = none ↔ limit.nanos ≤ a.nanos + b.nanos := by
  by_cases fits : a.nanos + b.nanos < limit.nanos
  · rw [add?_of_lt fits]
    exact iff_of_false (Option.some_ne_none _) (Nat.not_le_of_lt fits)
  · exact iff_of_true (if_neg fits) (Nat.le_of_not_lt fits)

/-- Hours, minutes and seconds with two digits each; the hours grow past 99 when they have to. -/
def clock (d : Span) : String :=
  let s := d.seconds
  Numeral.padded 2 (s / 3600) ++ ":" ++ Numeral.padded 2 (s % 3600 / 60) ++ ":"
    ++ Numeral.padded 2 (s % 60)

/-- The span in seconds, as the nearest binary fraction that the log lines round again. -/
def inSeconds (d : Span) : Float :=
  Float.ofNat d.seconds + Float.ofNat d.subsecond / 1000000000.0

end Span
end Census
