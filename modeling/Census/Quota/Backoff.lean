import Census.Time.Span

/-!
# Delays between failed probes

The delays grow by doubling up to a cap. The multiplier is half of the first delay, and the doubling
power starts at two; both the power and its product with the multiplier stop at the largest number of
64 bits, which the cap keeps from showing.
-/

namespace Census
namespace Quota

/-- A sequence of delays that is still to come. -/
structure Backoff where
  /-- What the power is multiplied by, in milliseconds. -/
  unit : Nat
  power : Nat
  left : Nat
deriving DecidableEq

namespace Backoff

/-- The longest delay in milliseconds. -/
def cap : Nat := 10000

/-- What a power is multiplied by from one delay to the next. -/
def growth : Nat := 2

/-- A number that stops at the largest one of 64 bits. -/
def saturated (n : Nat) : Nat := min n Numeral.most64

/-- `count` delays that start at about `initial` milliseconds. -/
def start (initial count : Nat) : Backoff where
  unit := max 1 (initial / growth)
  power := growth
  left := count

/-- The next delay in milliseconds; the power stays where it is once the cap has been passed. -/
def millis (b : Backoff) : Nat := min cap (saturated (b.power * b.unit))

def rest (b : Backoff) : Backoff :=
  { b with
    power := if cap < saturated (b.power * b.unit) then b.power else saturated (b.power * growth)
    left := b.left - 1 }

/-- The next delay and the sequence after it, or nothing when no delay is left. -/
def next? (b : Backoff) : Option (Span × Backoff) :=
  if b.left = 0 then none else some (.ofMillis b.millis, b.rest)

def take (b : Backoff) : Nat → List Span
  | 0 => []
  | n + 1 => .ofMillis b.millis :: b.rest.take n

def delays (b : Backoff) : List Span := b.take b.left

end Backoff
end Quota
end Census
