import Census.Time.Span

/-!
# Instants

An instant is a signed number of nanoseconds since the start of 1970. Only instants of the years
-262143 to 262142 can be named by a timestamp or reached by adding a delay, and both operations
return nothing outside that range.
-/

namespace Census

/-- A point in time, in nanoseconds since the start of 1970. -/
structure Instant where
  nanos : Int
deriving DecidableEq

namespace Instant

instance : LE Instant := ⟨fun i j => i.nanos ≤ j.nanos⟩

instance (i j : Instant) : Decidable (i ≤ j) := inferInstanceAs (Decidable (i.nanos ≤ j.nanos))

/-- The first second that can be named, the start of the year -262143. -/
def earliestSecond : Int := -8334601228800

/-- The last second that can be named, the end of the year 262142. -/
def latestSecond : Int := 8210266876799

def ofSeconds (s : Int) : Instant := ⟨s * 1000000000⟩

/-- Whether an instant lies in the range that can be named. -/
def InRange (i : Instant) : Prop :=
  earliestSecond * 1000000000 ≤ i.nanos ∧ i.nanos < (latestSecond + 1) * 1000000000

instance (i : Instant) : Decidable i.InRange := inferInstanceAs (Decidable (_ ∧ _))

/-- The instant of a timestamp in seconds. -/
def ofSeconds? (s : Int) : Option Instant :=
  if earliestSecond ≤ s ∧ s ≤ latestSecond then some (ofSeconds s) else none

/-- The instant a number of seconds later, or earlier for a negative number. -/
def later? (i : Instant) (s : Int) : Option Instant :=
  let j : Instant := ⟨i.nanos + s * 1000000000⟩
  if j.InRange then some j else none

def plus (i : Instant) (d : Span) : Instant := ⟨i.nanos + d.nanos⟩

/-- Nanoseconds from `i` until `j`, negative when `j` is the earlier one. -/
def nanosUntil (i j : Instant) : Int := j.nanos - i.nanos

/-- Whole seconds since the start of 1970, rounded down. -/
def seconds (i : Instant) : Int := i.nanos / 1000000000

/-- Nanoseconds into the current second. -/
def subsecond (i : Instant) : Nat := (i.nanos % 1000000000).toNat

@[simp] theorem nanos_plus (i : Instant) (d : Span) : (i.plus d).nanos = i.nanos + d.nanos := rfl

theorem ofSeconds?_eq_some {s : Int} {i : Instant} (h : ofSeconds? s = some i) :
    i = ofSeconds s := by
  unfold ofSeconds? at h
  split at h <;> simp_all

end Instant
end Census
