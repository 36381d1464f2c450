import Census.Time.Instant

/-!
# Sleeping through an exhausted quota

How long to sleep follows from the time until the reset: a grace is added to it, a reset in the past
means the least sleep, and no sleep is longer than the most. The sum of the time and the grace is taken
before it is cut to the longest sleep, and is the one place where a span can grow out of range.
-/

namespace Census
namespace Quota

/-- The bounds of a sleep. -/
structure Patience where
  /-- The sleep when the reset is not in the future. -/
  least : Span
  /-- What is added to the time until a reset in the future. -/
  grace : Span
  /-- The longest sleep. -/
  most : Span
deriving DecidableEq

namespace Patience

def standard : Patience where
  least := .ofSeconds 2
  grace := .ofSeconds 1
  most := .ofSeconds 3600

/-- How long to sleep at `now`, or nothing when the time until the reset and the grace add up to more
than a span can be. -/
def sleep? (p : Patience) (resetsAt now : Instant) : Option Span :=
  let ahead := now.nanosUntil resetsAt
  let uncut? := if 0 < ahead then Span.add? ⟨ahead.toNat⟩ p.grace else some p.least
  uncut?.map fun sleep => sleep.shorter p.most

end Patience
end Quota
end Census
