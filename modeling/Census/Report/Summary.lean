import Census.Json.Printer
import Census.Ledger
import Census.Time.Calendar

/-!
# The summary of a census

The summary says how the census went: how long it took, how many terms were counted, and which of them
failed to the end or were counted only in part.
-/

namespace Census
namespace Report

structure Summary where
  /-- How long the census took, in hours, minutes and seconds. -/
  elapsed : String
  targeted : Nat
  resolved : Nat
  failed : Nat
  unresolved : List Term
  incomplete : List Term
  retriesLeft : Nat
  /-- When the census began, as a timestamp. -/
  startedAt : String
deriving DecidableEq

namespace Summary

def ofLedger (l : Ledger) (began : Instant) (elapsed : Span) : Summary where
  elapsed := elapsed.clock
  targeted := l.worklist.length
  resolved := l.counted.size
  failed := l.unresolved.length
  unresolved := l.unresolved
  incomplete := l.incomplete
  retriesLeft := l.retriesLeft
  startedAt := began.timestamp

def document (s : Summary) : Json.Value :=
  .object [
    ("elapsed", .string s.elapsed),
    ("terms_targeted", .ofNat s.targeted),
    ("terms_resolved", .ofNat s.resolved),
    ("failed_count", .ofNat s.failed),
    ("unresolved_terms", .array (s.unresolved.map .string)),
    ("incomplete_terms", .array (s.incomplete.map .string)),
    ("retries_remaining", .ofNat s.retriesLeft),
    ("started_at", .string s.startedAt)]

def text (s : Summary) : String := s.document.text

end Summary
end Report
end Census
