import Census.Ledger.Notes
import Census.Quota.Backoff
import Census.Quota.Patience
import Census.Quota.Probe
import Census.Sweep.Service
import Census.Time.Calendar

/-!
# A census on its way

A run carries the ledger through the sweeps together with a clock, the probes and batches so far, and
what has been logged. The clock moves only while the census sleeps or waits for a batch.
-/

namespace Census
namespace Sweep

open Quota Log

/-- How a sweep waits. -/
structure Pace where
  /-- How long a search may take. -/
  deadline : Span
  patience : Patience
  /-- The first delay after a failed probe, in milliseconds. -/
  firstDelay : Nat
  /-- How many failed probes in a row are followed by another one. -/
  reprobes : Nat
deriving DecidableEq

namespace Pace

/-- The pace for a given time per search. -/
def ofDeadline (deadline : Span) : Pace where
  deadline := deadline
  patience := .standard
  firstDelay := 500
  reprobes := 4

/-- The delays between failed probes, from the first on. -/
def backoff (p : Pace) : Backoff := .start p.firstDelay p.reprobes

end Pace

/-- What a sweep does that others can see: when it probed and what remained, if there was an answer,
and when it sent out which batch. -/
inductive Event
  | probed (remaining : Option Nat) (time : Span)
  | fetched (batch : List Term) (time : Span)
deriving DecidableEq

namespace Event

/-- How often an event searches for a term. -/
def searches (t : Term) : Event → Nat
  | probed _ _ => 0
  | fetched batch _ => batch.count t

end Event

/-- A census on its way. Events and notes are kept with the newest first. -/
structure Run where
  ledger : Ledger
  began : Instant
  elapsed : Span
  events : List Event
  notes : List Note
deriving DecidableEq

namespace Run

def start (ledger : Ledger) (began : Instant) : Run where
  ledger := ledger
  began := began
  elapsed := .zero
  events := []
  notes := []

def now (r : Run) : Instant := r.began.plus r.elapsed

/-- How often a term has been searched for. -/
def asked (r : Run) (t : Term) : Nat :=
  r.events.foldr (fun e n => e.searches t + n) 0

def say (r : Run) (notes : List Note) : Run := { r with notes := notes.reverse ++ r.notes }

def rest (r : Run) (d : Span) : Run := { r with elapsed := r.elapsed + d }

def probe (r : Run) (remaining : Option Nat) : Run :=
  { r with events := .probed remaining r.elapsed :: r.events }

/-- Sends out a batch, waits for all of it, and enters its results. -/
def fetch (r : Run) (pace : Pace) (service : Service) (batch : List Term) : Run :=
  let results := service.arrival r.ledger.attempts (service.results pace.deadline r.asked batch)
  { r with
    ledger := r.ledger.merge results
    elapsed := r.elapsed + service.duration pace.deadline r.asked batch
    events := .fetched batch r.elapsed :: r.events
    notes := (r.ledger.noteMerge results).reverse ++ r.notes }

@[simp] theorem ledger_say (r : Run) (ns : List Note) : (r.say ns).ledger = r.ledger := rfl

@[simp] theorem events_say (r : Run) (ns : List Note) : (r.say ns).events = r.events := rfl

@[simp] theorem ledger_rest (r : Run) (d : Span) : (r.rest d).ledger = r.ledger := rfl

@[simp] theorem events_rest (r : Run) (d : Span) : (r.rest d).events = r.events := rfl

@[simp] theorem ledger_probe (r : Run) (n : Option Nat) : (r.probe n).ledger = r.ledger := rfl

@[simp] theorem events_probe (r : Run) (n : Option Nat) :
    (r.probe n).events = .probed n r.elapsed :: r.events := rfl

end Run
end Sweep
end Census
