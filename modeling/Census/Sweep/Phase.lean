import Census.Sweep.Await

/-!
# The primary sweep and the retry sweep

The primary sweep goes through the pending terms in batches, each as large as the probe right before
it allows. The retry sweep goes over the failed terms in the same way, until none is left or its
passes are used up; a pass is spent only on a batch. Both stop when waiting for quota fails, and what
has been entered by then stays entered.
-/

namespace Census
namespace Sweep

open Quota Log

inductive Ending
  | complete
  /-- The service could not be probed. -/
  | stopped (fault : ProbeFault)
  /-- A sleep was out of range. -/
  | overflowed
  /-- There were not enough probes. -/
  | unprobed
deriving DecidableEq

/-- What a sweep leaves behind: how it ended, the run, and the probes that it did not come to. -/
structure Phase where
  ending : Ending
  run : Run
  rest : List Probe

/-- Takes the next pending batch, sends it out and enters its results. -/
def primaryPass (pace : Pace) (service : Service) (w : Window) (run : Run) : Run :=
  let (batch, ledger) := run.ledger.nextBatch w.batchLimit
  let run := { run with ledger }.say (run.ledger.noteSkipped w.batchLimit)
  if batch = [] then run
  else (run.say [ledger.notePrimaryBatch batch.length w.remaining]).fetch pace service batch

def notePrimaryDone (l : Ledger) : Note :=
  ⟨.info, schedulerTarget, "Primary sweep done: " ++ toString l.counted.size ++ " counted, "
    ++ toString l.failed.size ++ " failed"⟩

/-- Searches for the pending terms until none is left. -/
def primary (pace : Pace) (service : Service) (probes : List Probe) (run : Run) : Phase :=
  let run := { run with ledger := run.ledger.prune }
  if run.ledger.pending = [] then ⟨.complete, run.say [notePrimaryDone run.ledger], probes⟩
  else
    match _h : await pace probes run with
    | .granted w run rest => primary pace service rest (primaryPass pace service w run)
    | .gaveUp f run rest => ⟨.stopped f, run, rest⟩
    | .overflowed _ run rest => ⟨.overflowed, run, rest⟩
    | .unprobed run => ⟨.unprobed, run, []⟩
termination_by probes.length
decreasing_by exact await_granted_length _h

/-- Spends a pass: takes a batch of failed terms, sends it out and enters its results. -/
def retryPass (pace : Pace) (service : Service) (w : Window) (run : Run) : Run :=
  let (batch, ledger) := run.ledger.spendRetry.takeRetry w.batchLimit
  ({ run with ledger }.say [ledger.noteRetryBatch batch.length w.remaining]).fetch pace service batch

/-- What is said about the terms that failed to the end. -/
def noteUnresolved (l : Ledger) : List Note :=
  if l.failed.isEmpty then []
  else [⟨.warn, target "sweep::retry", "Retry budget spent with " ++ toString l.failed.size
    ++ " unresolved term(s)"⟩]

/-- Searches for the failed terms again until none is left or no pass is left. -/
def retry (pace : Pace) (service : Service) (probes : List Probe) (run : Run) : Phase :=
  if run.ledger.retriesLeft = 0 ∨ run.ledger.failed.isEmpty then
    ⟨.complete, run.say (noteUnresolved run.ledger), probes⟩
  else
    match _h : await pace probes run with
    | .granted w run rest => retry pace service rest (retryPass pace service w run)
    | .gaveUp f run rest => ⟨.stopped f, run, rest⟩
    | .overflowed _ run rest => ⟨.overflowed, run, rest⟩
    | .unprobed run => ⟨.unprobed, run, []⟩
termination_by probes.length
decreasing_by exact await_granted_length _h

inductive Kind
  | primary
  | retry
deriving DecidableEq

def phase (kind : Kind) (pace : Pace) (service : Service) (probes : List Probe) (run : Run) :
    Phase :=
  match kind with
  | .primary => primary pace service probes run
  | .retry => retry pace service probes run

end Sweep
end Census
