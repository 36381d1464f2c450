import Census.Decimal
import Census.Sweep.Run

/-!
# Waiting for quota

Before each batch the census probes until something remains. It sleeps through an exhausted window,
and after a failed probe it probes again at growing delays; a run of failures that outlasts the delays
ends the wait. Every window, exhausted or not, starts the delays anew. A window whose reset is further
ahead than a sleep can be told ends the wait as well, and with it the census.
-/

namespace Census
namespace Sweep

open Quota Log

/-- How a wait for quota ended, with the probes that it did not come to. -/
inductive Awaited
  /-- Something remains. -/
  | granted (window : Window) (run : Run) (rest : List Probe)
  /-- The probes failed too often in a row; the fault is that of the last one. -/
  | gaveUp (fault : ProbeFault) (run : Run) (rest : List Probe)
  /-- The window is exhausted, and the sleep until its reset is out of range. -/
  | overflowed (window : Window) (run : Run) (rest : List Probe)
  /-- There were not enough probes. -/
  | unprobed (run : Run)

def schedulerTarget : String := target "sweep::scheduler"

def noteProbeFault (f : ProbeFault) : Note :=
  ⟨.warn, schedulerTarget, "Quota probe failed: " ++ f.message⟩

def noteExhausted (w : Window) (sleep : Span) : Note :=
  ⟨.info, schedulerTarget, "Search quota exhausted, sleeping " ++ Decimal.fixed 1 sleep.inSeconds
    ++ "s until reset at " ++ w.resetsAt.timeOfDay⟩

/-- Waits for quota with the delays that are left after the failures so far. -/
def awaitFrom (pace : Pace) : Backoff → List Probe → Run → Awaited
  | _, [], run => .unprobed run
  | backoff, probe :: rest, run =>
    match probe run.now with
    | .error f =>
      let run := (run.probe none).say [noteProbeFault f]
      match backoff.next? with
      | none => .gaveUp f run rest
      | some (delay, backoff) => awaitFrom pace backoff rest (run.rest delay)
    | .ok w =>
      let run := run.probe (some w.remaining)
      if w.isExhausted then
        match pace.patience.sleep? w.resetsAt run.now with
        | none => .overflowed w run rest
        | some sleep =>
          awaitFrom pace pace.backoff rest ((run.say [noteExhausted w sleep]).rest sleep)
      else .granted w run rest

def await (pace : Pace) (probes : List Probe) (run : Run) : Awaited :=
  awaitFrom pace pace.backoff probes run

section Answers

variable {pace : Pace} {b later : Backoff} {probe : Probe} {rest : List Probe} {run : Run}
  {f : ProbeFault} {w : Window} {d : Span}

theorem awaitFrom_of_failure (answer : probe run.now = .error f)
    (next : b.next? = some (d, later)) :
    awaitFrom pace b (probe :: rest) run
      = awaitFrom pace later rest (((run.probe none).say [noteProbeFault f]).rest d) := by
  simp only [awaitFrom, answer, next]

theorem awaitFrom_of_last_failure (answer : probe run.now = .error f) (last : b.next? = none) :
    awaitFrom pace b (probe :: rest) run
      = .gaveUp f ((run.probe none).say [noteProbeFault f]) rest := by
  simp only [awaitFrom, answer, last]

theorem awaitFrom_of_left (answer : probe run.now = .ok w) (left : w.isExhausted = false) :
    awaitFrom pace b (probe :: rest) run = .granted w (run.probe (some w.remaining)) rest := by
  simp only [awaitFrom, answer, left, Bool.false_eq_true, if_false]

variable (answer : probe run.now = .ok w) (exhausted : w.isExhausted = true)

include answer exhausted

/-- An exhausted window that is slept through gives the wait all of its delays back. -/
theorem awaitFrom_of_slept (slept : pace.patience.sleep? w.resetsAt run.now = some d) :
    awaitFrom pace b (probe :: rest) run
      = await pace rest (((run.probe (some w.remaining)).say [noteExhausted w d]).rest d) := by
  have same : (run.probe (some w.remaining)).now = run.now := rfl
  simp only [awaitFrom, answer, exhausted, if_true, same, slept, await]

theorem awaitFrom_of_overflow (overflow : pace.patience.sleep? w.resetsAt run.now = none) :
    awaitFrom pace b (probe :: rest) run
      = .overflowed w (run.probe (some w.remaining)) rest := by
  have same : (run.probe (some w.remaining)).now = run.now := rfl
  simp only [awaitFrom, answer, exhausted, if_true, same, overflow]

end Answers

theorem awaitFrom_granted_length {pace : Pace} {b : Backoff} {probes rest : List Probe}
    {run run' : Run} {w : Window} (h : awaitFrom pace b probes run = .granted w run' rest) :
    rest.length < probes.length := by
  fun_induction awaitFrom pace b probes run with
  | case1 b run => cases h
  | case2 b probe tail run f failed missed last => cases h
  | case3 b probe tail run f failed missed delay later next ih => exact Nat.lt_succ_of_lt (ih h)
  | case4 b probe tail run found answer probed exhausted overflow => cases h
  | case5 b probe tail run found answer probed exhausted sleep slept ih =>
    exact Nat.lt_succ_of_lt (ih h)
  | case6 b probe tail run found answer probed left =>
    obtain ⟨-, -, rfl⟩ := Awaited.granted.inj h
    exact Nat.lt_succ_self _

/-- A wait that ends with quota has used up at least one probe. -/
theorem await_granted_length {pace : Pace} {probes rest : List Probe} {run run' : Run}
    {w : Window} (h : await pace probes run = .granted w run' rest) :
    rest.length < probes.length := awaitFrom_granted_length h

end Sweep
end Census
