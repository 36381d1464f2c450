import Census.Proofs.Sweep.Passes

/-!
# A sweep probe by probe

A sweep that has no probe left stops where it is, and with one probe more it goes on from there. So
the moments of a sweep are the runs that the first probes of its script bring it to (`moment`), and
the trace of the whole is put together of what each probe adds (`Advance`): nothing when the sweep
was over, the probe alone when it brings no quota, and otherwise the probe and one batch.
-/

namespace Census
namespace Sweep

open Quota Log Ledger

variable {pace : Pace} {service : Service} {kind : Kind}

/-! ## Waits -/

/-- What a wait comes to when `more` probes are put behind its own. It begins anew only when its own
probes did not last. -/
def Awaited.Prolongs (pace : Pace) (more : List Probe) (longer : Awaited) : Awaited → Prop
  | granted w run rest => longer = granted w run (rest ++ more)
  | gaveUp f run rest => longer = gaveUp f run (rest ++ more)
  | overflowed w run rest => longer = overflowed w run (rest ++ more)
  | unprobed run => ∃ backoff, longer = awaitFrom pace backoff more run

theorem awaitFrom_append (pace : Pace) (backoff : Backoff) (probes more : List Probe) (run : Run) :
    (awaitFrom pace backoff (probes ++ more) run).Prolongs pace more
      (awaitFrom pace backoff probes run) := by
  fun_induction awaitFrom pace backoff probes run with
  | case1 backoff run => exact ⟨backoff, rfl⟩
  | case2 backoff probe rest run f answer missed last =>
    exact awaitFrom_of_last_failure answer last
  | case3 backoff probe rest run f answer missed delay later next ih =>
    rw [List.cons_append, awaitFrom_of_failure answer next]
    exact ih
  | case4 backoff probe rest run w answer probed exhausted overflow =>
    exact awaitFrom_of_overflow answer exhausted overflow
  | case5 backoff probe rest run w answer probed exhausted sleep slept ih =>
    rw [List.cons_append, awaitFrom_of_slept answer exhausted slept]
    exact ih
  | case6 backoff probe rest run w answer probed left =>
    exact awaitFrom_of_left answer (eq_false_of_ne_true left)

theorem prolongs_of_await {probes : List Probe} (more : List Probe) {run : Run} {a : Awaited}
    (h : await pace probes run = a) : (await pace (probes ++ more) run).Prolongs pace more a := by
  rw [← h]
  exact awaitFrom_append pace pace.backoff probes more run

/-! ## What one probe adds -/

/-- What one probe more can add to a trace. A batch that goes out fits the quota that was found. -/
inductive Advance (fits : Nat → List Term → Prop) : List Event → Prop
  | nothing : Advance fits []
  | failed (time : Span) : Advance fits [.probed none time]
  | exhausted (time : Span) : Advance fits [.probed (some 0) time]
  | pass {n : Nat} {batch : List Term} (asked sent : Span) (h : fits n batch) :
      Advance fits [.probed (some n) asked, .fetched batch sent]

theorem Advance.imp {fits fits' : Nat → List Term → Prop} {more : List Event}
    (h : Advance fits more) (imp : ∀ n batch, fits n batch → fits' n batch) :
    Advance fits' more := by
  cases h with
  | nothing => exact Advance.nothing
  | failed time => exact Advance.failed time
  | exhausted time => exact Advance.exhausted time
  | pass asked sent h => exact Advance.pass asked sent (imp _ _ h)

/-- Something was left, and the batch is what a sweep takes out of the ledger under that quota. -/
def Takes (kind : Kind) (l : Ledger) (n : Nat) (batch : List Term) : Prop :=
  0 < n ∧ batch = (l.takeOut kind n).1

theorem trace_probe (run : Run) (remaining : Option Nat) :
    trace (run.probe remaining) = trace run ++ [.probed remaining run.elapsed] := by
  rw [trace, Run.events_probe, List.reverse_cons, trace]

theorem trace_phase_nil (run : Run) : trace (phase kind pace service [] run).run = trace run := by
  rcases Classical.em (run.ledger.Idle kind) with finished | busy
  · rw [phase_of_idle [] finished]
    rfl
  · rw [phase_of_busy [] busy]
    rfl

/-- A sweep that has stopped in a wait for want of probes, at one probe more. -/
theorem advance_of_unprobed {probes : List Probe} {run stopped : Run}
    (busy : ¬ run.ledger.Idle kind)
    (awaited : await pace probes (ready kind run) = .unprobed stopped) (probe : Probe) :
    ∃ more, Advance (Takes kind stopped.ledger) more
      ∧ trace (phase kind pace service (probes ++ [probe]) run).run = trace stopped ++ more := by
  obtain ⟨backoff, longer⟩ := prolongs_of_await [probe] awaited
  have same : stopped.ledger = run.ledger.readied kind :=
    ledger_eq_of_waits (follows_of_await awaited)
  rw [phase_of_busy _ busy, longer]
  cases answer : probe stopped.now with
  | error f =>
    have missed := trace_probe stopped none
    cases next : backoff.next? with
    | none =>
      rw [awaitFrom_of_last_failure answer next]
      exact ⟨_, Advance.failed stopped.elapsed, missed⟩
    | some _ =>
      rw [awaitFrom_of_failure answer next]
      exact ⟨_, Advance.failed stopped.elapsed, missed⟩
  | ok w =>
    have found := trace_probe stopped (some w.remaining)
    by_cases exhausted : w.isExhausted = true
    · have none_left : w.remaining = 0 := by simpa [Window.isExhausted] using exhausted
      rw [none_left] at found
      cases slept : pace.patience.sleep? w.resetsAt stopped.now with
      | none =>
        rw [awaitFrom_of_overflow answer exhausted slept, none_left]
        exact ⟨_, Advance.exhausted stopped.elapsed, found⟩
      | some _ =>
        rw [awaitFrom_of_slept answer exhausted slept, none_left]
        exact ⟨_, Advance.exhausted stopped.elapsed, found⟩
    · have some_left : awaitFrom pace backoff [probe] stopped
          = .granted w (stopped.probe (some w.remaining)) [] :=
        awaitFrom_of_left answer (eq_false_of_ne_true exhausted)
      have granted : await pace (probes ++ [probe]) (ready kind run)
          = .granted w (stopped.probe (some w.remaining)) [] := longer.trans some_left
      rw [some_left]
      obtain ⟨room, -, sent⟩ := sent_of_granted service busy granted
      have batch : (run.ledger.takeOut kind w.remaining).1
          = (stopped.ledger.takeOut kind w.remaining).1 := by rw [same, takeOut_readied]
      refine ⟨_, Advance.pass stopped.elapsed stopped.elapsed ⟨room, batch⟩, ?_⟩
      show trace (phase kind pace service [] _).run = _
      rw [trace_phase_nil, trace, sent.events, List.reverse_cons, ← trace, found,
        List.append_assoc]
      rfl

/-- With one probe more a sweep does what it did without it, and then at most one thing more. -/
theorem advance_phase (kind : Kind) (pace : Pace) (service : Service) (probes : List Probe)
    (run : Run) (probe : Probe) :
    ∃ more, Advance (Takes kind (phase kind pace service probes run).run.ledger) more
      ∧ trace (phase kind pace service (probes ++ [probe]) run).run
        = trace (phase kind pace service probes run).run ++ more := by
  induction probes, run using phase_rule kind pace service with
  | idle probes run finished =>
    rw [phase_of_idle _ finished]
    exact ⟨[], Advance.nothing, (List.append_nil _).symm⟩
  | granted probes run w waited rest busy awaited ih =>
    have longer : await pace (probes ++ [probe]) (ready kind run) = _ :=
      prolongs_of_await [probe] awaited
    rw [phase_of_busy _ busy, longer]
    exact ih
  | stopped probes run a ending busy awaited stop =>
    have prolongs := prolongs_of_await [probe] awaited
    cases a with
    | granted w waited rest => cases stop
    | gaveUp f left rest =>
      have longer : await pace (probes ++ [probe]) (ready kind run) = _ := prolongs
      rw [phase_of_busy _ busy, longer]
      exact ⟨[], Advance.nothing, (List.append_nil _).symm⟩
    | overflowed w left rest =>
      have longer : await pace (probes ++ [probe]) (ready kind run) = _ := prolongs
      rw [phase_of_busy _ busy, longer]
      exact ⟨[], Advance.nothing, (List.append_nil _).symm⟩
    | unprobed left => exact advance_of_unprobed busy awaited probe

/-! ## The moments of a sweep -/

/-- The run as far as the first `k` probes bring a sweep. -/
def moment (kind : Kind) (pace : Pace) (service : Service) (probes : List Probe) (run : Run)
    (k : Nat) : Run :=
  (phase kind pace service (probes.take k) run).run

theorem moment_length (probes : List Probe) (run : Run) :
    moment kind pace service probes run probes.length
      = (phase kind pace service probes run).run := by
  rw [moment, List.take_length]

theorem advance_moment (probes : List Probe) (run : Run) (k : Nat) :
    ∃ more, Advance (Takes kind (moment kind pace service probes run k).ledger) more
      ∧ trace (moment kind pace service probes run (k + 1))
        = trace (moment kind pace service probes run k) ++ more := by
  rcases Nat.lt_or_ge k probes.length with some_left | none_left
  · rw [moment, moment, List.take_succ_eq_append_getElem some_left]
    exact advance_phase kind pace service _ run _
  · rw [moment, moment, List.take_of_length_le none_left,
      List.take_of_length_le (Nat.le_succ_of_le none_left)]
    exact ⟨[], Advance.nothing, (List.append_nil _).symm⟩

end Sweep
end Census
