import Census.Proofs.Ledger.History
import Census.Sweep.Phase
import Mathlib.Logic.Relation

/-!
# Sweeps as chains of steps

A sweep is a chain of steps, each of which shows: a wait that brings no quota, the pruning of the
pending terms, or a batch that goes out right after a probe and comes back. `Step` says what a step
of either kind of sweep does to the ledger and to the events, and `phase_steps` that a sweep does
nothing else. What the clock and the notes do is left out.

`Move` says the same without naming the kind of sweep, with what is known of the batch of a sound
ledger. What every move keeps is kept by any number of sweeps (`sweeps_induction`), however they
end.
-/

namespace Census
namespace Sweep

open Quota Log Ledger Relation

/-! ## Waiting -/

/-- Part of a wait for quota. The ledger stays as it is, and a probe fails or finds nothing left. -/
inductive Wait : Run → Run → Prop
  | idle {run run' : Run} (ledger : run'.ledger = run.ledger) (events : run'.events = run.events) :
      Wait run run'
  | failed (run : Run) : Wait run (run.probe none)
  | exhausted (run : Run) : Wait run (run.probe (some 0))

theorem Wait.ledger_eq {run run' : Run} (h : Wait run run') : run'.ledger = run.ledger := by
  cases h with
  | idle ledger _ => exact ledger
  | failed => rfl
  | exhausted => rfl

theorem ledger_eq_of_waits {run run' : Run} (h : ReflTransGen Wait run run') :
    run'.ledger = run.ledger := by
  induction h with
  | refl => rfl
  | tail _ last ih => exact last.ledger_eq.trans ih

namespace Awaited

def run : Awaited → Run
  | granted _ run _ => run
  | gaveUp _ run _ => run
  | overflowed _ run _ => run
  | unprobed run => run

def rest : Awaited → List Probe
  | granted _ _ rest => rest
  | gaveUp _ _ rest => rest
  | overflowed _ _ rest => rest
  | unprobed _ => []

/-- How a sweep ends with a wait that brought no quota. -/
def ending? : Awaited → Option Ending
  | granted _ _ _ => none
  | gaveUp f _ _ => some (.stopped f)
  | overflowed _ _ _ => some .overflowed
  | unprobed _ => some .unprobed

theorem ending?_ne_complete (a : Awaited) : a.ending? ≠ some .complete := by
  cases a <;> exact fun h => nomatch h

/-- The wait that began at `run` can have ended like this. Quota is granted by a probe that comes
last. -/
def Follows (run : Run) : Awaited → Prop
  | granted w run' _ => ∃ waited, ReflTransGen Wait run waited
      ∧ run' = waited.probe (some w.remaining) ∧ 0 < w.remaining
  | gaveUp _ run' _ => ReflTransGen Wait run run'
  | overflowed _ run' _ => ReflTransGen Wait run run'
  | unprobed run' => ReflTransGen Wait run run'

theorem Follows.head {a : Awaited} {run run' : Run} (h : ReflTransGen Wait run run')
    (follows : a.Follows run') : a.Follows run := by
  cases a with
  | granted w run'' rest =>
    obtain ⟨waited, more, last, room⟩ := follows
    exact ⟨waited, h.trans more, last, room⟩
  | gaveUp f run'' rest => exact ReflTransGen.trans h follows
  | overflowed w run'' rest => exact ReflTransGen.trans h follows
  | unprobed run'' => exact ReflTransGen.trans h follows

theorem Follows.waits {a : Awaited} {run : Run} {ending : Ending} (follows : a.Follows run)
    (h : a.ending? = some ending) : ReflTransGen Wait run a.run := by
  cases a with
  | granted w run' rest => cases h
  | gaveUp f run' rest => exact follows
  | overflowed w run' rest => exact follows
  | unprobed run' => exact follows

end Awaited

theorem awaitFrom_follows (pace : Pace) (backoff : Backoff) (probes : List Probe) (run : Run) :
    (awaitFrom pace backoff probes run).Follows run := by
  have failed (run : Run) (f : ProbeFault) :
      ReflTransGen Wait run ((run.probe none).say [noteProbeFault f]) :=
    (ReflTransGen.single (Wait.failed run)).tail (Wait.idle rfl rfl)
  have found {run : Run} {w : Window} (exhausted : w.isExhausted = true) :
      ReflTransGen Wait run (run.probe (some w.remaining)) := by
    have none_left : w.remaining = 0 := by simpa [Window.isExhausted] using exhausted
    rw [none_left]
    exact ReflTransGen.single (Wait.exhausted run)
  fun_induction awaitFrom pace backoff probes run with
  | case1 backoff run => exact ReflTransGen.refl
  | case2 backoff probe rest run f answer missed last => exact failed run f
  | case3 backoff probe rest run f answer missed delay later next ih =>
    refine Awaited.Follows.head ?_ ih
    exact (failed run f).tail (Wait.idle rfl rfl)
  | case4 backoff probe rest run w answer probed exhausted overflow => exact found exhausted
  | case5 backoff probe rest run w answer probed exhausted sleep slept ih =>
    refine Awaited.Follows.head ?_ ih
    exact (found exhausted).tail (Wait.idle rfl rfl)
  | case6 backoff probe rest run w answer probed left =>
    refine ⟨run, ReflTransGen.refl, rfl, Nat.pos_of_ne_zero fun h => left ?_⟩
    simp [Window.isExhausted, h]

/-! ## Steps of a sweep -/

/-- `batch` went out from `run`, which left `rest` of the ledger, and `run'` has its results. -/
structure Sent (pace : Pace) (service : Service) (run : Run) (batch : List Term) (rest : Ledger)
    (run' : Run) : Prop where
  ledger : run'.ledger
    = rest.merge (service.arrival rest.attempts (service.results pace.deadline run.asked batch))
  events : run'.events = .fetched batch run.elapsed :: run.events

/-- A step of a sweep. Before the primary sweep waits for quota it has pruned the pending terms and
found some; before the retry sweep does, it has found a failed term and a pass to spend. -/
inductive Step (pace : Pace) (service : Service) : Kind → Run → Run → Prop
  | wait {kind : Kind} {run run' : Run} (h : Wait run run') : Step pace service kind run run'
  | prune (run : Run) : Step pace service .primary run { run with ledger := run.ledger.prune }
  | primary {run run' : Run} (n : Nat) (room : 0 < n) (waits : run.ledger.pending ≠ [])
      (pruned : ∀ t ∈ run.ledger.pending, t ∉ run.ledger.counted)
      (sent : Sent pace service (run.probe (some n)) (run.ledger.nextBatch n).1
        (run.ledger.nextBatch n).2 run') :
      Step pace service .primary run run'
  | retry {run run' : Run} (n : Nat) (room : 0 < n) (passes : 0 < run.ledger.retriesLeft)
      (fails : run.ledger.failed.isEmpty = false)
      (sent : Sent pace service (run.probe (some n)) (run.ledger.spendRetry.takeRetry n).1
        (run.ledger.spendRetry.takeRetry n).2 run') :
      Step pace service .retry run run'

variable {pace : Pace} {service : Service}

theorem steps_of_waits {kind : Kind} {run run' : Run} (h : ReflTransGen Wait run run') :
    ReflTransGen (Step pace service kind) run run' :=
  h.lift id fun _ _ => Step.wait

theorem primaryPass_sent {w : Window} {run : Run}
    (some_taken : (run.ledger.nextBatch w.batchLimit).1 ≠ []) :
    Sent pace service run (run.ledger.nextBatch w.batchLimit).1
      (run.ledger.nextBatch w.batchLimit).2 (primaryPass pace service w run) := by
  simp only [primaryPass, if_neg some_taken]
  exact ⟨rfl, rfl⟩

theorem retryPass_sent {w : Window} {run : Run} :
    Sent pace service run (run.ledger.spendRetry.takeRetry w.batchLimit).1
      (run.ledger.spendRetry.takeRetry w.batchLimit).2 (retryPass pace service w run) :=
  ⟨rfl, rfl⟩

/-- What a wait for quota comes to, once it is known how it ended. -/
theorem follows_of_await {probes : List Probe} {run : Run} {a : Awaited}
    (h : await pace probes run = a) : a.Follows run := by
  rw [← h]
  exact awaitFrom_follows pace pace.backoff probes run

/-- The pass of the primary sweep after a wait. Since the pending terms were pruned before it, some
term is taken. -/
theorem primary_step {run waited : Run} {w : Window} (waits : run.ledger.prune.pending ≠ [])
    (same : waited.ledger = run.ledger.prune) (room : 0 < w.remaining) :
    Step pace service .primary waited
      (primaryPass pace service w (waited.probe (some w.remaining))) := by
  have pruned : ∀ t ∈ waited.ledger.pending, t ∉ waited.ledger.counted := by
    intro t ht
    rw [same] at ht ⊢
    exact (mem_prune_pending.mp ht).2
  have pending : waited.ledger.pending ≠ [] := by rwa [same]
  have some_taken : (waited.ledger.nextBatch w.remaining).1 ≠ [] :=
    nextBatch_ne_nil pending pruned room
  exact Step.primary w.remaining room pending pruned (primaryPass_sent some_taken)

theorem primary_steps (probes : List Probe) (run : Run) :
    ReflTransGen (Step pace service .primary) run (primary pace service probes run).run := by
  fun_induction primary pace service probes run with
  | case1 probes run pruned done =>
    exact (ReflTransGen.single (Step.prune run)).tail (Step.wait (Wait.idle rfl rfl))
  | case2 probes run pruned waits w granted rest awaited ih =>
    -- Prune, wait, pass, and then the steps of the sweep that goes on from there.
    obtain ⟨waited, waiting, rfl, room⟩ := follows_of_await awaited
    have first : ReflTransGen (Step pace service .primary) run waited :=
      ReflTransGen.head (Step.prune run) (steps_of_waits waiting)
    exact (first.tail (primary_step waits (ledger_eq_of_waits waiting) room)).trans ih
  | case3 probes run pruned waits f stopped rest awaited =>
    exact ReflTransGen.head (Step.prune run) (steps_of_waits (follows_of_await awaited))
  | case4 probes run pruned waits w stopped rest awaited =>
    exact ReflTransGen.head (Step.prune run) (steps_of_waits (follows_of_await awaited))
  | case5 probes run pruned waits stopped awaited =>
    exact ReflTransGen.head (Step.prune run) (steps_of_waits (follows_of_await awaited))

theorem retry_steps (probes : List Probe) (run : Run) :
    ReflTransGen (Step pace service .retry) run (retry pace service probes run).run := by
  fun_induction retry pace service probes run with
  | case1 probes run done => exact ReflTransGen.single (Step.wait (Wait.idle rfl rfl))
  | case2 probes run more w granted rest awaited ih =>
    -- Whether a pass is made was decided before the wait, which leaves the ledger as it was.
    obtain ⟨waited, waiting, rfl, room⟩ := follows_of_await awaited
    have same := ledger_eq_of_waits waiting
    obtain ⟨passes, fails⟩ := not_or.mp more
    rw [← same] at passes fails
    have pass : Step pace service .retry waited
        (retryPass pace service w (waited.probe (some w.remaining))) :=
      Step.retry w.remaining room (Nat.pos_of_ne_zero passes) (by simpa using fails) retryPass_sent
    exact ((steps_of_waits waiting).tail pass).trans ih
  | case3 probes run more f stopped rest awaited =>
    exact steps_of_waits (follows_of_await awaited)
  | case4 probes run more w stopped rest awaited =>
    exact steps_of_waits (follows_of_await awaited)
  | case5 probes run more stopped awaited => exact steps_of_waits (follows_of_await awaited)

/-- A sweep does nothing but the steps of its kind, whatever the probes and the service. -/
theorem phase_steps (pace : Pace) (service : Service) (kind : Kind) (probes : List Probe)
    (run : Run) :
    ReflTransGen (Step pace service kind) run (phase kind pace service probes run).run := by
  cases kind with
  | primary => exact primary_steps probes run
  | retry => exact retry_steps probes run

/-! ## Moves

From here on it is known that each term stands soundly, which every operation on a ledger keeps. -/

/-- A step of a sweep of either kind, with what is known of the batch. -/
inductive Move (pace : Pace) (service : Service) : Run → Run → Prop
  | wait {run run' : Run} (h : Wait run run') : Move pace service run run'
  | prune (run : Run) : Move pace service run { run with ledger := run.ledger.prune }
  | pass {run run' : Run} {batch : List Term} {rest : Ledger} (n : Nat) (room : 0 < n)
      (taken : Taken run.ledger n batch rest)
      (sent : Sent pace service (run.probe (some n)) batch rest run') :
      Move pace service run run'

theorem Step.move {kind : Kind} {run run' : Run} (h : Step pace service kind run run')
    (sound : run.ledger.Sound) : Move pace service run run' := by
  cases h with
  | wait h => exact Move.wait h
  | prune => exact Move.prune run
  | primary n room waits pruned sent =>
    exact Move.pass n room (taken_nextBatch sound waits pruned room) sent
  | retry n room passes fails sent => exact Move.pass n room (taken_takeRetry sound fails room) sent

theorem Move.sound {run run' : Run} (h : Move pace service run run')
    (sound : run.ledger.Sound) : run'.ledger.Sound := by
  cases h with
  | wait h => rwa [h.ledger_eq]
  | prune => exact sound
  | pass n room taken sent =>
    rw [sent.ledger]
    exact sound_merge taken.sound _

/-- What every move from a sound ledger keeps, a sweep keeps, and it ends with a sound ledger. -/
theorem phase_induction {P : Run → Prop}
    (move : ∀ {run run' : Run}, run.ledger.Sound → Move pace service run run' →
      P run → P run')
    (kind : Kind) (probes : List Probe) {run : Run} (sound : run.ledger.Sound)
    (h : P run) :
    (phase kind pace service probes run).run.ledger.Sound
      ∧ P (phase kind pace service probes run).run := by
  have steps := phase_steps pace service kind probes run
  generalize (phase kind pace service probes run).run = run' at steps ⊢
  induction steps with
  | refl => exact ⟨sound, h⟩
  | tail _ last ih =>
    have next := last.move ih.1
    exact ⟨next.sound ih.1, move ih.1 next ih.2⟩

theorem sound_phase (kind : Kind) (probes : List Probe) {run : Run} (sound : run.ledger.Sound) :
    (phase kind pace service probes run).run.ledger.Sound :=
  (phase_induction (P := fun _ => True) (fun _ _ _ => trivial) kind probes sound trivial).1

/-! ## What a pass does to one term -/

@[simp] theorem asked_probe (run : Run) (remaining : Option Nat) (t : Term) :
    (run.probe remaining).asked t = run.asked t := by
  show 0 + run.asked t = run.asked t
  rw [Nat.zero_add]

/-- In a batch without repeats the outcome of a term is its own next one. -/
theorem mem_results (service : Service) (deadline : Span) (asked : Term → Nat) {batch : List Term}
    (distinct : batch.Nodup) {t : Term} (h : t ∈ batch) :
    (t, (service.reply t (asked t)).outcomeBy deadline) ∈ service.results deadline asked batch := by
  induction batch generalizing asked with
  | nil => cases h
  | cons u batch ih =>
    obtain ⟨fresh, distinct⟩ := List.nodup_cons.mp distinct
    rw [Service.results, Service.replies, List.map_cons]
    rcases List.mem_cons.mp h with rfl | h
    · exact List.mem_cons_self
    · -- The search for `u` that goes out first does not count for `t`.
      have other : t ≠ u := fun same => fresh (same ▸ h)
      have later := ih (fun v => if v = u then asked v + 1 else asked v) distinct h
      rw [if_neg other] at later
      exact List.mem_cons_of_mem _ later

section Pass

variable {run run' : Run} {n : Nat} {batch : List Term} {rest : Ledger} {t : Term}

theorem Sent.back (sent : Sent pace service run batch rest run') :
    ∃ results, run'.ledger = rest.merge results ∧ (results.map Prod.fst).Perm batch
      ∧ ∀ o, (t, o) ∈ service.results pace.deadline run.asked batch → (t, o) ∈ results := by
  have perm := service.arrival_perm rest.attempts (service.results pace.deadline run.asked batch)
  refine ⟨_, sent.ledger, ?_, fun o ho => perm.mem_iff.mpr ho⟩
  have terms := perm.map Prod.fst
  rwa [Service.map_fst_results] at terms

/-- A term that went out stands by its own outcome alone. -/
theorem standing_of_mem_batch (taken : Taken run.ledger n batch rest)
    (sent : Sent pace service (run.probe (some n)) batch rest run') (h : t ∈ batch) :
    run'.ledger.standing t
      = .of ((service.reply t (run.asked t)).outcomeBy pace.deadline) := by
  obtain ⟨results, ledger, back, own⟩ := sent.back (t := t)
  have result := own _ (mem_results service pace.deadline _ taken.nodup h)
  rw [asked_probe] at result
  rw [ledger]
  exact taken.standing_merge_of_mem back result

/-- Every other term stands as before. -/
theorem standing_of_not_mem_batch (taken : Taken run.ledger n batch rest)
    (sent : Sent pace service (run.probe (some n)) batch rest run') (h : t ∉ batch) :
    run'.ledger.standing t = run.ledger.standing t := by
  obtain ⟨results, ledger, back, -⟩ := sent.back (t := t)
  rw [ledger]
  exact taken.standing_merge_of_not_mem back h

theorem Sent.pending_eq (sent : Sent pace service run batch rest run') :
    run'.ledger.pending = rest.pending := by
  rw [sent.ledger, merge_pending]

theorem Sent.worklist_eq (sent : Sent pace service run batch rest run') :
    run'.ledger.worklist = rest.worklist := by
  rw [sent.ledger, merge_worklist]

end Pass

/-! ## Sweeps one after the other -/

/-- A sweep to be made, and the probes that it may use. -/
structure Stage where
  kind : Kind
  probes : List Probe

/-- The run after sweeps that are made one after the other, whether the one before was completed or
not. -/
def sweeps (pace : Pace) (service : Service) (stages : List Stage) (run : Run) : Run :=
  stages.foldl (fun run s => (phase s.kind pace service s.probes run).run) run

theorem sweeps_append (a b : List Stage) (run : Run) :
    sweeps pace service (a ++ b) run = sweeps pace service b (sweeps pace service a run) :=
  List.foldl_append

/-- What every move from a sound ledger keeps, sweeps keep. -/
theorem sweeps_induction {P : Run → Prop}
    (move : ∀ {run run' : Run}, run.ledger.Sound → Move pace service run run' →
      P run → P run')
    (stages : List Stage) {run : Run} (sound : run.ledger.Sound) (h : P run) :
    (sweeps pace service stages run).ledger.Sound
      ∧ P (sweeps pace service stages run) := by
  induction stages generalizing run with
  | nil => exact ⟨sound, h⟩
  | cons s stages ih =>
    obtain ⟨still, first⟩ := phase_induction move s.kind s.probes sound h
    exact ih still first

section Census

variable {terms : List Term} {retries : Nat} {began : Instant}

/-- What holds of a new census and is kept by every move from a sound ledger holds after any
sweeps. -/
theorem swept_induction {P : Run → Prop}
    (move : ∀ {run run' : Run}, run.ledger.Sound → Move pace service run run' → P run → P run')
    (stages : List Stage) (h : P (.start (.start terms retries) began)) :
    P (sweeps pace service stages (.start (.start terms retries) began)) :=
  (sweeps_induction move stages (sound_start terms retries) h).2

theorem sound_swept (stages : List Stage) :
    (sweeps pace service stages (.start (.start terms retries) began)).ledger.Sound :=
  (sweeps_induction (P := fun _ => True) (fun _ _ _ => trivial) stages (sound_start terms retries)
    trivial).1

end Census

end Sweep
end Census
