import Census.Proofs.Sweep.Answers
import Census.Proofs.Sweep.Trace

/-!
# Sweeps as whole passes

A pass takes a batch out of the ledger, sends it out, and enters what comes back. A sweep of either
kind is a row of passes, each after a wait for quota, until nothing is left to do or a wait fails.
What the kinds differ in is how the ledger is made ready for a wait (`readied`), when nothing is
left to do (`Idle`), and which batch is taken (`takeOut`).

`phase_of_idle` and `phase_of_busy` say what a sweep does next in these words, and `phase_rule` is
the induction that goes with them. `Passes` is what a sweep does to the ledger: between two passes
nothing happens to it, and no pass is ever left half done (`phase_passes`).
-/

namespace Census

namespace Ledger

open Sweep (Kind)

/-- The ledger while a sweep waits for quota. -/
def readied : Kind → Ledger → Ledger
  | .primary, l => l.prune
  | .retry, l => l

/-- Whether there is nothing left for a sweep to do. -/
def Idle : Kind → Ledger → Prop
  | .primary, l => l.prune.pending = []
  | .retry, l => l.retriesLeft = 0 ∨ l.failed.isEmpty

/-- The batch that a sweep takes under a limit, and the ledger without it. -/
def takeOut : Kind → Nat → Ledger → List Term × Ledger
  | .primary, limit, l => l.prune.nextBatch limit
  | .retry, limit, l => l.spendRetry.takeRetry limit

theorem prune_prune (l : Ledger) : l.prune.prune = l.prune := by
  show ({ l with pending := l.prune.prune.pending } : Ledger) = l.prune
  rw [pending_prune, counted_prune, pending_prune, List.filter_filter]
  simp only [Bool.and_self]
  rfl

variable {kind : Kind} {l : Ledger}

@[simp] theorem readied_readied (kind : Kind) (l : Ledger) :
    (l.readied kind).readied kind = l.readied kind := by
  cases kind with
  | primary => exact prune_prune l
  | retry => rfl

theorem idle_readied : (l.readied kind).Idle kind ↔ l.Idle kind := by
  cases kind with
  | primary => rw [Idle, readied, prune_prune, Idle]
  | retry => exact Iff.rfl

theorem takeOut_readied (limit : Nat) :
    (l.readied kind).takeOut kind limit = l.takeOut kind limit := by
  cases kind with
  | primary => rw [takeOut, readied, prune_prune, takeOut]
  | retry => rfl

theorem standing_readied (t : Term) : (l.readied kind).standing t = l.standing t := by
  cases kind <;> rfl

/-! Making ready and taking out touch nothing that has been entered, but that a batch of failed terms
is no longer failed. -/

@[simp] theorem counted_readied (kind : Kind) (l : Ledger) :
    (l.readied kind).counted = l.counted := by cases kind <;> rfl

@[simp] theorem tally_readied (kind : Kind) (l : Ledger) : (l.readied kind).tally = l.tally := by
  cases kind <;> rfl

@[simp] theorem attempts_readied (kind : Kind) (l : Ledger) :
    (l.readied kind).attempts = l.attempts := by cases kind <;> rfl

@[simp] theorem retriesLeft_readied (kind : Kind) (l : Ledger) :
    (l.readied kind).retriesLeft = l.retriesLeft := by cases kind <;> rfl

@[simp] theorem counted_takeOut (kind : Kind) (limit : Nat) (l : Ledger) :
    (l.takeOut kind limit).2.counted = l.counted := by cases kind <;> rfl

@[simp] theorem tally_takeOut (kind : Kind) (limit : Nat) (l : Ledger) :
    (l.takeOut kind limit).2.tally = l.tally := by cases kind <;> rfl

@[simp] theorem attempts_takeOut (kind : Kind) (limit : Nat) (l : Ledger) :
    (l.takeOut kind limit).2.attempts = l.attempts := by cases kind <;> rfl

theorem nodup_takeOut (limit : Nat) : (l.takeOut kind limit).1.Nodup := by
  cases kind with
  | primary =>
    rw [takeOut, nextBatch_fst]
    exact l.prune.nodup_waiting.sublist (List.take_sublist _ _)
  | retry =>
    rw [takeOut, takeRetry_fst]
    exact l.spendRetry.nodup_rotation.sublist (List.take_sublist _ _)

/-- While something is left to do, any quota gives a batch. -/
theorem takeOut_ne_nil {limit : Nat} (room : 0 < limit) (busy : ¬ l.Idle kind) :
    (l.takeOut kind limit).1 ≠ [] := by
  cases kind with
  | primary =>
    have pruned : ∀ t ∈ l.prune.pending, t ∉ l.prune.counted :=
      fun t ht => (mem_prune_pending.mp ht).2
    exact nextBatch_ne_nil busy pruned room
  | retry =>
    obtain ⟨-, fails⟩ := not_or.mp busy
    exact takeRetry_ne_nil (l := l.spendRetry) (eq_false_of_ne_true fails) room

/-- The batch of a sweep over a sound ledger. -/
theorem taken_takeOut {limit : Nat} (sound : l.Sound) (room : 0 < limit) (busy : ¬ l.Idle kind) :
    Taken (l.readied kind) limit (l.takeOut kind limit).1 (l.takeOut kind limit).2 := by
  cases kind with
  | primary =>
    have pruned : ∀ t ∈ l.prune.pending, t ∉ l.prune.counted :=
      fun t ht => (mem_prune_pending.mp ht).2
    exact taken_nextBatch sound busy pruned room
  | retry =>
    obtain ⟨-, fails⟩ := not_or.mp busy
    exact taken_takeRetry sound (eq_false_of_ne_true fails) room

end Ledger

namespace Sweep

open Quota Log Ledger Relation

/-! ## What has gone out, and what the probes found -/

namespace Event

def batch? : Event → Option (List Term)
  | probed _ _ => none
  | fetched batch _ => some batch

/-- What an answered probe found to be left. -/
def quota? : Event → Option Nat
  | probed remaining _ => remaining
  | fetched _ _ => none

end Event

/-- The batches of a run in the order in which they went out. -/
def batches (run : Run) : List (List Term) := (trace run).filterMap Event.batch?

/-- What the probes of a run found, in their order and without those that failed. -/
def quotas (run : Run) : List Nat := (trace run).filterMap Event.quota?

theorem batches_eq_of_events {run run' : Run} (h : run'.events = run.events) :
    batches run' = batches run := by
  rw [batches, trace, h, batches, trace]

theorem quotas_eq_of_events {run run' : Run} (h : run'.events = run.events) :
    quotas run' = quotas run := by
  rw [quotas, trace, h, quotas, trace]

@[simp] theorem batches_probe (run : Run) (remaining : Option Nat) :
    batches (run.probe remaining) = batches run := by
  simp [batches, trace, Event.batch?]

@[simp] theorem quotas_probe (run : Run) (remaining : Option Nat) :
    quotas (run.probe remaining) = quotas run ++ remaining.toList := by
  cases remaining <;> simp [quotas, trace, Event.quota?]

theorem batches_wait {run run' : Run} (h : Wait run run') : batches run' = batches run := by
  cases h with
  | idle _ events => exact batches_eq_of_events events
  | failed => exact batches_probe run none
  | exhausted => exact batches_probe run (some 0)

theorem batches_eq_of_waits {run run' : Run} (h : ReflTransGen Wait run run') :
    batches run' = batches run := by
  induction h with
  | refl => rfl
  | tail _ last ih => exact (batches_wait last).trans ih

theorem asked_eq_count (run : Run) (t : Term) : run.asked t = (batches run).flatten.count t := by
  rw [Run.asked, batches, trace]
  induction run.events with
  | nil => rfl
  | cons e events ih =>
    rw [List.foldr_cons, ih, List.reverse_cons, List.filterMap_append, List.flatten_append,
      List.count_append, Nat.add_comm]
    cases e with
    | probed remaining time => rfl
    | fetched batch time => simp [Event.searches, Event.batch?]

theorem asked_eq_of_batches {run run' : Run} (h : batches run' = batches run) :
    run'.asked = run.asked := by
  funext t
  rw [asked_eq_count, h, asked_eq_count]

theorem asked_of_batches {run run' : Run} {sent : List (List Term)}
    (went : batches run' = batches run ++ sent) (t : Term) :
    run'.asked t = run.asked t + sent.flatten.count t := by
  rw [asked_eq_count, went, List.flatten_append, List.count_append, ← asked_eq_count]

section Sent

variable {pace : Pace} {service : Service} {run run' : Run} {batch : List Term} {rest : Ledger}

theorem Sent.batches_eq (sent : Sent pace service run batch rest run') :
    batches run' = batches run ++ [batch] := by
  rw [batches, trace, sent.events]
  simp [batches, trace, Event.batch?]

theorem Sent.quotas_eq (sent : Sent pace service run batch rest run') :
    quotas run' = quotas run := by
  rw [quotas, trace, sent.events]
  simp [quotas, trace, Event.quota?]

end Sent

/-! ## What a sweep does next -/

/-- The run before a wait for quota. -/
def ready (kind : Kind) (run : Run) : Run := { run with ledger := run.ledger.readied kind }

def pass (kind : Kind) (pace : Pace) (service : Service) (w : Window) (run : Run) : Run :=
  match kind with
  | .primary => primaryPass pace service w run
  | .retry => retryPass pace service w run

def closing : Kind → Ledger → List Note
  | .primary, l => [notePrimaryDone l]
  | .retry, l => noteUnresolved l

@[simp] theorem ledger_ready (kind : Kind) (run : Run) :
    (ready kind run).ledger = run.ledger.readied kind := rfl

@[simp] theorem batches_ready (kind : Kind) (run : Run) : batches (ready kind run) = batches run :=
  rfl

@[simp] theorem quotas_ready (kind : Kind) (run : Run) : quotas (ready kind run) = quotas run := rfl

@[simp] theorem ready_ready (kind : Kind) (run : Run) :
    ready kind (ready kind run) = ready kind run := by
  simp only [ready, readied_readied]

variable {pace : Pace} {service : Service} {kind : Kind}

theorem phase_of_idle {run : Run} (probes : List Probe) (h : run.ledger.Idle kind) :
    phase kind pace service probes run
      = ⟨.complete, (ready kind run).say (closing kind (run.ledger.readied kind)), probes⟩ := by
  cases kind with
  | primary =>
    rw [phase, primary]
    exact if_pos h
  | retry =>
    rw [phase, retry]
    exact if_pos h

theorem phase_of_busy {run : Run} (probes : List Probe)
    (h : ¬ run.ledger.Idle kind) :
    phase kind pace service probes run
      = match await pace probes (ready kind run) with
        | .granted w run rest => phase kind pace service rest (pass kind pace service w run)
        | .gaveUp f run rest => ⟨.stopped f, run, rest⟩
        | .overflowed _ run rest => ⟨.overflowed, run, rest⟩
        | .unprobed run => ⟨.unprobed, run, []⟩ := by
  cases kind with
  | primary =>
    rw [phase, primary]
    refine (if_neg h).trans ?_
    split <;> next awaited => rw [ready, readied, awaited] <;> rfl
  | retry =>
    rw [phase, retry]
    refine (if_neg h).trans ?_
    split <;> next awaited => rw [ready, readied, awaited] <;> rfl

/-- A wait that brings no quota is the end of the sweep. -/
theorem phase_of_stopped (service : Service) {probes : List Probe} {run : Run} {a : Awaited}
    {ending : Ending} (busy : ¬ run.ledger.Idle kind)
    (awaited : await pace probes (ready kind run) = a) (stop : a.ending? = some ending) :
    phase kind pace service probes run = ⟨ending, a.run, a.rest⟩ := by
  rw [phase_of_busy probes busy, awaited]
  cases a <;> cases stop <;> rfl

/-- Follows a sweep from pass to pass, each time with what is known of the wait before it. -/
theorem phase_rule (kind : Kind) (pace : Pace) (service : Service)
    {motive : List Probe → Run → Phase → Prop}
    (idle : ∀ probes run, run.ledger.Idle kind → motive probes run
      ⟨.complete, (ready kind run).say (closing kind (run.ledger.readied kind)), probes⟩)
    (granted : ∀ probes run w waited rest, ¬ run.ledger.Idle kind →
      await pace probes (ready kind run) = .granted w waited rest →
      motive rest (pass kind pace service w waited)
        (phase kind pace service rest (pass kind pace service w waited)) →
      motive probes run (phase kind pace service rest (pass kind pace service w waited)))
    (stopped : ∀ probes run a ending, ¬ run.ledger.Idle kind →
      await pace probes (ready kind run) = a → a.ending? = some ending →
      motive probes run ⟨ending, a.run, a.rest⟩)
    (probes : List Probe) (run : Run) :
    motive probes run (phase kind pace service probes run) := by
  -- On the number of probes, of which every wait that brings quota uses up some.
  induction h : probes.length using Nat.strongRecOn generalizing probes run with
  | ind n ih =>
    rcases Classical.em (run.ledger.Idle kind) with finished | busy
    · rw [phase_of_idle probes finished]
      exact idle probes run finished
    · rw [phase_of_busy probes busy]
      cases awaited : await pace probes (ready kind run) with
      | granted w waited rest =>
        have fewer : rest.length < n := h ▸ await_granted_length awaited
        exact granted probes run w waited rest busy awaited (ih _ fewer rest _ rfl)
      | gaveUp f left rest => exact stopped probes run _ (.stopped f) busy awaited rfl
      | overflowed w left rest => exact stopped probes run _ .overflowed busy awaited rfl
      | unprobed left => exact stopped probes run _ .unprobed busy awaited rfl

theorem idle_of_complete (probes : List Probe) (run : Run)
    (h : (phase kind pace service probes run).ending = .complete) :
    (phase kind pace service probes run).run.ledger.Idle kind := by
  induction probes, run using phase_rule kind pace service with
  | idle probes run finished => exact idle_readied.mpr finished
  | granted probes run w waited rest busy awaited ih => exact ih h
  | stopped probes run a ending busy awaited stop => exact absurd (h ▸ stop) a.ending?_ne_complete

/-! ## The passes of a sweep -/

/-- A sweep has made the ledger into `last` by whole passes: the batches `sent` went out, each as
soon as the one before it was back, and all that came back has been entered. `asked` tells how often
a term was searched for before. -/
inductive Passes (kind : Kind) (service : Service) (deadline : Span) :
    (Term → Nat) → Ledger → List (List Term) → Ledger → Prop
  | none (asked : Term → Nat) (l : Ledger) : Passes kind service deadline asked l [] l
  | pass {asked : Term → Nat} {l last : Ledger} {sent : List (List Term)} {results : Results}
      (limit : Nat) (room : 0 < limit) (busy : ¬ l.Idle kind)
      (back : results.Perm (service.results deadline asked (l.takeOut kind limit).1))
      (more : Passes kind service deadline (fun t => asked t + (l.takeOut kind limit).1.count t)
        ((l.takeOut kind limit).2.merge results) sent last) :
      Passes kind service deadline asked l ((l.takeOut kind limit).1 :: sent) last

section Back

variable {asked : Term → Nat} {l rest : Ledger} {limit : Nat} {batch : List Term}
  {results : Results} {deadline : Span} {t : Term}

theorem map_fst_perm (back : results.Perm (service.results deadline asked batch)) :
    (results.map Prod.fst).Perm batch := by
  have terms := back.map Prod.fst
  rwa [Service.map_fst_results] at terms

/-- A term of a batch stands, once the batch is back, by what came of its own search. -/
theorem standing_back_of_mem (taken : Taken l limit batch rest)
    (back : results.Perm (service.results deadline asked batch)) (h : t ∈ batch) :
    (rest.merge results).standing t = .of ((service.reply t (asked t)).outcomeBy deadline) := by
  have own := mem_results service deadline asked taken.nodup h
  exact taken.standing_merge_of_mem (map_fst_perm back) (back.mem_iff.mpr own)

theorem standing_back_of_not_mem (taken : Taken l limit batch rest)
    (back : results.Perm (service.results deadline asked batch)) (h : t ∉ batch) :
    (rest.merge results).standing t = l.standing t :=
  taken.standing_merge_of_not_mem (map_fst_perm back) h

end Back

/-- What a wait that brought quota and the pass after it do. -/
theorem sent_of_granted (service : Service) {probes rest : List Probe} {run waited : Run}
    {w : Window}
    (busy : ¬ run.ledger.Idle kind)
    (awaited : await pace probes (ready kind run) = .granted w waited rest) :
    0 < w.remaining ∧ batches waited = batches run
      ∧ Sent pace service waited (run.ledger.takeOut kind w.remaining).1
        (run.ledger.takeOut kind w.remaining).2
        (pass kind pace service w waited) := by
  obtain ⟨before, waiting, rfl, room⟩ := follows_of_await awaited
  have same : (before.probe (some w.remaining)).ledger = run.ledger.readied kind :=
    ledger_eq_of_waits waiting
  have some_taken := takeOut_ne_nil room busy
  refine ⟨room, by rw [batches_probe, batches_eq_of_waits waiting, batches_ready], ?_⟩
  cases kind with
  | primary =>
    rw [takeOut, ← readied, ← same] at some_taken ⊢
    exact primaryPass_sent some_taken
  | retry =>
    rw [readied] at same
    rw [takeOut, ← same]
    exact retryPass_sent

/-- The pass after a wait in terms of the run before the wait, which has sent nothing out: its
searches are numbered from there on, and all their results have been entered. -/
theorem entered_of_granted (service : Service) {probes rest : List Probe} {run waited : Run}
    {w : Window} (busy : ¬ run.ledger.Idle kind)
    (awaited : await pace probes (ready kind run) = .granted w waited rest) :
    ∃ results, results.Perm
        (service.results pace.deadline run.asked (run.ledger.takeOut kind w.remaining).1)
      ∧ (pass kind pace service w waited).asked
        = (fun t => run.asked t + (run.ledger.takeOut kind w.remaining).1.count t)
      ∧ (pass kind pace service w waited).ledger
        = (run.ledger.takeOut kind w.remaining).2.merge results := by
  obtain ⟨-, before, sent⟩ := sent_of_granted service busy awaited
  have asked : waited.asked = run.asked := asked_eq_of_batches before
  refine ⟨_, ?_, funext fun t => ?_, sent.ledger⟩
  · rw [asked]
    exact service.arrival_perm _ _
  · rw [sent.asked_eq, asked]

/-- However a sweep ends, it has made whole passes, and since then nothing was done to the ledger
but to make it ready for another one. -/
theorem phase_passes (kind : Kind) (pace : Pace) (service : Service) (probes : List Probe)
    (run : Run) :
    ∃ sent last, batches (phase kind pace service probes run).run = batches run ++ sent
      ∧ Passes kind service pace.deadline run.asked run.ledger sent last
      ∧ (phase kind pace service probes run).run.ledger = last.readied kind := by
  have none_sent {run waited : Run} (h : ReflTransGen Wait (ready kind run) waited) :
      ∃ sent last, batches waited = batches run ++ sent
        ∧ Passes kind service pace.deadline run.asked run.ledger sent last
        ∧ waited.ledger = last.readied kind := by
    refine ⟨[], run.ledger, ?_, Passes.none _ _, ledger_eq_of_waits h⟩
    rw [batches_eq_of_waits h, List.append_nil, batches_ready]
  induction probes, run using phase_rule kind pace service with
  | idle probes run finished => exact none_sent (ReflTransGen.single (Wait.idle rfl rfl))
  | stopped probes run a ending busy awaited stop =>
    exact none_sent ((follows_of_await awaited).waits stop)
  | granted probes run w waited rest busy awaited ih =>
    -- One pass, and then those of the sweep that goes on from there.
    obtain ⟨room, before, sent⟩ := sent_of_granted service busy awaited
    obtain ⟨results, back, asked, entered⟩ := entered_of_granted service busy awaited
    obtain ⟨later, last, went, passes, left⟩ := ih
    rw [asked, entered] at passes
    refine ⟨_ :: later, last, ?_, Passes.pass w.remaining room busy back passes, left⟩
    rw [went, sent.batches_eq, before, List.append_assoc]
    rfl

end Sweep
end Census
