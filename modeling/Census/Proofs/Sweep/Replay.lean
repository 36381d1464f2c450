import Census.Proofs.Quota.Patience
import Census.Proofs.Sweep.Passes
import Mathlib.Data.List.Forall2

/-!
# What the answered probes decide

What a sweep does to the ledger and which batches it sends out depends on nothing but what its
answered probes find. Failed probes, sleeps and stops only move the clock. So a sweep can be replayed
from what was found, to the point where it ended and beyond (`replay`).

The clock counts in one respect. A replay that leaves out failed probes comes to an exhausted window
earlier, so the time until its reset is longer, and together with the grace it can get out of range
(`Overruns`). Then the replay breaks off. With a grace of up to 2^63 seconds and instants that can be
named this does not happen (`not_overruns_of_inRange`).
-/

namespace Census
namespace Sweep

open Quota Log Ledger Relation

/-! ## Runs that have come equally far -/

/-- Two runs that have sent out the same batches and have the same ledger. Their clocks, their notes
and the probes that brought nothing may differ. -/
structure Abreast (a b : Run) : Prop where
  ledger : a.ledger = b.ledger
  out : batches a = batches b

namespace Abreast

variable {a b c : Run}

theorem refl (a : Run) : Abreast a a := ⟨rfl, rfl⟩

theorem symm (h : Abreast a b) : Abreast b a := ⟨h.ledger.symm, h.out.symm⟩

theorem trans (h : Abreast a b) (h' : Abreast b c) : Abreast a c :=
  ⟨h.ledger.trans h'.ledger, h.out.trans h'.out⟩

theorem of_waits (h : ReflTransGen Wait a b) : Abreast a b :=
  ⟨(ledger_eq_of_waits h).symm, (batches_eq_of_waits h).symm⟩

theorem probe (h : Abreast a b) (remaining : Option Nat) : Abreast a (b.probe remaining) :=
  ⟨h.ledger, h.out.trans (batches_probe b remaining).symm⟩

theorem ready (h : Abreast a b) (kind : Kind) : Abreast (ready kind a) (ready kind b) :=
  ⟨congrArg (readied kind) h.ledger, h.out⟩

/-- The same batch that goes out from the same ledger comes to the same. -/
theorem sent {pace : Pace} {service : Service} {batch : List Term} {rest : Ledger} {a' b' : Run}
    (h : batches a = batches b) (ha : Sent pace service a batch rest a')
    (hb : Sent pace service b batch rest b') : Abreast a' b' where
  ledger := by rw [ha.ledger, hb.ledger, asked_eq_of_batches h]
  out := by rw [ha.batches_eq, hb.batches_eq, h]

end Abreast

/-! ## The clock -/

theorem now_le_rest (run : Run) (d : Span) : run.now ≤ (run.rest d).now := by
  show run.began.nanos + run.elapsed.nanos ≤ run.began.nanos + (run.elapsed.nanos + d.nanos : Nat)
  omega

variable {pace : Pace} {service : Service} {kind : Kind}

theorem now_le_fetch (pace : Pace) (service : Service) (run : Run) (batch : List Term) :
    run.now ≤ (run.fetch pace service batch).now :=
  now_le_rest run (service.duration pace.deadline run.asked batch)

theorem now_le_pass (kind : Kind) (pace : Pace) (service : Service) (w : Window) (run : Run) :
    run.now ≤ (pass kind pace service w run).now := by
  cases kind with
  | primary =>
    by_cases none_taken : (run.ledger.nextBatch w.batchLimit).1 = []
    · simp only [pass, primaryPass, if_pos none_taken]
      exact Int.le_refl _
    · simp only [pass, primaryPass, if_neg none_taken]
      exact now_le_fetch pace service _ _
  | retry => exact now_le_fetch pace service _ _

/-- One of the probes can find, from an instant on, an exhausted window with no sleep that lasts
until its reset. -/
def Overruns (pace : Pace) (start : Instant) (probes : List Probe) : Prop :=
  ∃ probe ∈ probes, ∃ now w, start ≤ now ∧ probe now = .ok w ∧ w.isExhausted = true
    ∧ pace.patience.sleep? w.resetsAt now = none

theorem Overruns.mono {start later : Instant} {probes more : List Probe}
    (h : Overruns pace later probes) (before : start ≤ later) (among : probes ⊆ more) :
    Overruns pace start more := by
  obtain ⟨probe, mem, now, w, after, found⟩ := h
  exact ⟨probe, among mem, now, w, Int.le_trans before after, found⟩

/-- The instants that can be named are less than 2^44 seconds apart, so between them a grace has to be
longer than any that is in use to get a sleep out of range. -/
theorem not_overruns_of_inRange {start : Instant} {probes : List Probe}
    (brief : pace.patience.grace ≤ .ofSeconds (2 ^ 63)) (named : start.InRange)
    (resets : ∀ probe ∈ probes, ∀ now w, probe now = .ok w → w.resetsAt.InRange) :
    ¬ Overruns pace start probes := by
  rintro ⟨probe, mem, now, w, after, answer, -, overflow⟩
  obtain ⟨-, beyond⟩ := Patience.sleep?_eq_none_iff.mp overflow
  have long : 2 ^ 64 * 1000000000
      ≤ (w.resetsAt.nanos - now.nanos).toNat + pace.patience.grace.nanos := beyond
  have short : pace.patience.grace.nanos ≤ 2 ^ 63 * 1000000000 := brief
  have since : start.nanos ≤ now.nanos := after
  have lower : -8334601228800 * 1000000000 ≤ start.nanos := named.1
  have upper : w.resetsAt.nanos < (8210266876799 + 1) * 1000000000 :=
    (resets probe mem now w answer).2
  omega

/-! ## What the answered probes decide -/

/-- The probe is answered, whenever it is made, and finds `n` searches left. -/
def Finds (probe : Probe) (n : Nat) : Prop := ∀ now, ∃ w, probe now = .ok w ∧ w.remaining = n

theorem quotas_of_waits {run run' : Run} (h : ReflTransGen Wait run run') :
    ∃ k, quotas run' = quotas run ++ List.replicate k 0 := by
  induction h with
  | refl => exact ⟨0, (List.append_nil _).symm⟩
  | tail _ last ih =>
    obtain ⟨k, hk⟩ := ih
    cases last with
    | idle _ events => exact ⟨k, (quotas_eq_of_events events).trans hk⟩
    | failed => exact ⟨k, by rw [quotas_probe, hk]; exact List.append_nil _⟩
    | exhausted =>
      refine ⟨k + 1, ?_⟩
      rw [quotas_probe, hk, List.append_assoc, List.replicate_succ']
      rfl

/-- Probes that find nothing left are slept through, and then the wait begins anew; or one of the
sleeps is out of range, and that is the end of it. -/
theorem await_exhausted (pace : Pace) {k : Nat} {calm : List Probe}
    (finds : List.Forall₂ Finds calm (List.replicate k 0)) (run : Run) :
    (∃ run', Abreast run run' ∧ run.now ≤ run'.now
        ∧ ∀ more, await pace (calm ++ more) run = await pace more run')
      ∨ (Overruns pace run.now calm
        ∧ ∀ more, (await pace (calm ++ more) run).ending? = some .overflowed) := by
  induction k generalizing calm run with
  | zero =>
    cases finds
    exact .inl ⟨run, Abreast.refl run, Int.le_refl _, fun more => rfl⟩
  | succ k ih =>
    rw [List.replicate_succ] at finds
    cases finds with
    | @cons probe _ calm _ found finds =>
      obtain ⟨w, answer, none_left⟩ := found run.now
      have exhausted : w.isExhausted = true := by simp [Window.isExhausted, none_left]
      cases slept : pace.patience.sleep? w.resetsAt run.now with
      | none =>
        refine .inr ⟨⟨probe, List.mem_cons_self, run.now, w, Int.le_refl _, answer, exhausted,
          slept⟩, fun more => ?_⟩
        rw [List.cons_append, await, awaitFrom_of_overflow answer exhausted slept]
        rfl
      | some sleep =>
        let next := ((run.probe (some w.remaining)).say [noteExhausted w sleep]).rest sleep
        have later : run.now ≤ next.now := now_le_rest (run.probe (some w.remaining)) sleep
        have goes_on : ∀ more, await pace (probe :: calm ++ more) run
            = await pace (calm ++ more) next :=
          fun more => awaitFrom_of_slept answer exhausted slept
        rcases ih finds next with ⟨run', ahead, after, reached⟩ | ⟨overruns, ends⟩
        · refine .inl ⟨run', ?_, Int.le_trans later after, fun more => ?_⟩
          · exact ((Abreast.refl run).probe (some w.remaining)).trans ⟨ahead.ledger, ahead.out⟩
          · rw [goes_on, reached]
        · refine .inr ⟨overruns.mono later (List.subset_cons_self _ _), fun more => ?_⟩
          rw [goes_on, ends]

theorem await_found (pace : Pace) {n : Nat} {probe : Probe} (found : Finds probe n) (room : 0 < n)
    (run : Run) :
    ∃ w, w.remaining = n
      ∧ ∀ more, await pace (probe :: more) run = .granted w (run.probe (some n)) more := by
  obtain ⟨w, answer, left⟩ := found run.now
  have some_left : w.isExhausted = false := by
    rw [Window.isExhausted, left]
    exact decide_eq_false (Nat.ne_of_gt room)
  refine ⟨w, left, fun more => ?_⟩
  rw [await, awaitFrom_of_left answer some_left, left]

theorem phase_ready (probes : List Probe) (run : Run) :
    phase kind pace service probes (ready kind run) = phase kind pace service probes run := by
  rcases Classical.em (run.ledger.Idle kind) with finished | busy
  · have finished' : (ready kind run).ledger.Idle kind := idle_readied.mpr finished
    rw [phase_of_idle probes finished, phase_of_idle probes finished', ready_ready, ledger_ready,
      readied_readied]
  · have busy' : ¬ (ready kind run).ledger.Idle kind := fun h => busy (idle_readied.mp h)
    rw [phase_of_busy probes busy, phase_of_busy probes busy', ready_ready]

/-! ## Sweeps that are replayed -/

/-- The probes `calm` bring the sweep from `run` to a run that is abreast of `last`, and it goes on
from there; or it breaks off on the way at a window that it cannot sleep through. -/
def Replays (kind : Kind) (pace : Pace) (service : Service) (calm : List Probe) (run last : Run) :
    Prop :=
  (∃ after, Abreast last after ∧ run.now ≤ after.now ∧ ∀ more,
      phase kind pace service (calm ++ more) run = phase kind pace service more after)
    ∨ (Overruns pace run.now calm
      ∧ ∀ more, (phase kind pace service (calm ++ more) run).ending = .overflowed)

namespace Replays

variable {calm later : List Probe} {run last last' : Run}

theorem of_abreast (h : Replays kind pace service calm run last) (level : Abreast last' last) :
    Replays kind pace service calm run last' := by
  rcases h with ⟨after, ahead, reached⟩ | broken
  · exact .inl ⟨after, level.trans ahead, reached⟩
  · exact .inr broken

theorem trans (h : Replays kind pace service calm run last)
    (h' : ∀ after, Abreast last after → Replays kind pace service later after last') :
    Replays kind pace service (calm ++ later) run last' := by
  rcases h with ⟨middle, ahead, before, goes_on⟩ | ⟨overruns, ends⟩
  · rcases h' middle ahead with ⟨after, level, since, goes_on'⟩ | ⟨overruns, ends⟩
    · refine .inl ⟨after, level, Int.le_trans before since, fun more => ?_⟩
      rw [List.append_assoc, goes_on, goes_on']
    · refine .inr ⟨overruns.mono before (List.subset_append_right _ _), fun more => ?_⟩
      rw [List.append_assoc, goes_on, ends]
  · refine .inr ⟨overruns.mono (Int.le_refl _) (List.subset_append_left _ _), fun more => ?_⟩
    rw [List.append_assoc, ends]

end Replays

section Abreast

variable {run run' : Run} (ahead : Abreast (ready kind run) run')

include ahead

theorem ready_of_abreast : ready kind run' = run' := by
  rw [ready, ← ahead.ledger, ledger_ready, readied_readied, ← ledger_ready, ahead.ledger]

theorem busy_of_abreast (busy : ¬ run.ledger.Idle kind) : ¬ run'.ledger.Idle kind := by
  rw [← ahead.ledger]
  exact fun h => busy (idle_readied.mp h)

end Abreast

/-- A sweep that finds nothing left for a while is the sweep that begins after that while. -/
theorem replays_exhausted (pace : Pace) (service : Service) {k : Nat} {calm : List Probe}
    (finds : List.Forall₂ Finds calm (List.replicate k 0)) {run : Run}
    (busy : ¬ run.ledger.Idle kind) : Replays kind pace service calm run (ready kind run) := by
  rcases await_exhausted pace finds (ready kind run) with ⟨run', ahead, after, same⟩ | ⟨overruns, ends⟩
  · refine .inl ⟨run', ahead, after, fun more => ?_⟩
    rw [phase_of_busy _ busy, same more, phase_of_busy _ (busy_of_abreast ahead busy),
      ready_of_abreast ahead]
  · refine .inr ⟨overruns, fun more => ?_⟩
    rw [phase_of_stopped service busy rfl (ends more)]

/-- A probe that finds something left is followed by a pass. -/
theorem replays_found (service : Service) {n : Nat} {probe : Probe} (found : Finds probe n)
    (room : 0 < n) {run : Run} (busy : ¬ run.ledger.Idle kind) :
    ∃ w, w.remaining = n
      ∧ await pace [probe] (ready kind run) = .granted w ((ready kind run).probe (some n)) []
      ∧ Replays kind pace service [probe] run
        (pass kind pace service w ((ready kind run).probe (some n))) := by
  obtain ⟨w, left, granted⟩ := await_found pace found room (ready kind run)
  refine ⟨w, left, granted [], .inl ⟨_, Abreast.refl _, now_le_pass kind pace service w _, ?_⟩⟩
  intro more
  rw [phase_of_busy _ busy, List.singleton_append, granted]

theorem quotas_of_granted (service : Service) {probes rest : List Probe} {run waited : Run}
    {w : Window} (busy : ¬ run.ledger.Idle kind)
    (awaited : await pace probes (ready kind run) = .granted w waited rest) :
    ∃ k, quotas (pass kind pace service w waited)
      = quotas run ++ (List.replicate k 0 ++ [w.remaining]) := by
  obtain ⟨-, -, sent⟩ := sent_of_granted service busy awaited
  obtain ⟨before, waiting, rfl, -⟩ := follows_of_await awaited
  obtain ⟨k, hk⟩ := quotas_of_waits waiting
  refine ⟨k, ?_⟩
  rw [sent.quotas_eq, quotas_probe, hk, List.append_assoc]
  rfl

theorem quotas_phase (kind : Kind) (pace : Pace) (service : Service) (probes : List Probe)
    (run : Run) :
    ∃ found, quotas (phase kind pace service probes run).run = quotas run ++ found := by
  induction probes, run using phase_rule kind pace service with
  | idle probes run finished => exact ⟨[], (List.append_nil _).symm⟩
  | granted probes run w waited rest busy awaited ih =>
    obtain ⟨k, hk⟩ := quotas_of_granted service busy awaited
    obtain ⟨found, more⟩ := ih
    exact ⟨_, by rw [more, hk, List.append_assoc]⟩
  | stopped probes run a ending busy awaited stop =>
    obtain ⟨k, hk⟩ := quotas_of_waits ((follows_of_await awaited).waits stop)
    exact ⟨_, hk⟩

theorem forall₂_append {calm : List Probe} {a b : List Nat}
    (h : List.Forall₂ Finds calm (a ++ b)) :
    ∃ first second, calm = first ++ second ∧ List.Forall₂ Finds first a
      ∧ List.Forall₂ Finds second b := by
  induction a generalizing calm with
  | nil => exact ⟨[], calm, rfl, List.Forall₂.nil, h⟩
  | cons n a ih =>
    cases h with
    | cons found rest =>
      obtain ⟨first, second, rfl, hf, hs⟩ := ih rest
      exact ⟨_ :: first, second, rfl, List.Forall₂.cons found hf, hs⟩

/-- Probes that find what the answered probes of a sweep found bring a run that is abreast of its
beginning to one that is abreast of its end, however it ended. -/
theorem replay (probes : List Probe) (run : Run) {run' : Run} (level : Abreast run run')
    {found : List Nat}
    (answered : quotas (phase kind pace service probes run).run = quotas run ++ found)
    {calm : List Probe} (finds : List.Forall₂ Finds calm found) :
    Replays kind pace service calm run' (phase kind pace service probes run).run := by
  -- Along the first sweep. The run that replays it is kept abreast, and `found` is used up.
  induction probes, run using phase_rule kind pace service generalizing run' found calm with
  | idle probes run finished =>
    have none_found : found = [] := by
      have := answered.symm.trans (List.append_nil (quotas run)).symm
      exact List.append_cancel_left this
    subst none_found
    cases finds
    have ahead := level.ready kind
    exact .inl ⟨ready kind run', ⟨ahead.ledger, ahead.out⟩, Int.le_refl _,
      fun more => (phase_ready more run').symm⟩
  | stopped probes run a ending busy awaited stop =>
    have waiting := (follows_of_await awaited).waits stop
    obtain ⟨k, hk⟩ := quotas_of_waits waiting
    rw [hk, quotas_ready, List.append_cancel_left_eq] at answered
    subst answered
    exact (replays_exhausted pace service finds (level.ledger ▸ busy)).of_abreast
      ((Abreast.of_waits waiting).symm.trans (level.ready kind))
  | granted probes run w waited rest busy awaited ih =>
    obtain ⟨room, before, sent⟩ := sent_of_granted service busy awaited
    obtain ⟨k, here⟩ := quotas_of_granted service busy awaited
    obtain ⟨later, there⟩ := quotas_phase kind pace service rest (pass kind pace service w waited)
    have parts : found = List.replicate k 0 ++ w.remaining :: later := by
      rw [there, here, List.append_assoc, List.append_cancel_left_eq, List.append_assoc] at answered
      exact answered.symm
    subst parts
    obtain ⟨none_left, others, rfl, exhausted, finds⟩ := forall₂_append finds
    cases finds with
    | @cons probe _ others _ found finds =>
      refine (replays_exhausted pace service exhausted (level.ledger ▸ busy)).trans fun r ahead => ?_
      -- The wait of the other run has the same window in the end, so the same batch goes out.
      have still := ready_of_abreast ahead
      obtain ⟨w', left, awaited', passed⟩ :=
        replays_found service found room (busy_of_abreast ahead (level.ledger ▸ busy))
      obtain ⟨-, before', sent'⟩ :=
        sent_of_granted service (busy_of_abreast ahead (level.ledger ▸ busy)) awaited'
      have ledger : r.ledger = run.ledger.readied kind := by
        rw [← ahead.ledger, ledger_ready, level.ledger]
      rw [left, ledger, takeOut_readied] at sent'
      have out : batches waited = batches ((ready kind r).probe (some w.remaining)) := by
        rw [before, before', level.out, ← batches_ready kind, ahead.out]
      exact passed.trans fun after goes_on =>
        ih ((Abreast.sent out sent sent').trans goes_on) there finds

end Sweep
end Census
