import Census.Proofs.Ledger.Order
import Census.Proofs.Sweep.Passes

/-!
# In which order results come in

The searches of a batch end in any order, and their results are entered as they come. That makes no
difference to anything but the notes. A batch has no repeats, so its results come to the same in any
order; the next batch is then chosen from the same ledger, goes out at the same time, and gets the
same replies. So two services with the same replies are alike in all that a census does (`Alike`),
wait by wait and pass by pass.
-/

namespace Census
namespace Sweep

open Quota Log Ledger

/-- Two runs that differ in nothing but the notes. -/
structure Alike (a b : Run) : Prop where
  ledger : a.ledger = b.ledger
  began : a.began = b.began
  elapsed : a.elapsed = b.elapsed
  events : a.events = b.events

namespace Alike

variable {a b : Run}

theorem refl (a : Run) : Alike a a := ⟨rfl, rfl, rfl, rfl⟩

theorem now_eq (h : Alike a b) : a.now = b.now := by
  rw [Run.now, h.began, h.elapsed, Run.now]

theorem say (h : Alike a b) (ns ms : List Note) : Alike (a.say ns) (b.say ms) :=
  ⟨h.ledger, h.began, h.elapsed, h.events⟩

theorem rest (h : Alike a b) (d : Span) : Alike (a.rest d) (b.rest d) :=
  ⟨h.ledger, h.began, congrArg (· + d) h.elapsed, h.events⟩

theorem probe (h : Alike a b) (remaining : Option Nat) :
    Alike (a.probe remaining) (b.probe remaining) where
  ledger := h.ledger
  began := h.began
  elapsed := h.elapsed
  events := by rw [Run.events_probe, Run.events_probe, h.elapsed, h.events]

theorem turn (h : Alike a b) (f : Ledger → Ledger) :
    Alike { a with ledger := f a.ledger } { b with ledger := f b.ledger } :=
  ⟨congrArg f h.ledger, h.began, h.elapsed, h.events⟩

theorem asked_eq (h : Alike a b) : a.asked = b.asked := by
  funext t
  rw [Run.asked, h.events, Run.asked]

end Alike

/-! ## Waits -/

/-- Two waits that ended in the same way. -/
inductive Awaited.Alike : Awaited → Awaited → Prop
  | granted {a b : Run} (w : Window) (rest : List Probe) (h : Sweep.Alike a b) :
      Alike (.granted w a rest) (.granted w b rest)
  | gaveUp {a b : Run} (f : ProbeFault) (rest : List Probe) (h : Sweep.Alike a b) :
      Alike (.gaveUp f a rest) (.gaveUp f b rest)
  | overflowed {a b : Run} (w : Window) (rest : List Probe) (h : Sweep.Alike a b) :
      Alike (.overflowed w a rest) (.overflowed w b rest)
  | unprobed {a b : Run} (h : Sweep.Alike a b) : Alike (.unprobed a) (.unprobed b)

theorem awaitFrom_alike (pace : Pace) (backoff : Backoff) (probes : List Probe) {a b : Run}
    (h : Alike a b) :
    (awaitFrom pace backoff probes a).Alike (awaitFrom pace backoff probes b) := by
  -- The clocks agree, so each probe is answered alike and is followed by the same sleep.
  induction probes generalizing backoff a b with
  | nil => exact Awaited.Alike.unprobed h
  | cons probe rest ih =>
    cases answer : probe b.now with
    | error f =>
      have here : probe a.now = .error f := by rw [h.now_eq, answer]
      have missed := (h.probe none).say [noteProbeFault f] [noteProbeFault f]
      cases next : backoff.next? with
      | none =>
        rw [awaitFrom_of_last_failure here next, awaitFrom_of_last_failure answer next]
        exact .gaveUp f rest missed
      | some next' =>
        rw [awaitFrom_of_failure here next, awaitFrom_of_failure answer next]
        exact ih next'.2 (missed.rest next'.1)
    | ok w =>
      have here : probe a.now = .ok w := by rw [h.now_eq, answer]
      have answered := h.probe (some w.remaining)
      cases exhausted : w.isExhausted with
      | false =>
        rw [awaitFrom_of_left here exhausted, awaitFrom_of_left answer exhausted]
        exact .granted w rest answered
      | true =>
        have as_long : pace.patience.sleep? w.resetsAt a.now
            = pace.patience.sleep? w.resetsAt b.now := by rw [h.now_eq]
        cases slept : pace.patience.sleep? w.resetsAt b.now with
        | none =>
          rw [awaitFrom_of_overflow here exhausted (as_long.trans slept),
            awaitFrom_of_overflow answer exhausted slept]
          exact .overflowed w rest answered
        | some sleep =>
          rw [awaitFrom_of_slept here exhausted (as_long.trans slept),
            awaitFrom_of_slept answer exhausted slept]
          exact ih pace.backoff ((answered.say _ _).rest sleep)

/-! ## Passes -/

section Replies

variable {service other : Service} (same : service.reply = other.reply)

include same

theorem replies_eq (asked : Term → Nat) (batch : List Term) :
    service.replies asked batch = other.replies asked batch := by
  induction batch generalizing asked with
  | nil => rfl
  | cons t batch ih => rw [Service.replies, Service.replies, ih, same]

theorem results_eq (deadline : Span) (asked : Term → Nat) (batch : List Term) :
    service.results deadline asked batch = other.results deadline asked batch := by
  rw [Service.results, replies_eq same, Service.results]

theorem duration_eq (deadline : Span) (asked : Term → Nat) (batch : List Term) :
    service.duration deadline asked batch = other.duration deadline asked batch := by
  rw [Service.duration, replies_eq same, Service.duration]

variable {a b : Run}

theorem Alike.fetch (h : Alike a b) (pace : Pace) {batch : List Term} (distinct : batch.Nodup) :
    Alike (a.fetch pace service batch) (b.fetch pace other batch) where
  ledger := by
    rw [Run.fetch, Run.fetch, h.ledger, h.asked_eq, results_eq same]
    have perm := (service.arrival_perm b.ledger.attempts
      (other.results pace.deadline b.asked batch)).trans
        (other.arrival_perm b.ledger.attempts (other.results pace.deadline b.asked batch)).symm
    refine merge_eq_of_perm b.ledger perm ?_
    rw [((service.arrival_perm _ _).map Prod.fst).nodup_iff, Service.map_fst_results]
    exact distinct
  began := h.began
  elapsed := by
    rw [Run.fetch, Run.fetch, h.asked_eq, duration_eq same, h.elapsed]
  events := by
    rw [Run.fetch, Run.fetch, h.elapsed, h.events]

theorem pass_alike (h : Alike a b) (kind : Kind) (pace : Pace) (w : Window) :
    Alike (pass kind pace service w a) (pass kind pace other w b) := by
  cases kind with
  | primary =>
    have distinct : (b.ledger.nextBatch w.batchLimit).1.Nodup := by
      rw [nextBatch_fst]
      exact b.ledger.nodup_waiting.sublist (List.take_sublist _ _)
    have taken := h.turn fun l => (l.nextBatch w.batchLimit).2
    simp only [pass, primaryPass]
    rw [h.ledger] at taken ⊢
    by_cases none_taken : (b.ledger.nextBatch w.batchLimit).1 = []
    · rw [if_pos none_taken, if_pos none_taken]
      exact taken.say _ _
    · rw [if_neg none_taken, if_neg none_taken]
      exact ((taken.say _ _).say _ _).fetch same pace distinct
  | retry =>
    have distinct : (b.ledger.takeOut .retry w.batchLimit).1.Nodup := nodup_takeOut _
    have taken := h.turn fun l => (l.spendRetry.takeRetry w.batchLimit).2
    simp only [pass, retryPass]
    rw [h.ledger] at taken ⊢
    exact (taken.say _ _).fetch same pace distinct

end Replies

/-! ## Sweeps -/

/-- Two sweeps that ended in the same way, with the same probes left. -/
structure Phase.Alike (p q : Phase) : Prop where
  ending : p.ending = q.ending
  rest : p.rest = q.rest
  run : Sweep.Alike p.run q.run

theorem phase_alike {service other : Service} (same : service.reply = other.reply) (kind : Kind)
    (pace : Pace) (probes : List Probe) {a b : Run} (h : Alike a b) :
    (phase kind pace service probes a).Alike (phase kind pace other probes b) := by
  have wait {probes : List Probe} {a b : Run} {ended : Awaited} (h : Alike a b)
      (awaited : await pace probes (ready kind a) = ended) :
      ended.Alike (await pace probes (ready kind b)) :=
    awaited ▸ awaitFrom_alike pace pace.backoff probes (h.turn (readied kind))
  induction probes, a using phase_rule kind pace service generalizing b with
  | idle probes a finished =>
    rw [phase_of_idle probes (h.ledger ▸ finished)]
    exact ⟨rfl, rfl, (h.turn (readied kind)).say _ _⟩
  | granted probes a w waited rest busy awaited ih =>
    have ended := wait h awaited
    rw [phase_of_busy probes (h.ledger ▸ busy)]
    generalize await pace probes (ready kind b) = awaited' at ended
    cases ended with
    | granted _ _ before => exact ih (pass_alike same before kind pace w)
  | stopped probes a ended ending busy awaited stop =>
    have ended := wait h awaited
    rw [phase_of_busy probes (h.ledger ▸ busy)]
    generalize await pace probes (ready kind b) = awaited' at ended
    cases ended with
    | granted _ _ before => cases stop
    | gaveUp _ _ before =>
      cases stop
      exact ⟨rfl, rfl, before⟩
    | overflowed _ _ before =>
      cases stop
      exact ⟨rfl, rfl, before⟩
    | unprobed before =>
      cases stop
      exact ⟨rfl, rfl, before⟩

/-- Sweeps that draw on one list of probes, each from where the one before stopped. -/
def course (pace : Pace) (service : Service) : List Kind → List Probe → Run → List Phase
  | [], _, _ => []
  | kind :: kinds, probes, run =>
    let p := phase kind pace service probes run
    p :: course pace service kinds p.rest p.run

/-- When two services give the same replies, sweeps come to the same after each of them, in
whichever order the results come in: they end alike, have made the same probes and sent out the same
batches at the same times, and leave the same ledger. -/
theorem alike_whatever_the_arrival (service other : Service) (same : service.reply = other.reply)
    (pace : Pace) (kinds : List Kind) (probes : List Probe) (run : Run) :
    List.Forall₂ Phase.Alike (course pace service kinds probes run)
      (course pace other kinds probes run) := by
  have general : ∀ (probes : List Probe) {a b : Run}, Alike a b → List.Forall₂ Phase.Alike
      (course pace service kinds probes a) (course pace other kinds probes b) := by
    induction kinds with
    | nil => exact fun _ _ _ _ => List.Forall₂.nil
    | cons kind kinds ih =>
      intro probes a b h
      have first := phase_alike same kind pace probes h
      refine List.Forall₂.cons first ?_
      rw [first.rest]
      exact ih _ first.run
  exact general probes (Alike.refl run)

/-- A service whose results come in in the opposite order. -/
def Service.backwards (reply : Term → Nat → Reply) : Service where
  reply := reply
  arrival := fun _ results => results.reverse
  arrival_perm := fun _ results => results.reverse_perm

/-- Two sweeps whose results come in in opposite orders, which shows in the notes alone. -/
theorem alike_forwards_and_backwards :
    let reply : Term → Nat → Reply := fun t n =>
      .now (if n = 0 then .failed (if t = "C" then .malformed else .rateLimited)
        else .counted t.length (t = "C"))
    let forwards := Service.inOrder reply
    let backwards := Service.backwards reply
    let pace := Pace.ofDeadline (.ofSeconds 10)
    let probes := List.replicate 4 (Probe.giving (.ok ⟨2, .ofSeconds 0⟩))
    let run := Run.start (.start ["Zig", "C", "Go"] 2) ⟨0⟩
    forwards.reply = backwards.reply
      ∧ (phase .primary pace forwards probes run).run.notes
        ≠ (phase .primary pace backwards probes run).run.notes
      ∧ List.Forall₂ Phase.Alike (course pace forwards [.primary, .retry] probes run)
        (course pace backwards [.primary, .retry] probes run) := by
  intro reply forwards backwards pace probes run
  exact ⟨rfl, by decide +kernel,
    alike_whatever_the_arrival forwards backwards rfl pace [.primary, .retry] probes run⟩

end Sweep
end Census
