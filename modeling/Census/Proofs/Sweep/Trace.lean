import Census.Proofs.Sweep.Step

/-!
# What becomes of the quota

Seen from outside a census is a sequence of probes and batches. Every batch comes directly after the
probe that allows it and keeps to what that probe found, and every probe that finds something is
followed directly by a batch (`Conserving`). No answer is used for two batches, none is used after
another probe, and none is thrown away.

The proof goes over the pieces of which a trace is made (`Pieces`): a failed probe, a probe that
finds nothing, or a probe together with its batch.
-/

namespace Census
namespace Sweep

open Quota Ledger

/-- The probes and batches of a run in the order of time. -/
def trace (run : Run) : List Event := run.events.reverse

/-- The trace of sweeps that waste no quota and use none twice. -/
structure Conserving (trace : List Event) : Prop where
  allowed : ∀ before batch time after, trace = before ++ .fetched batch time :: after →
    ∃ earlier n asked, before = earlier ++ [.probed (some n) asked]
      ∧ 0 < n ∧ 0 < batch.length ∧ batch.length ≤ n ∧ batch.Nodup
  used : ∀ before n time after, trace = before ++ .probed (some n) time :: after → 0 < n →
    ∃ batch sent later, after = .fetched batch sent :: later
      ∧ ∀ e ∈ later.head?, ∃ remaining asked, e = .probed remaining asked

/-- A trace, piece by piece. -/
inductive Pieces : List Event → Prop
  | nil : Pieces []
  | failed {trace : List Event} (time : Span) (h : Pieces trace) :
      Pieces (trace ++ [.probed none time])
  | exhausted {trace : List Event} (time : Span) (h : Pieces trace) :
      Pieces (trace ++ [.probed (some 0) time])
  | pass {trace : List Event} {n : Nat} {batch : List Term} (asked sent : Span) (room : 0 < n)
      (some_taken : 0 < batch.length) (within : batch.length ≤ n) (distinct : batch.Nodup)
      (h : Pieces trace) : Pieces (trace ++ [.probed (some n) asked, .fetched batch sent])

/-! ## Where an event can stand -/

/-- An event of a trace is the last one, or an event of what comes before the last one. -/
theorem append_singleton_eq {trace before after : List Event} {last e : Event}
    (h : trace ++ [last] = before ++ e :: after) :
    (after = [] ∧ before = trace ∧ last = e)
      ∨ ∃ after', after = after' ++ [last] ∧ trace = before ++ e :: after' := by
  rcases List.eq_nil_or_concat after with rfl | ⟨after', last', rfl⟩
  · obtain ⟨rfl, rfl⟩ := List.append_singleton_inj.mp h
    exact Or.inl ⟨rfl, rfl, rfl⟩
  · rw [List.concat_eq_append, ← List.cons_append, ← List.append_assoc] at h
    obtain ⟨rfl, rfl⟩ := List.append_singleton_inj.mp h
    exact Or.inr ⟨after', List.concat_eq_append, rfl⟩

/-- A probe may be added behind what already follows a batch. -/
theorem head?_append_probed {later : List Event} {remaining : Option Nat} {time : Span}
    (more : List Event)
    (h : ∀ e ∈ later.head?, ∃ remaining asked, e = Event.probed remaining asked) :
    ∀ e ∈ (later ++ .probed remaining time :: more).head?,
      ∃ remaining asked, e = Event.probed remaining asked := by
  intro e he
  cases later with
  | nil =>
    rw [List.nil_append, List.head?_cons, Option.mem_some_iff] at he
    exact ⟨remaining, time, he.symm⟩
  | cons first later => exact h e he

/-- Adding a probe that brings nothing keeps a trace conserving. -/
theorem Conserving.append_barren {trace : List Event} (h : Conserving trace)
    {remaining : Option Nat} (barren : ∀ n, remaining = some n → n = 0) (time : Span) :
    Conserving (trace ++ [.probed remaining time]) where
  allowed := by
    intro before batch sent after split
    rcases append_singleton_eq split with ⟨-, -, last⟩ | ⟨after', -, inner⟩
    · cases last
    · exact h.allowed before batch sent after' inner
  used := by
    intro before n asked after split room
    rcases append_singleton_eq split with ⟨-, -, last⟩ | ⟨after', rfl, inner⟩
    · injection last with same
      have := barren n same
      omega
    · obtain ⟨batch, sent, later, rfl, next⟩ := h.used before n asked after' inner room
      exact ⟨batch, sent, later ++ [.probed remaining time], List.cons_append,
        head?_append_probed [] next⟩

theorem Conserving.append_pass {trace : List Event} (h : Conserving trace) {n : Nat}
    {batch : List Term} (room : 0 < n) (some_taken : 0 < batch.length) (within : batch.length ≤ n)
    (distinct : batch.Nodup) (asked sent : Span) :
    Conserving (trace ++ [.probed (some n) asked, .fetched batch sent]) := by
  -- The pass adds two events. An event of the longer trace is the batch, the probe, or an older
  -- one.
  have two : trace ++ [.probed (some n) asked, .fetched batch sent]
      = (trace ++ [.probed (some n) asked]) ++ [.fetched batch sent] := by
    rw [List.append_assoc]
    rfl
  rw [two]
  constructor
  · intro before batch' sent' after split
    rcases append_singleton_eq split with ⟨-, rfl, last⟩ | ⟨after', -, inner⟩
    · injection last with same
      subst same
      exact ⟨trace, n, asked, rfl, room, some_taken, within, distinct⟩
    · rcases append_singleton_eq inner with ⟨-, -, last⟩ | ⟨after'', -, inner⟩
      · cases last
      · exact h.allowed before batch' sent' after'' inner
  · intro before n' asked' after split room'
    rcases append_singleton_eq split with ⟨-, -, last⟩ | ⟨after', rfl, inner⟩
    · cases last
    · rcases append_singleton_eq inner with ⟨rfl, -, -⟩ | ⟨after'', rfl, first⟩
      · exact ⟨batch, sent, [], rfl, fun e he => by cases he⟩
      · obtain ⟨batch', sent', later, rfl, next⟩ := h.used before n' asked' after'' first room'
        refine ⟨batch', sent', later ++ [.probed (some n) asked, .fetched batch sent], ?_,
          head?_append_probed _ next⟩
        rw [List.append_assoc]
        rfl

theorem Pieces.conserving {trace : List Event} (h : Pieces trace) : Conserving trace := by
  induction h with
  | nil =>
    constructor
    · intro before batch time after split
      simp at split
    · intro before n time after split
      simp at split
  | failed time _ ih => exact ih.append_barren (fun n h => by cases h) time
  | exhausted time _ ih => exact ih.append_barren (fun n h => (Option.some.inj h).symm) time
  | pass asked sent room some_taken within distinct _ ih =>
    exact ih.append_pass room some_taken within distinct asked sent

/-! ## The trace of sweeps -/

variable {pace : Pace} {service : Service} {run run' : Run}

theorem pieces_move (move : Move pace service run run') (h : Pieces (trace run)) :
    Pieces (trace run') := by
  cases move with
  | wait hw =>
    cases hw with
    | idle _ events => rwa [trace, events]
    | failed =>
      rw [trace, Run.events_probe, List.reverse_cons]
      exact Pieces.failed _ h
    | exhausted =>
      rw [trace, Run.events_probe, List.reverse_cons]
      exact Pieces.exhausted _ h
  | prune => exact h
  | pass n room taken sent =>
    rw [trace, sent.events, Run.events_probe, List.reverse_cons, List.reverse_cons,
      List.append_assoc]
    have some_taken := List.length_pos_iff.mpr taken.nonempty
    exact Pieces.pass _ _ room some_taken taken.length_le taken.nodup h

theorem primary_of_none_waiting (probes : List Probe)
    (h : ∀ t ∈ run.ledger.pending, t ∈ run.ledger.counted) :
    (primary pace service probes run).run.events = run.events
      ∧ (primary pace service probes run).rest = probes := by
  have none_left : run.ledger.prune.pending = [] := by
    rw [List.eq_nil_iff_forall_not_mem]
    intro t ht
    obtain ⟨pending, uncounted⟩ := mem_prune_pending.mp ht
    exact uncounted (h t pending)
  rw [primary]
  simp only [none_left, if_true]
  exact ⟨rfl, trivial⟩

theorem retry_of_nothing_to_do (probes : List Probe)
    (h : (∀ t, t ∉ run.ledger.failed) ∨ run.ledger.retriesLeft = 0) :
    (retry pace service probes run).run.events = run.events
      ∧ (retry pace service probes run).rest = probes := by
  have stop : run.ledger.retriesLeft = 0 ∨ run.ledger.failed.isEmpty = true := by
    rcases h with none_failed | spent
    · right
      rw [Std.ExtTreeSet.isEmpty_iff]
      refine Std.ExtTreeSet.ext_mem fun t => ?_
      simp [none_failed t]
    · exact Or.inl spent
  rw [retry, if_pos stop]
  exact ⟨rfl, rfl⟩

/-- Whatever the probes find and whatever the searches come to, sweeps waste no quota and use none
twice, and a sweep that has nothing to search for makes no probe. -/
theorem conserving_after_sweeps (terms : List Term) (retries : Nat) (began : Instant) (pace : Pace)
    (service : Service) (stages : List Stage) :
    let run := sweeps pace service stages (.start (.start terms retries) began)
    Conserving (trace run)
      ∧ ∀ probes : List Probe,
        ((∀ t ∈ run.ledger.pending, t ∈ run.ledger.counted) →
          (phase .primary pace service probes run).run.events = run.events
            ∧ (phase .primary pace service probes run).rest = probes)
        ∧ ((∀ t, t ∉ run.ledger.failed) ∨ run.ledger.retriesLeft = 0 →
          (phase .retry pace service probes run).run.events = run.events
            ∧ (phase .retry pace service probes run).rest = probes) := by
  intro run
  have pieces : Pieces (trace run) :=
    swept_induction (P := fun run => Pieces (trace run)) (fun _ move h => pieces_move move h)
      stages Pieces.nil
  exact ⟨pieces.conserving, fun probes =>
    ⟨primary_of_none_waiting probes, retry_of_nothing_to_do probes⟩⟩

end Sweep
end Census
