import Census.Proofs.Sweep.Effort
import Census.Proofs.Sweep.Findings

/-!
# The ledger at the end of a census

After both sweeps have come to an end, the counted and the failed terms are the two parts of the
worklist, what is flagged is counted, no pass has come back, and every count is what some search for
its term came to. These are the facts on which the report and the files of a census agree.
-/

namespace Census
namespace Sweep

open Quota Ledger

variable {pace : Pace} {service : Service}

/-! ## Passes are only spent -/

theorem Passes.retriesLeft_le {kind : Kind} {deadline : Span} {asked : Term → Nat} {l last : Ledger}
    {sent : List (List Term)} (h : Passes kind service deadline asked l sent last) :
    last.retriesLeft ≤ l.retriesLeft := by
  induction h with
  | none asked l => exact Nat.le_refl _
  | @pass asked l last sent results limit room busy back more ih =>
    have taken : (l.takeOut kind limit).2.retriesLeft ≤ l.retriesLeft := by
      cases kind with
      | primary => exact Nat.le_refl _
      | retry => exact Nat.sub_le _ _
    rw [merge_retriesLeft] at ih
    exact Nat.le_trans ih taken

theorem retriesLeft_sweeps_le (stages : List Stage) (run : Run) :
    (sweeps pace service stages run).ledger.retriesLeft ≤ run.ledger.retriesLeft := by
  induction stages generalizing run with
  | nil => exact Nat.le_refl _
  | cons s stages ih =>
    obtain ⟨sent, last, -, passes, left⟩ := phase_passes s.kind pace service s.probes run
    have first : (phase s.kind pace service s.probes run).run.ledger.retriesLeft
        ≤ run.ledger.retriesLeft := by
      rw [left, retriesLeft_readied]
      exact passes.retriesLeft_le
    exact Nat.le_trans (ih _) first

/-! ## Counts are answers -/

theorem StandsByLast.count_of_reply {run : Run} {t : Term} {n : Nat}
    (h : StandsByLast pace service t run) (count : run.ledger.counted[t]? = some n) :
    ∃ k i, (service.reply t k).outcomeBy pace.deadline = .counted n i := by
  have standing := congrArg Standing.count h.standing
  rw [count_standing, count] at standing
  cases last : (answers pace service run t).getLast? with
  | none =>
    rw [last] at standing
    cases standing
  | some o =>
    rw [last] at standing
    obtain ⟨k, -, reply⟩ := List.mem_map.mp (List.mem_of_getLast? last)
    cases o with
    | counted m i =>
      obtain rfl := Option.some.inj standing
      exact ⟨k, i, reply⟩
    | failed r => cases standing

/-- How the ledger of a census of `terms` stands when both sweeps are over. -/
structure Closed (pace : Pace) (service : Service) (terms : List Term) (retries : Nat)
    (l : Ledger) : Prop where
  worklist : l.worklist = terms.eraseDups
  listed : ∀ t ∈ l.counted, t ∈ l.worklist
  parted : ∀ t ∈ l.worklist, l.failed.contains t = !l.counted.contains t
  flagged : ∀ t ∈ l.flagged, t ∈ l.counted
  retriesLeft : l.retriesLeft ≤ retries
  answered : ∀ (t : Term) (n : Nat), l.counted[t]? = some n →
    ∃ k i, (service.reply t k).outcomeBy pace.deadline = .counted n i

theorem closed_of_ok {terms : List Term} {retries : Nat} {began : Instant} {probes : List Probe}
    (done : (Survey.sweeps pace service probes (.start (.start terms retries) began)).1 = .ok ()) :
    Closed pace service terms retries
      (Survey.sweeps pace service probes (.start (.start terms retries) began)).2.ledger := by
  obtain ⟨first, -, last⟩ := complete_of_ok done
  generalize (Survey.sweeps pace service probes (.start (.start terms retries) began)).2 = run
    at last ⊢
  have whole : Whole terms run.ledger := last ▸ whole_swept _
  have sound : run.ledger.Sound := last ▸ sound_swept _
  have drained : run.ledger.pending = [] := last ▸
    drained_after_sweeps (sound_phase .primary probes (sound_start terms retries))
      (pending_of_primary_complete probes _ first) _
  have done := done_of_whole whole sound drained
  have consistent := consistent_of_sound sound whole.worklist
  refine
    { worklist := whole.worklist, listed := whole.counted, parted := ?_
      flagged := consistent.flagged, retriesLeft := ?_, answered := ?_ }
  · intro t ht
    rw [Bool.eq_iff_iff, Std.ExtTreeSet.contains_iff_mem, Bool.not_eq_true',
      contains_counted_eq_false]
    rcases done.counted_or_failed t ht with ⟨counted, not_failed⟩ | ⟨failed, not_counted⟩
    · exact ⟨fun failed => absurd failed not_failed, fun not_counted => absurd counted not_counted⟩
    · exact ⟨fun _ => not_counted, fun _ => failed⟩
  · rw [last]
    exact retriesLeft_sweeps_le _ _
  · intro t n count
    have stands : StandsByLast pace service t run := last ▸ standsByLast_swept _ t
    exact stands.count_of_reply count

end Sweep
end Census
