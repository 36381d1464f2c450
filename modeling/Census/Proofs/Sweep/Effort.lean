import Census.Proofs.Sweep.Passes

/-!
# How often a term is searched for

A pass of the retry sweep costs one of the passes that are left, and nothing else does. A pass of
the primary sweep costs one place among the pending terms for each term that goes out. So for each
term the places and the passes that are left go down at least as fast as it is searched for, in a
sweep of either kind (`Passes.count_le`).
-/

namespace Census

namespace Ledger

open Sweep (Kind)

theorem gather_count_le (counted : TermMap Nat) (limit : Nat) (inHand pending : List Term)
    (t : Term) :
    (gather counted limit inHand pending).1.count t
        + (gather counted limit inHand pending).2.count t
      ≤ inHand.count t + pending.count t := by
  fun_induction gather counted limit inHand pending with
  | case1 inHand => exact Nat.le_refl _
  | case2 inHand u rest full => exact Nat.le_refl _
  | case3 inHand u rest notFull skipped ih =>
    rw [List.count_cons]
    omega
  | case4 inHand u rest notFull taken ih =>
    rw [List.count_append, List.count_singleton] at ih
    rw [List.count_cons]
    omega

/-- A term that goes out costs a place among the pending terms or a pass. -/
theorem count_takeOut_le {kind : Kind} {l : Ledger} (limit : Nat) (busy : ¬ l.Idle kind)
    (t : Term) :
    (l.takeOut kind limit).1.count t
        + ((l.takeOut kind limit).2.pending.count t + (l.takeOut kind limit).2.retriesLeft)
      ≤ l.pending.count t + l.retriesLeft := by
  cases kind with
  | primary =>
    have taken : (l.takeOut .primary limit).1.count t + (l.takeOut .primary limit).2.pending.count t
        ≤ 0 + l.prune.pending.count t := gather_count_le l.counted limit [] l.prune.pending t
    have pruned : l.prune.pending.count t ≤ l.pending.count t :=
      List.filter_sublist.count_le t
    have left : (l.takeOut .primary limit).2.retriesLeft = l.retriesLeft := rfl
    omega
  | retry =>
    obtain ⟨passes, -⟩ := not_or.mp busy
    have once : (l.takeOut .retry limit).1.count t ≤ 1 :=
      List.nodup_iff_count.mp (nodup_takeOut limit) t
    have pending : (l.takeOut .retry limit).2.pending = l.pending := rfl
    have left : (l.takeOut .retry limit).2.retriesLeft = l.retriesLeft - 1 := rfl
    rw [pending, left]
    omega

end Ledger

namespace Sweep

open Quota Ledger

variable {kind : Kind} {service : Service} {deadline : Span} {asked : Term → Nat} {l last : Ledger}
  {sent : List (List Term)}

theorem Passes.nonempty (h : Passes kind service deadline asked l sent last) :
    ∀ batch ∈ sent, 0 < batch.length := by
  induction h with
  | none asked l => simp
  | @pass asked l last sent results limit room busy back more ih =>
    intro b hb
    rcases List.mem_cons.mp hb with rfl | hb
    · exact List.length_pos_iff.mpr (takeOut_ne_nil room busy)
    · exact ih b hb

theorem Passes.length_add_retriesLeft (h : Passes .retry service deadline asked l sent last) :
    sent.length + last.retriesLeft = l.retriesLeft := by
  induction h with
  | none asked l => exact Nat.zero_add _
  | @pass asked l last sent results limit room busy back more ih =>
    obtain ⟨passes, -⟩ := not_or.mp busy
    have left : (l.takeOut .retry limit).2.retriesLeft = l.retriesLeft - 1 := rfl
    rw [merge_retriesLeft, left] at ih
    rw [List.length_cons]
    omega

theorem Passes.count_le (h : Passes kind service deadline asked l sent last) (t : Term) :
    sent.flatten.count t + (last.pending.count t + last.retriesLeft)
      ≤ l.pending.count t + l.retriesLeft := by
  induction h with
  | none asked l => exact Nat.le_of_eq (Nat.zero_add _)
  | @pass asked l last sent results limit room busy back more ih =>
    have spent := count_takeOut_le limit busy t
    rw [merge_pending, merge_retriesLeft] at ih
    rw [List.flatten_cons, List.count_append]
    omega

theorem asked_phase_le (pace : Pace) (service : Service) (kind : Kind) (probes : List Probe)
    (run : Run) (t : Term) :
    (phase kind pace service probes run).run.asked t
        + ((phase kind pace service probes run).run.ledger.pending.count t
          + (phase kind pace service probes run).run.ledger.retriesLeft)
      ≤ run.asked t + (run.ledger.pending.count t + run.ledger.retriesLeft) := by
  obtain ⟨sent, last, went, passes, left⟩ := phase_passes kind pace service probes run
  have asked := asked_of_batches went t
  -- Making the ledger ready for the next wait may drop places of the term as well.
  have places : (last.readied kind).pending.count t ≤ last.pending.count t := by
    cases kind with
    | primary => exact List.filter_sublist.count_le t
    | retry => exact Nat.le_refl _
  have same : (last.readied kind).retriesLeft = last.retriesLeft := by cases kind <;> rfl
  have spent := passes.count_le t
  rw [asked, left, same]
  omega

theorem asked_sweeps_le (pace : Pace) (service : Service) (stages : List Stage) (run : Run)
    (t : Term) :
    (sweeps pace service stages run).asked t
      ≤ run.asked t + (run.ledger.pending.count t + run.ledger.retriesLeft) := by
  induction stages generalizing run with
  | nil => exact Nat.le_add_right _ _
  | cons s stages ih =>
    have first := asked_phase_le pace service s.kind s.probes run t
    exact Nat.le_trans (ih _) first

/-- What a retry sweep has spent on `sent`, however it ended. -/
structure Spent (run : Run) (phase : Phase) (sent : List (List Term)) : Prop where
  out : batches phase.run = batches run ++ sent
  within : sent.length ≤ run.ledger.retriesLeft
  some_out : ∀ batch ∈ sent, 0 < batch.length
  retriesLeft : phase.run.ledger.retriesLeft = run.ledger.retriesLeft - sent.length
  complete : phase.ending = .complete →
    phase.run.ledger.failed.isEmpty ∨ phase.run.ledger.retriesLeft = 0

/-- A retry sweep spends one pass on each batch and none on anything else, and it is completed only
when no term is failed or no pass is left. After any sweeps, a primary and a retry sweep among them,
a term has been searched for at most once for each time it was given and once for each pass. -/
theorem spent_and_asked_le (pace : Pace) (service : Service) :
    (∀ (run : Run) (probes : List Probe), ∃ sent,
        Spent run (phase .retry pace service probes run) sent)
      ∧ ∀ (terms : List Term) (retries : Nat) (began : Instant) (stages : List Stage) (t : Term),
        (sweeps pace service stages (.start (.start terms retries) began)).asked t
          ≤ terms.count t + retries := by
  constructor
  · intro run probes
    obtain ⟨sent, last, went, passes, left⟩ := phase_passes .retry pace service probes run
    have spent := passes.length_add_retriesLeft
    rw [readied] at left
    refine ⟨sent, went, by omega, passes.nonempty, by rw [left]; omega, fun complete => ?_⟩
    exact (idle_of_complete probes run complete).symm
  · intro terms retries began stages t
    have bound := asked_sweeps_le pace service stages
      (.start (.start terms retries) began) t
    have fresh : (Run.start (.start terms retries) began).asked t = 0 := rfl
    rwa [fresh, Nat.zero_add] at bound

end Sweep
end Census
