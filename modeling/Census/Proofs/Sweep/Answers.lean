import Census.Proofs.Ledger.Outcomes
import Census.Proofs.Sweep.Step

/-!
# What the ledger knows comes from the searches

The searches for a term are numbered in the order in which they go out. What the ledger says about
the term after sweeps is what the outcomes of these searches say, and nothing else: the term stands
by the last of them (`StandsByLast`). The outcomes are failures but for the last one, since a
counted term is never sent out again.
-/

namespace Census
namespace Sweep

open Quota Ledger

/-- What came of the searches for a term so far, in the order in which they went out. -/
def answers (pace : Pace) (service : Service) (run : Run) (t : Term) : List Outcome :=
  (List.range (run.asked t)).map fun n => (service.reply t n).outcomeBy pace.deadline

variable {pace : Pace} {service : Service} {run run' : Run} {t : Term}

theorem asked_eq_of_events (h : run'.events = run.events) : run'.asked t = run.asked t := by
  rw [Run.asked, h, Run.asked]

theorem Wait.asked_eq (h : Wait run run') : run'.asked t = run.asked t := by
  cases h with
  | idle _ events => exact asked_eq_of_events events
  | failed => exact asked_probe run none t
  | exhausted => exact asked_probe run (some 0) t

theorem Sent.asked_eq {batch : List Term} {rest : Ledger}
    (sent : Sent pace service run batch rest run') :
    run'.asked t = run.asked t + batch.count t := by
  rw [Run.asked, sent.events, Nat.add_comm]
  rfl

section Pass

variable {n : Nat} {batch : List Term} {rest : Ledger}

/-- A term that goes out has one more outcome. -/
theorem answers_of_mem_batch (taken : Taken run.ledger n batch rest)
    (sent : Sent pace service (run.probe (some n)) batch rest run') (h : t ∈ batch) :
    answers pace service run' t
      = answers pace service run t
        ++ [(service.reply t (run.asked t)).outcomeBy pace.deadline] := by
  have once : batch.count t = 1 := taken.nodup.count.trans (if_pos h)
  rw [answers, sent.asked_eq, asked_probe, once, List.range_succ, List.map_append,
    List.map_singleton]
  rfl

theorem answers_of_not_mem_batch
    (sent : Sent pace service (run.probe (some n)) batch rest run') (h : t ∉ batch) :
    answers pace service run' t = answers pace service run t := by
  rw [answers, sent.asked_eq, asked_probe, List.count_eq_zero_of_not_mem h, Nat.add_zero]
  rfl

end Pass

/-- The term stands by the last outcome of its searches, and only that one can be a count. -/
structure StandsByLast (pace : Pace) (service : Service) (t : Term) (run : Run) : Prop where
  standing : run.ledger.standing t
    = ((answers pace service run t).getLast?.map Standing.of).getD .unknown
  failures : ∀ o ∈ (answers pace service run t).dropLast, o.isCounted = false

theorem standsByLast_start (pace : Pace) (service : Service) (t : Term) (terms : List Term)
    (retries : Nat) (began : Instant) :
    StandsByLast pace service t (.start (.start terms retries) began) where
  standing := standing_start terms retries t
  failures := by
    intro o ho
    cases ho

/-- The outcomes of an uncounted term are failures, the last one too. -/
theorem StandsByLast.all_failures (h : StandsByLast pace service t run)
    (uncounted : t ∉ run.ledger.counted) {o : Outcome} (ho : o ∈ answers pace service run t) :
    o.isCounted = false := by
  rcases List.eq_nil_or_concat (answers pace service run t) with none | ⟨before, last, split⟩
  · rw [none] at ho
    cases ho
  · rw [List.concat_eq_append] at split
    have standing := h.standing
    have failures := h.failures
    rw [split, List.getLast?_concat, Option.map_some, Option.getD_some] at standing
    rw [split, List.dropLast_concat] at failures
    rw [split, List.mem_append, List.mem_singleton] at ho
    rcases ho with ho | rfl
    · exact failures o ho
    · rw [mem_counted_iff, standing] at uncounted
      cases o with
      | counted count incomplete => exact absurd rfl uncounted
      | failed r => rfl

theorem standsByLast_move (move : Move pace service run run')
    (h : StandsByLast pace service t run) : StandsByLast pace service t run' := by
  cases move with
  | wait hw =>
    have same : answers pace service run' t = answers pace service run t := by
      rw [answers, hw.asked_eq, answers]
    exact ⟨by rw [hw.ledger_eq, same, h.standing], by rw [same]; exact h.failures⟩
  | prune => exact ⟨h.standing, h.failures⟩
  | @pass run' batch rest n room taken sent =>
    -- A term that goes out is uncounted, so all that came before is a failure, and it stands by its
    -- new outcome. The standing of any other term stays, and so do its outcomes.
    by_cases hb : t ∈ batch
    · have more := answers_of_mem_batch taken sent hb
      constructor
      · rw [standing_of_mem_batch taken sent hb, more, List.getLast?_concat]
        rfl
      · rw [more, List.dropLast_concat]
        intro o ho
        exact h.all_failures (taken.uncounted t hb) ho
    · have same := answers_of_not_mem_batch sent hb
      constructor
      · rw [standing_of_not_mem_batch taken sent hb, same]
        exact h.standing
      · rw [same]
        exact h.failures

/-! ## The outcomes of a term and what is recorded of it -/

/-- The ledger has of `t` what `failures`, and then a count if there was one, leave behind. -/
structure Recorded (l : Ledger) (t : Term) (failures : List Reason)
    (success : Option (Nat × Bool)) : Prop where
  counted : l.counted[t]? = success.map Prod.fst
  flagged : t ∈ l.flagged ↔ ∃ n, success = some (n, true)
  failed : t ∈ l.failed ↔ failures ≠ [] ∧ success = none
  reason : t ∈ l.failed → l.reasons[t]? = failures.getLast?

theorem recorded_of_standing {l : Ledger} {failures : List Reason} {success : Option (Nat × Bool)}
    (h : l.standing t = match success with
      | some (n, incomplete) => .of (.counted n incomplete)
      | none => (failures.getLast?.map fun r => .of (.failed r)).getD .unknown) :
    Recorded l t failures success := by
  cases success with
  | some c =>
    obtain ⟨n, incomplete⟩ := c
    refine ⟨congrArg Standing.count h, ?_, ?_, ?_⟩
    · rw [mem_flagged_iff, h]
      simp [Standing.of]
    · rw [mem_failed_iff, h]
      simp [Standing.of]
    · intro hf
      rw [mem_failed_iff, h] at hf
      cases hf
  | none =>
    rcases List.eq_nil_or_concat failures with rfl | ⟨before, last, rfl⟩
    · refine ⟨congrArg Standing.count h, ?_, ?_, fun _ => congrArg Standing.reason h⟩
      · rw [mem_flagged_iff, h]
        simp [Standing.unknown]
      · rw [mem_failed_iff, h]
        simp [Standing.unknown]
    · rw [List.concat_eq_append] at h ⊢
      simp only [List.getLast?_concat, Option.map_some, Option.getD_some] at h
      refine ⟨congrArg Standing.count h, ?_, ?_, ?_⟩
      · rw [mem_flagged_iff, h]
        simp [Standing.of]
      · rw [mem_failed_iff, h]
        simp [Standing.of]
      · intro _
        rw [List.getLast?_concat]
        exact congrArg Standing.reason h

/-- The outcomes of the searches for a term are failures and then at most one count, which no search
follows, and the ledger has recorded exactly that. -/
theorem answers_recorded_after_sweeps (terms : List Term) (retries : Nat) (began : Instant)
    (pace : Pace) (service : Service) (stages : List Stage) (t : Term) :
    ∃ (failures : List Reason) (success : Option (Nat × Bool)),
      answers pace service (sweeps pace service stages (.start (.start terms retries) began)) t
        = failures.map Outcome.failed
          ++ success.toList.map (fun c => Outcome.counted c.1 c.2)
      ∧ Recorded (sweeps pace service stages (.start (.start terms retries) began)).ledger t
          failures success := by
  have h := swept_induction (P := StandsByLast pace service t)
    (fun _ move h => standsByLast_move move h) stages
    (standsByLast_start pace service t terms retries began)
  generalize sweeps pace service stages (.start (.start terms retries) began) = run at h
  obtain ⟨standing, failing⟩ := h
  rcases List.eq_nil_or_concat (answers pace service run t) with none | ⟨before, last, split⟩
  · refine ⟨[], Option.none, none, recorded_of_standing ?_⟩
    rw [standing, none]
    rfl
  · rw [List.concat_eq_append] at split
    rw [split, List.getLast?_concat] at standing
    rw [split, List.dropLast_concat] at failing
    obtain ⟨failures, rfl⟩ := exists_map_failed failing
    cases last with
    | counted n incomplete =>
      exact ⟨failures, some (n, incomplete), split, recorded_of_standing standing⟩
    | failed r =>
      refine ⟨failures ++ [r], Option.none, ?_, recorded_of_standing ?_⟩
      · rw [split, List.map_append]
        exact (List.append_nil _).symm
      · rw [standing, List.getLast?_concat]
        rfl

end Sweep
end Census
