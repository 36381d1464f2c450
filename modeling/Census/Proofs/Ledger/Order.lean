import Census.Proofs.Ledger.Standing
import Mathlib.Data.List.Nodup

/-!
# The order of results

Entering results is not independent of their order: of two counts of one term the first one stays,
and of two failures the reason of the last one. Outcomes of different terms do not meet, though
(`record_comm`), so the results of a batch without repeats can be entered in any order
(`merge_eq_of_perm`). The two ledgers are equal in everything, the tallies of failures too.
-/

namespace Census

theorem Tally.add_comm (t : Tally) (r s : Reason) : (t.add r).add s = (t.add s).add r := by
  cases r <;> cases s <;> rfl

namespace Ledger

/-- Two ledgers in which each term stands alike have the same collections. -/
theorem collections_eq {l l' : Ledger} (standing : ∀ t, l.standing t = l'.standing t) :
    l.counted = l'.counted ∧ l.failed = l'.failed ∧ l.reasons = l'.reasons
      ∧ l.flagged = l'.flagged := by
  refine ⟨?_, ?_, ?_, ?_⟩
  · exact Std.ExtTreeMap.ext_getElem? fun t => congrArg Standing.count (standing t)
  · exact Std.ExtTreeSet.ext_contains fun t => congrArg Standing.failed (standing t)
  · exact Std.ExtTreeMap.ext_getElem? fun t => congrArg Standing.reason (standing t)
  · exact Std.ExtTreeSet.ext_contains fun t => congrArg Standing.flagged (standing t)

/-- A ledger is known by the standing of each term and what does not belong to one term. -/
theorem eq_of_standing {l l' : Ledger} (standing : ∀ t, l.standing t = l'.standing t)
    (worklist : l.worklist = l'.worklist) (pending : l.pending = l'.pending)
    (retriesLeft : l.retriesLeft = l'.retriesLeft) (cursor : l.cursor = l'.cursor)
    (attempts : l.attempts = l'.attempts) (tally : l.tally = l'.tally) : l = l' := by
  obtain ⟨counted, failed, reasons, flagged⟩ := collections_eq standing
  cases l
  cases l'
  simp_all only

/-! ## What an outcome does beside the standing of its term -/

theorem attempts_record (l : Ledger) (t : Term) (o : Outcome) :
    (l.record t o).attempts = l.attempts := by
  cases o <;> simp only [record, recordCount, recordFailure] <;> split <;> rfl

def tallied (tally : Tally) : Outcome → Tally
  | .counted _ _ => tally
  | .failed r => tally.add r

theorem tallied_comm (tally : Tally) (o p : Outcome) :
    tallied (tallied tally o) p = tallied (tallied tally p) o := by
  cases o with
  | counted n i => rfl
  | failed r =>
    cases p with
    | counted n i => rfl
    | failed s => exact tally.add_comm r s

theorem tally_record (l : Ledger) (t : Term) (o : Outcome) :
    (l.record t o).tally = tallied l.tally o := by
  cases o <;> simp only [record, recordCount, recordFailure] <;> split <;> rfl

/-! ## Entering results in another order -/

/-- Outcomes of two terms can be entered in either order. -/
theorem record_comm (l : Ledger) {t u : Term} (h : t ≠ u) (o p : Outcome) :
    (l.record t o).record u p = (l.record u p).record t o := by
  refine eq_of_standing (fun v => ?_) ?_ ?_ ?_ ?_ ?_ ?_
  · rw [standing_record, standing_record, standing_record, standing_record]
    by_cases ht : t = v
    · have hu : u ≠ v := fun hu => h (ht.trans hu.symm)
      simp only [if_pos ht, if_neg hu]
    · simp only [if_neg ht]
  · simp only [record_worklist]
  · simp only [record_pending]
  · simp only [record_retriesLeft]
  · simp only [record_cursor]
  · simp only [attempts_record]
  · simp only [tally_record, tallied_comm]

/-- The results of a batch without repeats come to the same in any order. -/
theorem merge_eq_of_perm (l : Ledger) {results results' : Results} (perm : results.Perm results')
    (distinct : (results.map Prod.fst).Nodup) : l.merge results = l.merge results' := by
  have same : l.recordAll results = l.recordAll results' := by
    refine perm.foldl_eq' (fun r hr s hs z => ?_) l
    by_cases h : r.1 = s.1
    · -- A term has one result only.
      rw [List.inj_on_of_nodup_map distinct hr hs h]
    · exact z.record_comm h r.2 s.2
  rw [merge, merge, same, perm.length_eq]

end Ledger
end Census
