import Census.Proofs.Ledger.Batch

/-!
# The queue of pending terms

A batch is taken off the front of the pending terms, and what is passed over on the way is lost to
them. When the limit is reached nothing more is looked at: the pending terms go on right behind the
last term of the batch, though they may begin with copies of it. Only a batch that stays below the
limit goes through all of them.

To prune the pending terms first makes a difference to what is passed over, but to neither the batch
nor what is left of the uncounted terms (`nextBatch_prune`).
-/

namespace Census
namespace Ledger

variable {counted : TermMap Nat} {limit : Nat} {inHand pending : List Term}

theorem gather_of_full (full : limit ≤ inHand.length) :
    gather counted limit inHand pending = (inHand, pending) := by
  cases pending with
  | nil => rw [gather]
  | cons t rest => rw [gather, if_pos full]

theorem gather_snd_of_short (short : (gather counted limit inHand pending).1.length < limit) :
    (gather counted limit inHand pending).2 = [] := by
  fun_induction gather counted limit inHand pending with
  | case1 inHand => rfl
  | case2 inHand t rest full => exact absurd short (Nat.not_lt.mpr full)
  | case3 inHand t rest notFull skipped ih => exact ih short
  | case4 inHand t rest notFull taken ih => exact ih short

/-- Gathering that comes to the limit ends right behind the first copy of the term it took last. -/
theorem gather_snd_of_full (room : inHand.length < limit)
    (full : limit ≤ (gather counted limit inHand pending).1.length) :
    ∃ passed last, pending = passed ++ last :: (gather counted limit inHand pending).2
      ∧ (gather counted limit inHand pending).1.getLast? = some last
      ∧ last ∉ passed ∧ ¬ (counted.contains last ∨ last ∈ inHand) := by
  fun_induction gather counted limit inHand pending with
  | case1 inHand => exact absurd full (Nat.not_le.mpr room)
  | case2 inHand t rest stop => exact absurd stop (Nat.not_le.mpr room)
  | case3 inHand t rest notFull skipped ih =>
    obtain ⟨passed, last, split, taken, first, new⟩ := ih room full
    have other : last ≠ t := fun same => new (same ▸ skipped)
    refine ⟨t :: passed, last, ?_, taken, List.not_mem_cons_of_ne_of_not_mem other first, new⟩
    rw [List.cons_append, ← split]
  | case4 inHand t rest notFull new ih =>
    by_cases more : (inHand ++ [t]).length < limit
    · -- The last term was not in hand yet when `t` was, so it is another one.
      obtain ⟨passed, last, split, taken, first, later⟩ := ih more full
      obtain ⟨uncounted, others⟩ := not_or.mp later
      obtain ⟨not_before, not_itself⟩ := not_or.mp (mt List.mem_append.mpr others)
      have other : last ≠ t := mt List.mem_singleton.mpr not_itself
      refine ⟨t :: passed, last, ?_, taken, List.not_mem_cons_of_ne_of_not_mem other first,
        not_or.mpr ⟨uncounted, not_before⟩⟩
      rw [List.cons_append, ← split]
    · rw [gather_of_full (Nat.not_lt.mp more)]
      exact ⟨[], t, rfl, List.getLast?_concat, List.not_mem_nil, new⟩

theorem gather_filter (counted : TermMap Nat) (limit : Nat) (inHand pending : List Term) :
    gather counted limit inHand (pending.filter fun t => !counted.contains t)
      = ((gather counted limit inHand pending).1,
          (gather counted limit inHand pending).2.filter fun t => !counted.contains t) := by
  fun_induction gather counted limit inHand pending with
  | case1 inHand => rfl
  | case2 inHand t rest full => exact gather_of_full full
  | case3 inHand t rest notFull skipped ih =>
    -- A counted term is dropped in either case, a copy of a term in hand by gathering alone.
    by_cases known : counted.contains t
    · rw [List.filter_cons_of_neg (by simp [known]), ih]
    · rw [List.filter_cons_of_pos (by simp [known]), gather, if_neg notFull, if_pos skipped, ih]
  | case4 inHand t rest notFull new ih =>
    obtain ⟨uncounted, -⟩ := not_or.mp new
    rw [List.filter_cons_of_pos (by simp [uncounted]), gather, if_neg notFull, if_neg new, ih]

theorem nextBatch_prune (l : Ledger) (limit : Nat) :
    l.prune.nextBatch limit = ((l.nextBatch limit).1, (l.nextBatch limit).2.prune) := by
  rw [nextBatch, pending_prune, counted_prune, gather_filter]
  rfl

/-- `batch` is what is taken off the front of the pending terms of `l` under a limit, and `rest` is
what is left. -/
structure OffFront (l : Ledger) (limit : Nat) (batch : List Term) (rest : Ledger) : Prop where
  terms : batch = (l.pending.filter fun t => !l.counted.contains t).eraseDups.take limit
  untouched : limit = 0 → rest.pending = l.pending
  /-- A batch as large as the limit ends where its last term comes up first. -/
  behind : batch.length = limit → ∀ last ∈ batch.getLast?,
    ∃ passed, last ∉ passed ∧ l.pending = passed ++ last :: rest.pending
  emptied : batch.length < limit → rest.pending = []
  dropped : ∃ passed, l.pending = passed ++ rest.pending
    ∧ ∀ t ∈ passed, t ∈ l.counted ∨ t ∈ batch
  elsewhere : rest = { l with pending := rest.pending }

/-- The next batch is made up of the first of the distinct uncounted terms that are pending, and it is
the same one when the pending terms are pruned before. -/
theorem nextBatch_off_front (l : Ledger) (limit : Nat) :
    OffFront l limit (l.nextBatch limit).1 (l.nextBatch limit).2
      ∧ l.prune.nextBatch limit = ((l.nextBatch limit).1, (l.nextBatch limit).2.prune) := by
  refine ⟨{ terms := ?_, untouched := ?_, behind := ?_, emptied := gather_snd_of_short
            dropped := l.nextBatch_split limit, elsewhere := rfl }, l.nextBatch_prune limit⟩
  · rw [nextBatch_fst, waiting, firsts_eq_eraseDups]
  · rintro rfl
    exact congrArg Prod.snd (gather_of_full (Nat.zero_le _))
  · intro whole last taken
    have room : ([] : List Term).length < limit := by
      rw [← whole]
      exact List.length_pos_of_mem (List.mem_of_getLast? taken)
    obtain ⟨passed, t, split, found, first, -⟩ := gather_snd_of_full room (Nat.le_of_eq whole.symm)
    obtain rfl : last = t := Option.some.inj (taken.symm.trans found)
    exact ⟨passed, first, split⟩

/-- The copy of `Go` that comes before `Zig` is lost, and the one behind it stays. -/
example : (start ["Go", "C", "Go", "Zig", "Go"] 0).nextBatch 3
    = (["Go", "C", "Zig"], { start ["Go", "C", "Go", "Zig", "Go"] 0 with pending := ["Go"] }) := by
  decide +kernel

end Ledger
end Census
