import Census.Proofs.Ledger.Batch

/-!
# Histories of a ledger

A ledger is worked on through five operations, and nothing obliges a caller to bring back the batch
that was taken, to bring it back once, or to enter results for terms of the batch only. Whatever the
operations are and in whichever order they come, the collections of the ledger fit together
(`Consistent`) and a later ledger agrees with an earlier one on all that was counted by then
(`Leads`).
-/

namespace Census

/-- Something that is done to a ledger. -/
inductive Operation
  | prune
  | nextBatch (limit : Nat)
  | takeRetry (limit : Nat)
  | spendRetry
  | merge (results : Results)

namespace Ledger

/-- The ledger after an operation. A batch that is taken is no longer part of it. -/
def apply (l : Ledger) : Operation → Ledger
  | .prune => l.prune
  | .nextBatch limit => (l.nextBatch limit).2
  | .takeRetry limit => (l.takeRetry limit).2
  | .spendRetry => l.spendRetry
  | .merge results => l.merge results

/-- The ledger after operations. -/
def after (l : Ledger) (ops : List Operation) : Ledger := ops.foldl apply l

theorem after_append (l : Ledger) (a b : List Operation) : l.after (a ++ b) = (l.after a).after b :=
  List.foldl_append

/-! ## What holds of every ledger -/

/-- The collections of a ledger over `terms` fit together. -/
structure Consistent (terms : List Term) (l : Ledger) : Prop where
  apart : ∀ t ∈ l.counted, t ∉ l.failed
  reasoned : ∀ t ∈ l.failed, t ∈ l.reasons
  cleared : ∀ t ∈ l.counted, t ∉ l.reasons
  flagged : ∀ t ∈ l.flagged, t ∈ l.counted
  worklist : l.worklist = terms.eraseDups

/-- The collections fit together when the standing of each term is sound. -/
theorem consistent_of_sound {terms : List Term} {l : Ledger} (sound : l.Sound)
    (worklist : l.worklist = terms.eraseDups) : Consistent terms l where
  apart := by
    intro t hc hf
    have h := ((sound t).counted (mem_counted_iff.mp hc)).1
    rw [mem_failed_iff.mp hf] at h
    cases h
  reasoned := fun t hf => mem_reasons_iff.mpr ((sound t).failed (mem_failed_iff.mp hf))
  cleared := by
    intro t hc hr
    have h := mem_reasons_iff.mp hr
    rw [((sound t).counted (mem_counted_iff.mp hc)).2] at h
    cases h
  flagged := fun t hf => mem_counted_iff.mpr ((sound t).flagged (mem_flagged_iff.mp hf))
  worklist := worklist

theorem sound_apply {l : Ledger} (h : l.Sound) (op : Operation) : (l.apply op).Sound := by
  cases op with
  | prune => exact h
  | nextBatch limit => exact h
  | takeRetry limit => exact sound_takeRetry h limit
  | spendRetry => exact h
  | merge results => exact sound_merge h results

theorem sound_after {l : Ledger} (h : l.Sound) (ops : List Operation) : (l.after ops).Sound := by
  induction ops generalizing l with
  | nil => exact h
  | cons op ops ih => exact ih (sound_apply h op)

@[simp] theorem apply_worklist (l : Ledger) (op : Operation) :
    (l.apply op).worklist = l.worklist := by
  cases op with
  | merge results => exact merge_worklist l results
  | _ => rfl

@[simp] theorem after_worklist (l : Ledger) (ops : List Operation) :
    (l.after ops).worklist = l.worklist := by
  induction ops generalizing l with
  | nil => rfl
  | cons op ops ih => exact (ih (l.apply op)).trans (l.apply_worklist op)

/-! ## What holds between an earlier and a later ledger -/

/-- What is settled in `l` is settled in the same way in `l'`, and nothing is added to what is left
to do. -/
structure Leads (l l' : Ledger) : Prop where
  counted : ∀ (t : Term) (n : Nat), l.counted[t]? = some n → l'.counted[t]? = some n
  flagged : ∀ t ∈ l.counted, (t ∈ l'.flagged ↔ t ∈ l.flagged)
  pending : l'.pending.Sublist l.pending
  retriesLeft : l'.retriesLeft ≤ l.retriesLeft

namespace Leads

theorem refl (l : Ledger) : Leads l l where
  counted := fun _ _ h => h
  flagged := fun _ _ => Iff.rfl
  pending := List.Sublist.refl _
  retriesLeft := Nat.le_refl _

theorem mem_counted {l l' : Ledger} (h : Leads l l') {t : Term} (ht : t ∈ l.counted) :
    t ∈ l'.counted := by
  obtain ⟨n, hn⟩ := Option.isSome_iff_exists.mp (mem_counted_iff.mp ht)
  rw [mem_counted_iff, count_standing, h.counted t n hn]
  rfl

theorem trans {a b c : Ledger} (h : Leads a b) (h' : Leads b c) : Leads a c where
  counted := fun t n ht => h'.counted t n (h.counted t n ht)
  flagged := fun t ht => (h'.flagged t (h.mem_counted ht)).trans (h.flagged t ht)
  pending := h'.pending.trans h.pending
  retriesLeft := Nat.le_trans h'.retriesLeft h.retriesLeft

end Leads

theorem leads_merge (l : Ledger) (results : Results) : Leads l (l.merge results) where
  counted := by
    intro t n hn
    have known : t ∈ l.counted := by
      rw [mem_counted_iff, count_standing, hn]
      rfl
    have h := (recordAll_of_counted known results).1
    exact h.trans hn
  flagged := by
    intro t ht
    rw [mem_flagged_iff, mem_flagged_iff, standing_merge, (recordAll_of_counted ht results).2]
  pending := by simp only [merge_pending, List.Sublist.refl]
  retriesLeft := Nat.le_of_eq (merge_retriesLeft l results)

theorem leads_apply (l : Ledger) (op : Operation) : Leads l (l.apply op) := by
  cases op with
  | prune => exact { Leads.refl l with pending := List.filter_sublist }
  | nextBatch limit =>
    -- What is left after a batch is an end piece of what was pending.
    obtain ⟨dropped, split, -⟩ := l.nextBatch_split limit
    refine { Leads.refl l with pending := ?_ }
    rw [apply, split]
    exact List.sublist_append_right _ _
  | takeRetry limit => exact { Leads.refl l with }
  | spendRetry => exact { Leads.refl l with retriesLeft := Nat.sub_le _ _ }
  | merge results => exact leads_merge l results

theorem leads_after (l : Ledger) (ops : List Operation) : Leads l (l.after ops) := by
  induction ops generalizing l with
  | nil => exact Leads.refl l
  | cons op ops ih => exact (leads_apply l op).trans (ih (l.apply op))

/-- Whatever is done to a new ledger, its collections fit together, and whatever is done to it from
then on, counts and their flags stay, nothing joins the pending terms, and no pass comes back. -/
theorem consistent_and_leads_after (terms : List Term) (retries : Nat)
    (ops later : List Operation) :
    Consistent terms ((start terms retries).after ops)
      ∧ Leads ((start terms retries).after ops) ((start terms retries).after (ops ++ later)) := by
  constructor
  · refine consistent_of_sound (sound_after (sound_start terms retries) ops) ?_
    rw [after_worklist]
    exact firsts_eq_eraseDups terms
  · rw [after_append]
    exact leads_after _ later

end Ledger
end Census
