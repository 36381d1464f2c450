import Census.Proofs.Sweep.Step

/-!
# No term is lost

Between two batches every term of the worklist is pending, counted or failed, and the terms with a
reason are the failed ones. A batch that is out is in none of the three, but a sweep never stops
before the batch is back, so this holds after every sweep, whatever became of it.

Once a primary sweep has been completed nothing is pending any more, and each term of the worklist
is either counted or failed from then on.
-/

namespace Census
namespace Sweep

open Quota Ledger

/-- Nothing of `terms` is lost, and nothing else has come in. -/
structure Whole (terms : List Term) (l : Ledger) : Prop where
  worklist : l.worklist = terms.eraseDups
  kept : ∀ t ∈ l.worklist, t ∈ l.pending ∨ t ∈ l.counted ∨ t ∈ l.failed
  reasoned : ∀ t, t ∈ l.reasons ↔ t ∈ l.failed
  pending : ∀ t ∈ l.pending, t ∈ l.worklist
  counted : ∀ t ∈ l.counted, t ∈ l.worklist
  failed : ∀ t ∈ l.failed, t ∈ l.worklist

/-- Each term of the worklist is either counted or failed, and there is nothing left to start with.
-/
structure Done (l : Ledger) : Prop where
  drained : l.pending = []
  counted_or_failed : ∀ t ∈ l.worklist,
    (t ∈ l.counted ∧ t ∉ l.failed) ∨ (t ∈ l.failed ∧ t ∉ l.counted)
  settled : l.settled = true

theorem whole_start (terms : List Term) (retries : Nat) : Whole terms (start terms retries) where
  worklist := firsts_eq_eraseDups terms
  kept := fun _ h => Or.inl (mem_firsts.mp h)
  reasoned := by
    intro t
    rw [mem_reasons_iff, mem_failed_iff, standing_start]
    exact Iff.rfl
  pending := fun _ h => mem_firsts.mpr h
  counted := by
    intro t h
    rw [mem_counted_iff, standing_start] at h
    cases h
  failed := by
    intro t h
    rw [mem_failed_iff, standing_start] at h
    cases h

variable {pace : Pace} {service : Service} {terms : List Term}

theorem whole_prune {l : Ledger} (h : Whole terms l) : Whole terms l.prune where
  worklist := h.worklist
  kept := by
    intro t ht
    rcases h.kept t ht with hp | hc | hf
    · by_cases hc : t ∈ l.counted
      · exact Or.inr (Or.inl hc)
      · exact Or.inl (mem_prune_pending.mpr ⟨hp, hc⟩)
    · exact Or.inr (Or.inl hc)
    · exact Or.inr (Or.inr hf)
  reasoned := h.reasoned
  pending := fun t ht => h.pending t (mem_prune_pending.mp ht).1
  counted := h.counted
  failed := h.failed

/-- A pass loses nothing: what it took is counted or failed when it is back, and nothing else has
changed but that terms in its way were dropped, which were counted or in the batch. -/
theorem whole_pass {run run' : Run} {n : Nat} {batch : List Term} {rest : Ledger}
    (h : Whole terms run.ledger) (taken : Taken run.ledger n batch rest)
    (sent : Sent pace service (run.probe (some n)) batch rest run') : Whole terms run'.ledger := by
  have worklist : run'.ledger.worklist = run.ledger.worklist :=
    sent.worklist_eq.trans taken.worklist
  have listed : ∀ t ∈ batch, t ∈ run.ledger.worklist := by
    intro t ht
    rcases taken.known t ht with hp | hf
    · exact h.pending t hp
    · exact h.failed t hf
  refine
    { worklist := worklist.trans h.worklist, kept := ?_, reasoned := ?_, pending := ?_
      counted := ?_, failed := ?_ }
  · intro t ht
    rw [worklist] at ht
    rw [sent.pending_eq, mem_counted_iff, mem_failed_iff]
    -- A term of the batch is counted or failed now. Any other term is where it was, unless it was
    -- pending and has been dropped on the way to the batch.
    by_cases hb : t ∈ batch
    · rw [standing_of_mem_batch taken sent hb, Standing.count_of]
      cases Standing.failed (.of _) <;> simp
    · rw [standing_of_not_mem_batch taken sent hb, ← mem_counted_iff, ← mem_failed_iff]
      rcases h.kept t ht with hp | hc | hf
      · rcases taken.kept t hp with hp | hc | hb'
        · exact Or.inl hp
        · exact Or.inr (Or.inl hc)
        · exact absurd hb' hb
      · exact Or.inr (Or.inl hc)
      · exact Or.inr (Or.inr hf)
  · intro t
    rw [mem_reasons_iff, mem_failed_iff]
    by_cases hb : t ∈ batch
    · rw [standing_of_mem_batch taken sent hb, Standing.reason_of]
    · rw [standing_of_not_mem_batch taken sent hb, ← mem_reasons_iff, ← mem_failed_iff]
      exact h.reasoned t
  · intro t ht
    rw [sent.pending_eq] at ht
    rw [worklist]
    exact h.pending t (taken.pending.subset ht)
  · intro t ht
    rw [worklist]
    by_cases hb : t ∈ batch
    · exact listed t hb
    · rw [mem_counted_iff, standing_of_not_mem_batch taken sent hb] at ht
      exact h.counted t (mem_counted_iff.mpr ht)
  · intro t ht
    rw [worklist]
    by_cases hb : t ∈ batch
    · exact listed t hb
    · rw [mem_failed_iff, standing_of_not_mem_batch taken sent hb] at ht
      exact h.failed t (mem_failed_iff.mpr ht)

theorem whole_move {run run' : Run} (move : Move pace service run run')
    (h : Whole terms run.ledger) : Whole terms run'.ledger := by
  cases move with
  | wait hw => rwa [hw.ledger_eq]
  | prune => exact whole_prune h
  | pass n room taken sent => exact whole_pass h taken sent

/-- Nothing joins the pending terms on the way, so once there is none there is none any more. -/
theorem drained_move {run run' : Run} (move : Move pace service run run')
    (h : run.ledger.pending = []) : run'.ledger.pending = [] := by
  cases move with
  | wait hw => rwa [hw.ledger_eq]
  | prune =>
    show run.ledger.pending.filter _ = []
    rw [h]
    rfl
  | pass n room taken sent =>
    rw [sent.pending_eq]
    exact List.sublist_nil.mp (h ▸ taken.pending)

theorem drained_after_sweeps {run : Run} (sound : run.ledger.Sound) (h : run.ledger.pending = [])
    (stages : List Stage) : (sweeps pace service stages run).ledger.pending = [] :=
  (sweeps_induction (P := fun run => run.ledger.pending = []) (fun _ move h => drained_move move h)
    stages sound h).2

theorem pending_of_primary_complete (probes : List Probe) (run : Run)
    (h : (primary pace service probes run).ending = .complete) :
    (primary pace service probes run).run.ledger.pending = [] := by
  fun_induction primary pace service probes run with
  | case1 probes run pruned done => exact done
  | case2 probes run pruned waits w granted rest awaited ih => exact ih h
  | case3 probes run pruned waits f stopped rest awaited => cases h
  | case4 probes run pruned waits w stopped rest awaited => cases h
  | case5 probes run pruned waits stopped awaited => cases h

theorem done_of_whole {l : Ledger} (whole : Whole terms l) (sound : l.Sound)
    (drained : l.pending = []) : Done l := by
  have one : ∀ t ∈ l.worklist,
      (t ∈ l.counted ∧ t ∉ l.failed) ∨ (t ∈ l.failed ∧ t ∉ l.counted) := by
    intro t ht
    have consistent := consistent_of_sound sound whole.worklist
    rcases whole.kept t ht with hp | hc | hf
    · rw [drained] at hp
      cases hp
    · exact Or.inl ⟨hc, consistent.apart t hc⟩
    · exact Or.inr ⟨hf, fun hc => consistent.apart t hc hf⟩
  refine ⟨drained, one, settled_iff.mpr fun t ht => ?_⟩
  rcases one t ht with ⟨hc, hf⟩ | ⟨hf, hc⟩
  · exact ⟨fun _ => hf, fun _ => hc⟩
  · exact ⟨fun hc' => absurd hc' hc, fun hf' => absurd hf hf'⟩

/-- After any sweeps, completed or not, no term is lost, and after a completed primary sweep and any
further sweeps each term of the worklist is either counted or failed. -/
theorem whole_and_done_after_sweeps (terms : List Term) (retries : Nat) (began : Instant)
    (pace : Pace) (service : Service) (stages : List Stage) :
    Whole terms (sweeps pace service stages (.start (.start terms retries) began)).ledger
      ∧ ∀ (probes : List Probe) (later : List Stage),
        (phase .primary pace service probes
          (sweeps pace service stages (.start (.start terms retries) began))).ending = .complete →
        Done (sweeps pace service (stages ++ ⟨.primary, probes⟩ :: later)
          (.start (.start terms retries) began)).ledger := by
  have kept : ∀ stages : List Stage, Whole terms
      (sweeps pace service stages (.start (.start terms retries) began)).ledger :=
    fun stages => swept_induction (P := fun run => Whole terms run.ledger)
      (fun _ move h => whole_move move h) stages (whole_start terms retries)
  refine ⟨kept stages, fun probes later complete => done_of_whole (kept _) (sound_swept _) ?_⟩
  -- All but the pending terms is known after any sweeps. These are followed from the completed
  -- sweep on.
  rw [sweeps_append]
  have drained := pending_of_primary_complete probes _ complete
  exact drained_after_sweeps (sound_phase .primary probes (sound_swept stages)) drained later

end Sweep
end Census
