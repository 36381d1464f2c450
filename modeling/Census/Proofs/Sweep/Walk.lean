import Census.Proofs.Sweep.Advance
import Census.Proofs.Sweep.Effort
import Census.Proofs.Sweep.Keeping

/-!
# The primary sweep goes through the terms in their order

A repeat of a term is passed over when the term is counted or goes out in the same batch, and is
searched for again when the term has failed. However the quotas cut the pending terms, only repeats
are passed over, so the terms go out for the first time in the order in which they were given.

The invariant is about a list that is never built: all that has gone out, followed by all that is
pending. Its first copies are those of the input at every moment (`Passes.firsts_append_pending`).
-/

namespace Census

namespace Ledger

open Sweep (Kind)

/-! ## First copies of two lists -/

theorem firsts_append (a b : List Term) :
    firsts (a ++ b) = firsts a ++ (firsts b).filter fun t => t ∉ a := by
  have others : b.removeAll a = b.filter fun t => t ∉ a := by
    refine List.filter_congr fun t _ => ?_
    by_cases h : t ∈ a <;> simp [h]
  rw [firsts_eq_eraseDups, List.eraseDups_append, ← firsts_eq_eraseDups, ← firsts_eq_eraseDups,
    others, firsts_filter]

theorem firsts_append_congr (a : List Term) {b c : List Term} (h : firsts b = firsts c) :
    firsts (a ++ b) = firsts (a ++ c) := by
  rw [firsts_append, h, firsts_append]

/-- Terms that stand in front may be left out behind. -/
theorem firsts_append_filter {a b : List Term} {keep : Term → Bool}
    (h : ∀ t ∈ b, keep t = false → t ∈ a) : firsts (a ++ b.filter keep) = firsts (a ++ b) := by
  rw [firsts_append, firsts_append, firsts_filter, List.filter_filter]
  congr 1
  refine List.filter_congr fun t ht => ?_
  cases hk : keep t with
  | true => simp
  | false => simp [h t (mem_firsts.mp ht) hk]

theorem firsts_of_nodup {ts : List Term} (h : ts.Nodup) : firsts ts = ts := by
  induction ts with
  | nil => rfl
  | cons t ts ih =>
    obtain ⟨new, distinct⟩ := List.nodup_cons.mp h
    rw [firsts, ih distinct, List.filter_eq_self.mpr]
    intro u hu
    have other : u ≠ t := fun same => new (same ▸ hu)
    simp [other]

/-! ## The batch of the primary sweep -/

variable {l : Ledger} {limit : Nat}

theorem firsts_gather (counted : TermMap Nat) (limit : Nat) (inHand pending : List Term) :
    firsts ((gather counted limit inHand pending).1
        ++ (gather counted limit inHand pending).2.filter fun t => !counted.contains t)
      = firsts (inHand ++ pending.filter fun t => !counted.contains t) := by
  fun_induction gather counted limit inHand pending with
  | case1 inHand => rfl
  | case2 inHand t rest full => rfl
  | case3 inHand t rest notFull skipped ih =>
    rw [ih]
    by_cases hc : counted.contains t
    · rw [List.filter_cons_of_neg (by simp [hc])]
    · -- A term in hand is a repeat wherever it comes up again.
      have inHand : t ∈ inHand := skipped.resolve_left hc
      rw [List.filter_cons_of_pos (by simp [hc]), firsts_append, firsts_append, firsts,
        List.filter_cons_of_neg (by simp [inHand]), List.filter_filter]
      congr 1
      refine List.filter_congr fun u _ => ?_
      by_cases hu : u = t <;> simp [hu, inHand]
  | case4 inHand t rest notFull taken ih =>
    obtain ⟨uncounted, -⟩ := not_or.mp taken
    rw [ih, List.filter_cons_of_pos (by simp [uncounted]), List.append_assoc]
    rfl

theorem waiting_prune (l : Ledger) : l.prune.waiting = l.waiting := by
  rw [waiting, waiting, pending_prune, counted_prune, List.filter_filter]
  simp only [Bool.and_self]

theorem takeOut_primary_fst (l : Ledger) (limit : Nat) :
    (l.takeOut .primary limit).1 = l.waiting.take limit := by
  rw [takeOut, nextBatch_fst, waiting_prune]

/-- What is taken out and what is left make up what was waiting. -/
theorem firsts_takeOut_primary (l : Ledger) (limit : Nat) :
    firsts ((l.takeOut .primary limit).1
        ++ (l.takeOut .primary limit).2.pending.filter fun t => !l.counted.contains t)
      = l.waiting := by
  rw [← waiting_prune]
  exact firsts_gather l.counted limit [] l.prune.pending

end Ledger

namespace Sweep

open Quota Ledger

/-! ## Passes -/

section Passes

variable {kind : Kind} {service : Service} {deadline : Span} {asked : Term → Nat} {l last : Ledger}
  {sent : List (List Term)} {t : Term}

/-- Nothing is counted but what was counted before and what has gone out. -/
theorem mem_counted_back {limit : Nat} {results : Results}
    (back : results.Perm (service.results deadline asked (l.takeOut kind limit).1))
    (h : t ∈ ((l.takeOut kind limit).2.merge results).counted) :
    t ∈ l.counted ∨ t ∈ (l.takeOut kind limit).1 := by
  by_cases hb : t ∈ (l.takeOut kind limit).1
  · exact Or.inr hb
  · left
    have other : t ∉ results.map Prod.fst := fun hm => hb ((map_fst_perm back).mem_iff.mp hm)
    rw [mem_counted_iff, standing_merge_of_not_mem other, ← mem_counted_iff, counted_takeOut] at h
    exact h

/-- `before` is what went out before these passes. With all that is pending behind it, it has the
same first copies as what has gone out after them with all that is pending then. -/
theorem Passes.firsts_append_pending (h : Passes .primary service deadline asked l sent last)
    (before : List Term) (known : ∀ t ∈ l.counted, t ∈ before) :
    firsts (before ++ sent.flatten ++ last.pending) = firsts (before ++ l.pending)
      ∧ ∀ t ∈ last.counted, t ∈ before ++ sent.flatten := by
  induction h generalizing before with
  | none asked l => exact ⟨by rw [List.flatten_nil, List.append_nil], by simpa using known⟩
  | @pass asked l last sent results limit room busy back more ih =>
    have known' : ∀ t ∈ ((l.takeOut .primary limit).2.merge results).counted,
        t ∈ before ++ (l.takeOut .primary limit).1 := by
      intro t ht
      rw [List.mem_append]
      exact (mem_counted_back back ht).imp_left (known t)
    obtain ⟨same, later⟩ := ih _ known'
    rw [List.flatten_cons, ← List.append_assoc]
    refine ⟨same.trans ?_, later⟩
    -- What is counted has gone out, so it does not matter behind it whether pending terms that are
    -- counted are left out.
    have uncounted : ∀ t, (!l.counted.contains t) = false → t ∈ l.counted := fun t ht => by
      simpa using ht
    have without : firsts (before ++ (l.takeOut .primary limit).1
          ++ (l.takeOut .primary limit).2.pending.filter fun t => !l.counted.contains t)
        = firsts (before ++ (l.takeOut .primary limit).1
          ++ (l.takeOut .primary limit).2.pending) :=
      firsts_append_filter fun t _ ht => List.mem_append_left _ (known t (uncounted t ht))
    have parts : firsts ((l.takeOut .primary limit).1
          ++ (l.takeOut .primary limit).2.pending.filter fun t => !l.counted.contains t)
        = firsts (l.pending.filter fun t => !l.counted.contains t) := firsts_takeOut_primary l limit
    calc firsts (before ++ (l.takeOut .primary limit).1
          ++ ((l.takeOut .primary limit).2.merge results).pending)
        = firsts (before ++ ((l.takeOut .primary limit).1
          ++ (l.takeOut .primary limit).2.pending.filter fun t => !l.counted.contains t)) := by
          rw [merge_pending, ← without, List.append_assoc]
      _ = firsts (before ++ l.pending.filter fun t => !l.counted.contains t) :=
          firsts_append_congr before parts
      _ = firsts (before ++ l.pending) :=
          firsts_append_filter fun t _ ht => known t (uncounted t ht)

theorem Passes.retriesLeft_primary (h : Passes .primary service deadline asked l sent last) :
    last.retriesLeft = l.retriesLeft := by
  induction h with
  | none asked l => rfl
  | @pass asked l last sent results limit room busy back more ih =>
    rw [ih, merge_retriesLeft]
    rfl

/-- Of a list without repeats no term goes out twice. -/
theorem Passes.nodup_flatten (h : Passes .primary service deadline asked l sent last)
    (distinct : l.pending.Nodup) : sent.flatten.Nodup := by
  refine List.nodup_iff_count.mpr fun t => ?_
  have once := List.nodup_iff_count.mp distinct t
  have spent := h.count_le t
  have same := h.retriesLeft_primary
  omega

end Passes

/-! ## The whole sweep -/

/-- The batch takes from the front as many of the waiting terms as the quota allows. -/
structure Fills (l : Ledger) (n : Nat) (batch : List Term) : Prop where
  front : batch <+: l.waiting
  length : batch.length = min n l.waiting.length

theorem fills_of_takes {l : Ledger} {n : Nat} {batch : List Term} (h : Takes .primary l n batch) :
    Fills l n batch := by
  obtain ⟨-, rfl⟩ := h
  rw [takeOut_primary_fst]
  exact ⟨List.take_prefix _ _, List.length_take⟩

theorem firsts_batches_primary (pace : Pace) (service : Service) (probes : List Probe) {run : Run}
    (new : batches run = []) (uncounted : ∀ t, t ∉ run.ledger.counted)
    (complete : (phase .primary pace service probes run).ending = .complete) :
    firsts (batches (phase .primary pace service probes run).run).flatten
      = firsts run.ledger.pending := by
  obtain ⟨sent, last, went, passes, left⟩ := phase_passes .primary pace service probes run
  obtain ⟨same, out⟩ := passes.firsts_append_pending []
    fun t ht => absurd ht (uncounted t)
  simp only [List.nil_append] at same out
  -- What is still pending in the end is counted, so it has gone out.
  have done := idle_of_complete probes run complete
  rw [left, idle_readied] at done
  have gone : ∀ t ∈ last.pending, (!last.counted.contains t) = false → t ∈ sent.flatten := by
    intro t _ ht
    exact out t (by simpa using ht)
  have none_left : last.pending.filter (fun t => !last.counted.contains t) = [] := done
  rw [went, new, List.nil_append, ← same, ← firsts_append_filter gone, none_left, List.append_nil]

section Census

variable {pace : Pace} {service : Service} {terms : List Term} {retries : Nat} {began : Instant}
  {probes : List Probe}

theorem firsts_batches_census
    (complete : (phase .primary pace service probes
      (.start (.start terms retries) began)).ending = .complete) :
    firsts (batches (phase .primary pace service probes
      (.start (.start terms retries) began)).run).flatten = firsts terms := by
  have uncounted : ∀ t, t ∉ (Ledger.start terms retries).counted := by
    intro t ht
    rw [mem_counted_iff, standing_start] at ht
    cases ht
  exact firsts_batches_primary pace service probes rfl uncounted complete

/-- Terms without repeats go out in their order, each of them once. -/
theorem flatten_batches_of_nodup (distinct : terms.Nodup)
    (complete : (phase .primary pace service probes
      (.start (.start terms retries) began)).ending = .complete) :
    (batches (phase .primary pace service probes
      (.start (.start terms retries) began)).run).flatten = terms := by
  have same := firsts_batches_census complete
  obtain ⟨sent, last, went, passes, -⟩ :=
    phase_passes .primary pace service probes (.start (.start terms retries) began)
  have once : (batches (phase .primary pace service probes
      (.start (.start terms retries) began)).run).flatten.Nodup := by
    rw [went]
    exact passes.nodup_flatten distinct
  rw [← firsts_of_nodup once, same, firsts_of_nodup distinct]

end Census

/-- A completed primary sweep sends the terms out for the first time in the order in which they were
given. Probe by probe, each batch takes as many of the terms that wait as the quota allows, and when
no term was given twice the batches are the input, cut into pieces. -/
theorem walked_in_order (terms : List Term) (retries : Nat) (began : Instant) (pace : Pace)
    (service : Service) (probes : List Probe)
    (complete : (phase .primary pace service probes
      (.start (.start terms retries) began)).ending = .complete) :
    let run := (phase .primary pace service probes (.start (.start terms retries) began)).run
    let moment := moment .primary pace service probes (.start (.start terms retries) began)
    run.ledger.worklist = terms.eraseDups
      ∧ (batches run).flatten.eraseDups = run.ledger.worklist
      ∧ (trace (moment 0) = [] ∧ moment probes.length = run
        ∧ ∀ k, ∃ more, Advance (Fills (moment k).ledger) more
          ∧ trace (moment (k + 1)) = trace (moment k) ++ more)
      ∧ (terms.Nodup → (batches run).flatten = terms) := by
  intro run moment
  have worklist : run.ledger.worklist = terms.eraseDups :=
    (phase_induction (P := fun run => Whole terms run.ledger) (fun _ move h => whole_move move h)
      .primary probes (sound_start terms retries) (whole_start terms retries)).2.worklist
  refine ⟨worklist, ?_, ⟨trace_phase_nil _, moment_length probes _, fun k => ?_⟩, fun distinct =>
    flatten_batches_of_nodup distinct complete⟩
  · rw [worklist, ← firsts_eq_eraseDups, firsts_batches_census complete, firsts_eq_eraseDups]
  · obtain ⟨more, advance, same⟩ := advance_moment probes (.start (.start terms retries) began) k
    exact ⟨more, advance.imp fun _ _ => fills_of_takes, same⟩

/-- A term that failed is searched for again where it is repeated, and a counted one is not. -/
theorem walked_in_order_past_repeats :
    let pace := Pace.ofDeadline (.ofSeconds 10)
    let service := Service.inOrder fun t n =>
      .now (if t = "C" ∧ n = 0 then .failed .malformed else .counted t.length false)
    let probes := [1, 0, 2, 3].map fun n => Probe.giving (.ok ⟨n, .ofSeconds 0⟩)
    let start := Run.start (.start ["Go", "C", "Go", "Zig", "C"] 2) ⟨0⟩
    let sweep := phase .primary pace service probes start
    sweep.ending = .complete
      ∧ batches sweep.run = [["Go"], ["C", "Zig"], ["C"]]
      ∧ (batches sweep.run).flatten.eraseDups = sweep.run.ledger.worklist := by
  intro pace service probes start sweep
  have complete : sweep.ending = .complete := by decide +kernel
  have walked := walked_in_order ["Go", "C", "Go", "Zig", "C"] 2 ⟨0⟩ pace service probes complete
  exact ⟨complete, by decide +kernel, walked.2.1⟩

end Sweep
end Census
