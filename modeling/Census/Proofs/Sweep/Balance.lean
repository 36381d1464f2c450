import Census.Proofs.Ledger.Order
import Census.Proofs.Sweep.Passes

/-!
# Every search is accounted for

The ledger keeps three numbers apart: how many searches have been entered, how many failed for each
reason, and how many terms are counted. A search moves the first, and it moves one of the other two
as long as its term is uncounted and goes out once in its batch. A failure of a counted term would be
tallied, but a second count of it would be lost.

So the balance (`Balanced`) holds because of what a batch is made of, and it is proved pass by pass.
-/

namespace Census

namespace Ledger

open Sweep (Kind)

variable {l : Ledger} {t : Term}

/-- The outcome of an uncounted term adds to the counts or to the failures. -/
theorem size_add_total_record (new : t ∉ l.counted) (o : Outcome) :
    (l.record t o).counted.size + (l.record t o).tally.total
      = l.counted.size + l.tally.total + 1 := by
  have absent : ¬ l.counted.contains t = true := by
    rw [contains_counted_eq_false.mpr new]
    exact Bool.false_ne_true
  cases o with
  | counted n incomplete =>
    have size : (l.counted.insert t n).size = l.counted.size + 1 := by
      rw [Std.ExtTreeMap.size_insert]
      exact if_neg absent
    simp only [record, recordCount, if_neg absent, size]
    omega
  | failed r =>
    simp only [record, recordFailure, if_neg absent, Tally.total_add]
    omega

theorem mem_counted_record_of_ne {u : Term} (other : t ≠ u) (o : Outcome) :
    u ∈ (l.record t o).counted ↔ u ∈ l.counted := by
  rw [mem_counted_iff, standing_record, if_neg other, mem_counted_iff]

theorem size_add_total_recordAll {results : Results} (distinct : (results.map Prod.fst).Nodup)
    (new : ∀ t ∈ results.map Prod.fst, t ∉ l.counted) :
    (l.recordAll results).counted.size + (l.recordAll results).tally.total
      = l.counted.size + l.tally.total + results.length := by
  induction results generalizing l with
  | nil => rfl
  | cons r results ih =>
    rw [List.map_cons] at distinct new
    obtain ⟨once, distinct⟩ := List.nodup_cons.mp distinct
    obtain ⟨first, others⟩ := List.forall_mem_cons.mp new
    have still : ∀ t ∈ results.map Prod.fst, t ∉ (l.record r.1 r.2).counted := by
      intro t ht
      have other : r.1 ≠ t := fun same => once (same ▸ ht)
      rw [mem_counted_record_of_ne other]
      exact others t ht
    have here := size_add_total_record first r.2
    have later := ih distinct still
    rw [List.length_cons]
    show ((l.record r.1 r.2).recordAll results).counted.size
      + ((l.record r.1 r.2).recordAll results).tally.total = _
    omega

theorem count_tally_recordAll (l : Ledger) (results : Results) (reason : Reason) :
    (l.recordAll results).tally.count reason
      = l.tally.count reason + results.countP fun r => r.2 = .failed reason := by
  induction results generalizing l with
  | nil => rfl
  | cons r results ih =>
    show ((l.record r.1 r.2).recordAll results).tally.count reason = _
    rw [ih, tally_record, List.countP_cons]
    cases r.2 with
    | counted n incomplete => simp [tallied]
    | failed s =>
      rw [tallied, Tally.count_add]
      by_cases same : s = reason
      · simp only [same, if_true, decide_true]
        omega
      · simp [same]

theorem uncounted_takeOut {kind : Kind} {limit : Nat} (sound : l.Sound) (room : 0 < limit)
    (busy : ¬ l.Idle kind) (h : t ∈ (l.takeOut kind limit).1) : t ∉ l.counted := by
  have out := taken_takeOut sound room busy
  have uncounted := out.uncounted t h
  rwa [counted_readied] at uncounted

end Ledger

namespace Sweep

open Quota Ledger

/-! ## The searches of a run -/

namespace Reply

/-- Whether a search has failed for a reason by a deadline. One that is not over by then has failed
for `other`. -/
def FailsFor (r : Reply) (deadline : Span) (reason : Reason) : Prop :=
  (r.outcome = some (.failed reason) ∧ r.delay ≤ deadline)
    ∨ (reason = .other ∧ (r.outcome = none ∨ ¬ r.delay ≤ deadline))

instance (r : Reply) (deadline : Span) (reason : Reason) :
    Decidable (r.FailsFor deadline reason) := inferInstanceAs (Decidable (_ ∨ _))

theorem failsFor_iff {r : Reply} {deadline : Span} {reason : Reason} :
    r.FailsFor deadline reason ↔ r.outcomeBy deadline = .failed reason := by
  rw [FailsFor, outcomeBy]
  cases r.outcome with
  | none => simp [eq_comm]
  | some o => by_cases inTime : r.delay ≤ deadline <;> simp [inTime, eq_comm]

end Reply

/-- What came of the searches of a run, in the order in which they went out. -/
def searches (service : Service) (run : Run) : List (Term × Reply) :=
  service.replies (fun _ => 0) (batches run).flatten

theorem replies_append (service : Service) (asked : Term → Nat) (a b : List Term) :
    service.replies asked (a ++ b)
      = service.replies asked a ++ service.replies (fun t => asked t + a.count t) b := by
  induction a generalizing asked with
  | nil => rfl
  | cons t a ih =>
    have counts : (fun u => (if u = t then asked u + 1 else asked u) + a.count u)
        = fun u => asked u + (t :: a).count u := by
      funext u
      rw [List.count_cons]
      by_cases same : u = t
      · subst same
        simp only [if_true, beq_self_eq_true]
        omega
      · have other : ¬ (t == u) = true := fun h => same (eq_of_beq h).symm
        rw [if_neg same, if_neg other, Nat.add_zero]
    rw [List.cons_append, Service.replies, ih, counts, Service.replies, List.cons_append]

theorem searches_append (service : Service) {run run' : Run} {sent : List (List Term)}
    (went : batches run' = batches run ++ sent) :
    searches service run' = searches service run ++ service.replies run.asked sent.flatten := by
  have asked : (fun t => 0 + (batches run).flatten.count t) = run.asked := by
    funext t
    rw [Nat.zero_add, asked_eq_count]
  rw [searches, went, List.flatten_append, replies_append, asked, searches]

theorem countP_results (service : Service) (deadline : Span) (asked : Term → Nat)
    (batch : List Term) (reason : Reason) :
    (service.results deadline asked batch).countP (fun r => r.2 = .failed reason)
      = (service.replies asked batch).countP fun r => r.2.FailsFor deadline reason := by
  rw [Service.results, List.countP_map]
  refine List.countP_congr fun r _ => ?_
  simp only [Function.comp_apply, decide_eq_true_eq, Reply.failsFor_iff]

/-! ## Passes -/

section Passes

variable {kind : Kind} {service : Service} {deadline : Span} {asked : Term → Nat} {l last : Ledger}
  {sent : List (List Term)}

theorem Passes.attempts_eq (h : Passes kind service deadline asked l sent last) :
    last.attempts = l.attempts + sent.flatten.length := by
  induction h with
  | none asked l => rfl
  | @pass asked l last sent results limit room busy back more ih =>
    have length : results.length = (l.takeOut kind limit).1.length := by
      rw [← (map_fst_perm back).length_eq, List.length_map]
    have merged : ((l.takeOut kind limit).2.merge results).attempts
        = l.attempts + results.length := by rw [merge, attempts_takeOut]
    rw [ih, merged, length, List.flatten_cons, List.length_append, Nat.add_assoc]

theorem Passes.tally_eq (h : Passes kind service deadline asked l sent last) (reason : Reason) :
    last.tally.count reason = l.tally.count reason
      + (service.replies asked sent.flatten).countP fun r => r.2.FailsFor deadline reason := by
  induction h with
  | none asked l => rfl
  | @pass asked l last sent results limit room busy back more ih =>
    have entered : ((l.takeOut kind limit).2.merge results).tally.count reason
        = l.tally.count reason + results.countP fun r => r.2 = .failed reason := by
      rw [← tally_takeOut kind limit l]
      exact count_tally_recordAll _ results reason
    rw [ih, entered, back.countP_eq, countP_results, List.flatten_cons, replies_append,
      List.countP_append, Nat.add_assoc]

theorem Passes.size_add_total (h : Passes kind service deadline asked l sent last)
    (sound : l.Sound) :
    last.counted.size + last.tally.total
      = l.counted.size + l.tally.total + sent.flatten.length := by
  induction h with
  | none asked l => rfl
  | @pass asked l last sent results limit room busy back more ih =>
    -- No term of the batch is counted or comes twice, so each result adds one on the left.
    have out := taken_takeOut sound room busy
    have terms := map_fst_perm back
    have new : ∀ t ∈ results.map Prod.fst, t ∉ (l.takeOut kind limit).2.counted := by
      intro t ht
      rw [counted_takeOut]
      exact uncounted_takeOut sound room busy (terms.mem_iff.mp ht)
    have entered := size_add_total_recordAll (terms.nodup_iff.mpr out.nodup) new
    rw [counted_takeOut, tally_takeOut] at entered
    have length : results.length = (l.takeOut kind limit).1.length := by
      rw [← terms.length_eq, List.length_map]
    have later := ih (sound_merge out.sound results)
    rw [List.flatten_cons, List.length_append]
    show last.counted.size + last.tally.total = _
    rw [later, merge, entered, length, Nat.add_assoc]

end Passes

/-! ## Runs -/

/-- The ledger has every search of the run, the failed ones under their reasons, and each that is not
among these has brought a new count. -/
structure Balanced (pace : Pace) (service : Service) (run : Run) : Prop where
  attempts : run.ledger.attempts = (batches run).flatten.length
  tally : ∀ reason, run.ledger.tally.count reason
    = (searches service run).countP fun s => s.2.FailsFor pace.deadline reason
  total : run.ledger.attempts = run.ledger.counted.size + run.ledger.tally.total

variable {pace : Pace} {service : Service} {run : Run}

theorem balanced_start (pace : Pace) (service : Service) (terms : List Term) (retries : Nat)
    (began : Instant) : Balanced pace service (.start (.start terms retries) began) where
  attempts := rfl
  tally := by
    intro reason
    cases reason <;> rfl
  total := rfl

/-- A sweep keeps the balance, however it ends. -/
theorem balanced_phase (kind : Kind) (probes : List Probe) (sound : run.ledger.Sound)
    (h : Balanced pace service run) :
    Balanced pace service (phase kind pace service probes run).run := by
  obtain ⟨sent, last, went, passes, left⟩ := phase_passes kind pace service probes run
  have attempts := passes.attempts_eq
  refine ⟨?_, fun reason => ?_, ?_⟩
  · rw [left, attempts_readied, attempts, h.attempts, went, List.flatten_append,
      List.length_append]
  · rw [left, tally_readied, passes.tally_eq, h.tally, searches_append service went,
      List.countP_append]
  · have total := passes.size_add_total sound
    have before := h.total
    rw [left, attempts_readied, counted_readied, tally_readied]
    omega

/-- Whatever the probes find, whatever the searches come to and however the sweeps end, the searches
that have gone out are those that the ledger has entered, and each of them has brought a new count or
is tallied under the reason for which it failed. -/
theorem balanced_after_sweeps (terms : List Term) (retries : Nat) (began : Instant) (pace : Pace)
    (service : Service) (stages : List Stage) :
    Balanced pace service (sweeps pace service stages (.start (.start terms retries) began)) := by
  have general : ∀ (stages : List Stage) (run : Run), run.ledger.Sound →
      Balanced pace service run → Balanced pace service (sweeps pace service stages run) := by
    intro stages
    induction stages with
    | nil => exact fun _ _ h => h
    | cons s stages ih =>
      intro run sound h
      exact ih _ (sound_phase s.kind s.probes sound) (balanced_phase s.kind s.probes sound h)
  exact general stages _ (sound_start terms retries)
    (balanced_start pace service terms retries began)

end Sweep
end Census
