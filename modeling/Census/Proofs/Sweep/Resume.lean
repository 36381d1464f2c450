import Census.Proofs.Sweep.Effort
import Census.Proofs.Sweep.Replay

/-!
# Sweeps that are stopped and made again

A sweep waits for quota before it touches the ledger, so a wait that fails leaves the ledger as the
last pass left it, and nothing is out (`Kept`). Making the same sweep again from there is going on
with it: by `replay` the two sweeps come to what one does that is never stopped. Its probes are those
of the two that were answered, which for steady probes are the answered ones of the script
(`phase_made`).
-/

namespace Census

namespace Ledger

open Sweep (Kind)

/-- Whether a term has been entered with its last outcome. -/
def Entered (l : Ledger) (t : Term) : Prop := t ∈ l.counted ∨ t ∈ l.failed

/-- Whether a term is in the hands of the ledger. -/
def Holds (l : Ledger) (t : Term) : Prop := t ∈ l.pending ∨ l.Entered t

theorem entered_iff {l : Ledger} {t : Term} :
    l.Entered t ↔ (l.standing t).count.isSome ∨ (l.standing t).failed = true := by
  rw [Entered, mem_counted_iff, mem_failed_iff]

variable {kind : Kind} {l : Ledger} {limit : Nat} {t : Term}

theorem entered_readied : (l.readied kind).Entered t ↔ l.Entered t := by
  rw [entered_iff, standing_readied, entered_iff]

theorem holds_readied (kind : Kind) (h : l.Holds t) : (l.readied kind).Holds t := by
  cases kind with
  | primary =>
    rcases h with pending | entered
    · by_cases counted : t ∈ l.counted
      · exact Or.inr (Or.inl counted)
      · exact Or.inl (mem_prune_pending.mpr ⟨pending, counted⟩)
    · exact Or.inr entered
  | retry => exact h

/-- Taking a batch leaves a term that is not in it as it was. -/
theorem standing_takeOut (h : t ∉ (l.takeOut kind limit).1) :
    (l.takeOut kind limit).2.standing t = l.standing t := by
  cases kind with
  | primary => rfl
  | retry =>
    rw [takeOut] at h ⊢
    rw [standing_takeRetry, decide_eq_true h, Bool.and_true]
    rfl

theorem holds_takeOut (h : l.Holds t) (other : t ∉ (l.takeOut kind limit).1) :
    (l.takeOut kind limit).2.Holds t := by
  have entered (h : l.Entered t) : (l.takeOut kind limit).2.Holds t := by
    right
    rwa [entered_iff, standing_takeOut other, ← entered_iff]
  cases kind with
  | primary =>
    rcases holds_readied .primary h with pending | h
    · obtain ⟨dropped, split, gone⟩ := l.prune.nextBatch_split limit
      have parts : t ∈ dropped ∨ t ∈ (l.takeOut .primary limit).2.pending := by
        rw [← List.mem_append, takeOut, ← split]
        exact pending
      rcases parts with passed | kept
      · exact entered (Or.inl ((gone t passed).resolve_right other))
      · exact Or.inl kept
    · exact entered h
  | retry =>
    rcases h with pending | h
    · exact Or.inl pending
    · exact entered h

section Merge

variable {results : Results} {batch : List Term} (back : (results.map Prod.fst).Perm batch)

include back

theorem entered_merge_of_mem (distinct : batch.Nodup) (h : t ∈ batch) :
    (l.merge results).Entered t := by
  obtain ⟨⟨u, o⟩, result, rfl⟩ := List.mem_map.mp (back.mem_iff.mpr h)
  rw [entered_iff, standing_merge_of_mem (back.nodup_iff.mpr distinct) result]
  cases o with
  | counted n incomplete =>
    left
    by_cases known : (l.standing u).count.isSome
    · rw [(Standing.enter_of_counted known _).1]
      exact known
    · rw [Standing.enter, if_neg known]
      rfl
  | failed r =>
    by_cases known : (l.standing u).count.isSome
    · left
      rw [(Standing.enter_of_counted known _).1]
      exact known
    · right
      rw [Standing.enter, if_neg known]

theorem standing_merge_of_other (h : t ∉ batch) : (l.merge results).standing t = l.standing t :=
  standing_merge_of_not_mem fun hm => h (back.mem_iff.mp hm)

end Merge

end Ledger

namespace Sweep

open Quota Log Ledger Relation

/-! ## Where a sweep stops -/

section Passes

variable {kind : Kind} {service : Service} {deadline : Span} {asked : Term → Nat} {l last : Ledger}
  {sent : List (List Term)} {t : Term}

theorem Passes.entered (h : Passes kind service deadline asked l sent last)
    (known : l.Entered t ∨ t ∈ sent.flatten) : last.Entered t := by
  induction h with
  | none asked l => exact known.resolve_right (by simp)
  | @pass asked l last sent results limit room busy back more ih =>
    have terms := map_fst_perm back
    refine ih ?_
    by_cases hb : t ∈ (l.takeOut kind limit).1
    · exact Or.inl (entered_merge_of_mem terms (nodup_takeOut limit) hb)
    · rw [List.flatten_cons, List.mem_append, or_iff_right hb] at known
      refine known.imp_left fun h => ?_
      rwa [entered_iff, standing_merge_of_other terms hb, standing_takeOut hb, ← entered_iff]

theorem Passes.holds (h : Passes kind service deadline asked l sent last) (held : l.Holds t) :
    last.Holds t := by
  induction h with
  | none asked l => exact held
  | @pass asked l last sent results limit room busy back more ih =>
    -- A term of the batch is entered when the batch is back, and any other stays where it was.
    have terms := map_fst_perm back
    refine ih ?_
    by_cases hb : t ∈ (l.takeOut kind limit).1
    · exact Or.inr (entered_merge_of_mem terms (nodup_takeOut limit) hb)
    · have still := holds_takeOut held hb
      rw [Holds, entered_iff] at still ⊢
      rwa [merge_pending, standing_merge_of_other terms hb]

end Passes

/-- A sweep that began at `run` has left `after` between two passes: `sent` has gone out, and `last`
is the ledger after the last batch of it was entered. -/
structure Kept (kind : Kind) (pace : Pace) (service : Service) (run after : Run)
    (sent : List (List Term)) (last : Ledger) : Prop where
  out : batches after = batches run ++ sent
  passes : Passes kind service pace.deadline run.asked run.ledger sent last
  none_out : sent = [] → last = run.ledger
  left : after.ledger = last.readied kind
  entered : ∀ t ∈ sent.flatten, after.ledger.Entered t
  held : ∀ t, run.ledger.Holds t → after.ledger.Holds t
  retriesLeft : kind = .retry →
    after.ledger.retriesLeft = run.ledger.retriesLeft - sent.length
      ∧ sent.length ≤ run.ledger.retriesLeft

theorem kept_after_phase (kind : Kind) (pace : Pace) (service : Service) (probes : List Probe)
    (run : Run) :
    ∃ sent last, Kept kind pace service run (phase kind pace service probes run).run sent last := by
  obtain ⟨sent, last, went, passes, left⟩ := phase_passes kind pace service probes run
  refine ⟨sent, last, ⟨went, passes, fun none_sent => ?_, left, fun t ht => ?_, fun t ht => ?_, ?_⟩⟩
  · subst none_sent
    cases passes
    rfl
  · rw [left, entered_readied]
    exact passes.entered (Or.inr ht)
  · rw [left]
    exact holds_readied kind (passes.holds ht)
  · rintro rfl
    have spent := passes.length_add_retriesLeft
    rw [left, readied]
    omega

/-! ## Making a sweep again -/

variable {pace : Pace} {service : Service} {kind : Kind}

/-- A sweep that is made twice and completed the second time is one whose probes never fail, unless
that one breaks off at a window that it cannot sleep through. -/
theorem resumed_calmly (kind : Kind) (pace : Pace) (service : Service) (probes : List Probe)
    (run : Run) :
    let first := phase kind pace service probes run
    let second := phase kind pace service first.rest first.run
    second.ending = .complete →
      ∀ (found : List Nat) (calm : List Probe), quotas second.run = quotas run ++ found →
        List.Forall₂ Finds calm found → ∀ more,
          let whole := phase kind pace service (calm ++ more) run
          (whole.ending = .complete ∧ whole.rest = more ∧ Abreast whole.run second.run)
            ∨ (whole.ending = .overflowed ∧ Overruns pace run.now calm) := by
  intro first second complete found calm answered finds more
  obtain ⟨early, hearly⟩ := quotas_phase kind pace service probes run
  obtain ⟨late, hlate⟩ := quotas_phase kind pace service first.rest first.run
  have parts : found = early ++ late := by
    rw [hlate, hearly, List.append_assoc, List.append_cancel_left_eq] at answered
    exact answered.symm
  subst parts
  obtain ⟨calm, later, rfl, finds, finds'⟩ := forall₂_append finds
  have replays : Replays kind pace service (calm ++ later) run second.run :=
    (replay probes run (Abreast.refl run) hearly finds).trans fun middle reached =>
      replay first.rest first.run reached hlate finds'
  rcases replays with ⟨after, ended, -, goes_on⟩ | ⟨overruns, ends⟩
  · have finished : after.ledger.Idle kind := by
      rw [← ended.ledger]
      exact idle_of_complete first.rest first.run complete
    have readied : after.ledger.readied kind = second.run.ledger := by
      obtain ⟨sent, last, -, -, left⟩ := phase_passes kind pace service first.rest first.run
      rw [← ended.ledger, left, readied_readied]
    have whole : phase kind pace service (calm ++ later ++ more) run
        = ⟨.complete, (ready kind after).say (closing kind (after.ledger.readied kind)), more⟩ := by
      rw [goes_on, phase_of_idle more finished]
    simp only [whole]
    exact .inl ⟨trivial, trivial, readied, ended.out.symm⟩
  · exact .inr ⟨ends more, overruns⟩

/-! ## Leaving the failed probes out -/

/-- What comes of the probe does not depend on when it is made: it fails, or it finds so many
searches left. -/
def Steady (probe : Probe) : Prop := (∀ now, ∃ f, probe now = .error f) ∨ ∃ n, Finds probe n

/-- Whether a steady probe is answered, which can be told at any instant. -/
def responds (probe : Probe) : Bool := (probe ⟨0⟩).isOk

theorem responds_of_finds {probe : Probe} {n : Nat} (found : Finds probe n) :
    responds probe = true := by
  obtain ⟨w, answer, -⟩ := found ⟨0⟩
  rw [responds, answer]
  rfl

theorem responds_of_fails {probe : Probe} (fails : ∀ now, ∃ f, probe now = .error f) :
    responds probe = false := by
  obtain ⟨f, failed⟩ := fails ⟨0⟩
  rw [responds, failed]
  rfl

/-- From `run` to `run'` the probes in front of `rest` were made, and those of them that are answered
found what was found. -/
def Made (probes rest : List Probe) (run run' : Run) : Prop :=
  ∃ used found, probes = used ++ rest ∧ List.Forall₂ Finds (used.filter responds) found
    ∧ quotas run' = quotas run ++ found

namespace Made

variable {probes rest rest' : List Probe} {probe : Probe} {run run' run'' : Run}

theorem none_made (probes : List Probe) (same : quotas run' = quotas run) :
    Made probes probes run run' :=
  ⟨[], [], rfl, List.Forall₂.nil, same.trans (List.append_nil _).symm⟩

theorem failed (rest : List Probe) (fails : ∀ now, ∃ f, probe now = .error f)
    (same : quotas run' = quotas run) : Made (probe :: rest) rest run run' := by
  refine ⟨[probe], [], rfl, ?_, same.trans (List.append_nil _).symm⟩
  rw [List.filter_cons_of_neg (by simp [responds_of_fails fails]), List.filter_nil]
  exact List.Forall₂.nil

theorem answered {n : Nat} (rest : List Probe) (found : Finds probe n)
    (more : quotas run' = quotas run ++ [n]) : Made (probe :: rest) rest run run' := by
  refine ⟨[probe], [n], rfl, ?_, more⟩
  rw [List.filter_cons_of_pos (responds_of_finds found), List.filter_nil]
  exact List.Forall₂.cons found List.Forall₂.nil

theorem trans (h : Made probes rest run run') (h' : Made rest rest' run' run'') :
    Made probes rest' run run'' := by
  obtain ⟨used, found, rfl, finds, same⟩ := h
  obtain ⟨used', found', rfl, finds', same'⟩ := h'
  refine ⟨used ++ used', found ++ found', (List.append_assoc _ _ _).symm, ?_, ?_⟩
  · rw [List.filter_append]
    exact List.rel_append finds finds'
  · rw [same', same, List.append_assoc]

theorem steady (h : Made probes rest run run') (all : ∀ p ∈ probes, Steady p) :
    ∀ p ∈ rest, Steady p := by
  obtain ⟨used, -, rfl, -, -⟩ := h
  exact fun p hp => all p (List.mem_append_right used hp)

end Made

theorem awaitFrom_made (pace : Pace) (backoff : Backoff) {probes : List Probe}
    (steady : ∀ p ∈ probes, Steady p) (run : Run) :
    Made probes (awaitFrom pace backoff probes run).rest run
      (awaitFrom pace backoff probes run).run := by
  have failed {probe : Probe} {rest : List Probe} {run run' : Run} {f : ProbeFault}
      (here : Steady probe) (answer : probe run.now = .error f) (same : quotas run' = quotas run) :
      Made (probe :: rest) rest run run' := by
    rcases here with fails | ⟨n, found⟩
    · exact Made.failed rest fails same
    · obtain ⟨w, answered, -⟩ := found run.now
      cases answer.symm.trans answered
  have answered {probe : Probe} {rest : List Probe} {run run' : Run} {w : Window}
      (here : Steady probe) (answer : probe run.now = .ok w)
      (more : quotas run' = quotas run ++ [w.remaining]) : Made (probe :: rest) rest run run' := by
    rcases here with fails | ⟨n, found⟩
    · obtain ⟨f, failed⟩ := fails run.now
      cases answer.symm.trans failed
    · obtain ⟨w', answered, rfl⟩ := found run.now
      cases answer.symm.trans answered
      exact Made.answered rest found more
  have missed (run : Run) : quotas (run.probe none) = quotas run :=
    (quotas_probe run none).trans (List.append_nil _)
  have probed (run : Run) (w : Window) :
      quotas (run.probe (some w.remaining)) = quotas run ++ [w.remaining] :=
    quotas_probe run (some w.remaining)
  fun_induction awaitFrom pace backoff probes run with
  | case1 backoff run => exact Made.none_made [] rfl
  | case2 backoff probe rest run f answer after last =>
    exact failed (steady probe List.mem_cons_self) answer (missed run)
  | case3 backoff probe rest run f answer after delay later next ih =>
    obtain ⟨here, others⟩ := List.forall_mem_cons.mp steady
    exact (failed here answer (missed run)).trans (ih others)
  | case4 backoff probe rest run w answer after exhausted overflow =>
    exact answered (steady probe List.mem_cons_self) answer (probed run w)
  | case5 backoff probe rest run w answer after exhausted sleep slept ih =>
    obtain ⟨here, others⟩ := List.forall_mem_cons.mp steady
    exact (answered here answer (probed run w)).trans (ih others)
  | case6 backoff probe rest run w answer after left =>
    exact answered (steady probe List.mem_cons_self) answer (probed run w)

theorem phase_made (kind : Kind) (pace : Pace) (service : Service) (probes : List Probe)
    (steady : ∀ p ∈ probes, Steady p) (run : Run) :
    Made probes (phase kind pace service probes run).rest run
      (phase kind pace service probes run).run := by
  have wait {probes : List Probe} (steady : ∀ p ∈ probes, Steady p) {run : Run} {a : Awaited}
      (h : await pace probes (ready kind run) = a) : Made probes a.rest run a.run := by
    rw [← h]
    exact awaitFrom_made pace pace.backoff steady (ready kind run)
  induction probes, run using phase_rule kind pace service with
  | idle probes run finished => exact Made.none_made probes rfl
  | granted probes run w waited rest busy awaited ih =>
    have before := wait steady awaited
    obtain ⟨-, -, sent⟩ := sent_of_granted service busy awaited
    have passed := Made.none_made rest sent.quotas_eq
    exact before.trans (passed.trans (ih (before.steady steady)))
  | stopped probes run a ending busy awaited stop => exact wait steady awaited

/-- However a sweep ends, by a failed wait above all, it leaves the ledger between two passes. When
the same sweep is then made again, with the probes that are left, and is completed, the two have
done what one sweep does whose probes find what theirs found and never fail. If the probes are steady
it is enough to leave out those that fail. Since that one sweep comes to a window earlier, the sleep
until its reset can be longer, and a sleep out of range is all that can break it off. That takes a
grace of more than 2^63 seconds, or instants that cannot be named. -/
theorem kept_and_resumed (kind : Kind) (pace : Pace) (service : Service) (probes : List Probe)
    (run : Run) :
    let first := phase kind pace service probes run
    let second := phase kind pace service first.rest first.run
    (∃ sent last, Kept kind pace service run first.run sent last)
      ∧ (second.ending = .complete →
        (∀ (found : List Nat) (calm : List Probe), quotas second.run = quotas run ++ found →
          List.Forall₂ Finds calm found → ∀ more,
            let whole := phase kind pace service (calm ++ more) run
            (whole.ending = .complete ∧ whole.rest = more ∧ Abreast whole.run second.run)
              ∨ (whole.ending = .overflowed ∧ Overruns pace run.now calm))
        ∧ ((∀ probe ∈ probes, Steady probe) →
          let calm := probes.filter responds
          let whole := phase kind pace service calm run
          (whole.ending = .complete ∧ whole.rest = second.rest.filter responds
              ∧ Abreast whole.run second.run)
            ∨ (whole.ending = .overflowed ∧ Overruns pace run.now calm)))
      ∧ (pace.patience.grace ≤ .ofSeconds (2 ^ 63) → run.now.InRange → ∀ calm : List Probe,
        (∀ probe ∈ calm, ∀ now w, probe now = .ok w → w.resetsAt.InRange) →
          ¬ Overruns pace run.now calm) := by
  intro first second
  refine ⟨kept_after_phase kind pace service probes run, fun complete => ?_,
    fun brief named _ resets => not_overruns_of_inRange brief named resets⟩
  have calmly := resumed_calmly kind pace service probes run complete
  refine ⟨calmly, fun steady => ?_⟩
  have made := phase_made kind pace service probes steady run
  have made' := phase_made kind pace service first.rest (made.steady steady) first.run
  obtain ⟨used, found, split, finds, answered⟩ := made.trans made'
  have parts : probes.filter responds = used.filter responds ++ second.rest.filter responds := by
    rw [← List.filter_append, ← split]
  rw [parts]
  refine (calmly found _ answered finds _).imp_right fun ⟨ends, overruns⟩ => ⟨ends, ?_⟩
  exact overruns.mono (Int.le_refl _) (List.subset_append_left _ _)

def finding (n : Nat) : Probe := Probe.giving (.ok ⟨n, .ofSeconds 0⟩)

theorem steady_finding (n : Nat) : Steady (finding n) :=
  Or.inr ⟨n, fun _ => ⟨⟨n, .ofSeconds 0⟩, rfl, rfl⟩⟩

/-- The primary sweep is stopped by an outage after its first batch, and made again after it. -/
theorem kept_and_resumed_after_outage :
    let pace := { Pace.ofDeadline (.ofSeconds 10) with reprobes := 0 }
    let service := Service.inOrder fun t n =>
      .now (if t = "C" ∧ n = 0 then .failed .malformed else .counted t.length false)
    let outage : Probe := Probe.giving (.error (.badStatus 500 "down"))
    let probes := [finding 1, outage, finding 0, finding 2, finding 2]
    let run := Run.start (.start ["Go", "C", "Go", "Zig", "C"] 2) ⟨0⟩
    let first := phase .primary pace service probes run
    let second := phase .primary pace service first.rest first.run
    let whole := phase .primary pace service (probes.filter responds) run
    first.ending = .stopped (.badStatus 500 "down")
      ∧ batches first.run = [["Go"]]
      ∧ second.ending = .complete
      ∧ batches second.run = [["Go"], ["C", "Zig"], ["C"]]
      ∧ Abreast whole.run second.run := by
  intro pace service outage probes run first second whole
  have down : Steady outage := Or.inl fun _ => ⟨.badStatus 500 "down", rfl⟩
  have steady : ∀ probe ∈ probes, Steady probe := by
    intro probe h
    simp only [probes, List.mem_cons, List.not_mem_nil, or_false] at h
    rcases h with rfl | rfl | rfl | rfl | rfl <;> first | exact steady_finding _ | exact down
  obtain ⟨-, resumed, in_range⟩ := kept_and_resumed .primary pace service probes run
  have resets : ∀ probe ∈ probes.filter responds, ∀ now w, probe now = .ok w →
      w.resetsAt.InRange := by
    intro probe h now w answer
    have mem := (List.mem_filter.mp h).1
    simp only [probes, List.mem_cons, List.not_mem_nil, or_false] at mem
    rcases mem with rfl | rfl | rfl | rfl | rfl <;> cases answer <;> decide
  have patient : ¬ Overruns pace run.now (probes.filter responds) :=
    in_range (by decide +kernel) (by decide) _ resets
  have unbroken := ((resumed (by decide +kernel)).2 steady).resolve_right fun broken =>
    patient broken.2
  exact ⟨by decide +kernel, by decide +kernel, by decide +kernel, by decide +kernel, unbroken.2.2⟩

end Sweep
end Census
