import Census.Proofs.Ledger.Order
import Census.Proofs.Sweep.Answers
import Census.Proofs.Sweep.Keeping
import Census.Proofs.Sweep.Passes
import Census.Report.Counts
import Census.Survey

/-!
# What is found does not depend on the quota

How the quotas cut the terms decides which batches go out, which repeats are searched for again and in
which order the failed terms are retried, so two censuses of the same terms need not have one step in
common. What they find is the same all the same, when the searches come to the same: in the end each
term stands by the last of its outcomes, whichever that is, and has had at least one. When the
outcome of a term never changes, that says how the term stands without a word about the quota
(`standing_of_constant`).
-/

namespace Census

namespace Sweep

open Quota Ledger

variable {pace : Pace} {service : Service} {t : Term}

/-! ## Both sweeps -/

/-- A census that comes through its sweeps has completed both of them, one after the other. -/
theorem complete_of_ok {probes : List Probe} {start : Run}
    (done : (Survey.sweeps pace service probes start).1 = .ok ()) :
    let first := phase .primary pace service probes start
    let second := phase .retry pace service first.rest first.run
    first.ending = .complete ∧ second.ending = .complete
      ∧ (Survey.sweeps pace service probes start).2
        = sweeps pace service [⟨.primary, probes⟩, ⟨.retry, first.rest⟩] start := by
  simp only [phase]
  rw [Survey.sweeps] at done ⊢
  cases first : (primary pace service probes start).ending with
  | stopped f =>
    rw [first] at done
    cases done
  | overflowed =>
    rw [first] at done
    cases done
  | unprobed =>
    rw [first] at done
    cases done
  | complete =>
    simp only [first] at done ⊢
    refine ⟨trivial, ?_⟩
    generalize again : retry pace service (primary pace service probes start).rest
      (primary pace service probes start).run = second at done ⊢
    have last : sweeps pace service
        [⟨.primary, probes⟩, ⟨.retry, (primary pace service probes start).rest⟩] start
          = second.run := congrArg Phase.run again
    rw [last]
    cases ended : second.ending with
    | stopped f =>
      rw [ended] at done
      cases done
    | overflowed =>
      rw [ended] at done
      cases done
    | unprobed =>
      rw [ended] at done
      cases done
    | complete => exact ⟨rfl, rfl⟩

section Census

variable {terms : List Term} {retries : Nat} {began : Instant}

theorem standsByLast_swept (stages : List Stage) (t : Term) :
    StandsByLast pace service t
      (sweeps pace service stages (.start (.start terms retries) began)) :=
  swept_induction (P := StandsByLast pace service t) (fun _ move h => standsByLast_move move h)
    stages (standsByLast_start pace service t terms retries began)

theorem whole_swept (stages : List Stage) :
    Whole terms (sweeps pace service stages (.start (.start terms retries) began)).ledger :=
  swept_induction (P := fun run => Whole terms run.ledger) (fun _ move h => whole_move move h)
    stages (whole_start terms retries)

/-- From the end of the primary sweep on, the terms that are counted or failed are those of the
census. -/
theorem entered_swept_iff {probes : List Probe} {later : List Stage} {run : Run}
    (complete : (phase .primary pace service probes
      (.start (.start terms retries) began)).ending = .complete)
    (swept : run = sweeps pace service (⟨.primary, probes⟩ :: later)
      (.start (.start terms retries) began)) (t : Term) :
    t ∈ run.ledger.counted ∨ t ∈ run.ledger.failed ↔ t ∈ terms := by
  have whole : Whole terms run.ledger := swept ▸ whole_swept _
  have drained : run.ledger.pending = [] := swept ▸
    drained_after_sweeps (sound_phase .primary probes (sound_start terms retries))
      (pending_of_primary_complete probes _ complete) later
  have listed : t ∈ run.ledger.worklist ↔ t ∈ terms := by
    rw [whole.worklist, ← firsts_eq_eraseDups]
    exact mem_firsts
  constructor
  · rintro (counted | failed)
    · exact listed.mp (whole.counted t counted)
    · exact listed.mp (whole.failed t failed)
  · intro ht
    have kept := whole.kept t (listed.mpr ht)
    rw [drained] at kept
    exact kept.resolve_left List.not_mem_nil

end Census

/-! ## Outcomes that never change -/

/-- Every search for a term comes to the same by the deadline. -/
def Service.Constant (service : Service) (deadline : Span) (outcome : Term → Outcome) : Prop :=
  ∀ t n, (service.reply t n).outcomeBy deadline = outcome t

theorem standing_of_answers {outcome : Term → Outcome}
    (constant : service.Constant pace.deadline outcome) {run : Run}
    (h : StandsByLast pace service t run) :
    run.ledger.standing t = .unknown ∨ run.ledger.standing t = .of (outcome t) := by
  have all : ∀ o ∈ answers pace service run t, o = outcome t := by
    intro o ho
    obtain ⟨n, -, rfl⟩ := List.mem_map.mp ho
    exact constant t n
  rw [h.standing]
  cases last : (answers pace service run t).getLast? with
  | none => exact Or.inl rfl
  | some o =>
    right
    rw [← all o (List.mem_of_getLast? last)]
    rfl

/-- How a term stands in the end, in words that say nothing of the quota. -/
theorem standing_of_constant {outcome : Term → Outcome}
    (constant : service.Constant pace.deadline outcome) {terms : List Term} {retries : Nat}
    {began : Instant} {probes : List Probe}
    (done : (Survey.sweeps pace service probes (.start (.start terms retries) began)).1 = .ok ())
    (t : Term) :
    (Survey.sweeps pace service probes (.start (.start terms retries) began)).2.ledger.standing t
      = if t ∈ terms then .of (outcome t) else .unknown := by
  obtain ⟨first, -, last⟩ := complete_of_ok done
  have entered := entered_swept_iff first last t
  have either := standing_of_answers constant (last ▸ standsByLast_swept _ t)
  rw [mem_counted_iff, mem_failed_iff] at entered
  by_cases ht : t ∈ terms
  · rw [if_pos ht]
    refine either.resolve_left fun unknown => ?_
    have some_entered := entered.mpr ht
    rw [unknown] at some_entered
    simp [Standing.unknown] at some_entered
  · rw [if_neg ht]
    refine either.resolve_right fun known => ht (entered.mp ?_)
    rw [known, Standing.count_of]
    cases (Standing.of (outcome t)).failed <;> simp

/-- Two ledgers that report the same: the same counts and failures, and the same files of them. -/
structure SameFindings (l l' : Ledger) : Prop where
  counted : l.counted = l'.counted
  failed : l.failed = l'.failed
  reasons : l.reasons = l'.reasons
  flagged : l.flagged = l'.flagged
  countsText : Report.countsText l = Report.countsText l'
  unresolved : l.unresolved = l'.unresolved
  incomplete : l.incomplete = l'.incomplete

theorem sameFindings_of_standing {l l' : Ledger} (standing : ∀ t, l.standing t = l'.standing t)
    (worklist : l.worklist = l'.worklist) : SameFindings l l' := by
  obtain ⟨counted, failed, reasons, flagged⟩ := collections_eq standing
  refine ⟨counted, failed, reasons, flagged, ?_, ?_, ?_⟩
  · rw [Report.countsText, Report.countsDocument, Report.countsMembers, countsInOrder, counted,
      worklist]
    rfl
  · rw [unresolved, failed, worklist, unresolved]
  · rw [Ledger.incomplete, flagged, worklist, Ledger.incomplete]

/-- Two censuses of the same terms that come through their sweeps find the same, however the quotas
cut the terms, whatever goes wrong with the probes on the way and however many retries there are, as
long as the searches for a term always come to the same. -/
theorem same_findings_however_cut (terms : List Term) (outcome : Term → Outcome)
    (pace pace' : Pace) (service service' : Service) (probes probes' : List Probe)
    (retries retries' : Nat) (began began' : Instant)
    (constant : service.Constant pace.deadline outcome)
    (constant' : service'.Constant pace'.deadline outcome)
    (done : (Survey.sweeps pace service probes (.start (.start terms retries) began)).1 = .ok ())
    (done' : (Survey.sweeps pace' service' probes'
      (.start (.start terms retries') began')).1 = .ok ()) :
    SameFindings
      (Survey.sweeps pace service probes (.start (.start terms retries) began)).2.ledger
      (Survey.sweeps pace' service' probes' (.start (.start terms retries') began')).2.ledger := by
  obtain ⟨-, -, last⟩ := complete_of_ok done
  obtain ⟨-, -, last'⟩ := complete_of_ok done'
  refine sameFindings_of_standing (fun t => ?_) ?_
  · rw [standing_of_constant constant done, standing_of_constant constant' done']
  · rw [last, last', (whole_swept _).worklist, (whole_swept _).worklist]

/-- One census goes term by term through an outage and an exhausted window and has no retries; the
other takes all terms at once and retries the one that fails. -/
theorem same_findings_term_by_term_and_at_once :
    let outcome : Term → Outcome := fun t =>
      if t = "C" then .failed .malformed else .counted t.length (t = "Zig")
    let service := Service.inOrder fun t _ => .now (outcome t)
    let pace := Pace.ofDeadline (.ofSeconds 10)
    let finding (n : Nat) : Probe := Probe.giving (.ok ⟨n, .ofSeconds 0⟩)
    let outage : Probe := Probe.giving (.error (.badStatus 500 "down"))
    let small := [finding 1, outage, finding 0, finding 1, finding 1, finding 1]
    let large := [finding 5, finding 2, finding 3]
    let terms := ["Go", "C", "Zig", "C"]
    let slow := Survey.sweeps pace service small (.start (.start terms 0) ⟨0⟩)
    let quick := Survey.sweeps pace service large (.start (.start terms 2) ⟨0⟩)
    slow.1 = .ok () ∧ quick.1 = .ok ()
      ∧ batches slow.2 = [["Go"], ["C"], ["Zig"], ["C"]]
      ∧ batches quick.2 = [["Go", "C", "Zig"], ["C"], ["C"]]
      ∧ SameFindings slow.2.ledger quick.2.ledger := by
  intro outcome service pace finding outage small large terms slow quick
  have constant : service.Constant pace.deadline outcome := by
    intro t n
    show (Reply.now (outcome t)).outcomeBy pace.deadline = outcome t
    rfl
  have through : slow.1 = .ok () := by decide +kernel
  have through' : quick.1 = .ok () := by decide +kernel
  exact ⟨through, through', by decide +kernel, by decide +kernel,
    same_findings_however_cut terms outcome pace pace service service small large 0 2 ⟨0⟩ ⟨0⟩
      constant constant through through'⟩

end Sweep
end Census
