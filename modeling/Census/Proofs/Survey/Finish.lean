import Census.Proofs.Report.Decode
import Census.Proofs.Search.Request
import Census.Proofs.Survey.Begin
import Census.Proofs.Sweep.Close

/-!
# What a finished census leaves behind

A census that has begun is done when its second sweep is complete, and has come through when both
result files are written. What it leaves then, on the disk and in its findings, is read off the ledger
of its sweeps (`Finished`). The files decode because that ledger is closed: its worklist has no term
twice, its counts are answers of the service, and its other numbers are bounded by the worklist.
-/

namespace Census
namespace Survey

open Sweep Ledger

variable {o : Options} {s : Setting} {client : Http.Client} {terms : List Term} {f : Findings}

/-! ## The end of the sweeps -/

theorem swept_of_complete (first : (firstSweep o s client terms).ending = .complete)
    (second : (secondSweep o s client terms).ending = .complete) :
    (swept o s client terms).1 = .ok () := by
  rw [swept_eq, first, second]

theorem closed_swept (done : (swept o s client terms).1 = .ok ()) :
    Closed (.ofDeadline o.span) (Search.service client s.server o.base) terms o.retryBudget
      (swept o s client terms).2.ledger :=
  closed_of_ok done

section Closed

variable {pace : Pace} {service : Service} {retries : Nat} {l : Ledger}

theorem nodup_worklist_closed (closed : Closed pace service terms retries l) :
    l.worklist.Nodup := by
  rw [closed.worklist, ← firsts_eq_eraseDups]
  exact nodup_firsts terms

theorem length_worklist_closed (closed : Closed pace service terms retries l) :
    l.worklist.length = l.counted.size + l.unresolved.length := by
  rw [← length_countsInOrder (nodup_worklist_closed closed) closed.listed,
    length_keys_add_length_unresolved closed.parted]

theorem counts_in_range {base : String} {server : Http.Server}
    (closed : Closed pace (Search.service client server base) terms retries l) :
    ∀ c ∈ l.countsInOrder, c.2 ≤ Numeral.most64 := by
  intro c hc
  obtain ⟨k, i, reply⟩ := closed.answered c.1 c.2 (mem_countsInOrder hc)
  exact Search.count_of_reply_le reply

/-- The numbers of a summary are at most the number of terms, but for the passes, which are few. -/
theorem summary_fits (closed : Closed pace service terms retries l)
    (few : retries ≤ Options.mostRetries) (short : l.worklist.length ≤ Numeral.most64)
    (began : Instant) (elapsed : Span) : (Report.Summary.ofLedger l began elapsed).Fits where
  targeted := short
  resolved := by
    have whole := length_worklist_closed closed
    show l.counted.size ≤ Numeral.most64
    omega
  failed := by
    have whole := length_worklist_closed closed
    show l.unresolved.length ≤ Numeral.most64
    omega
  retriesLeft := by
    have most : Options.mostRetries ≤ Numeral.most64 := by decide
    have left := closed.retriesLeft
    show l.retriesLeft ≤ Numeral.most64
    omega

end Closed

/-! ## The two files -/

theorem finish_eq_ok {disk : Disk} {run : Run} (ok : (finish o disk run).1 = .ok f) :
    ∃ first, disk.writeText o.countsPath (Report.countsText run.ledger) = .ok first
      ∧ first.writeText o.summaryPath f.summary.text = .ok (finish o disk run).2.1
      ∧ f = { summary := .ofLedger run.ledger run.began run.elapsed, elapsed := run.elapsed
              countsPath := o.countsPath, summaryPath := o.summaryPath } := by
  unfold finish at ok ⊢
  simp only at ok ⊢
  cases counts : Report.writeCounts disk o.countsPath run.ledger with
  | error r =>
    rw [counts] at ok
    cases ok
  | ok result =>
    simp only [counts] at ok ⊢
    obtain ⟨wrote, -⟩ := Report.writeCounts_eq_ok_iff.mp counts
    cases summary : Report.writeSummary result.1 o.summaryPath
        (.ofLedger run.ledger run.began run.elapsed) with
    | error r =>
      rw [summary] at ok
      cases ok
    | ok last =>
      rw [summary] at ok
      obtain rfl := Except.ok.inj ok
      exact ⟨result.1, wrote, Report.writeSummary_eq_ok_iff.mp summary, rfl⟩

/-- Results that have a place can be written, the second one after the first. -/
theorem finish_of_places {disk : Disk} {p q : Place} (counts : disk.place? o.countsPath = some p)
    (summary : disk.place? o.summaryPath = some q) (run : Run) :
    ∃ f, (finish o disk run).1 = .ok f := by
  obtain ⟨-, file⟩ := Disk.place?_eq_some counts
  have one := Disk.writeText_of_place? counts (Report.countsText run.ledger)
  -- The file of counts may be new, but it stands in no way.
  have still : (disk.put p (.file (Text.bytes (Report.countsText run.ledger)))).place? o.summaryPath
      = some q := (Disk.place?_put file o.summaryPath).trans summary
  have other := Disk.writeText_of_place? still
    (Report.Summary.ofLedger run.ledger run.began run.elapsed).text
  simp only [finish, Report.writeCounts, one, Report.writeSummary, other]
  exact ⟨_, rfl⟩

/-- A census that comes through has begun, has come through both sweeps, and has written both files. -/
theorem carryOut_eq_ok (ok : (carryOut o s).result = .ok f) :
    ∃ client terms, Begins o s client terms ∧ (swept o s client terms).1 = .ok ()
      ∧ (finish o s.disk (swept o s client terms).2).1 = .ok f := by
  rcases failsFirst_or_begins o s with ⟨f', fails⟩ | ⟨client, terms, begins⟩
  · obtain ⟨notes, prepared⟩ := prepare_of_failsFirst fails
    simp only [carryOut, prepared] at ok
    cases ok
  · refine ⟨client, terms, begins, ?_⟩
    rw [(begins.carryOut_eq []).1] at ok
    cases done : (swept o s client terms).1 with
    | error f' =>
      simp only [conclude, done] at ok
      cases ok
    | ok _ =>
      simp only [conclude, done] at ok
      cases written : (finish o s.disk (swept o s client terms).2).1 with
      | error r =>
        rw [written] at ok
        cases ok
      | ok f' =>
        rw [written] at ok
        obtain rfl := Except.ok.inj ok
        exact ⟨rfl, rfl⟩

theorem Begins.carryOut_of_finish (h : Begins o s client terms)
    (done : (swept o s client terms).1 = .ok ())
    (written : (finish o s.disk (swept o s client terms).2).1 = .ok f) :
    (carryOut o s).result = .ok f
      ∧ (carryOut o s).disk = (finish o s.disk (swept o s client terms).2).2.1 := by
  obtain ⟨result, disk⟩ := h.carryOut_eq []
  rw [result, disk]
  simp only [conclude, done, written]
  exact ⟨rfl, trivial⟩

/-! ## What is left behind -/

/-- The files on `disk` and the findings `f` are those of a census with the ledger `l`. -/
structure Finished (o : Options) (disk : Disk) (l : Ledger) (f : Findings) : Prop where
  findings : ∃ began elapsed, f = { summary := .ofLedger l began elapsed, elapsed
                                    countsPath := o.countsPath, summaryPath := o.summaryPath }
  counts : ∃ text, disk.readText o.countsPath = .ok text
    ∧ Report.countsOf? text = some l.countsInOrder
  summary : disk.readText o.summaryPath = .ok f.summary.text
  decodes : f.summary.targeted ≤ Numeral.most64 →
    Report.Summary.ofText? f.summary.text = some f.summary

theorem Begins.retryBudget_le (h : Begins o s client terms) :
    o.retryBudget ≤ Options.mostRetries := by
  have valid := h.valid
  unfold Options.fault? at valid
  split at valid
  · cases valid
  · split at valid
    · cases valid
    · next few => exact Nat.not_lt.mp few

theorem Begins.finished (h : Begins o s client terms)
    (apart : s.disk.Apart o.countsPath o.summaryPath) (done : (swept o s client terms).1 = .ok ())
    (written : (finish o s.disk (swept o s client terms).2).1 = .ok f) :
    Finished o (carryOut o s).disk (swept o s client terms).2.ledger f := by
  obtain ⟨first, counts, summary, report⟩ := finish_eq_ok written
  obtain ⟨readCounts, readSummary⟩ := Disk.readText_of_writes apart counts summary
  rw [← (h.carryOut_of_finish done written).2] at readCounts readSummary
  have closed := closed_swept done
  exact
    { findings := ⟨_, _, report⟩
      counts := ⟨_, readCounts,
        Report.countsOf?_countsText (nodup_worklist_closed closed) (counts_in_range closed)⟩
      summary := readSummary
      decodes := by
        rw [report]
        exact fun short =>
          Report.Summary.ofText?_text (summary_fits closed h.retryBudget_le short _ _) }

end Survey
end Census
