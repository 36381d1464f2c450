import Census.Proofs.Survey.Finish

/-!
# The report and the files agree

What a census reports and what it writes are read off one ledger, but not in the same way: the number
of counted terms is the size of a table, the file of counts is the worklist gone through with that
table in hand, and the number of failed terms is the length of a list. They describe one partition of
the worklist because the ledger is closed when the sweeps are over.
-/

namespace Census
namespace Survey

open Sweep Ledger

/-- The report `f` of a census of `terms`, the counts in its file and the summary in its file say the
same about one partition of the distinct terms. -/
structure Agreement (o : Options) (terms : List Term) (disk : Disk) (f : Findings)
    (counts : List (Term × Nat)) : Prop where
  paths : f.countsPath = o.countsPath ∧ f.summaryPath = o.summaryPath
  countsFile : ∃ text, disk.readText f.countsPath = .ok text
    ∧ Report.countsOf? text = some counts
  summaryFile : ∃ text, disk.readText f.summaryPath = .ok text ∧ text = f.summary.text
    ∧ (f.summary.targeted ≤ Numeral.most64 → Report.Summary.ofText? text = some f.summary)
  targeted : f.summary.targeted = terms.eraseDups.length
  whole : f.summary.targeted = f.summary.resolved + f.summary.failed
  resolved : counts.length = f.summary.resolved
  failed : f.summary.unresolved.length = f.summary.failed
  keysInOrder : (counts.map Prod.fst).Sublist terms.eraseDups
  unresolvedInOrder : f.summary.unresolved.Sublist terms.eraseDups
  disjoint : (counts.map Prod.fst).Disjoint f.summary.unresolved
  interleaved : List.merge (counts.map Prod.fst) f.summary.unresolved (earlier terms.eraseDups)
    = terms.eraseDups
  incomplete : ∀ t ∈ f.summary.incomplete, t ∈ counts.map Prod.fst
  retriesLeft : f.summary.retriesLeft ≤ o.retryBudget

/-- Whatever the server does, a census that comes through with its results in two different files has
its report and its files agree. -/
theorem report_and_files_agree (o : Options) (s : Setting) (f : Findings)
    (apart : s.disk.Apart o.countsPath o.summaryPath) (ok : (carryOut o s).result = .ok f) :
    ∃ terms counts, Terms.load s.disk o.input = .ok terms
      ∧ Agreement o terms (carryOut o s).disk f counts := by
  obtain ⟨client, terms, begins, done, written⟩ := carryOut_eq_ok ok
  have finished := begins.finished apart done written
  have closed := closed_swept done
  generalize (swept o s client terms).2.ledger = l at closed finished
  obtain ⟨⟨began, elapsed, rfl⟩, counts, summary, decodes⟩ := finished
  have distinct := nodup_worklist_closed closed
  refine ⟨terms, l.countsInOrder, begins.listed, ?_⟩
  exact
    { paths := ⟨rfl, rfl⟩
      countsFile := counts
      summaryFile := ⟨_, summary, rfl, decodes⟩
      targeted := congrArg List.length closed.worklist
      whole := length_worklist_closed closed
      resolved := length_countsInOrder distinct closed.listed
      failed := rfl
      keysInOrder := by
        rw [map_fst_countsInOrder, closed.worklist]
        exact List.filter_sublist
      unresolvedInOrder := by
        rw [← closed.worklist]
        exact List.filter_sublist
      disjoint := keys_disjoint_unresolved closed.parted
      interleaved := by
        rw [← closed.worklist]
        exact merge_keys_unresolved distinct closed.parted
      incomplete := by
        intro t ht
        obtain ⟨listed, flagged⟩ := List.mem_filter.mp ht
        have counted := closed.flagged t (Std.ExtTreeSet.contains_iff_mem.mp flagged)
        rw [map_fst_countsInOrder, List.mem_filter]
        exact ⟨listed, Std.ExtTreeMap.contains_iff_mem.mpr counted⟩
      retriesLeft := closed.retriesLeft }

/-- A repeated term, one that fails to the end, and counts that are incomplete. -/
theorem report_and_files_agree_on_repeated_term :
    let server : Http.Server := fun r _ =>
      if r.url.path = "/rate_limit" then .answered
        ⟨200, [], Text.bytes
          "\x7b\"resources\":\x7b\"search\":\x7b\"remaining\":2,\"reset\":0\x7d\x7d\x7d"⟩
      else if r.url.query = some "q=language%3AC" then .answered ⟨200, [], Text.bytes "<html>"⟩
      else .answered
        ⟨200, [], Text.bytes "\x7b\"total_count\":7,\"incomplete_results\":true\x7d"⟩
    let o : Options :=
      { Options.standard with input := "terms", service := "http://api", retryBudget := 2 }
    let s : Setting :=
      { disk := (Disk.empty ["home"]).store "terms" (Text.bytes "Go\nC\nGo\nZig")
        token := some "secret", server, decode := fun _ body => Text.lenient body, began := ⟨0⟩
        probes := 9 }
    let f : Findings :=
      { summary :=
          { elapsed := "00:00:00", targeted := 3, resolved := 2, failed := 1, unresolved := ["C"]
            incomplete := ["Go", "Zig"], retriesLeft := 0
            startedAt := "1970-01-01T00:00:00+00:00" }
        elapsed := .zero, countsPath := o.countsPath, summaryPath := o.summaryPath }
    s.disk.Apart o.countsPath o.summaryPath ∧ (carryOut o s).result = .ok f
      ∧ ∃ terms counts, Terms.load s.disk o.input = .ok terms
        ∧ Agreement o terms (carryOut o s).disk f counts := by
  intro server o s f
  have counts : s.disk.place? o.countsPath = some ["home", "repository_usage.json"] := by
    decide +kernel
  have summary : s.disk.place? o.summaryPath = some ["home", "repository_usage_summary.json"] := by
    decide +kernel
  have apart : s.disk.Apart o.countsPath o.summaryPath := by
    intro p hp
    rw [counts] at hp
    obtain rfl := Option.some.inj hp
    rw [summary]
    decide
  have ok : (carryOut o s).result = .ok f := by decide +kernel
  exact ⟨apart, ok, report_and_files_agree o s f apart ok⟩

end Survey
end Census
