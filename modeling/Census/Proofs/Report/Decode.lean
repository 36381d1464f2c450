import Census.Proofs.Disk
import Census.Proofs.Json.Reader
import Census.Proofs.Json.Values
import Census.Proofs.Ledger.Partition
import Census.Report.File

/-!
# Result files say what was found

Whoever reads a result file with a reader of JSON finds in it what was written, to the last digit and
the last character: the counts of the ledger in its order, and the summary field by field. Terms are
arbitrary texts and counts are arbitrary numbers of 64 bits, so quotes, control characters and
numbers that no binary fraction holds are among them.
-/

namespace Census
namespace Report

open Json Ledger

/-! ## Counts -/

/-- The counts in a text: those of an object of which every value is a whole number. -/
def countsOf? (text : String) : Option (List (Term × Nat)) :=
  match Value.ofText text.toList with
  | .ok (.object members) => members.mapM fun m => m.2.nat64?.map fun n => (m.1, n)
  | _ => none

section Counts

variable {l : Ledger}

theorem countsMembers_eq (distinct : l.worklist.Nodup) :
    countsMembers l = l.countsInOrder.map fun c => (c.1, Value.ofNat c.2) := by
  refine lastValues_of_nodup ?_
  rw [List.map_map]
  exact nodup_keys distinct

theorem countsOf?_countsText (distinct : l.worklist.Nodup)
    (sized : ∀ c ∈ l.countsInOrder, c.2 ≤ Numeral.most64) :
    countsOf? (countsText l) = some l.countsInOrder := by
  have plain : Plain mostOpen (countsDocument l) := by
    refine Plain.object fun m hm => ?_
    rw [countsMembers_eq distinct] at hm
    obtain ⟨c, hc, rfl⟩ := List.mem_map.mp hm
    exact Plain.number c.2 (sized c hc)
  rw [countsOf?, countsText, ofText_text plain, countsDocument, countsMembers_eq distinct]
  refine mapM_map_eq_some fun c hc => ?_
  rw [Value.nat64?_ofNat (sized c hc)]
  rfl

theorem writeCounts_eq_ok_iff {disk disk' : Disk} {path : String} {written : Nat} :
    writeCounts disk path l = .ok (disk', written) ↔
      disk.writeText path (countsText l) = .ok disk' ∧ written = (countsMembers l).length := by
  unfold writeCounts
  cases disk.writeText path (countsText l) <;> simp [eq_comm]

end Counts

/-! ## Summaries -/

namespace Summary

/-- The names of the fields in the order in which they are written. -/
def fields : List String :=
  ["elapsed", "terms_targeted", "terms_resolved", "failed_count", "unresolved_terms",
    "incomplete_terms", "retries_remaining", "started_at"]

/-- The summary that the values of the fields make up. -/
def ofValues? : List Value → Option Summary
  | [elapsed, targeted, resolved, failed, unresolved, incomplete, retriesLeft, startedAt] => do
    some {
      elapsed := ← elapsed.string?
      targeted := ← targeted.nat64?
      resolved := ← resolved.nat64?
      failed := ← failed.nat64?
      unresolved := ← unresolved.strings?
      incomplete := ← incomplete.strings?
      retriesLeft := ← retriesLeft.nat64?
      startedAt := ← startedAt.string? }
  | _ => none

/-- The summary in a text: an object of exactly the fields, in their order. -/
def ofText? (text : String) : Option Summary :=
  match Value.ofText text.toList with
  | .ok (.object members) =>
    if members.map Prod.fst = fields then ofValues? (members.map Prod.snd) else none
  | _ => none

/-- The numbers of a summary fit 64 bits. -/
structure Fits (s : Summary) : Prop where
  targeted : s.targeted ≤ Numeral.most64
  resolved : s.resolved ≤ Numeral.most64
  failed : s.failed ≤ Numeral.most64
  retriesLeft : s.retriesLeft ≤ Numeral.most64

theorem plain_document {s : Summary} (fits : s.Fits) : Plain mostOpen s.document := by
  have strings (room : Nat) (texts : List String) :
      Plain (room + 1) (.array (texts.map .string)) := by
    refine Plain.array fun v hv => ?_
    obtain ⟨text, -, rfl⟩ := List.mem_map.mp hv
    exact Plain.string text
  refine Plain.object fun m hm => ?_
  simp only [List.mem_cons, List.not_mem_nil, or_false] at hm
  rcases hm with rfl | rfl | rfl | rfl | rfl | rfl | rfl | rfl
  · exact Plain.string s.elapsed
  · exact Plain.number s.targeted fits.targeted
  · exact Plain.number s.resolved fits.resolved
  · exact Plain.number s.failed fits.failed
  · exact strings _ s.unresolved
  · exact strings _ s.incomplete
  · exact Plain.number s.retriesLeft fits.retriesLeft
  · exact Plain.string s.startedAt

theorem ofText?_text {s : Summary} (fits : s.Fits) : ofText? s.text = some s := by
  rw [ofText?, text, ofText_text (plain_document fits)]
  refine (if_pos rfl).trans ?_
  simp only [List.map_cons, List.map_nil]
  rw [ofValues?, Value.nat64?_ofNat fits.targeted, Value.nat64?_ofNat fits.resolved,
    Value.nat64?_ofNat fits.failed, Value.nat64?_ofNat fits.retriesLeft, Value.strings?_map,
    Value.strings?_map]
  rfl

end Summary

theorem writeSummary_eq_ok_iff {disk disk' : Disk} {path : String} {s : Summary} :
    writeSummary disk path s = .ok disk' ↔ disk.writeText path s.text = .ok disk' := by
  unfold writeSummary
  cases disk.writeText path s.text <;> simp

/-! ## What is in the files -/

/-- The file of counts of any ledger is an object of its counts in their order, no term twice, and as
many as the writer says; the summary file is an object of the eight fields in their order with the
values of the summary. -/
theorem result_files_decode :
    (∀ (terms : List Term) (retries : Nat) (ops : List Operation),
      let l := (Ledger.start terms retries).after ops
      (∀ c ∈ l.countsInOrder, c.2 ≤ Numeral.most64) →
      ∀ (disk disk' : Disk) (path : String) (written : Nat),
        writeCounts disk path l = .ok (disk', written) →
        ∃ text, disk'.readText path = .ok text ∧ countsOf? text = some l.countsInOrder
          ∧ (l.countsInOrder.map Prod.fst).Nodup ∧ written = l.countsInOrder.length)
      ∧ ∀ s : Summary, s.Fits →
        ∀ (disk disk' : Disk) (path : String), writeSummary disk path s = .ok disk' →
          ∃ text, disk'.readText path = .ok text ∧ Summary.ofText? text = some s := by
  constructor
  · intro terms retries ops l sized disk disk' path written ok
    have distinct : l.worklist.Nodup := nodup_worklist_after terms retries ops
    obtain ⟨wrote, rfl⟩ := writeCounts_eq_ok_iff.mp ok
    refine ⟨countsText l, Disk.readText_writeText wrote, countsOf?_countsText distinct sized,
      nodup_keys distinct, ?_⟩
    rw [countsMembers_eq distinct, List.length_map]
  · intro s fits disk disk' path ok
    have wrote := writeSummary_eq_ok_iff.mp ok
    exact ⟨s.text, Disk.readText_writeText wrote, Summary.ofText?_text fits⟩

/-- Quotes, control characters, characters past the first plane and the largest number of 64 bits, in
a term that stands twice in the input. -/
theorem result_files_decode_hard_texts :
    let hard : Term := "a\"\\\n\u0001 é😀"
    let l := (Ledger.start [hard, "C", hard, ""] 3).after
      [.nextBatch 3, .merge [(hard, .counted 18446744073709551615 true), ("", .counted 0 false)]]
    let s : Summary :=
      { elapsed := "00:00:07", targeted := 3, resolved := 2, failed := 1, unresolved := ["C"]
        incomplete := [hard], retriesLeft := 3, startedAt := "2024-01-01T00:00:00+00:00" }
    let disk := Disk.empty ["home"]
    (∃ disk' written text, writeCounts disk "counts.json" l = .ok (disk', written)
      ∧ disk'.readText "counts.json" = .ok text
      ∧ countsOf? text = some [(hard, 18446744073709551615), ("", 0)] ∧ written = 2)
      ∧ ∃ disk' text, writeSummary disk "/home/./summary.json" s = .ok disk'
        ∧ disk'.readText "/home/./summary.json" = .ok text ∧ Summary.ofText? text = some s := by
  intro hard l s disk
  obtain ⟨counts, summary⟩ := result_files_decode
  have found : l.countsInOrder = [(hard, 18446744073709551615), ("", 0)] := by decide +kernel
  constructor
  · have sized : ∀ c ∈ l.countsInOrder, c.2 ≤ Numeral.most64 := by
      rw [found]
      decide
    have ok : (writeCounts disk "counts.json" l).isOk = true := by decide +kernel
    cases wrote : writeCounts disk "counts.json" l with
    | error f =>
      rw [wrote] at ok
      cases ok
    | ok result =>
      obtain ⟨text, read, decoded, -, length⟩ :=
        counts [hard, "C", hard, ""] 3 _ sized disk result.1 "counts.json" result.2 wrote
      exact ⟨result.1, result.2, text, rfl, read, decoded.trans (congrArg some found),
        length.trans (congrArg List.length found)⟩
  · have fits : s.Fits := ⟨by decide, by decide, by decide, by decide⟩
    have ok : (writeSummary disk "/home/./summary.json" s).isOk = true := by decide +kernel
    cases wrote : writeSummary disk "/home/./summary.json" s with
    | error f =>
      rw [wrote] at ok
      cases ok
    | ok disk' =>
      obtain ⟨text, read, decoded⟩ := summary s fits disk disk' "/home/./summary.json" wrote
      exact ⟨disk', text, rfl, read, decoded⟩

end Report
end Census
