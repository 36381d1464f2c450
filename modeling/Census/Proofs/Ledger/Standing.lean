import Census.Ledger

/-!
# The standing of a term

What a ledger says about one term, and what becomes of it when results are entered. A result
concerns its own term only, so entering a list of results is, for each term, entering the outcomes
that belong to it in their order. When the results are for distinct terms, each term takes at most
one step.

`standing_merge_of_mem` and `standing_merge_of_not_mem` are what the sweeps use: they say the same
of a batch, whatever the order in which its results come in.
-/

namespace Census

/-- What a ledger says about one term. -/
structure Standing where
  count : Option Nat
  failed : Bool
  reason : Option Reason
  flagged : Bool
deriving DecidableEq

namespace Standing

/-- The standing of a term that was never searched for. -/
def unknown : Standing := ⟨none, false, none, false⟩

/-- The standing of a term after its first search. -/
def of : Outcome → Standing
  | .counted n incomplete => ⟨some n, false, none, incomplete⟩
  | .failed r => ⟨none, true, some r, false⟩

/-- Enters an outcome. Once there is a count, it and its flag stay. -/
def enter (s : Standing) : Outcome → Standing
  | .counted n incomplete =>
    if s.count.isSome then { s with failed := false, reason := none }
    else ⟨some n, false, none, incomplete⟩
  | .failed r => if s.count.isSome then s else { s with failed := true, reason := some r }

/-- What the parts of a standing have to do with each other. A term that is out to be searched for
again is not failed and still has its reason. -/
structure Sound (s : Standing) : Prop where
  counted : s.count.isSome → s.failed = false ∧ s.reason = none
  failed : s.failed = true → s.reason.isSome
  flagged : s.flagged = true → s.count.isSome

theorem sound_unknown : unknown.Sound where
  counted := by intro h; cases h
  failed := by intro h; cases h
  flagged := by intro h; cases h

theorem Sound.enter {s : Standing} (h : s.Sound) (o : Outcome) : (s.enter o).Sound := by
  cases o with
  | counted n incomplete =>
    by_cases hc : s.count.isSome
    · rw [Standing.enter, if_pos hc]
      exact ⟨fun _ => ⟨rfl, rfl⟩, fun hf => absurd hf (by simp), fun _ => hc⟩
    · rw [Standing.enter, if_neg hc]
      exact ⟨fun _ => ⟨rfl, rfl⟩, fun hf => absurd hf (by simp), fun _ => rfl⟩
  | failed r =>
    by_cases hc : s.count.isSome
    · rw [Standing.enter, if_pos hc]
      exact h
    · rw [Standing.enter, if_neg hc]
      exact ⟨fun hs => absurd hs hc, fun _ => rfl, h.flagged⟩

/-- Taking a failed term out leaves its reason, so that its standing stays sound. -/
theorem Sound.out {s : Standing} (h : s.Sound) (still : Bool) :
    ({ s with failed := s.failed && still } : Standing).Sound where
  counted := by
    intro hc
    exact ⟨by rw [(h.counted hc).1, Bool.false_and], (h.counted hc).2⟩
  failed := by
    intro hf
    exact h.failed (Bool.and_eq_true_iff.mp hf).1
  flagged := h.flagged

/-- What is known of a counted term is not touched by later outcomes. -/
theorem enter_of_counted {s : Standing} (h : s.count.isSome) (o : Outcome) :
    (s.enter o).count = s.count ∧ (s.enter o).flagged = s.flagged := by
  cases o with
  | counted n incomplete => rw [enter, if_pos h]; exact ⟨rfl, rfl⟩
  | failed r => rw [enter, if_pos h]; exact ⟨rfl, rfl⟩

/-- A term without a count stands after a search as it would after its first one. -/
theorem Sound.enter_of_count_eq_none {s : Standing} (h : s.Sound) (hc : s.count = none)
    (o : Outcome) : s.enter o = of o := by
  -- Only the flag could make a difference, and a flagged term is counted.
  have hf : s.flagged = false := by
    cases hs : s.flagged with
    | false => rfl
    | true => have := h.flagged hs; simp [hc] at this
  cases o with
  | counted n incomplete => simp [Standing.enter, of, hc]
  | failed r => simp [Standing.enter, of, hc, hf]

theorem count_of (o : Outcome) : (of o).count.isSome = !(of o).failed := by
  cases o <;> rfl

theorem reason_of (o : Outcome) : (of o).reason.isSome = (of o).failed := by
  cases o <;> rfl

end Standing

namespace Ledger

/-- What the ledger says about a term. -/
def standing (l : Ledger) (t : Term) : Standing where
  count := l.counted[t]?
  failed := l.failed.contains t
  reason := l.reasons[t]?
  flagged := l.flagged.contains t

@[simp] theorem count_standing (l : Ledger) (t : Term) : (l.standing t).count = l.counted[t]? := rfl

@[simp] theorem failed_standing (l : Ledger) (t : Term) :
    (l.standing t).failed = l.failed.contains t := rfl

@[simp] theorem reason_standing (l : Ledger) (t : Term) :
    (l.standing t).reason = l.reasons[t]? := rfl

@[simp] theorem flagged_standing (l : Ledger) (t : Term) :
    (l.standing t).flagged = l.flagged.contains t := rfl

theorem mem_counted_iff {l : Ledger} {t : Term} : t ∈ l.counted ↔ (l.standing t).count.isSome := by
  simp

theorem mem_reasons_iff {l : Ledger} {t : Term} : t ∈ l.reasons ↔ (l.standing t).reason.isSome := by
  simp

theorem mem_failed_iff {l : Ledger} {t : Term} : t ∈ l.failed ↔ (l.standing t).failed = true := by
  simp

theorem mem_flagged_iff {l : Ledger} {t : Term} :
    t ∈ l.flagged ↔ (l.standing t).flagged = true := by
  simp

theorem contains_counted_eq_false {l : Ledger} {t : Term} :
    l.counted.contains t = false ↔ t ∉ l.counted := by
  rw [← Bool.not_eq_true, Std.ExtTreeMap.contains_iff_mem]

theorem mem_prune_pending {l : Ledger} {t : Term} :
    t ∈ l.prune.pending ↔ t ∈ l.pending ∧ t ∉ l.counted := by
  rw [pending_prune, List.mem_filter, Bool.not_eq_true', contains_counted_eq_false]

theorem settled_iff {l : Ledger} :
    l.settled = true ↔ ∀ t ∈ l.worklist, (t ∈ l.counted ↔ t ∉ l.failed) := by
  rw [settled, List.all_eq_true]
  refine forall_congr' fun t => imp_congr_right fun _ => ?_
  rw [bne_iff_ne, Ne, Bool.eq_iff_iff, Std.ExtTreeMap.contains_iff_mem,
    Std.ExtTreeSet.contains_iff_mem]
  by_cases hc : t ∈ l.counted <;> by_cases hf : t ∈ l.failed <;> simp only [hc, hf] <;> decide

@[simp] theorem standing_start (terms : List Term) (retries : Nat) (t : Term) :
    (start terms retries).standing t = .unknown := by
  simp [standing, start, Standing.unknown]

/-- Each term stands soundly. Every operation on a ledger keeps this, and everything that the
collections of a ledger have to do with each other follows from it. -/
def Sound (l : Ledger) : Prop := ∀ t, (l.standing t).Sound

theorem sound_start (terms : List Term) (retries : Nat) : (start terms retries).Sound := by
  intro t
  rw [standing_start]
  exact Standing.sound_unknown

/-! ## Entering results -/

/-- An outcome is entered for its own term and leaves every other term as it stands. -/
theorem standing_record (l : Ledger) (t u : Term) (o : Outcome) :
    (l.record t o).standing u = if t = u then (l.standing u).enter o else l.standing u := by
  -- For the term itself the operation and `enter` ask the same question, whether it is counted. For
  -- another term each of the four collections is looked up past an insertion or an erasure at `t`.
  cases o with
  | counted n incomplete =>
    by_cases hu : t = u
    · subst hu
      by_cases hc : l.counted.contains t
      · simp_all [record, recordCount, standing, Standing.enter]
      · cases incomplete <;> simp_all [record, recordCount, standing, Standing.enter]
    · by_cases hc : l.counted.contains t
      · simp [record, recordCount, standing, hc, hu, Std.ExtTreeMap.getElem?_erase,
          Std.ExtTreeSet.contains_erase]
      · cases incomplete <;>
          simp [record, recordCount, standing, hc, hu, Std.ExtTreeMap.getElem?_erase,
            Std.ExtTreeMap.getElem?_insert, Std.ExtTreeSet.contains_erase,
            Std.ExtTreeSet.contains_insert]
  | failed r =>
    by_cases hu : t = u
    · subst hu
      by_cases hc : l.counted.contains t
      · simp_all [record, recordFailure, standing, Standing.enter]
      · simp_all [record, recordFailure, standing, Standing.enter]
    · by_cases hc : l.counted.contains t
      · simp [record, recordFailure, standing, hc, hu]
      · simp [record, recordFailure, standing, hc, hu, Std.ExtTreeMap.getElem?_insert,
          Std.ExtTreeSet.contains_insert]

theorem standing_recordAll (l : Ledger) (results : Results) (t : Term) :
    (l.recordAll results).standing t
      = (results.filter fun r => r.1 = t).foldl (fun s r => s.enter r.2) (l.standing t) := by
  induction results generalizing l with
  | nil => rfl
  | cons r results ih =>
    have step : l.recordAll (r :: results) = (l.record r.1 r.2).recordAll results := rfl
    rw [step, ih, standing_record]
    by_cases hr : r.1 = t
    · rw [if_pos hr, List.filter_cons_of_pos (by simpa using hr), List.foldl_cons]
    · rw [if_neg hr, List.filter_cons_of_neg (by simpa using hr)]

theorem sound_record {l : Ledger} (h : l.Sound) (t : Term) (o : Outcome) :
    (l.record t o).Sound := by
  intro u
  rw [standing_record]
  split
  · exact (h u).enter o
  · exact h u

theorem sound_recordAll {l : Ledger} (h : l.Sound) (results : Results) :
    (l.recordAll results).Sound := by
  induction results generalizing l with
  | nil => exact h
  | cons r results ih => exact ih (sound_record h r.1 r.2)

theorem sound_merge {l : Ledger} (h : l.Sound) (results : Results) : (l.merge results).Sound :=
  sound_recordAll h results

theorem recordAll_of_counted {l : Ledger} {t : Term} (h : t ∈ l.counted) (results : Results) :
    ((l.recordAll results).standing t).count = (l.standing t).count
      ∧ ((l.recordAll results).standing t).flagged = (l.standing t).flagged := by
  induction results generalizing l with
  | nil => exact ⟨rfl, rfl⟩
  | cons r results ih =>
    have first : ((l.record r.1 r.2).standing t).count = (l.standing t).count
        ∧ ((l.record r.1 r.2).standing t).flagged = (l.standing t).flagged := by
      rw [standing_record]
      split
      · exact Standing.enter_of_counted (mem_counted_iff.mp h) r.2
      · exact ⟨rfl, rfl⟩
    have still : t ∈ (l.record r.1 r.2).counted := by
      rw [mem_counted_iff, first.1]
      exact mem_counted_iff.mp h
    have others := ih still
    exact ⟨others.1.trans first.1, others.2.trans first.2⟩

/-- The number of searches is no part of what is known of a term. -/
@[simp] theorem standing_merge (l : Ledger) (results : Results) (t : Term) :
    (l.merge results).standing t = (l.recordAll results).standing t := rfl

theorem standing_merge_of_not_mem {l : Ledger} {results : Results} {t : Term}
    (h : t ∉ results.map Prod.fst) : (l.merge results).standing t = l.standing t := by
  have none_left : results.filter (fun r => r.1 = t) = [] := by
    rw [List.filter_eq_nil_iff]
    intro r hr he
    exact h (List.mem_map.mpr ⟨r, hr, by simpa using he⟩)
  rw [standing_merge, standing_recordAll, none_left, List.foldl_nil]

/-- With one result for each term, the order of the results plays no part. -/
theorem standing_merge_of_mem {l : Ledger} {results : Results} {t : Term} {o : Outcome}
    (distinct : (results.map Prod.fst).Nodup) (h : (t, o) ∈ results) :
    (l.merge results).standing t = (l.standing t).enter o := by
  rw [standing_merge, standing_recordAll]
  -- The result stands somewhere in the list, and no other one is for the same term.
  obtain ⟨before, after, rfl⟩ := List.append_of_mem h
  rw [List.map_append, List.map_cons, List.nodup_append, List.nodup_cons] at distinct
  obtain ⟨-, ⟨not_after, -⟩, apart⟩ := distinct
  have hb : before.filter (fun r => r.1 = t) = [] := by
    rw [List.filter_eq_nil_iff]
    intro r hr he
    exact apart r.1 (List.mem_map_of_mem hr) t List.mem_cons_self (by simpa using he)
  have ha : after.filter (fun r => r.1 = t) = [] := by
    rw [List.filter_eq_nil_iff]
    intro r hr he
    exact not_after (List.mem_map.mpr ⟨r, hr, by simpa using he⟩)
  rw [List.filter_append, hb, List.filter_cons_of_pos (by simp), ha]
  rfl

/-! ## What entering results leaves alone -/

@[simp] theorem record_worklist (l : Ledger) (t : Term) (o : Outcome) :
    (l.record t o).worklist = l.worklist := by
  cases o <;> simp only [record, recordCount, recordFailure] <;> split <;> rfl

@[simp] theorem record_pending (l : Ledger) (t : Term) (o : Outcome) :
    (l.record t o).pending = l.pending := by
  cases o <;> simp only [record, recordCount, recordFailure] <;> split <;> rfl

@[simp] theorem record_retriesLeft (l : Ledger) (t : Term) (o : Outcome) :
    (l.record t o).retriesLeft = l.retriesLeft := by
  cases o <;> simp only [record, recordCount, recordFailure] <;> split <;> rfl

@[simp] theorem record_cursor (l : Ledger) (t : Term) (o : Outcome) :
    (l.record t o).cursor = l.cursor := by
  cases o <;> simp only [record, recordCount, recordFailure] <;> split <;> rfl

/-- Whatever entering one outcome leaves alone, entering a batch leaves alone. -/
theorem recordAll_keeps {α : Type} (part : Ledger → α)
    (h : ∀ l t o, part (record l t o) = part l) (l : Ledger) (results : Results) :
    part (l.recordAll results) = part l := by
  induction results generalizing l with
  | nil => rfl
  | cons r results ih => exact (ih (l.record r.1 r.2)).trans (h l r.1 r.2)

@[simp] theorem merge_worklist (l : Ledger) (results : Results) :
    (l.merge results).worklist = l.worklist :=
  recordAll_keeps worklist record_worklist l results

@[simp] theorem merge_pending (l : Ledger) (results : Results) :
    (l.merge results).pending = l.pending :=
  recordAll_keeps pending record_pending l results

@[simp] theorem merge_retriesLeft (l : Ledger) (results : Results) :
    (l.merge results).retriesLeft = l.retriesLeft :=
  recordAll_keeps retriesLeft record_retriesLeft l results

@[simp] theorem merge_cursor (l : Ledger) (results : Results) :
    (l.merge results).cursor = l.cursor :=
  recordAll_keeps cursor record_cursor l results

end Ledger
end Census
