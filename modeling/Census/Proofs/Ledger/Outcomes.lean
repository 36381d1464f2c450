import Census.Proofs.Ledger.Standing

/-!
# What becomes of a term over many results

Results come in batch after batch, and nothing keeps a term from having several of them, within a
batch or across batches. For each term only its own outcomes matter, in the order in which they are
entered (`standing_merge_eq`), and they come to one of two things: failures alone leave the reason of
the last one (`enterAll_failures`), and the first count ends all change (`enterAll_of_counted`).
Where one batch ends and the next one begins makes no difference (`foldl_merge`).
-/

namespace Census

theorem exists_map_failed {outcomes : List Outcome} (h : ∀ o ∈ outcomes, o.isCounted = false) :
    ∃ failures : List Reason, outcomes = failures.map Outcome.failed := by
  induction outcomes with
  | nil => exact ⟨[], rfl⟩
  | cons o outcomes ih =>
    obtain ⟨failures, rest⟩ := ih fun o' ho => h o' (List.mem_cons_of_mem o ho)
    cases o with
    | counted n incomplete =>
      have never := h _ List.mem_cons_self
      cases never
    | failed r => exact ⟨r :: failures, by rw [List.map_cons, rest]⟩

/-- Outcomes are failures throughout, or failures up to a first count. -/
theorem failures_or_first_count (outcomes : List Outcome) :
    (∃ failures : List Reason, outcomes = failures.map Outcome.failed)
      ∨ ∃ (failures : List Reason) (n : Nat) (incomplete : Bool) (later : List Outcome),
        outcomes = failures.map Outcome.failed ++ .counted n incomplete :: later := by
  induction outcomes with
  | nil => exact Or.inl ⟨[], rfl⟩
  | cons o outcomes ih =>
    cases o with
    | counted n incomplete => exact Or.inr ⟨[], n, incomplete, outcomes, rfl⟩
    | failed r =>
      rcases ih with ⟨failures, rfl⟩ | ⟨failures, n, incomplete, later, rfl⟩
      · exact Or.inl ⟨r :: failures, rfl⟩
      · exact Or.inr ⟨r :: failures, n, incomplete, later, rfl⟩

theorem find?_first_count {before : List Outcome} (failing : ∀ o ∈ before, o.isCounted = false)
    (n : Nat) (incomplete : Bool) (later : List Outcome) :
    (before ++ .counted n incomplete :: later).find? Outcome.isCounted
      = some (.counted n incomplete) := by
  have none_before : before.find? Outcome.isCounted = none := by
    rw [List.find?_eq_none]
    intro o ho
    rw [failing o ho]
    exact Bool.false_ne_true
  rw [List.find?_append, none_before, Option.none_or, List.find?_cons_of_pos rfl]

namespace Standing

/-- Enters outcomes one after the other. -/
def enterAll (s : Standing) (outcomes : List Outcome) : Standing := outcomes.foldl enter s

theorem enterAll_append (s : Standing) (a b : List Outcome) :
    s.enterAll (a ++ b) = (s.enterAll a).enterAll b := List.foldl_append

/-- A count that has been entered is all there is to know, whatever comes later. -/
theorem enterAll_of_counted (n : Nat) (incomplete : Bool) (outcomes : List Outcome) :
    (of (.counted n incomplete)).enterAll outcomes = of (.counted n incomplete) := by
  induction outcomes with
  | nil => rfl
  | cons o outcomes ih =>
    have same : (of (.counted n incomplete)).enter o = of (.counted n incomplete) := by
      cases o <;> rfl
    show ((of (.counted n incomplete)).enter o).enterAll outcomes = _
    rw [same, ih]

/-- Of failures the last one stays. -/
theorem enterAll_failures {s : Standing} (uncounted : s.count = none) (failures : List Reason) :
    s.enterAll (failures.map Outcome.failed)
      = { s with
          failed := s.failed || !failures.isEmpty
          reason := failures.getLast?.or s.reason } := by
  induction failures generalizing s with
  | nil =>
    rw [List.isEmpty_nil, Bool.not_true, Bool.or_false]
    rfl
  | cons r failures ih =>
    have first : s.enter (.failed r) = { s with failed := true, reason := some r } := by
      rw [enter, uncounted]
      rfl
    have others := ih (s := { s with failed := true, reason := some r }) uncounted
    show (s.enter (.failed r)).enterAll (failures.map Outcome.failed) = _
    rw [first, others, List.getLast?_cons, List.isEmpty_cons, Bool.not_false, Bool.or_true,
      Bool.true_or]
    cases failures.getLast? <;> rfl

/-- The first count settles a term, whatever failed before it. -/
theorem enterAll_first_count {s : Standing} (uncounted : s.count = none) (failures : List Reason)
    (n : Nat) (incomplete : Bool) (later : List Outcome) :
    s.enterAll (failures.map Outcome.failed ++ .counted n incomplete :: later)
      = of (.counted n incomplete) := by
  have before := enterAll_failures uncounted failures
  have counts : (s.enterAll (failures.map Outcome.failed)).enter (.counted n incomplete)
      = of (.counted n incomplete) := by
    rw [before, enter, uncounted]
    rfl
  rw [enterAll_append]
  show ((s.enterAll (failures.map Outcome.failed)).enter (.counted n incomplete)).enterAll later = _
  rw [counts, enterAll_of_counted]

end Standing

namespace Ledger

/-- The outcomes that results hold for a term, in their order. -/
def outcomes (t : Term) (results : Results) : List Outcome :=
  (results.filter fun r => r.1 = t).map Prod.snd

/-- Entering results is, for each term, entering its own outcomes. -/
theorem standing_merge_eq (l : Ledger) (results : Results) (t : Term) :
    (l.merge results).standing t = (l.standing t).enterAll (outcomes t results) := by
  rw [standing_merge, standing_recordAll, outcomes, Standing.enterAll, List.foldl_map]

/-- Batches that are entered one after the other come to the same as all of them at once. -/
theorem foldl_merge (l : Ledger) (batches : List Results) :
    batches.foldl merge l = l.merge batches.flatten := by
  induction batches generalizing l with
  | nil => rfl
  | cons results batches ih =>
    show batches.foldl merge (l.merge results) = _
    rw [ih, List.flatten_cons, merge_append]

/-- What is known of a term once results were entered, if it was not counted before. -/
structure FirstCountWins (l after : Ledger) (t : Term) (own : List Outcome) : Prop where
  counted_iff : t ∈ after.counted ↔ ∃ n incomplete, .counted n incomplete ∈ own
  counted : ∀ before n incomplete later, own = before ++ .counted n incomplete :: later →
    (∀ o ∈ before, o.isCounted = false) →
      after.counted[t]? = some n ∧ (t ∈ after.flagged ↔ incomplete = true)
        ∧ t ∉ after.failed ∧ t ∉ after.reasons
  failed : (∀ o ∈ own, o.isCounted = false) →
    (t ∈ after.failed ↔ t ∈ l.failed ∨ own ≠ [])
      ∧ (∀ before r, own = before ++ [.failed r] → after.reasons[t]? = some r)
      ∧ (own = [] → after.standing t = l.standing t)

variable {l : Ledger} {t : Term}

theorem firstCountWins_of_failures {after : Ledger} {failures : List Reason}
    (uncounted : (l.standing t).count = none)
    (stands : after.standing t = (l.standing t).enterAll (failures.map Outcome.failed)) :
    FirstCountWins l after t (failures.map Outcome.failed) := by
  rw [Standing.enterAll_failures uncounted] at stands
  have never : ∀ n incomplete, .counted n incomplete ∉ failures.map Outcome.failed := by
    intro n incomplete mem
    obtain ⟨r, -, same⟩ := List.mem_map.mp mem
    cases same
  refine ⟨?_, ?_, fun _ => ⟨?_, ?_, ?_⟩⟩
  · rw [mem_counted_iff, stands]
    show (l.standing t).count.isSome = true ↔ _
    rw [uncounted]
    exact iff_of_false Bool.false_ne_true fun ⟨n, incomplete, mem⟩ => never n incomplete mem
  · intro before n incomplete later split
    have mem : .counted n incomplete ∈ before ++ .counted n incomplete :: later := by simp
    exact absurd (split ▸ mem) (never n incomplete)
  · rw [mem_failed_iff, stands, mem_failed_iff]
    cases failures <;> simp
  · intro before r split
    have last : failures.getLast? = some r := by
      have ends := congrArg List.getLast? split
      rw [List.getLast?_map, List.getLast?_concat, Option.map_eq_some_iff] at ends
      obtain ⟨r', found, same⟩ := ends
      cases same
      exact found
    rw [← reason_standing, stands, last]
    rfl
  · intro none_own
    rw [stands, List.map_eq_nil_iff.mp none_own, List.isEmpty_nil, Bool.not_true, Bool.or_false]
    rfl

theorem firstCountWins_of_count {after : Ledger} {failures : List Reason} {n : Nat}
    {incomplete : Bool} {later : List Outcome} (uncounted : (l.standing t).count = none)
    (stands : after.standing t = (l.standing t).enterAll
      (failures.map Outcome.failed ++ .counted n incomplete :: later)) :
    FirstCountWins l after t (failures.map Outcome.failed ++ .counted n incomplete :: later) := by
  rw [Standing.enterAll_first_count uncounted] at stands
  have failing : ∀ o ∈ failures.map Outcome.failed, o.isCounted = false := by
    intro o mem
    obtain ⟨r, -, rfl⟩ := List.mem_map.mp mem
    rfl
  have first := find?_first_count failing n incomplete later
  have mem : .counted n incomplete
      ∈ failures.map Outcome.failed ++ .counted n incomplete :: later := by simp
  refine ⟨?_, ?_, fun none_counts => ?_⟩
  · rw [mem_counted_iff, stands]
    exact iff_of_true rfl ⟨n, incomplete, mem⟩
  · intro before n' incomplete' later' split failing'
    rw [split, find?_first_count failing'] at first
    cases first
    refine ⟨congrArg Standing.count stands, ?_, ?_, ?_⟩
    · rw [mem_flagged_iff, stands]
      exact Iff.rfl
    · rw [mem_failed_iff, stands]
      exact Bool.false_ne_true
    · rw [mem_reasons_iff, stands]
      exact Bool.false_ne_true
  · have never := none_counts _ mem
    cases never

theorem firstCountWins_merge (uncounted : t ∉ l.counted) (results : Results) :
    FirstCountWins l (l.merge results) t (outcomes t results) := by
  have none : (l.standing t).count = none := Std.ExtTreeMap.getElem?_eq_none uncounted
  have stands := standing_merge_eq l results t
  rcases failures_or_first_count (outcomes t results) with
    ⟨failures, own⟩ | ⟨failures, n, incomplete, later, own⟩
  · rw [own] at stands ⊢
    exact firstCountWins_of_failures none stands
  · rw [own] at stands ⊢
    exact firstCountWins_of_count none stands

/-- However many results come in for a term that is not counted yet, the first count among its own
wins, and failures show only as long as there is none. Results of other terms do not matter to it, nor
does it matter in how many batches the results come. -/
theorem first_count_wins (l : Ledger) (t : Term) (uncounted : t ∉ l.counted)
    (batches : List Results) :
    FirstCountWins l (batches.foldl merge l) t (outcomes t batches.flatten)
      ∧ (∀ others : List Results, outcomes t others.flatten = outcomes t batches.flatten →
        (others.foldl merge l).standing t = (batches.foldl merge l).standing t)
      ∧ batches.foldl merge l = l.merge batches.flatten
      ∧ ∀ (m : Ledger) (a b : Results), (m.merge a).merge b = m.merge (a ++ b) := by
  refine ⟨?_, fun others same => ?_, foldl_merge l batches, fun m a b => (m.merge_append a b).symm⟩
  · rw [foldl_merge]
    exact firstCountWins_merge uncounted batches.flatten
  · rw [foldl_merge, foldl_merge, standing_merge_eq, standing_merge_eq, same]

/-- "Go" fails, is counted twice and fails again, over three batches and among the results of other
terms. -/
theorem first_count_wins_of_go :
    let l := (start ["Go", "C"] 1).merge [("Go", .failed .other)]
    let batches : List Results :=
      [[("C", .counted 3 false), ("Go", .failed .malformed), ("Go", .counted 7 true)], [],
        [("Go", .counted 9 false), ("C", .failed .rateLimited), ("Go", .failed .rateLimited)]]
    let after := batches.foldl merge l
    "Go" ∉ l.counted
      ∧ outcomes "Go" batches.flatten = [.failed .malformed, .counted 7 true, .counted 9 false,
        .failed .rateLimited]
      ∧ after.counted["Go"]? = some 7 ∧ "Go" ∈ after.flagged ∧ "Go" ∉ after.failed := by
  intro l batches after
  have uncounted : "Go" ∉ l.counted := by decide +kernel
  have own : outcomes "Go" batches.flatten = [.failed .malformed, .counted 7 true,
      .counted 9 false, .failed .rateLimited] := by decide +kernel
  have wins := (first_count_wins l "Go" uncounted batches).1
  rw [own] at wins
  obtain ⟨count, flag, cleared, -⟩ := wins.counted [.failed .malformed] 7 true _ rfl (by decide)
  exact ⟨uncounted, own, count, flag.mpr rfl, cleared⟩

end Ledger
end Census
