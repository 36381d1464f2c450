import Census.Proofs.Ledger.Standing

/-!
# Batches

Which terms a batch holds and what taking it leaves behind. The batch of the primary sweep is a
front piece of the distinct uncounted terms that wait; the batch of the retry sweep is a front piece
of the failed terms, turned so that they begin after the cursor. Both equations are exact, and all
that the sweeps need of a batch (its terms are distinct, it is no longer than the limit, it is empty
only when nothing waits) is read off them.

`Taken` says what the two kinds of batch have in common, in the words of the standing of a term.
-/

namespace Census
namespace Ledger

/-! ## First copies -/

theorem firsts_filter (p : Term → Bool) (ts : List Term) :
    firsts (ts.filter p) = (firsts ts).filter p := by
  induction ts with
  | nil => rfl
  | cons t ts ih =>
    by_cases h : p t
    · rw [List.filter_cons_of_pos h, firsts, firsts, List.filter_cons_of_pos h, ih,
        List.filter_filter, List.filter_filter]
      simp only [Bool.and_comm]
    · rw [List.filter_cons_of_neg h, firsts, List.filter_cons_of_neg h, ih, List.filter_filter]
      refine List.filter_congr fun u _ => ?_
      by_cases hu : u = t
      · subst hu; simp [h]
      · simp [hu]

theorem firsts_eq_eraseDups (ts : List Term) : firsts ts = ts.eraseDups := by
  -- Both drop the copies of the head, but at different times: `firsts` from the first copies of the
  -- rest, `eraseDups` from the rest. So the induction is on the length, not on the list.
  induction h : ts.length using Nat.strongRecOn generalizing ts with
  | ind n ih =>
    cases ts with
    | nil => rfl
    | cons t ts =>
      have shorter : (ts.filter fun u => u ≠ t).length < n := by
        have := List.length_filter_le (fun u => u ≠ t) ts
        rw [← h, List.length_cons]
        omega
      rw [firsts, List.eraseDups_cons, ← firsts_filter, ih _ shorter _ rfl]
      congr 2
      refine List.filter_congr fun u _ => ?_
      by_cases hu : u = t <;> simp [hu]

/-! ## The batch of the primary sweep -/

/-- The uncounted terms that wait for their first search, each once. -/
def waiting (l : Ledger) : List Term := firsts (l.pending.filter fun t => !l.counted.contains t)

theorem mem_waiting {l : Ledger} {t : Term} : t ∈ l.waiting ↔ t ∈ l.pending ∧ t ∉ l.counted := by
  rw [waiting, mem_firsts]
  exact mem_prune_pending

theorem nodup_waiting (l : Ledger) : l.waiting.Nodup := nodup_firsts _

/-- What is gathered is what was in hand and then the first copies of the terms that are neither
counted nor in hand. -/
theorem gather_fst (counted : TermMap Nat) (limit : Nat) (inHand pending : List Term) :
    (gather counted limit inHand pending).1
      = inHand ++ (firsts (pending.filter fun t => !counted.contains t && t ∉ inHand)).take
          (limit - inHand.length) := by
  fun_induction gather counted limit inHand pending with
  | case1 inHand => simp [firsts]
  | case2 inHand t rest full => rw [Nat.sub_eq_zero_of_le full, List.take_zero, List.append_nil]
  | case3 inHand t rest notFull skipped ih =>
    rw [ih, List.filter_cons_of_neg]
    rcases skipped with h | h <;> simp [h]
  | case4 inHand t rest notFull taken ih =>
    -- From now on `t` is in hand too, which is what `firsts` filters out behind its head.
    obtain ⟨uncounted, new⟩ := not_or.mp taken
    have room : limit - inHand.length = (limit - (inHand ++ [t]).length) + 1 := by
      rw [List.length_append, List.length_singleton]
      omega
    have others : (rest.filter fun u => !counted.contains u && decide (u ∉ inHand ++ [t]))
        = (rest.filter fun u => !counted.contains u && decide (u ∉ inHand)).filter
            fun u => u ≠ t := by
      rw [List.filter_filter]
      refine List.filter_congr fun u _ => ?_
      by_cases hu : u = t <;> simp [hu]
    rw [ih, List.filter_cons_of_pos (by simp [uncounted, new]), firsts, room, List.take_succ_cons,
      others, firsts_filter, List.append_assoc]
    rfl

theorem nextBatch_fst (l : Ledger) (limit : Nat) :
    (l.nextBatch limit).1 = l.waiting.take limit := by
  have h := gather_fst l.counted limit [] l.pending
  simpa [nextBatch, waiting] using h

/-- No batch is empty while an uncounted term waits. -/
theorem nextBatch_ne_nil {l : Ledger} {limit : Nat} (waits : l.pending ≠ [])
    (pruned : ∀ t ∈ l.pending, t ∉ l.counted) (room : 0 < limit) : (l.nextBatch limit).1 ≠ [] := by
  obtain ⟨t, ht⟩ := List.exists_mem_of_ne_nil _ waits
  have some_waits : l.waiting ≠ [] := List.ne_nil_of_mem (mem_waiting.mpr ⟨ht, pruned t ht⟩)
  rw [nextBatch_fst, Ne, List.take_eq_nil_iff, not_or]
  exact ⟨Nat.ne_of_gt room, some_waits⟩

/-- A list is taken apart into what gathering goes over and what it leaves; nothing is lost on the
way. -/
theorem gather_split (counted : TermMap Nat) (limit : Nat) (inHand pending : List Term) :
    ∃ dropped, pending = dropped ++ (gather counted limit inHand pending).2
      ∧ ∀ t ∈ dropped, t ∈ counted ∨ t ∈ (gather counted limit inHand pending).1 := by
  fun_induction gather counted limit inHand pending with
  | case1 inHand => exact ⟨[], rfl, by simp⟩
  | case2 inHand t rest full => exact ⟨[], rfl, by simp⟩
  | case3 inHand t rest notFull skipped ih =>
    obtain ⟨dropped, split, kept⟩ := ih
    refine ⟨t :: dropped, by rw [List.cons_append, ← split], ?_⟩
    intro u hu
    rcases List.mem_cons.mp hu with rfl | hu
    · rcases skipped with h | h
      · exact Or.inl (by simpa using h)
      · rw [gather_fst]
        exact Or.inr (List.mem_append_left _ h)
    · exact kept u hu
  | case4 inHand t rest notFull taken ih =>
    obtain ⟨dropped, split, kept⟩ := ih
    refine ⟨t :: dropped, by rw [List.cons_append, ← split], ?_⟩
    intro u hu
    rcases List.mem_cons.mp hu with rfl | hu
    · rw [gather_fst]
      exact Or.inr (List.mem_append_left _ (by simp))
    · exact kept u hu

theorem nextBatch_split (l : Ledger) (limit : Nat) :
    ∃ dropped, l.pending = dropped ++ (l.nextBatch limit).2.pending
      ∧ ∀ t ∈ dropped, t ∈ l.counted ∨ t ∈ (l.nextBatch limit).1 :=
  gather_split l.counted limit [] l.pending

/-! ## The batch of the retry sweep -/

/-- The failed terms in the order in which they are retried: from the cursor on, and then from the
beginning. -/
def rotation (l : Ledger) : List Term :=
  l.ahead ++ l.failed.toList.filter fun t => t ∉ l.ahead

theorem mem_failed_of_mem_ahead {l : Ledger} {t : Term} (h : t ∈ l.ahead) : t ∈ l.failed := by
  unfold ahead at h
  split at h
  · simpa using h
  · simpa using (List.mem_filter.mp h).1

theorem mem_rotation {l : Ledger} {t : Term} : t ∈ l.rotation ↔ t ∈ l.failed := by
  rw [rotation, List.mem_append, List.mem_filter, Std.ExtTreeSet.mem_toList]
  constructor
  · rintro (h | ⟨h, -⟩)
    · exact mem_failed_of_mem_ahead h
    · exact h
  · intro h
    by_cases ha : t ∈ l.ahead
    · exact Or.inl ha
    · exact Or.inr ⟨h, by simpa using ha⟩

theorem nodup_failed (l : Ledger) : l.failed.toList.Nodup :=
  l.failed.distinct_toList.imp fun h he => h (by simp [he])

theorem nodup_rotation (l : Ledger) : l.rotation.Nodup := by
  have ahead_nodup : l.ahead.Nodup := by
    unfold ahead
    split
    · exact l.nodup_failed
    · exact l.nodup_failed.filter _
  refine List.nodup_append.mpr ⟨ahead_nodup, l.nodup_failed.filter _, ?_⟩
  intro t ht u hu he
  subst he
  simpa [ht] using (List.mem_filter.mp hu).2

theorem retryBatch_eq (l : Ledger) (limit : Nat) : l.retryBatch limit = l.rotation.take limit := by
  rcases Nat.le_total limit l.ahead.length with h | h
  · have full : limit - (l.ahead.take limit).length = 0 := by
      rw [List.length_take, Nat.min_eq_left h, Nat.sub_self]
    rw [retryBatch, full, List.take_zero, List.append_nil, rotation,
      List.take_append_of_le_length h]
  · rw [retryBatch, List.take_of_length_le h, rotation, List.take_append, List.take_of_length_le h]

theorem takeRetry_fst (l : Ledger) (limit : Nat) : (l.takeRetry limit).1 = l.rotation.take limit :=
  l.retryBatch_eq limit

theorem takeRetry_ne_nil {l : Ledger} {limit : Nat} (fails : l.failed.isEmpty = false)
    (room : 0 < limit) : (l.takeRetry limit).1 ≠ [] := by
  have some_failed : l.rotation ≠ [] := by
    intro h
    have empty : l.failed = ∅ := by
      refine Std.ExtTreeSet.ext_mem fun t => ?_
      rw [← mem_rotation, h]
      simp
    rw [empty] at fails
    cases fails
  rw [takeRetry_fst, Ne, List.take_eq_nil_iff, not_or]
  exact ⟨Nat.ne_of_gt room, some_failed⟩

theorem mem_foldl_erase {s : TermSet} {ts : List Term} {t : Term} :
    t ∈ ts.foldl (fun s u => s.erase u) s ↔ t ∈ s ∧ t ∉ ts := by
  induction ts generalizing s with
  | nil => simp
  | cons u ts ih =>
    have other : Term.order u t ≠ .eq ↔ t ≠ u := by
      rw [ne_eq, Std.LawfulEqCmp.compare_eq_iff_eq, eq_comm]
    rw [List.foldl_cons, ih, Std.ExtTreeSet.mem_erase, other, List.mem_cons, not_or]
    constructor
    · rintro ⟨⟨hu, hs⟩, hts⟩
      exact ⟨hs, hu, hts⟩
    · rintro ⟨hs, hu, hts⟩
      exact ⟨⟨hu, hs⟩, hts⟩

/-- Taking a batch of failed terms out changes nothing but that they are no longer failed: they keep
their reasons. -/
theorem standing_takeRetry (l : Ledger) (limit : Nat) (t : Term) :
    (l.takeRetry limit).2.standing t
      = { l.standing t with
          failed := (l.standing t).failed && decide (t ∉ (l.takeRetry limit).1) } := by
  have h : (l.takeRetry limit).2.failed.contains t
      = (l.failed.contains t && decide (t ∉ (l.takeRetry limit).1)) := by
    rw [Bool.eq_iff_iff, Bool.and_eq_true, decide_eq_true_eq, Std.ExtTreeSet.contains_iff_mem,
      Std.ExtTreeSet.contains_iff_mem]
    exact mem_foldl_erase
  unfold standing
  rw [h]
  rfl

theorem sound_takeRetry {l : Ledger} (h : l.Sound) (limit : Nat) : (l.takeRetry limit).2.Sound := by
  intro t
  rw [standing_takeRetry]
  exact (h t).out _

/-! ## What the two kinds of batch have in common -/

/-- `batch` was taken out of `l` under a limit, and `rest` is what was left. Outside of the batch no
term stands otherwise than before, and a term that waited still waits unless it is counted or in the
batch. -/
structure Taken (l : Ledger) (limit : Nat) (batch : List Term) (rest : Ledger) : Prop where
  nonempty : batch ≠ []
  nodup : batch.Nodup
  length_le : batch.length ≤ limit
  uncounted : ∀ t ∈ batch, t ∉ l.counted
  known : ∀ t ∈ batch, t ∈ l.pending ∨ t ∈ l.failed
  counted : rest.counted = l.counted
  sound : rest.Sound
  elsewhere : ∀ t, t ∉ batch → rest.standing t = l.standing t
  pending : rest.pending.Sublist l.pending
  kept : ∀ t ∈ l.pending, t ∈ rest.pending ∨ t ∈ l.counted ∨ t ∈ batch
  worklist : rest.worklist = l.worklist

/-- A batch of pending terms, none of which has been counted. -/
theorem taken_nextBatch {l : Ledger} {limit : Nat} (sound : l.Sound)
    (waits : l.pending ≠ []) (pruned : ∀ t ∈ l.pending, t ∉ l.counted) (room : 0 < limit) :
    Taken l limit (l.nextBatch limit).1 (l.nextBatch limit).2 := by
  have mem_batch : ∀ {t}, t ∈ (l.nextBatch limit).1 → t ∈ l.waiting := by
    intro t ht
    rw [nextBatch_fst] at ht
    exact List.mem_of_mem_take ht
  obtain ⟨dropped, split, kept⟩ := l.nextBatch_split limit
  refine
    { nonempty := ?_, nodup := ?_, length_le := ?_, uncounted := ?_, known := ?_, counted := rfl
      sound := sound, elsewhere := fun _ _ => rfl, pending := ?_, kept := ?_, worklist := rfl }
  · exact nextBatch_ne_nil waits pruned room
  · rw [nextBatch_fst]
    exact l.nodup_waiting.sublist (List.take_sublist _ _)
  · rw [nextBatch_fst]
    exact List.length_take_le _ _
  · exact fun t ht => (mem_waiting.mp (mem_batch ht)).2
  · exact fun t ht => Or.inl (mem_waiting.mp (mem_batch ht)).1
  · rw [split]
    exact List.sublist_append_right _ _
  · intro t ht
    rw [split, List.mem_append] at ht
    rcases ht with ht | ht
    · exact Or.inr (kept t ht)
    · exact Or.inl ht

/-- A batch of failed terms. That none of them is counted follows from the standing of the terms. -/
theorem taken_takeRetry {l : Ledger} {limit : Nat} (sound : l.Sound)
    (fails : l.failed.isEmpty = false) (room : 0 < limit) :
    Taken l limit (l.spendRetry.takeRetry limit).1 (l.spendRetry.takeRetry limit).2 := by
  have batch : (l.spendRetry.takeRetry limit).1 = l.rotation.take limit :=
    l.spendRetry.takeRetry_fst limit
  have failed : ∀ t ∈ (l.spendRetry.takeRetry limit).1, t ∈ l.failed := by
    intro t ht
    rw [batch] at ht
    exact mem_rotation.mp (List.mem_of_mem_take ht)
  have stands : ∀ t, (l.spendRetry.takeRetry limit).2.standing t
      = { l.standing t with
          failed := (l.standing t).failed && decide (t ∉ (l.spendRetry.takeRetry limit).1) } :=
    l.spendRetry.standing_takeRetry limit
  refine
    { nonempty := ?_, nodup := ?_, length_le := ?_, uncounted := ?_, known := ?_, counted := rfl
      sound := ?_, elsewhere := ?_, pending := List.Sublist.refl _, kept := fun _ h => Or.inl h
      worklist := rfl }
  · exact takeRetry_ne_nil (l := l.spendRetry) fails room
  · rw [batch]
    exact l.nodup_rotation.sublist (List.take_sublist _ _)
  · rw [batch]
    exact List.length_take_le _ _
  · -- A counted term is not failed, so a failed one is not counted.
    intro t ht hc
    have apart := ((sound t).counted (mem_counted_iff.mp hc)).1
    rw [mem_failed_iff.mp (failed t ht)] at apart
    cases apart
  · exact fun t ht => Or.inr (failed t ht)
  · exact sound_takeRetry (l := l.spendRetry) sound limit
  · intro t ht
    rw [stands, decide_eq_true ht, Bool.and_true]

namespace Taken

variable {l rest : Ledger} {limit : Nat} {batch : List Term} {results : Results} {t : Term}

/-- A term of the batch stands, once the batch is back, by its own result alone. -/
theorem standing_merge_of_mem (h : Taken l limit batch rest)
    (back : (results.map Prod.fst).Perm batch) {o : Outcome} (ht : (t, o) ∈ results) :
    (rest.merge results).standing t = .of o := by
  have member : t ∈ batch := back.mem_iff.mp (List.mem_map_of_mem ht)
  have count : (rest.standing t).count = none := by
    rw [count_standing, h.counted]
    exact Std.ExtTreeMap.getElem?_eq_none (h.uncounted t member)
  rw [Ledger.standing_merge_of_mem (back.nodup_iff.mpr h.nodup) ht]
  exact (h.sound t).enter_of_count_eq_none count o

/-- Every other term stands as it did before the batch was taken. -/
theorem standing_merge_of_not_mem (h : Taken l limit batch rest)
    (back : (results.map Prod.fst).Perm batch) (ht : t ∉ batch) :
    (rest.merge results).standing t = l.standing t := by
  rw [Ledger.standing_merge_of_not_mem (fun hm => ht (back.mem_iff.mp hm))]
  exact h.elsewhere t ht

end Taken

end Ledger
end Census
