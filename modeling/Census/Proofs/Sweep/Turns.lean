import Census.Proofs.Ledger.Rotation
import Census.Proofs.Sweep.Passes

/-!
# Retries are fair

Seen through the rotation of the ledger the failed terms are a queue. A pass of the retry sweep
takes a batch off the front, and those of its terms that fail again go to the end in the same order
(`Rounds`). What the quotas are plays no part, and neither does what becomes of the other terms.

So a term has its turn as soon as more terms have been sent out than were in front of it
(`Rounds.reached`), and of two terms that stay in the queue the one that was sent out less often
comes first (`InTurn`), which keeps the numbers of their turns together.
-/

namespace Census
namespace Sweep

open Quota Ledger

/-! ## Queues -/

/-- A queue has become `last` by sending out `sent`, each time from the front. What `keep` keeps of
a batch goes to the end. -/
inductive Rounds : List Term → List (List Term) → List Term → Prop
  | none (queue : List Term) : Rounds queue [] queue
  | round {queue last : List Term} {sent : List (List Term)} (limit : Nat) (keep : Term → Bool)
      (untouched : ∀ t ∈ queue.drop limit, keep t = true)
      (more : Rounds ((queue.drop limit ++ queue.take limit).filter keep) sent last) :
      Rounds queue (queue.take limit :: sent) last

variable {queue last front back : List Term} {sent : List (List Term)} {x y t : Term} {a b : Nat}

/-- A term is sent out when more terms than were in front of it have been. -/
theorem Rounds.reached (h : Rounds queue sent last) {ahead behind : List Term}
    (split : queue = ahead ++ t :: behind) (k : Nat)
    (enough : ahead.length < (sent.take k).flatten.length) : t ∈ (sent.take k).flatten := by
  induction h generalizing ahead behind k with
  | none queue => simp at enough
  | @round queue last sent limit keep untouched more ih =>
    cases k with
    | zero => simp at enough
    | succ k =>
      rw [List.take_succ_cons, List.flatten_cons] at enough ⊢
      rw [List.mem_append]
      rcases Nat.lt_or_ge ahead.length limit with now | later
      · left
        rw [split, List.take_append, List.mem_append]
        right
        obtain ⟨n, hn⟩ := Nat.exists_eq_add_of_lt now
        rw [hn, Nat.add_assoc, Nat.add_sub_cancel_left, List.take_succ_cons]
        exact List.mem_cons_self
      · -- The batch ends in front of the term, and what is left in front of it has not been out.
        right
        have dropped : queue.drop limit = ahead.drop limit ++ t :: behind := by
          rw [split, List.drop_append_of_le_length later]
        have kept : (queue.drop limit).filter keep = queue.drop limit :=
          List.filter_eq_self.mpr untouched
        rw [dropped] at kept
        have next : (queue.drop limit ++ queue.take limit).filter keep
            = ahead.drop limit ++ t :: (behind ++ (queue.take limit).filter keep) := by
          rw [dropped, List.filter_append, kept, List.append_assoc, List.cons_append]
        refine ih next k ?_
        rw [List.length_append, split, List.length_take, List.length_append] at enough
        rw [List.length_drop]
        omega

theorem Rounds.mem_of_length_le (h : Rounds queue sent last) (k : Nat)
    (enough : queue.length ≤ (sent.take k).flatten.length) (ht : t ∈ queue) :
    t ∈ (sent.take k).flatten := by
  obtain ⟨ahead, behind, split⟩ := List.append_of_mem ht
  refine h.reached split k (Nat.lt_of_lt_of_le ?_ enough)
  rw [split, List.length_append, List.length_cons]
  omega

theorem Rounds.subset (h : Rounds queue sent last) : last ⊆ queue := by
  induction h with
  | none queue => exact List.Subset.refl queue
  | @round queue last sent limit keep untouched more ih =>
    intro t ht
    have member := (List.mem_filter.mp (ih ht)).1
    rw [List.mem_append] at member
    rcases member with dropped | taken
    · exact List.mem_of_mem_drop dropped
    · exact List.mem_of_mem_take taken

/-! ## Two terms that stay in a queue -/

/-- Where `x` and `y` stand in a queue when they have been sent out `a` and `b` times. -/
def InTurn (queue : List Term) (x y : Term) (a b : Nat) : Prop :=
  a = b ∨ (a = b + 1 ∧ [y, x].Sublist queue) ∨ (b = a + 1 ∧ [x, y].Sublist queue)

theorem InTurn.symm (h : InTurn queue x y a b) : InTurn queue y x b a := by
  rcases h with same | ⟨more, order⟩ | ⟨fewer, order⟩
  · exact Or.inl same.symm
  · exact Or.inr (Or.inr ⟨more, order⟩)
  · exact Or.inr (Or.inl ⟨fewer, order⟩)

theorem pair_sublist_append :
    [x, y].Sublist (front ++ back)
      ↔ [x, y].Sublist front ∨ (x ∈ front ∧ y ∈ back) ∨ [x, y].Sublist back := by
  rw [List.sublist_append_iff]
  constructor
  · rintro ⟨first, second, split, hf, hb⟩
    match first, second, split with
    | [], _, rfl => exact Or.inr (Or.inr hb)
    | [_], _, rfl =>
      exact Or.inr (Or.inl ⟨List.singleton_sublist.mp hf, List.singleton_sublist.mp hb⟩)
    | [_, _], [], rfl => exact Or.inl hf
  · rintro (both | ⟨hx, hy⟩ | both)
    · exact ⟨[x, y], [], rfl, both, List.nil_sublist _⟩
    · exact ⟨[x], [y], rfl, List.singleton_sublist.mpr hx, List.singleton_sublist.mpr hy⟩
    · exact ⟨[], [x, y], rfl, List.nil_sublist _, both⟩

/-- Moving the front to the end leaves the order of two terms alone, unless one of them moves and
the other does not. -/
theorem pair_sublist_comm (distinct : (front ++ back).Nodup) (same : x ∈ front ↔ y ∈ front)
    (h : [x, y].Sublist (front ++ back)) : [x, y].Sublist (back ++ front) := by
  obtain ⟨-, -, apart⟩ := List.nodup_append.mp distinct
  rcases pair_sublist_append.mp h with both | ⟨hx, hy⟩ | both
  · exact both.trans (List.sublist_append_right _ _)
  · exact absurd rfl (apart y (same.mp hx) y hy)
  · exact both.trans (List.sublist_append_left _ _)

theorem pair_sublist_filter {keep : Term → Bool} (hx : keep x = true) (hy : keep y = true)
    (h : [x, y].Sublist queue) : [x, y].Sublist (queue.filter keep) := by
  have kept := h.filter keep
  rwa [List.filter_cons_of_pos hx, List.filter_cons_of_pos hy, List.filter_nil] at kept

/-- When one of two terms is sent out it was its turn, and then it is the turn of the other one. -/
theorem InTurn.of_first (distinct : (front ++ back).Nodup) (hx : x ∈ front) (hy : y ∈ back)
    (h : InTurn (front ++ back) x y a b) : InTurn (back ++ front) x y (a + 1) b := by
  have next : [y, x].Sublist (back ++ front) := pair_sublist_append.mpr (Or.inr (Or.inl ⟨hy, hx⟩))
  obtain ⟨-, -, apart⟩ := List.nodup_append.mp distinct
  rcases h with same | ⟨more, order⟩ | ⟨fewer, -⟩
  · exact Or.inr (Or.inl ⟨by omega, next⟩)
  · -- The order would be the wrong one.
    rcases pair_sublist_append.mp order with both | ⟨hy', -⟩ | both
    · exact absurd rfl (apart y (both.subset List.mem_cons_self) y hy)
    · exact absurd rfl (apart y hy' y hy)
    · exact absurd rfl (apart x hx x (both.subset (by simp)))
  · exact Or.inl (by omega)

theorem InTurn.move (distinct : (front ++ back).Nodup) (hx : x ∈ front ++ back)
    (hy : y ∈ front ++ back) (h : InTurn (front ++ back) x y a b) :
    InTurn (back ++ front) x y (a + front.count x) (b + front.count y) := by
  have once : ∀ u ∈ front, front.count u = 1 := fun u hu =>
    (List.nodup_append.mp distinct).1.count.trans (if_pos hu)
  have never : ∀ u, u ∉ front → front.count u = 0 := fun u hu => List.count_eq_zero_of_not_mem hu
  by_cases fx : x ∈ front <;> by_cases fy : y ∈ front
  · rw [once x fx, once y fy]
    have swap := iff_of_true fx fy
    rcases h with same | ⟨more, order⟩ | ⟨fewer, order⟩
    · exact Or.inl (by omega)
    · exact Or.inr (Or.inl ⟨by omega, pair_sublist_comm distinct swap.symm order⟩)
    · exact Or.inr (Or.inr ⟨by omega, pair_sublist_comm distinct swap order⟩)
  · rw [once x fx, never y fy]
    exact h.of_first distinct fx ((List.mem_append.mp hy).resolve_left fy)
  · rw [never x fx, once y fy]
    exact (h.symm.of_first distinct fy ((List.mem_append.mp hx).resolve_left fx)).symm
  · rw [never x fx, never y fy]
    have swap := iff_of_false fx fy
    rcases h with same | ⟨more, order⟩ | ⟨fewer, order⟩
    · exact Or.inl same
    · exact Or.inr (Or.inl ⟨more, pair_sublist_comm distinct swap.symm order⟩)
    · exact Or.inr (Or.inr ⟨fewer, pair_sublist_comm distinct swap order⟩)

theorem InTurn.filter {keep : Term → Bool} (hx : keep x = true) (hy : keep y = true)
    (h : InTurn queue x y a b) : InTurn (queue.filter keep) x y a b := by
  rcases h with same | ⟨more, order⟩ | ⟨fewer, order⟩
  · exact Or.inl same
  · exact Or.inr (Or.inl ⟨more, pair_sublist_filter hy hx order⟩)
  · exact Or.inr (Or.inr ⟨fewer, pair_sublist_filter hx hy order⟩)

/-- Two terms that are in the queue to the end have had, after each round, about equally many
turns. -/
theorem Rounds.balanced (h : Rounds queue sent last) (distinct : queue.Nodup) (hx : x ∈ last)
    (hy : y ∈ last) (turn : InTurn queue x y a b) (k : Nat) :
    a + (sent.take k).flatten.count x ≤ b + (sent.take k).flatten.count y + 1
      ∧ b + (sent.take k).flatten.count y ≤ a + (sent.take k).flatten.count x + 1 := by
  induction h generalizing a b k with
  | none queue =>
    simp only [List.take_nil, List.flatten_nil, List.count_nil]
    rcases turn with same | ⟨more, -⟩ | ⟨fewer, -⟩ <;> omega
  | @round queue last sent limit keep untouched more ih =>
    cases k with
    | zero =>
      simp only [List.take_zero, List.flatten_nil, List.count_nil]
      rcases turn with same | ⟨more, -⟩ | ⟨fewer, -⟩ <;> omega
    | succ k =>
      -- Neither term drops out in this round, so it does no more to them than move them.
      have parts := List.take_append_drop limit queue
      rw [← parts] at distinct turn
      have moved : (queue.drop limit ++ queue.take limit).Nodup :=
        List.perm_append_comm.nodup_iff.mp distinct
      have stays : ∀ {u}, u ∈ last → keep u = true ∧ u ∈ queue.take limit ++ queue.drop limit := by
        intro u hu
        obtain ⟨member, kept⟩ := List.mem_filter.mp (more.subset hu)
        exact ⟨kept, (List.mem_append.trans or_comm).trans List.mem_append.symm |>.mp member⟩
      have next := (turn.move distinct (stays hx).2 (stays hy).2).filter (stays hx).1 (stays hy).1
      have later := ih (moved.filter keep) hx hy next k
      rw [List.take_succ_cons, List.flatten_cons, List.count_append, List.count_append]
      omega

/-! ## The retry sweep -/

section Retry

variable {service : Service} {deadline : Span} {asked : Term → Nat} {l last : Ledger}

theorem Passes.rounds (h : Passes .retry service deadline asked l sent last) (sound : l.Sound) :
    Rounds l.rotation sent last.rotation := by
  induction h with
  | none asked l => exact Rounds.none l.rotation
  | @pass asked l last sent results limit room busy back more ih =>
    -- The batch is the front of the rotation, and no term outside it changes its standing.
    have out := taken_takeOut sound room busy
    have front : (l.takeOut .retry limit).1 = l.rotation.take limit :=
      l.spendRetry.takeRetry_fst limit
    have fewer : ∀ t ∈ ((l.takeOut .retry limit).2.merge results).failed, t ∈ l.failed := by
      intro t ht
      by_cases hb : t ∈ (l.takeOut .retry limit).1
      · rw [front] at hb
        exact mem_rotation.mp (List.mem_of_mem_take hb)
      · rw [mem_failed_iff, standing_back_of_not_mem out back hb] at ht
        exact mem_failed_iff.mpr ht
    have untouched : ∀ t ∈ l.rotation.drop limit,
        ((l.takeOut .retry limit).2.merge results).failed.contains t = true := by
      intro t ht
      have failed : t ∈ l.failed := mem_rotation.mp (List.mem_of_mem_drop ht)
      have hb : t ∉ (l.takeOut .retry limit).1 := by
        rw [front]
        have distinct := l.nodup_rotation
        rw [← List.take_append_drop limit l.rotation] at distinct
        exact fun hb => (List.nodup_append.mp distinct).2.2 t hb t ht rfl
      rw [← failed_standing, standing_back_of_not_mem out back hb]
      exact mem_failed_iff.mp failed
    have moved := merge_cursor (l.takeOut .retry limit).2 results
    have turned : ((l.takeOut .retry limit).2.merge results).rotation
        = (l.rotation.drop limit ++ l.rotation.take limit).filter
            (((l.takeOut .retry limit).2.merge results).failed.contains ·) :=
      rotation_of_taken (l := l.spendRetry) (takeOut_ne_nil room busy) moved fewer
    rw [front]
    refine Rounds.round limit _ untouched ?_
    rw [← turned]
    exact ih (sound_merge out.sound results)

theorem Passes.mem_failed {kind : Kind} (h : Passes kind service deadline asked l sent last)
    (sound : l.Sound) (failed : t ∈ l.failed)
    (fails : ∀ n, asked t ≤ n → n < asked t + sent.flatten.count t →
      ((service.reply t n).outcomeBy deadline).isCounted = false) : t ∈ last.failed := by
  induction h with
  | none asked l => exact failed
  | @pass asked l last sent results limit room busy back more ih =>
    have out := taken_takeOut sound room busy
    rw [List.flatten_cons, List.count_append] at fails
    have later : ∀ n, asked t + (l.takeOut kind limit).1.count t ≤ n →
        n < asked t + (l.takeOut kind limit).1.count t + sent.flatten.count t →
        ((service.reply t n).outcomeBy deadline).isCounted = false :=
      fun n low high => fails n (by omega) (by omega)
    refine ih (sound_merge out.sound results) ?_ later
    by_cases hb : t ∈ (l.takeOut kind limit).1
    · have once : (l.takeOut kind limit).1.count t = 1 := out.nodup.count.trans (if_pos hb)
      have again := fails (asked t) (Nat.le_refl _) (by omega)
      rw [mem_failed_iff, standing_back_of_mem out back hb]
      generalize (service.reply t (asked t)).outcomeBy deadline = o at again
      cases o with
      | counted n incomplete => cases again
      | failed r => rfl
    · rw [mem_failed_iff, standing_back_of_not_mem out back hb, standing_readied]
      exact mem_failed_iff.mp failed

end Retry

/-- Every search for a term between two moments of a census has failed. -/
def FailsBetween (pace : Pace) (service : Service) (run run' : Run) (t : Term) : Prop :=
  ∀ n, run.asked t ≤ n → n < run'.asked t →
    ((service.reply t n).outcomeBy pace.deadline).isCounted = false

/-- The batches `sent` have gone round the terms that were failed in `l`. `fails` are those of them
that were never counted on the way. -/
structure FairTo (l : Ledger) (fails : Term → Prop) (sent : List (List Term)) : Prop where
  balanced : ∀ x ∈ l.failed, ∀ y ∈ l.failed, fails x → fails y → ∀ passes,
    (sent.take passes).flatten.count x ≤ (sent.take passes).flatten.count y + 1
      ∧ (sent.take passes).flatten.count y ≤ (sent.take passes).flatten.count x + 1
  reached : ∀ passes, l.failed.size ≤ (sent.take passes).flatten.length →
    ∀ t ∈ l.failed, t ∈ (sent.take passes).flatten

/-- Whatever was done to a ledger before, whatever the quotas are and whatever becomes of the
searches, a retry sweep is fair after each of its passes. -/
theorem fair_after_each_pass (terms : List Term) (retries : Nat) (ops : List Operation) (run : Run)
    (pace : Pace) (service : Service) (probes : List Probe) :
    let before := { run with ledger := (Ledger.start terms retries).after ops }
    let after := (phase .retry pace service probes before).run
    ∃ sent, batches after = batches before ++ sent
      ∧ FairTo before.ledger (FailsBetween pace service before after) sent := by
  intro before after
  obtain ⟨sent, last, went, passes, left⟩ := phase_passes .retry pace service probes before
  have sound : before.ledger.Sound := sound_after (sound_start terms retries) ops
  have rounds := passes.rounds sound
  have asked := asked_of_batches went
  have stays : ∀ {t}, t ∈ before.ledger.failed → FailsBetween pace service before after t →
      t ∈ last.rotation := fun failed fails =>
    mem_rotation.mpr (passes.mem_failed sound failed (by rw [← asked]; exact fails))
  refine ⟨sent, went, fun x hx y hy fx fy passes => ?_, fun passes enough t ht => ?_⟩
  · have even : InTurn before.ledger.rotation x y 0 0 := Or.inl rfl
    have distinct := before.ledger.nodup_rotation
    have level := rounds.balanced distinct (stays hx fx) (stays hy fy) even passes
    simpa only [Nat.zero_add] using level
  · refine rounds.mem_of_length_le passes ?_ (mem_rotation.mpr ht)
    rwa [length_rotation]

end Sweep
end Census
