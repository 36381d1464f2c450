import Census.Proofs.Ledger.Batch
import Mathlib.Data.List.Rotate

/-!
# Going round the failed terms

The failed terms are kept in the order of terms and retried from the cursor on, so what is retried
is a sorted list that has been turned to begin behind the cursor (`turned`). Taking a batch off the
front moves the cursor to the last term of the batch, which turns the list on by the length of the
batch: what was at the front is now at the back, in the same order (`turned_of_split`). Terms that
are no longer failed drop out and leave the order of the others alone.

So although it is kept as a set and a cursor, the failed terms are a queue (`rotation_of_taken`).

Since the sorted list has the terms after the cursor at its end, to turn it is to rotate it, and a batch
is the front of a rotated list (`takeRetry_off_rotation`).
-/

namespace Census

namespace Term

theorem before_irrefl (a : Term) : before a a = false := by
  simp [before, Std.ReflCmp.compare_self]

theorem before_trans {a b c : Term} (hab : before a b) (hbc : before b c) : before a c := by
  simp only [before, decide_eq_true_eq] at hab hbc ⊢
  exact Std.TransCmp.lt_trans hab hbc

theorem before_asymm {a b : Term} (h : before a b) : before b a = false := by
  rw [← Bool.not_eq_true]
  intro h'
  have cycle := before_trans h h'
  rw [before_irrefl] at cycle
  cases cycle

/-- The order of terms is that of their characters, from the first on. -/
theorem before_iff_lt {a b : Term} : before a b = true ↔ a < b := by
  rw [before, decide_eq_true_eq]
  exact compareOfLessAndEq_eq_lt

def Sorted (ts : List Term) : Prop := ts.Pairwise fun a b => before a b

theorem Sorted.filter {ts : List Term} (h : Sorted ts) (p : Term → Bool) : Sorted (ts.filter p) :=
  List.Pairwise.filter p h

/-- A sorted list is known by its terms. -/
theorem Sorted.eq_of_mem_iff {ts us : List Term} (ht : Sorted ts) (hu : Sorted us)
    (same : ∀ t, t ∈ ts ↔ t ∈ us) : ts = us := by
  have distinct : ∀ {vs : List Term}, Sorted vs → vs.Nodup := fun h => h.imp fun {a b} hab he => by
    rw [he, before_irrefl] at hab
    cases hab
  have perm : ts.Perm us := (List.perm_ext_iff_of_nodup (distinct ht) (distinct hu)).mpr same
  refine perm.eq_of_pairwise (fun a b _ _ hab hba => ?_) ht hu
  rw [before_asymm hab] at hba
  cases hba

end Term

namespace Ledger

open Term (Sorted before)

def isAfter : Option Term → Term → Bool
  | none, _ => true
  | some c, t => before c t

/-- The terms after a cursor, and then the others. -/
def turned (cursor : Option Term) (ts : List Term) : List Term :=
  ts.filter (isAfter cursor) ++ ts.filter fun t => !isAfter cursor t

theorem filter_turned (p : Term → Bool) (cursor : Option Term) (ts : List Term) :
    turned cursor (ts.filter p) = (turned cursor ts).filter p := by
  simp only [turned, List.filter_append, List.filter_filter, Bool.and_comm]

theorem sorted_failed (l : Ledger) : Sorted l.failed.toList :=
  l.failed.ordered_toList.imp fun h => decide_eq_true h

theorem rotation_eq_turned (l : Ledger) : l.rotation = turned l.cursor l.failed.toList := by
  have ahead : l.ahead = l.failed.toList.filter (isAfter l.cursor) := by
    rw [Ledger.ahead]
    cases l.cursor with
    | none => exact (List.filter_eq_self.mpr fun _ _ => rfl).symm
    | some c => rfl
  rw [rotation, turned, ahead]
  congr 1
  refine List.filter_congr fun t ht => ?_
  have member : t ∈ l.failed.toList.filter (isAfter l.cursor) ↔ isAfter l.cursor t = true := by
    rw [List.mem_filter]
    exact and_iff_right ht
  cases h : isAfter l.cursor t <;> simp [member, h]

theorem length_rotation (l : Ledger) : l.rotation.length = l.failed.size := by
  rw [rotation_eq_turned, turned, (List.filter_append_perm _ _).length_eq,
    Std.ExtTreeSet.length_toList]

/-- In a sorted list the terms after a cursor stand at the end. -/
theorem eq_filter_append_filter {ts : List Term} (sorted : Sorted ts) (cursor : Option Term) :
    ts = (ts.filter fun t => !isAfter cursor t) ++ ts.filter (isAfter cursor) := by
  induction ts with
  | nil => rfl
  | cons t ts ih =>
    obtain ⟨first, rest⟩ := List.pairwise_cons.mp sorted
    by_cases h : isAfter cursor t
    · have all : ∀ u ∈ t :: ts, isAfter cursor u = true := by
        intro u hu
        rcases List.mem_cons.mp hu with rfl | hu
        · exact h
        · cases cursor with
          | none => rfl
          | some c => exact Term.before_trans h (first u hu)
      have none_before : (t :: ts).filter (fun u => !isAfter cursor u) = [] :=
        List.filter_eq_nil_iff.mpr fun u hu => by simp [all u hu]
      rw [none_before, List.nil_append, List.filter_eq_self.mpr all]
    · rw [List.filter_cons_of_pos (by simp [h]), List.filter_cons_of_neg h, List.cons_append,
        ← ih rest]

theorem turned_of_mem {u v : List Term} {z : Term} (sorted : Sorted (u ++ z :: v)) :
    turned (some z) (u ++ z :: v) = v ++ (u ++ [z]) := by
  obtain ⟨-, last, apart⟩ := List.pairwise_append.mp sorted
  have later : ∀ t ∈ v, isAfter (some z) t = true := (List.pairwise_cons.mp last).1
  have earlier : ∀ t ∈ u, isAfter (some z) t = false :=
    fun t ht => Term.before_asymm (apart t ht z List.mem_cons_self)
  have itself : isAfter (some z) z = false := Term.before_irrefl z
  have ahead : (u ++ z :: v).filter (isAfter (some z)) = v := by
    rw [List.filter_append, List.filter_eq_nil_iff.mpr fun t ht => by simp [earlier t ht],
      List.filter_cons_of_neg (by simp [itself]), List.filter_eq_self.mpr later, List.nil_append]
  have behind : (u ++ z :: v).filter (fun t => !isAfter (some z) t) = u ++ [z] := by
    rw [List.filter_append, List.filter_eq_self.mpr fun t ht => by simp [earlier t ht],
      List.filter_cons_of_pos (by simp [itself]),
      List.filter_eq_nil_iff.mpr fun t ht => by simp [later t ht]]
  rw [turned, ahead, behind]

/-- When the cursor moves to a term of the turned list, the list is turned on by all up to that
term. -/
theorem turned_of_split {ts front back : List Term} {cursor : Option Term} {z : Term}
    (sorted : Sorted ts) (split : turned cursor ts = front ++ z :: back) :
    turned (some z) ts = back ++ (front ++ [z]) := by
  -- The sorted list is what is not after the old cursor and then what is after it; the turned list
  -- is the same two parts the other way round. The new cursor lies in one of them.
  have parts := eq_filter_append_filter sorted cursor
  rw [turned] at split
  generalize ts.filter (isAfter cursor) = later at parts split
  generalize (ts.filter fun t => !isAfter cursor t) = earlier at parts split
  subst parts
  rcases List.append_eq_append_iff.mp split with ⟨tail, rfl, he⟩ | ⟨tail, rfl, he⟩
  · -- All that is after the old cursor is passed over.
    subst he
    rw [List.append_assoc, List.cons_append] at sorted ⊢
    rw [turned_of_mem sorted]
    simp only [List.append_assoc]
  · cases tail with
    | nil =>
      rw [List.nil_append] at he
      subst he
      rw [List.append_nil, List.cons_append] at sorted ⊢
      have moved := turned_of_mem (u := []) (v := back ++ front) sorted
      rw [List.nil_append] at moved
      rw [moved]
      simp only [List.append_assoc, List.nil_append]
    | cons y tail =>
      rw [List.cons_append] at he
      obtain ⟨rfl, rfl⟩ := List.cons.inj he
      rw [← List.append_assoc] at sorted ⊢
      rw [turned_of_mem sorted]
      simp only [List.append_assoc]

theorem cursor_takeRetry_of_getLast? {l : Ledger} {limit : Nat} {t : Term}
    (last : (l.takeRetry limit).1.getLast? = some t) : (l.takeRetry limit).2.cursor = some t := by
  show (l.takeRetry limit).1.getLast?.or l.cursor = some t
  rw [last]
  rfl

/-- What the failed terms are when a batch has come back: the batch has gone to the end, and terms
that are not failed any more have dropped out. -/
theorem rotation_of_taken {l l' : Ledger} {limit : Nat} (some_taken : (l.takeRetry limit).1 ≠ [])
    (cursor : l'.cursor = (l.takeRetry limit).2.cursor)
    (fewer : ∀ t ∈ l'.failed, t ∈ l.failed) :
    l'.rotation
      = (l.rotation.drop limit ++ l.rotation.take limit).filter (l'.failed.contains ·) := by
  have failed : l'.failed.toList = l.failed.toList.filter (l'.failed.contains ·) := by
    refine l'.sorted_failed.eq_of_mem_iff (l.sorted_failed.filter _) fun t => ?_
    simp only [List.mem_filter, Std.ExtTreeSet.mem_toList, Std.ExtTreeSet.contains_iff_mem]
    exact ⟨fun h => ⟨fewer t h, h⟩, fun h => h.2⟩
  rw [takeRetry_fst] at some_taken
  obtain ⟨front, z, batch⟩ := (List.eq_nil_or_concat _).resolve_left some_taken
  rw [List.concat_eq_append] at batch
  have moved : l'.cursor = some z := by
    have last : (l.takeRetry limit).1.getLast? = some z := by
      rw [takeRetry_fst, batch, List.getLast?_concat]
    exact cursor.trans (cursor_takeRetry_of_getLast? last)
  have split : turned l.cursor l.failed.toList = front ++ z :: l.rotation.drop limit := by
    have whole := List.take_append_drop limit l.rotation
    rw [batch, List.append_assoc, List.singleton_append] at whole
    rw [← rotation_eq_turned, whole]
  rw [rotation_eq_turned, failed, filter_turned, moved, turned_of_split l.sorted_failed split,
    batch]

/-! ## A batch of failed terms as a piece of a rotated list -/

/-- A sorted list rotated to begin with the first of its terms that comes after the cursor. Where there
is none it stays as it is. -/
def rotated (cursor : Option Term) (ts : List Term) : List Term :=
  match cursor with
  | none => ts
  | some c => ts.rotate (ts.findIdx fun t => c < t)

theorem findIdx_of_parted {α : Type} {p : α → Bool} {earlier later : List α}
    (dropped : ∀ t ∈ earlier, p t = false) (kept : ∀ t ∈ later, p t = true) :
    (earlier ++ later).findIdx p = earlier.length := by
  have none_before : earlier.findIdx p = earlier.length := List.findIdx_eq_length.mpr dropped
  have at_once : later.findIdx p = 0 := by
    cases later with
    | nil => rfl
    | cons t later => rw [List.findIdx_cons, kept t List.mem_cons_self, cond_true]
  rw [List.findIdx_append, none_before, at_once, if_neg (Nat.lt_irrefl _), Nat.zero_add]

theorem turned_eq_rotated {ts : List Term} (sorted : Sorted ts) (cursor : Option Term) :
    turned cursor ts = rotated cursor ts := by
  cases cursor with
  | none =>
    have all : ts.filter (isAfter none) = ts := List.filter_eq_self.mpr fun _ _ => rfl
    have no_others : (ts.filter fun t => !isAfter none t) = [] :=
      List.filter_eq_nil_iff.mpr fun _ _ => Bool.false_ne_true
    rw [turned, all, no_others, List.append_nil, rotated]
  | some c =>
    have after_iff : isAfter (some c) = fun t => decide (c < t) := by
      funext t
      rw [Bool.eq_iff_iff, decide_eq_true_eq]
      exact Term.before_iff_lt
    have parts := eq_filter_append_filter sorted (some c)
    have kept : ∀ t ∈ ts.filter (isAfter (some c)), isAfter (some c) t = true :=
      fun t ht => (List.mem_filter.mp ht).2
    have dropped : ∀ t ∈ ts.filter fun t => !isAfter (some c) t, isAfter (some c) t = false :=
      fun t ht => (Bool.not_eq_true' _).mp (List.mem_filter.mp ht).2
    rw [turned, rotated, ← after_iff]
    generalize ts.filter (isAfter (some c)) = later at parts kept ⊢
    generalize (ts.filter fun t => !isAfter (some c) t) = earlier at parts dropped ⊢
    subst parts
    rw [findIdx_of_parted dropped kept, List.rotate_append_length_eq]

/-- `batch` is taken out of the failed terms of `l` under a limit, and `rest` is what is left. -/
structure OffRotation (l : Ledger) (limit : Nat) (batch : List Term) (rest : Ledger) : Prop where
  terms : batch = (rotated l.cursor l.failed.toList).take limit
  length : batch.length = min limit l.failed.size
  nodup : batch.Nodup
  removed : ∀ t, t ∈ rest.failed ↔ t ∈ l.failed ∧ t ∉ batch
  moved : ∀ t ∈ batch.getLast?, rest.cursor = some t
  stays : batch = [] → rest.cursor = l.cursor
  elsewhere : rest = { l with failed := rest.failed, cursor := rest.cursor }

/-- Failed terms are taken out in the order of their characters, from behind the cursor on and round to
it, wherever the cursor stands. -/
theorem takeRetry_off_rotation (l : Ledger) (limit : Nat) :
    l.failed.toList.Pairwise (· < ·)
      ∧ OffRotation l limit (l.takeRetry limit).1 (l.takeRetry limit).2 := by
  have terms : (l.takeRetry limit).1 = l.rotation.take limit := l.takeRetry_fst limit
  refine ⟨l.sorted_failed.imp fun h => Term.before_iff_lt.mp h,
    { terms := ?_, length := ?_, nodup := ?_, removed := fun t => mem_foldl_erase
      moved := fun t last => cursor_takeRetry_of_getLast? last, stays := ?_, elsewhere := rfl }⟩
  · rw [terms, rotation_eq_turned, turned_eq_rotated l.sorted_failed]
  · rw [terms, List.length_take, length_rotation]
  · rw [terms]
    exact l.nodup_rotation.sublist (List.take_sublist _ _)
  · intro empty
    show (l.takeRetry limit).1.getLast?.or l.cursor = l.cursor
    rw [empty]
    rfl

/-- A cursor on a term that has been counted since, and one behind which no term has failed. -/
example : rotated (some "Go") ["C", "Rust", "Zig"] = ["Rust", "Zig", "C"]
    ∧ rotated (some "Zig") ["C", "Go", "Zig"] = ["C", "Go", "Zig"] := by decide

end Ledger
end Census
