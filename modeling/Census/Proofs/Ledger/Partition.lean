import Census.Proofs.Ledger.History
import Mathlib.Data.List.Basic
import Mathlib.Data.List.Perm.Basic
import Mathlib.Data.List.Sort

/-!
# The worklist in two parts

What a census reports is read off the worklist: the counts in its order, and the unresolved terms in
its order. When each term of the worklist is either counted or failed, these are its two parts, and
taking from them in the order of the worklist gives it back (`merge_keys_unresolved`). The number of
counts is then the size of the table they are looked up in, although the one is got by going through
the worklist and the other is not.
-/

namespace Census
namespace Ledger

variable {l : Ledger} {t : Term}

/-! ## The counts -/

theorem map_fst_countsInOrder (l : Ledger) :
    l.countsInOrder.map Prod.fst = l.worklist.filter fun t => l.counted.contains t := by
  rw [countsInOrder, List.map_filterMap, ← List.filterMap_eq_filter]
  congr 1
  funext t
  cases found : l.counted[t]? with
  | none =>
    have absent : l.counted.contains t = false := by
      rw [contains_counted_eq_false, mem_counted_iff, count_standing, found]
      exact Bool.false_ne_true
    rw [Option.guard, absent]
    rfl
  | some n =>
    have present : l.counted.contains t = true := by
      rw [Std.ExtTreeMap.contains_iff_mem, mem_counted_iff, count_standing, found]
      rfl
    rw [Option.guard, present]
    rfl

theorem mem_countsInOrder {n : Nat} (h : (t, n) ∈ l.countsInOrder) : l.counted[t]? = some n := by
  obtain ⟨u, -, found⟩ := List.mem_filterMap.mp h
  obtain ⟨m, count, same⟩ := Option.map_eq_some_iff.mp found
  obtain ⟨rfl, rfl⟩ := Prod.mk.inj same
  exact count

theorem nodup_keys (distinct : l.worklist.Nodup) : (l.countsInOrder.map Prod.fst).Nodup := by
  rw [map_fst_countsInOrder]
  exact distinct.filter _

theorem nodup_worklist_after (terms : List Term) (retries : Nat) (ops : List Operation) :
    ((start terms retries).after ops).worklist.Nodup := by
  rw [after_worklist]
  exact nodup_firsts terms

/-! ## Lists in two parts -/

/-- Two parts of a list, put together again in its order. -/
theorem merge_filter {α : Type} (keep : α → Bool) (le : α → α → Bool) {ts : List α}
    (ordered : ts.Pairwise fun a b => le a b = true ∧ le b a = false) :
    List.merge (ts.filter keep) (ts.filter fun t => !keep t) le = ts := by
  induction ts with
  | nil => exact List.merge_right []
  | cons t ts ih =>
    obtain ⟨first, ordered⟩ := List.pairwise_cons.mp ordered
    have rest := ih ordered
    cases kept : keep t with
    | true =>
      -- The first element is in the first part, and in front of all of the second one.
      rw [List.filter_cons_of_pos kept, List.filter_cons_of_neg (by rw [kept]; decide)]
      cases others : ts.filter (fun t => !keep t) with
      | nil =>
        rw [others, List.merge_right] at rest
        rw [List.merge_right, rest]
      | cons u us =>
        have hu : u ∈ ts := List.mem_of_mem_filter (others ▸ List.mem_cons_self)
        rw [others] at rest
        rw [List.cons_merge_cons, if_pos (first u hu).1, rest]
    | false =>
      rw [List.filter_cons_of_neg (by rw [kept]; decide), List.filter_cons_of_pos (by rw [kept]; rfl)]
      cases others : ts.filter keep with
      | nil =>
        rw [others, List.nil_merge] at rest
        rw [List.nil_merge, rest]
      | cons u us =>
        have hu : u ∈ ts := List.mem_of_mem_filter (others ▸ List.mem_cons_self)
        rw [others] at rest
        rw [List.cons_merge_cons, if_neg (by rw [(first u hu).2]; decide), rest]

/-- Whether `a` comes before `b` in a list, or is the same. -/
def earlier (ts : List Term) (a b : Term) : Bool := ts.idxOf a ≤ ts.idxOf b

theorem pairwise_earlier {ts : List Term} (distinct : ts.Nodup) :
    ts.Pairwise fun a b => earlier ts a b = true ∧ earlier ts b a = false := by
  rw [List.pairwise_iff_getElem]
  intro i j hi hj before
  simp only [earlier, distinct.idxOf_getElem, decide_eq_true_eq, decide_eq_false_iff_not]
  omega

/-! ## The two parts of the worklist -/

section Parted

variable (distinct : l.worklist.Nodup)
  (parted : ∀ t ∈ l.worklist, l.failed.contains t = !l.counted.contains t)

include parted

theorem unresolved_eq_filter :
    l.unresolved = l.worklist.filter fun t => !l.counted.contains t := by
  rw [unresolved]
  exact List.filter_congr parted

theorem length_keys_add_length_unresolved :
    l.countsInOrder.length + l.unresolved.length = l.worklist.length := by
  rw [unresolved_eq_filter parted, ← List.length_map Prod.fst, map_fst_countsInOrder,
    ← List.length_eq_length_filter_add]

theorem keys_disjoint_unresolved :
    (l.countsInOrder.map Prod.fst).Disjoint l.unresolved := by
  rw [map_fst_countsInOrder, unresolved_eq_filter parted]
  intro t counted other
  have is_counted := (List.mem_filter.mp counted).2
  have not_counted := (List.mem_filter.mp other).2
  rw [is_counted] at not_counted
  cases not_counted

include distinct

/-- Taking from the counts and from the unresolved terms whichever comes first in the worklist gives
the worklist. -/
theorem merge_keys_unresolved :
    List.merge (l.countsInOrder.map Prod.fst) l.unresolved (earlier l.worklist) = l.worklist := by
  rw [map_fst_countsInOrder, unresolved_eq_filter parted]
  exact merge_filter _ _ (pairwise_earlier distinct)

end Parted

/-- There are as many counts as the table has entries when it has none but for the worklist. -/
theorem length_countsInOrder (distinct : l.worklist.Nodup)
    (listed : ∀ t ∈ l.counted, t ∈ l.worklist) : l.countsInOrder.length = l.counted.size := by
  have keys : l.counted.keys.Perm (l.countsInOrder.map Prod.fst) := by
    refine (List.perm_ext_iff_of_nodup Std.ExtTreeMap.nodup_keys (nodup_keys distinct)).mpr
      fun t => ?_
    rw [Std.ExtTreeMap.mem_keys, map_fst_countsInOrder, List.mem_filter,
      Std.ExtTreeMap.contains_iff_mem]
    exact ⟨fun counted => ⟨listed t counted, counted⟩, fun both => both.2⟩
  rw [← List.length_map Prod.fst, ← keys.length_eq, Std.ExtTreeMap.length_keys]

end Ledger
end Census
