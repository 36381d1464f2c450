import Census.Json.Fields
import Census.Json.Value
import Census.Proofs.Text.Numeral

/-!
# What values stand for

A document is looked at value by value: the text of a string, the number of a whole number that fits
64 bits, the texts of an array of strings. A value that is something else stands for nothing. What is
put into a document in this way is what it is read as.
-/

namespace Census
namespace Json

/-- What is written item by item is read item by item. -/
theorem mapM_map_eq_some {α β : Type} {read : β → Option α} {write : α → β} {as : List α}
    (h : ∀ a ∈ as, read (write a) = some a) : (as.map write).mapM read = some as := by
  induction as with
  | nil => rfl
  | cons a as ih =>
    have rest := ih fun b hb => h b (List.mem_cons_of_mem a hb)
    rw [List.map_cons, List.mapM_cons, h a List.mem_cons_self, rest]
    rfl

namespace Value

def string? : Value → Option String
  | .string text => some text
  | _ => none

/-- The number of a value, as long as it fits 64 bits. -/
def nat64? : Value → Option Nat
  | .number digits => Json.nat64? digits.toList
  | _ => none

def strings? : Value → Option (List String)
  | .array items => items.mapM string?
  | _ => none

theorem nat64?_ofNat {n : Nat} (fits : n ≤ Numeral.most64) : (ofNat n).nat64? = some n := by
  have in_range : decide (n ≤ Numeral.most64) = true := decide_eq_true fits
  rw [ofNat, nat64?, Json.nat64?, Numeral.digits?_toString, Option.filter_some, if_pos in_range]

theorem strings?_map (texts : List String) :
    (Value.array (texts.map .string)).strings? = some texts :=
  mapM_map_eq_some fun _ _ => rfl

end Value

/-! ## Names that stand only once -/

theorem put_of_not_mem {name : String} {ms : List (String × Value)}
    (fresh : name ∉ ms.map Prod.fst) (v : Value) : put name v ms = ms ++ [(name, v)] := by
  induction ms with
  | nil => rfl
  | cons m ms ih =>
    rw [List.map_cons, List.mem_cons, not_or] at fresh
    obtain ⟨other, fresh⟩ := fresh
    rw [put, if_neg (Ne.symm other), ih fresh, List.cons_append]

/-- Members of distinct names keep their places and their values. -/
theorem lastValues_of_nodup {members : List (String × Value)}
    (distinct : (members.map Prod.fst).Nodup) : lastValues members = members := by
  -- The members that have been put are in front of the ones to come, whose names are all new.
  have fold : ∀ (ms rest : List (String × Value)), ((ms ++ rest).map Prod.fst).Nodup →
      rest.foldl (fun ms m => put m.1 m.2 ms) ms = ms ++ rest := by
    intro ms rest
    induction rest generalizing ms with
    | nil =>
      intro _
      rw [List.foldl_nil, List.append_nil]
    | cons m rest ih =>
      intro distinct
      have fresh : m.1 ∉ ms.map Prod.fst := by
        rw [List.map_append, List.map_cons, List.nodup_append] at distinct
        intro mem
        exact distinct.2.2 m.1 mem m.1 List.mem_cons_self rfl
      have moved : ms ++ m :: rest = (ms ++ [m]) ++ rest := by
        rw [List.append_assoc, List.singleton_append]
      rw [moved] at distinct ⊢
      rw [List.foldl_cons, put_of_not_mem fresh]
      exact ih _ distinct
  exact fold [] members distinct

/-! ## Names that stand more than once -/

section Repeated

variable (name n : String) (v : Value) (ms : List (String × Value))

theorem names_put : (put name v ms).map Prod.fst
    = if name ∈ ms.map Prod.fst then ms.map Prod.fst else ms.map Prod.fst ++ [name] := by
  by_cases known : name ∈ ms.map Prod.fst
  · rw [if_pos known]
    induction ms with
    | nil => cases known
    | cons m ms ih =>
      rw [put]
      split
      · rfl
      · next other =>
        have known := (List.mem_cons.mp known).resolve_left (Ne.symm other)
        rw [List.map_cons, ih known, List.map_cons]
  · rw [if_neg known, put_of_not_mem known, List.map_append, List.map_singleton]

theorem lookup_cons_eq_ite :
    ((name, v) :: ms).lookup n = if n = name then some v else ms.lookup n := by
  rw [List.lookup_cons]
  by_cases found : n = name
  · rw [if_pos found, beq_iff_eq.mpr found]
  · rw [if_neg found, beq_eq_false_iff_ne.mpr found]

theorem lookup_put :
    (put name v ms).lookup n = if n = name then some v else ms.lookup n := by
  induction ms with
  | nil => rw [put, lookup_cons_eq_ite]
  | cons m ms ih =>
    obtain ⟨k, w⟩ := m
    rw [put]
    by_cases same : k = name
    · subst same
      rw [if_pos rfl, lookup_cons_eq_ite, lookup_cons_eq_ite]
      split
      · rfl
      · rfl
    · rw [if_neg same, lookup_cons_eq_ite, lookup_cons_eq_ite, ih]
      by_cases found : n = k
      · rw [if_pos found, if_pos found, if_neg (found ▸ same)]
      · rw [if_neg found, if_neg found]

theorem lastValues_concat (m : String × Value) :
    lastValues (ms ++ [m]) = put m.1 m.2 (lastValues ms) := by
  rw [lastValues, List.foldl_append, lastValues]
  rfl

/-- The names keep the places where they first stand. -/
theorem names_lastValues : (lastValues ms).map Prod.fst = (ms.map Prod.fst).eraseDups := by
  induction ms using List.reverseRecOn with
  | nil => rfl
  | append_singleton ms m ih =>
    rw [lastValues_concat, names_put, ih, List.map_append, List.eraseDups_append]
    by_cases known : m.1 ∈ ms.map Prod.fst
    · rw [if_pos (List.mem_eraseDups.mpr known)]
      simp [List.removeAll, known]
    · rw [if_neg (fun mem => known (List.mem_eraseDups.mp mem))]
      simp [List.removeAll, known, List.eraseDups_cons]

theorem nodup_names_lastValues : ((lastValues ms).map Prod.fst).Nodup := by
  induction ms using List.reverseRecOn with
  | nil => exact List.nodup_nil
  | append_singleton ms m ih =>
    rw [lastValues_concat, names_put]
    split
    · exact ih
    · next fresh =>
      refine List.nodup_append.mpr ⟨ih, by simp, ?_⟩
      rintro _ known _ new rfl
      exact fresh (List.mem_singleton.mp new ▸ known)

/-- Each name has the value that it is given last. -/
theorem lookup_lastValues : (lastValues ms).lookup n = ms.reverse.lookup n := by
  induction ms using List.reverseRecOn with
  | nil => rfl
  | append_singleton ms m ih =>
    rw [lastValues_concat, lookup_put, ih, List.reverse_append, List.reverse_singleton,
      List.singleton_append, lookup_cons_eq_ite]

/-- Members of distinct names that are chosen by their values are chosen by what a look at their
names finds. -/
theorem names_filter_of_nodup {ms : List (String × Value)} (p : Value → Bool)
    (distinct : (ms.map Prod.fst).Nodup) :
    (ms.filter fun m => p m.2).map Prod.fst
      = (ms.map Prod.fst).filter fun n => (ms.lookup n).any p := by
  induction ms with
  | nil => rfl
  | cons m ms ih =>
    obtain ⟨n, v⟩ := m
    rw [List.map_cons, List.nodup_cons] at distinct
    obtain ⟨fresh, distinct⟩ := distinct
    have others : (ms.map Prod.fst).filter (fun k => (((n, v) :: ms).lookup k).any p)
        = (ms.map Prod.fst).filter fun k => (ms.lookup k).any p := by
      refine List.filter_congr fun k mem => ?_
      have other : k ≠ n := by
        rintro rfl
        exact fresh mem
      rw [lookup_cons_eq_ite, if_neg other]
    rw [List.map_cons, List.filter_cons, List.filter_cons, lookup_cons_eq_ite, if_pos rfl,
      Option.any_some, others, ← ih distinct]
    split
    · rw [List.map_cons]
    · rfl

end Repeated

end Json
end Census
