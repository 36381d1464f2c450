import Census.Proofs.Text.Words
import Census.Search.Query

/-!
# Queries and their terms

The query of a term holds the whole term, and tells it from every other term, whatever quotation marks
either of them has (`query_injective`). A term with white space stands between quotes that it may close
itself: it stays one word of the query just when none of its white space stands behind an odd number of
its own quotation marks (`words_of_query`).
-/

namespace Census
namespace Search

open Text (isBlank words Exposed)

variable {t : Term}

theorem toList_query_of_blank (h : t.toList.any isBlank = true) :
    (query t).toList = (qualifier ++ ":\"").toList ++ (t.toList ++ ['"']) := by
  rw [query, if_pos h, String.toList_append, String.toList_append, List.append_assoc]
  rfl

theorem toList_query_of_dark (h : ¬ t.toList.any isBlank = true) :
    (query t).toList = (qualifier ++ ":").toList ++ t.toList := by
  rw [query, if_neg h, String.toList_append]

theorem dark_of_any {s : List Char} (h : s.any isBlank = false) : ∀ c ∈ s, isBlank c = false :=
  fun c hc => Bool.eq_false_of_not_eq_true (List.any_eq_false.mp h c hc)

/-- White space shows in a query just when it stands in the term. -/
theorem any_isBlank_query (t : Term) : (query t).toList.any isBlank = t.toList.any isBlank := by
  by_cases h : t.toList.any isBlank = true
  · rw [toList_query_of_blank h, List.any_append, List.any_append, h, Bool.true_or, Bool.or_true]
  · rw [toList_query_of_dark h, List.any_append]
    rfl

theorem query_injective : Function.Injective query := by
  intro s t same
  have blanks : s.toList.any isBlank = t.toList.any isBlank := by
    rw [← any_isBlank_query, same, any_isBlank_query]
  have texts : (query s).toList = (query t).toList := congrArg String.toList same
  apply String.toList_injective
  by_cases h : t.toList.any isBlank = true
  · rw [toList_query_of_blank h, toList_query_of_blank (blanks.trans h)] at texts
    exact List.append_cancel_right (List.append_cancel_left texts)
  · rw [toList_query_of_dark h, toList_query_of_dark (blanks ▸ h)] at texts
    exact List.append_cancel_left texts

/-! ## Words of a query -/

/-- White space in a term stands behind an odd number of its quotation marks. Between quotes, the last
of these closes what was opened in front of the term. -/
def Spills (t : Term) : Prop :=
  ∃ before c after, t.toList = before ++ c :: after ∧ isBlank c = true ∧ Odd (before.count '"')

theorem exposed_true_iff : Exposed true t.toList ↔ Spills t := by
  have parity : ∀ n, Even (n + true.toNat) ↔ Odd n := fun n => by
    rw [Bool.toNat_true, Nat.even_add_one, Nat.not_even_iff_odd]
  simp only [Exposed, Spills, parity]

theorem exposed_query_iff (t : Term) : Exposed false (query t).toList ↔ Spills t := by
  by_cases h : t.toList.any isBlank = true
  · have opened : (qualifier ++ ":\"").toList.foldl (fun q c => q ^^ c = '"') false = true := by
      decide +kernel
    rw [toList_query_of_blank h, Text.exposed_behind_iff (dark_of_any rfl), opened,
      Text.exposed_append_iff (dark_of_any rfl), exposed_true_iff]
  · have dark : t.toList.any isBlank = false := Bool.eq_false_of_not_eq_true h
    have query_dark : (query t).toList.any isBlank = false := by rw [any_isBlank_query, dark]
    rw [← exposed_true_iff]
    exact iff_of_false (Text.not_exposed_of_dark (dark_of_any query_dark))
      (Text.not_exposed_of_dark (dark_of_any dark))

/-- A term that does not spill is one word together with its qualifier. One that does leaves a word of
its own behind, since white space parts it. -/
theorem words_of_query (t : Term) :
    (¬ Spills t → words (query t).toList = [(query t).toList]) ∧
    (Spills t → 1 < (words (query t).toList).length) := by
  constructor
  · intro stays
    have first : 'l' ∈ (query t).toList := by
      by_cases h : t.toList.any isBlank = true
      · rw [toList_query_of_blank h]
        exact List.mem_append_left _ (by decide +kernel)
      · rw [toList_query_of_dark h]
        exact List.mem_append_left _ (by decide +kernel)
    exact Text.words_of_not_exposed (List.ne_nil_of_mem first) ((exposed_query_iff t).not.mpr stays)
  · rintro ⟨before, c, after, text, blank, odd⟩
    have quoted : t.toList.any isBlank = true :=
      List.any_eq_true.mpr ⟨c, text ▸ List.mem_append_right before List.mem_cons_self, blank⟩
    have split : (query t).toList
        = ((qualifier ++ ":\"").toList ++ before) ++ c :: (after ++ ['"']) := by
      rw [toList_query_of_blank quoted, text, List.append_assoc, List.append_assoc, List.cons_append]
    have opening : (qualifier ++ ":\"").toList.count '"' = 1 := by decide +kernel
    have even : Even (((qualifier ++ ":\"").toList ++ before).count '"') := by
      rw [List.count_append, opening, Nat.add_comm, Nat.even_add_one, Nat.not_even_iff_odd]
      exact odd
    have some_before : words ((qualifier ++ ":\"").toList ++ before) ≠ [] :=
      Text.words_ne_nil (c := 'l') rfl (List.mem_append_left _ (by decide +kernel))
    have some_after : words (after ++ ['"']) ≠ [] :=
      Text.words_ne_nil (c := '"') rfl (List.mem_append_right _ List.mem_cons_self)
    -- The qualifier is in the first part and the closing quotation mark in the second.
    rw [split, Text.words_append blank even, List.length_append]
    have one_before := List.length_pos_iff.mpr some_before
    have one_behind := List.length_pos_iff.mpr some_after
    omega

theorem not_spills_of_no_quote (h : '"' ∉ t.toList) : ¬ Spills t := by
  rintro ⟨before, c, after, text, -, odd⟩
  have none_before : before.count '"' = 0 :=
    List.count_eq_zero.mpr fun mem => h (text ▸ List.mem_append_left _ mem)
  rw [none_before] at odd
  exact absurd odd (by decide)

/-- A term of two words, and one with a quotation mark in front of its second word. -/
theorem words_of_query_of_two_words :
    ¬ Spills "Visual Basic" ∧
    words (query "Visual Basic").toList = [(query "Visual Basic").toList] ∧
    Spills "a\" b" ∧ 1 < (words (query "a\" b").toList).length := by
  have stays : ¬ Spills "Visual Basic" := not_spills_of_no_quote (by decide)
  have spills : Spills "a\" b" := ⟨"a\"".toList, ' ', "b".toList, by decide, rfl, by decide⟩
  exact ⟨stays, (words_of_query "Visual Basic").1 stays, spills,
    (words_of_query "a\" b").2 spills⟩

/-- A quotation mark in a term closes what was opened in front of the term, and the second word of the
term is a word of the query. -/
theorem closing_quote_spills :
    words (query "a\" b").toList = ["language:\"a\"".toList, "b\"".toList] := by
  decide +kernel

end Search
end Census
