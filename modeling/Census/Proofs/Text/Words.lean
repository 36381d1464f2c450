import Census.Text.Blank
import Mathlib.Algebra.Group.Nat.Even
import Mathlib.Algebra.Order.Ring.Nat

/-!
# Words and quotes

A search reads a text word by word. White space parts words from each other, except between quotes:
the first quotation mark opens a section, the next one closes it, and so on, with no way to write a
quotation mark inside of a section. So white space parts words when the number of quotation marks in
front of it is even (`words_append`), and a text without white space of that kind is one word
(`words_of_not_exposed`).
-/

namespace Census
namespace Text

/-- The parts of a text between the white space outside of quotes; `quoted` tells whether a section is
open where the text begins. -/
def cutOutside (quoted : Bool) : List Char → List (List Char)
  | [] => [[]]
  | c :: rest =>
    if isBlank c && !quoted then [] :: cutOutside false rest
    else (cutOutside (quoted ^^ c = '"') rest).modifyHead (c :: ·)

/-- The words of a text. -/
def words (s : List Char) : List (List Char) := (cutOutside false s).filter (· ≠ [])

/-- White space stands outside of quotes, which is behind an even number of quotation marks when a
section that is open where the text begins counts for one. -/
def Exposed (quoted : Bool) (s : List Char) : Prop :=
  ∃ before c after, s = before ++ c :: after ∧ isBlank c = true
    ∧ Even (before.count '"' + quoted.toNat)

variable {quoted : Bool} {c : Char} {s before : List Char}

theorem cutOutside_blank (blank : isBlank c = true) (rest : List Char) :
    cutOutside false (c :: rest) = [] :: cutOutside false rest := by
  rw [cutOutside, blank]
  rfl

theorem cutOutside_cons (inside : isBlank c = true → quoted = true) (rest : List Char) :
    cutOutside quoted (c :: rest)
      = (cutOutside (quoted ^^ c = '"') rest).modifyHead (c :: ·) := by
  rw [cutOutside, if_neg]
  rw [Bool.and_eq_true, Bool.not_eq_true']
  rintro ⟨blank, outside⟩
  rw [inside blank] at outside
  cases outside

/-- A quotation mark opens a section or closes it. -/
theorem even_cons_iff (c : Char) (before : List Char) (quoted : Bool) :
    Even ((c :: before).count '"' + quoted.toNat)
      ↔ Even (before.count '"' + (quoted ^^ c = '"').toNat) := by
  rw [List.count_cons]
  by_cases quote : c = '"'
  · subst quote
    cases quoted
    · simp
    · simp [Nat.even_add_one, Nat.add_assoc]
  · simp [quote]

theorem eq_false_of_even (even : Even (([] : List Char).count '"' + quoted.toNat)) :
    quoted = false := by
  cases quoted
  · rfl
  · simp at even

theorem exposed_cons_iff (rest : List Char) :
    Exposed quoted (c :: rest)
      ↔ (isBlank c = true ∧ quoted = false) ∨ Exposed (quoted ^^ c = '"') rest := by
  constructor
  · rintro ⟨before, d, after, text, blank, even⟩
    cases before with
    | nil =>
      obtain ⟨rfl, rfl⟩ := List.cons.inj text
      exact .inl ⟨blank, eq_false_of_even even⟩
    | cons e before =>
      obtain ⟨rfl, rfl⟩ := List.cons.inj text
      exact .inr ⟨before, d, after, rfl, blank, (even_cons_iff c before quoted).mp even⟩
  · rintro (⟨blank, rfl⟩ | ⟨before, d, after, rfl, blank, even⟩)
    · exact ⟨[], c, rest, rfl, blank, Even.zero⟩
    · exact ⟨c :: before, d, after, rfl, blank, (even_cons_iff c before quoted).mpr even⟩

theorem cutOutside_of_not_exposed (h : ¬ Exposed quoted s) : cutOutside quoted s = [s] := by
  induction s generalizing quoted with
  | nil => rfl
  | cons c rest ih =>
    obtain ⟨inside, later⟩ := not_or.mp ((exposed_cons_iff rest).not.mp h)
    have inside : isBlank c = true → quoted = true := by
      intro blank
      by_contra outside
      exact inside ⟨blank, Bool.not_eq_true _ ▸ outside⟩
    rw [cutOutside_cons inside, ih later, List.modifyHead_cons]

theorem exists_cutOutside_eq_cons (quoted : Bool) (s : List Char) :
    ∃ part more, cutOutside quoted s = part :: more := by
  induction s generalizing quoted with
  | nil => exact ⟨[], [], rfl⟩
  | cons c rest ih =>
    rw [cutOutside]
    split
    · exact ⟨[], _, rfl⟩
    · obtain ⟨part, more, parts⟩ := ih (quoted ^^ c = '"')
      exact ⟨c :: part, more, by rw [parts, List.modifyHead_cons]⟩

/-- The parts in front of white space outside of quotes have nothing to do with those behind it. -/
theorem cutOutside_append (blank : isBlank c = true)
    (even : Even (before.count '"' + quoted.toNat)) (after : List Char) :
    cutOutside quoted (before ++ c :: after) = cutOutside quoted before ++ cutOutside false after := by
  -- The parity at `c` is the same from wherever in `before` the count starts.
  induction before generalizing quoted with
  | nil =>
    rw [eq_false_of_even even, List.nil_append, cutOutside_blank blank]
    rfl
  | cons d before ih =>
    have later := ih ((even_cons_iff d before quoted).mp even)
    rw [List.cons_append]
    by_cases inside : isBlank d = true → quoted = true
    · obtain ⟨part, more, parts⟩ := exists_cutOutside_eq_cons (quoted ^^ d = '"') before
      rw [cutOutside_cons inside, cutOutside_cons inside, later, parts]
      rfl
    · obtain ⟨gap, outside⟩ := Classical.not_imp.mp inside
      rw [Bool.not_eq_true] at outside
      have other : decide (d = '"') = false := by
        rw [decide_eq_false_iff_not]
        rintro rfl
        cases gap
      rw [outside, other] at later
      rw [outside, cutOutside_blank gap, cutOutside_blank gap]
      exact congrArg _ later

theorem mem_flatten_cutOutside (dark : isBlank c = false) (mem : c ∈ s) :
    c ∈ (cutOutside quoted s).flatten := by
  induction s generalizing quoted with
  | nil => cases mem
  | cons d rest ih =>
    rw [cutOutside]
    split
    · next gap =>
      rcases List.mem_cons.mp mem with rfl | later
      · rw [dark] at gap
        cases gap
      · exact ih later
    · obtain ⟨part, more, parts⟩ := exists_cutOutside_eq_cons (quoted ^^ d = '"') rest
      rw [parts, List.modifyHead_cons, List.flatten_cons, List.cons_append, List.mem_cons]
      refine (List.mem_cons.mp mem).imp_right fun later => ?_
      rw [← List.flatten_cons, ← parts]
      exact ih later

/-! ## Where white space is exposed -/

theorem not_exposed_of_dark (dark : ∀ c ∈ s, isBlank c = false) : ¬ Exposed quoted s := by
  rintro ⟨before, c, after, rfl, blank, -⟩
  rw [dark c (List.mem_append_right _ List.mem_cons_self)] at blank
  cases blank

/-- Quotation marks at the end of a text come too late for its white space. -/
theorem exposed_append_iff {more : List Char} (dark : ∀ c ∈ more, isBlank c = false) :
    Exposed quoted (s ++ more) ↔ Exposed quoted s := by
  induction s generalizing quoted with
  | nil => exact iff_of_false (not_exposed_of_dark dark) (not_exposed_of_dark nofun)
  | cons c rest ih => rw [List.cons_append, exposed_cons_iff, exposed_cons_iff, ih]

/-- Behind characters that are not white space only their quotation marks matter. -/
theorem exposed_behind_iff {front : List Char} (dark : ∀ c ∈ front, isBlank c = false) :
    Exposed quoted (front ++ s) ↔ Exposed (front.foldl (fun q c => q ^^ c = '"') quoted) s := by
  induction front generalizing quoted with
  | nil => exact Iff.rfl
  | cons c front ih =>
    obtain ⟨first, others⟩ := List.forall_mem_cons.mp dark
    rw [List.cons_append, exposed_cons_iff, first, ih others, List.foldl_cons]
    exact or_iff_right fun blank => nomatch blank.1

/-! ## Words -/

theorem words_ne_nil (dark : isBlank c = false) (mem : c ∈ s) : words s ≠ [] := by
  have among : c ∈ (cutOutside false s).flatten := mem_flatten_cutOutside dark mem
  obtain ⟨part, part_mem, here⟩ := List.mem_flatten.mp among
  have word : part ∈ words s :=
    List.mem_filter.mpr ⟨part_mem, decide_eq_true (List.ne_nil_of_mem here)⟩
  exact List.ne_nil_of_mem word

theorem words_of_not_exposed (some_text : s ≠ []) (h : ¬ Exposed false s) : words s = [s] := by
  rw [words, cutOutside_of_not_exposed h]
  exact List.filter_cons_of_pos (decide_eq_true some_text)

theorem words_append (blank : isBlank c = true) (even : Even (before.count '"'))
    (after : List Char) : words (before ++ c :: after) = words before ++ words after := by
  have outside : Even (before.count '"' + false.toNat) := even
  rw [words, cutOutside_append blank outside, List.filter_append, words, words]

end Text
end Census
