import Census.Text.Blank
import Mathlib.Data.List.TakeWhile

/-!
# Trimmed text

A text is trimmed to what stands between the white space at its ends.
-/

namespace Census
namespace Text

theorem trimStart_append {l s : List Char} (blank : ∀ c ∈ l, isBlank c = true) :
    trimStart (l ++ s) = trimStart s := List.dropWhile_append_of_pos blank

theorem trimEnd_append {s r : List Char} (blank : ∀ c ∈ r, isBlank c = true) :
    trimEnd (s ++ r) = trimEnd s := by
  have blank : ∀ c ∈ r.reverse, isBlank c = true := fun c hc => blank c (List.mem_reverse.mp hc)
  rw [trimEnd, List.reverse_append, List.dropWhile_append_of_pos blank, trimEnd]

theorem exists_trimStart (s : List Char) :
    ∃ l, (∀ c ∈ l, isBlank c = true) ∧ s = l ++ trimStart s :=
  ⟨s.takeWhile isBlank, fun _ => List.mem_takeWhile_imp, List.takeWhile_append_dropWhile.symm⟩

theorem exists_trimEnd (s : List Char) :
    ∃ r, (∀ c ∈ r, isBlank c = true) ∧ s = trimEnd s ++ r := by
  obtain ⟨l, blank, text⟩ := exists_trimStart s.reverse
  refine ⟨l.reverse, fun c hc => blank c (List.mem_reverse.mp hc), ?_⟩
  rw [trimEnd, ← List.reverse_append]
  exact List.reverse_eq_iff.mp text

theorem trimStart_cons {c : Char} (dark : isBlank c = false) (s : List Char) :
    trimStart (c :: s) = c :: s := by
  rw [trimStart, List.dropWhile_cons, dark]
  rfl

theorem trimStart_of_head? {s : List Char} (dark : ∀ c ∈ s.head?, isBlank c = false) :
    trimStart s = s := by
  cases s with
  | nil => rfl
  | cons c s => exact trimStart_cons (dark c rfl) s

theorem isBlank_of_mem_head?_trimStart {s : List Char} {c : Char} (h : c ∈ (trimStart s).head?) :
    isBlank c = false := by
  have first := List.head?_dropWhile_not isBlank s
  rw [trimStart] at h
  rw [Option.mem_def.mp h] at first
  exact first

/-- No white space stands at either end. -/
structure Tight (s : List Char) : Prop where
  first : ∀ c ∈ s.head?, isBlank c = false
  last : ∀ c ∈ s.getLast?, isBlank c = false

theorem Tight.of_dark {w : List Char} (dark : ∀ c ∈ w, isBlank c = false) : Tight w where
  first := fun c hc => dark c (List.mem_of_head? hc)
  last := fun c hc => dark c (List.mem_of_getLast? hc)

theorem Tight.trimEnd_eq {w : List Char} (tight : Tight w) : trimEnd w = w := by
  have stays : trimStart w.reverse = w.reverse :=
    trimStart_of_head? fun c hc => tight.last c (by rwa [List.head?_reverse] at hc)
  rw [trimStart] at stays
  rw [trimEnd, stays, List.reverse_reverse]

theorem tight_trimmed (s : List Char) : Tight (trimmed s) where
  first := by
    intro c hc
    obtain ⟨r, -, text⟩ := exists_trimEnd (trimStart s)
    have first : (trimEnd (trimStart s)).head? = some c := hc
    refine isBlank_of_mem_head?_trimStart (s := s) ?_
    rw [text, List.head?_append, first]
    rfl
  last := by
    intro c hc
    rw [trimmed, trimEnd, List.getLast?_reverse] at hc
    exact isBlank_of_mem_head?_trimStart hc

/-- A text is trimmed to what has only white space around it and none at its ends. -/
theorem trimmed_eq_iff {s w : List Char} (tight : Tight w) :
    trimmed s = w ↔ ∃ l r, (∀ b ∈ l ++ r, isBlank b = true) ∧ s = l ++ w ++ r := by
  constructor
  · rintro rfl
    obtain ⟨l, left, start⟩ := exists_trimStart s
    obtain ⟨r, right, text⟩ := exists_trimEnd (trimStart s)
    refine ⟨l, r, List.forall_mem_append.mpr ⟨left, right⟩, ?_⟩
    rw [List.append_assoc, trimmed, ← text]
    exact start
  · rintro ⟨l, r, blank, rfl⟩
    obtain ⟨left, right⟩ := List.forall_mem_append.mp blank
    rw [trimmed, List.append_assoc, trimStart_append left]
    cases w with
    | nil =>
      have nothing_left := trimStart_append (s := []) right
      rw [List.append_nil] at nothing_left
      rw [List.nil_append, nothing_left]
      rfl
    | cons c w =>
      rw [List.cons_append, trimStart_cons (tight.first c rfl), ← List.cons_append,
        trimEnd_append right, tight.trimEnd_eq]

/-- White space at the end of a text does not change what it is trimmed to. -/
theorem trimmed_append {r : List Char} (s : List Char) (blank : ∀ c ∈ r, isBlank c = true) :
    trimmed (s ++ r) = trimmed s := by
  obtain ⟨l, m, around, text⟩ := (trimmed_eq_iff (tight_trimmed s)).mp rfl
  refine (trimmed_eq_iff (tight_trimmed s)).mpr ⟨l, m ++ r, ?_, ?_⟩
  · rw [← List.append_assoc]
    exact List.forall_mem_append.mpr ⟨around, blank⟩
  · rw [← List.append_assoc, ← text]

end Text
end Census
