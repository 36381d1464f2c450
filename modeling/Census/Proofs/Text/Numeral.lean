import Census.Text.Numeral
import Mathlib.Data.List.Basic
import Mathlib.Data.List.Induction
import Mathlib.Data.Nat.Digits.Defs
import Mathlib.Tactic.Ring

/-!
# Numbers and their digits

A number is written without leading zeros, and its digits stand for it. Where a number is read there
may be leading zeros and a sign as well (`Literal`).
-/

namespace Census
namespace Numeral

theorem toList_digits (n : Nat) : (toString n).toList = Nat.toDigits 10 n := by
  rw [Nat.toString_eq_repr, Nat.toList_repr]

theorem isDigit_of_mem_digits {n : Nat} {c : Char} (h : c ∈ (toString n).toList) :
    c.isDigit = true := by
  rw [toList_digits] at h
  exact Nat.isDigit_of_mem_toDigits (by omega) (by omega) h

theorem digits_ne_nil (n : Nat) : (toString n).toList ≠ [] := by
  rw [toList_digits]
  exact Nat.toDigits_ne_nil

theorem valueFrom_digits (n : Nat) : valueFrom 0 (toString n).toList = n := by
  rw [toList_digits]
  exact Nat.ofDigitChars_ten_toDigits

/-- The digits of a number stand for it. -/
theorem digits?_toString (n : Nat) : digits? (toString n).toList = some n := by
  have all : (toString n).toList.all Char.isDigit = true :=
    List.all_eq_true.mpr fun _ hc => isDigit_of_mem_digits hc
  rw [digits?, if_pos ⟨digits_ne_nil n, all⟩, valueFrom_digits]

/-- Reading on digits never makes a number smaller. -/
theorem le_valueFrom (m : Nat) (ds : List Char) : m ≤ valueFrom m ds := by
  induction ds generalizing m with
  | nil => exact Nat.le_refl m
  | cons c ds ih =>
    have next : m ≤ 10 * m + (c.toNat - '0'.toNat) := by omega
    exact Nat.le_trans next (ih _)

theorem valueFrom_eq (n : Nat) (ds : List Char) :
    valueFrom n ds = n * 10 ^ ds.length + valueFrom 0 ds := by
  induction ds generalizing n with
  | nil => simp [valueFrom]
  | cons c ds ih =>
    have first : ∀ k, valueFrom k (c :: ds) = valueFrom (10 * k + (c.toNat - '0'.toNat)) ds :=
      fun k => rfl
    rw [first, first, ih (10 * n + _), ih (10 * 0 + _), List.length_cons, Nat.pow_succ]
    ring

theorem valueFrom_append (ds es : List Char) :
    valueFrom 0 (ds ++ es) = valueFrom 0 ds * 10 ^ es.length + valueFrom 0 es := by
  rw [← valueFrom_eq, valueFrom, List.foldl_append]
  rfl

/-- Only the number 0 begins with a zero. -/
theorem head?_digits {n : Nat} (positive : 0 < n) : (toString n).toList.head? ≠ some '0' := by
  rw [toList_digits]
  -- All digits but the last one are those of a tenth of the number.
  induction n using Nat.strongRecOn with
  | ind n ih =>
    rw [Nat.toDigits_eq_if (by omega)]
    by_cases small : n < 10
    · rw [if_pos small, List.head?_cons]
      intro same
      have zero := Nat.digitChar_eq_zero.mp (Option.some.inj same)
      omega
    · have tenth := ih (n / 10) (by omega) (by omega)
      rw [if_neg small, List.head?_append_of_ne_nil _ Nat.toDigits_ne_nil]
      exact tenth

theorem digitChar_fin : ∀ d : Fin 10, Nat.digitChar d = Char.ofNat (d + 48) := by
  decide

theorem digit_of_isDigit {c : Char} (h : c.isDigit = true) :
    c.toNat - '0'.toNat < 10 ∧ Nat.digitChar (c.toNat - '0'.toNat) = c := by
  obtain ⟨low, high⟩ : 48 ≤ c.toNat ∧ c.toNat ≤ 57 := by
    simpa [Char.isDigit, UInt32.le_iff_toNat_le] using h
  have small : c.toNat - '0'.toNat < 10 := by
    show c.toNat - 48 < 10
    omega
  refine ⟨small, ?_⟩
  rw [digitChar_fin ⟨_, small⟩]
  show Char.ofNat (c.toNat - 48 + 48) = c
  rw [Nat.sub_add_cancel low, Char.ofNat_toNat]

theorem valueFrom_lt {ds : List Char} (all : ∀ c ∈ ds, c.isDigit = true) :
    valueFrom 0 ds < 10 ^ ds.length := by
  induction ds with
  | nil => exact Nat.one_pos
  | cons c ds ih =>
    obtain ⟨digit, all⟩ := List.forall_mem_cons.mp all
    have small : c.toNat - '0'.toNat ≤ 9 := Nat.le_of_lt_succ (digit_of_isDigit digit).1
    have rest := ih all
    have first : valueFrom 0 (c :: ds) = valueFrom (c.toNat - '0'.toNat) ds := by
      rw [valueFrom, List.foldl_cons, Nat.mul_zero, Nat.zero_add]
      rfl
    rw [first, valueFrom_eq, List.length_cons, Nat.pow_succ']
    have leading := Nat.mul_le_mul_right (10 ^ ds.length) small
    omega

/-- Digits without a zero in front are those of the number that they stand for. -/
theorem digits_valueFrom {ds : List Char} (all : ∀ c ∈ ds, c.isDigit = true) (some_digit : ds ≠ [])
    (lead : ds.head? ≠ some '0') : (toString (valueFrom 0 ds)).toList = ds := by
  rw [toList_digits]
  induction ds using List.reverseRecOn with
  | nil => exact absurd rfl some_digit
  | append_singleton ds c ih =>
    obtain ⟨small, digit⟩ := digit_of_isDigit (all c (by simp))
    have value : valueFrom 0 (ds ++ [c]) = 10 * valueFrom 0 ds + (c.toNat - '0'.toNat) := by
      rw [valueFrom, List.foldl_append]
      rfl
    rw [value, Nat.toDigits_eq_if (by omega)]
    by_cases first : ds = []
    · subst first
      rw [show valueFrom 0 [] = 0 from rfl, Nat.mul_zero, Nat.zero_add, if_pos small, digit,
        List.nil_append]
    · rw [List.head?_append_of_ne_nil _ first] at lead
      have tenth := ih (fun d hd => all d (List.mem_append_left _ hd)) first lead
      have positive : valueFrom 0 ds ≠ 0 := by
        intro zero
        rw [zero, Nat.toDigits_zero] at tenth
        exact lead (tenth ▸ rfl)
      have quotient : (10 * valueFrom 0 ds + (c.toNat - '0'.toNat)) / 10 = valueFrom 0 ds := by omega
      have remainder : (10 * valueFrom 0 ds + (c.toNat - '0'.toNat)) % 10 = c.toNat - '0'.toNat := by
        omega
      rw [if_neg (by omega), quotient, remainder, tenth, digit]

/-! ## Literals -/

/-- Decimal digits, with or without leading zeros, and the number that they stand for. -/
def IsDecimal (ds : List Char) (n : Nat) : Prop :=
  ds ≠ [] ∧ (∀ c ∈ ds, c.isDigit = true)
    ∧ n = Nat.ofDigits 10 (ds.reverse.map fun c => c.toNat - '0'.toNat)

/-- A whole number in decimal digits, with or without a sign in front. -/
inductive Literal : List Char → Int → Prop
  | bare {ds : List Char} {n : Nat} (digits : IsDecimal ds n) : Literal ds n
  | plus {ds : List Char} {n : Nat} (digits : IsDecimal ds n) : Literal ('+' :: ds) n
  | minus {ds : List Char} {n : Nat} (digits : IsDecimal ds n) : Literal ('-' :: ds) (-n)

theorem valueFrom_eq_ofDigits (ds : List Char) :
    valueFrom 0 ds = Nat.ofDigits 10 (ds.reverse.map fun c => c.toNat - '0'.toNat) := by
  induction ds using List.reverseRecOn with
  | nil => rfl
  | append_singleton ds c ih =>
    have value : valueFrom 0 (ds ++ [c]) = 10 * valueFrom 0 ds + (c.toNat - '0'.toNat) := by
      rw [valueFrom, List.foldl_append]
      rfl
    rw [value, ih, List.reverse_append, List.reverse_singleton, List.singleton_append,
      List.map_cons, Nat.ofDigits_cons, Nat.add_comm]

theorem digits?_eq_some_iff {ds : List Char} {n : Nat} :
    digits? ds = some n ↔ ds ≠ [] ∧ (∀ c ∈ ds, c.isDigit = true) ∧ n = valueFrom 0 ds := by
  unfold digits?
  constructor
  · intro h
    split at h
    · next digits =>
      exact ⟨digits.1, List.all_eq_true.mp digits.2, (Option.some.inj h).symm⟩
    · cases h
  · rintro ⟨some_digit, all, rfl⟩
    exact if_pos ⟨some_digit, List.all_eq_true.mpr all⟩

theorem isDecimal_iff {ds : List Char} {n : Nat} : IsDecimal ds n ↔ digits? ds = some n := by
  rw [digits?_eq_some_iff, valueFrom_eq_ofDigits]
  rfl

/-- A literal is read just when it fits 64 bits. -/
theorem int64?_eq_some_iff {s : List Char} {z : Int} :
    int64? s = some z
      ↔ Literal s z ∧ -9223372036854775808 ≤ z ∧ z ≤ 9223372036854775807 := by
  have least : (-(Nat.pow 2 63 : Nat) : Int) = -9223372036854775808 := rfl
  have most : ((Nat.pow 2 63 : Nat) - 1 : Int) = 9223372036854775807 := rfl
  rw [int64?, least, most]
  unfold int?
  rw [Option.filter_eq_some_iff, decide_eq_true_eq]
  refine and_congr_left fun _ => ?_
  constructor
  · intro h
    split at h
    · next ds =>
      obtain ⟨n, read, rfl⟩ : ∃ n, digits? ds = some n ∧ -(n : Int) = z := by
        simpa [Option.bind_eq_some_iff] using h
      exact .minus (isDecimal_iff.mpr read)
    · next ds =>
      obtain ⟨n, read, rfl⟩ : ∃ n, digits? ds = some n ∧ (n : Int) = z := by
        simpa [Option.bind_eq_some_iff] using h
      exact .plus (isDecimal_iff.mpr read)
    · obtain ⟨n, read, rfl⟩ : ∃ n, digits? s = some n ∧ (n : Int) = z := by
        simpa [Option.bind_eq_some_iff] using h
      exact .bare (isDecimal_iff.mpr read)
  · intro h
    cases h with
    | bare digits =>
      -- No sign is a digit.
      split
      · cases digits.2.1 '-' List.mem_cons_self
      · cases digits.2.1 '+' List.mem_cons_self
      · rw [isDecimal_iff.mp digits]
        rfl
    | plus digits =>
      simp only [isDecimal_iff.mp digits]
      rfl
    | minus digits =>
      simp only [isDecimal_iff.mp digits]
      rfl

theorem Literal.mem {s : List Char} {z : Int} (h : Literal s z) {c : Char} (hc : c ∈ s) :
    c = '+' ∨ c = '-' ∨ c.isDigit = true := by
  cases h with
  | bare digits => exact Or.inr (Or.inr (digits.2.1 c hc))
  | plus digits =>
    rcases List.mem_cons.mp hc with rfl | hc
    · exact Or.inl rfl
    · exact Or.inr (Or.inr (digits.2.1 c hc))
  | minus digits =>
    rcases List.mem_cons.mp hc with rfl | hc
    · exact Or.inr (Or.inl rfl)
    · exact Or.inr (Or.inr (digits.2.1 c hc))

end Numeral
end Census
