import Census.Proofs.Json.Fields

/-!
# Raw values

A raw value is read as a number when it is written with the digits of that number, and as a truth
value when it is the word for it. The grammar allows no zeros in front of a number, so there is one
way to write it.
-/

namespace Census
namespace Json

open Grammar

/-! ## Numbers -/

theorem Grammar.Whole.digits_valueFrom {w : List Char} (whole : Whole w) :
    (toString (Numeral.valueFrom 0 w)).toList = w := by
  cases whole with
  | zero => decide
  | digits digits lead => exact Numeral.digits_valueFrom digits.2 digits.1 lead

theorem number_of_value {c : Char} {s : List Char} (value : Derives .value (c :: s))
    (first : c = '-' ∨ c.isDigit = true) : Grammar.Number (c :: s) := by
  cases value with
  | number number => exact number
  | word word =>
    simp at word
    rcases word with ⟨rfl, -⟩ | ⟨rfl, -⟩ | ⟨rfl, -⟩ <;> exact absurd first (by decide)
  | string => exact absurd first (by decide)
  | array => exact absurd first (by decide)
  | object => exact absurd first (by decide)

theorem whole_of_digits {w f e : List Char} (whole : Whole w) (fraction : Fraction f)
    (exponent : Exponent e) (all : ∀ c ∈ w ++ (f ++ e), c.isDigit = true) :
    Whole (w ++ (f ++ e)) := by
  cases fraction with
  | digits => exact nomatch all '.' (by simp)
  | nothing =>
    cases exponent with
    | digits letter =>
      rcases letter with rfl | rfl
      · exact nomatch all 'e' (by simp)
      · exact nomatch all 'E' (by simp)
    | nothing => rwa [List.append_nil, List.append_nil]

/-- A value of digits is the number that they stand for. -/
theorem digits_of_value {s : List Char} (value : Derives .value s)
    (all : ∀ c ∈ s, c.isDigit = true) : (toString (Numeral.valueFrom 0 s)).toList = s := by
  obtain ⟨c, t, rfl, -, -⟩ := head_of_value value
  obtain ⟨sign, w, f, e, rfl | rfl, whole, fraction, exponent, same⟩ :=
    number_of_value value (.inr (all c List.mem_cons_self))
  · rw [List.nil_append] at same
    rw [same] at all ⊢
    exact (whole_of_digits whole fraction exponent all).digits_valueFrom
  · obtain ⟨rfl, -⟩ := List.cons.inj same
    cases all '-' List.mem_cons_self

/-- So is a value of digits behind a minus sign. -/
theorem digits_of_negative {s : List Char} (value : Derives .value ('-' :: s))
    (all : ∀ c ∈ s, c.isDigit = true) : (toString (Numeral.valueFrom 0 s)).toList = s := by
  obtain ⟨sign, w, f, e, rfl | rfl, whole, fraction, exponent, same⟩ :=
    number_of_value value (.inl rfl)
  · obtain ⟨c, w, rfl⟩ := List.exists_cons_of_ne_nil whole.all_digits.1
    obtain ⟨rfl, -⟩ := List.cons.inj same
    cases whole.all_digits.2 '-' List.mem_cons_self
  · obtain ⟨-, rfl⟩ := List.cons.inj same
    exact (whole_of_digits whole fraction exponent all).digits_valueFrom

theorem toList_toString_neg {n : Nat} (positive : 0 < n) :
    (toString (-(n : Int))).toList = '-' :: (toString n).toList := by
  obtain ⟨n, rfl⟩ : ∃ k, n = k + 1 := ⟨n - 1, by omega⟩
  show ("-" ++ toString (n + 1)).toList = _
  rw [String.toList_append]
  rfl

theorem int64?_minus_eq_some_iff {digits : List Char} {z : Int} :
    int64? ('-' :: digits) = some z
      ↔ ∃ n, Numeral.digits? digits = some n ∧ (0 < n ∧ n ≤ Nat.pow 2 63) ∧ z = -(n : Int) := by
  simp [int64?, Option.filter_eq_some_iff, Option.bind_eq_some_iff, and_assoc, @eq_comm _ z]

theorem int64?_digits_eq_some_iff {digits : List Char} {z : Int}
    (unsigned : digits.head? ≠ some '-') :
    int64? digits = some z
      ↔ ∃ n, Numeral.digits? digits = some n ∧ n < Nat.pow 2 63 ∧ z = (n : Int) := by
  unfold int64?
  split
  · exact absurd rfl unsigned
  · simp [Option.filter_eq_some_iff, Option.bind_eq_some_iff, and_assoc, @eq_comm _ z]

section Values

variable {raw : List Char} (value : Derives .value raw)
include value

/-- A number is read from its digits, up to the largest number of 64 bits. -/
theorem nat64?_eq_some_iff {n : Nat} :
    nat64? raw = some n ↔ n < Nat.pow 2 64 ∧ raw = (toString n).toList := by
  have fits : n ≤ Numeral.most64 ↔ n < Nat.pow 2 64 := by
    simp only [Numeral.most64, Nat.pow_eq]
    omega
  rw [nat64?, Option.filter_eq_some_iff, decide_eq_true_iff, fits, and_comm]
  refine and_congr_right fun _ => ?_
  constructor
  · intro h
    obtain ⟨-, all, rfl⟩ := Numeral.digits?_eq_some_iff.mp h
    exact (digits_of_value value all).symm
  · rintro rfl
    exact Numeral.digits?_toString n

/-- A number with a sign is read from its digits, with a minus sign in front of a negative one. -/
theorem int64?_eq_some_iff {z : Int} :
    int64? raw = some z ↔ (-(Nat.pow 2 63 : Nat) ≤ z ∧ z < (Nat.pow 2 63 : Nat))
      ∧ raw = (toString z).toList := by
  constructor
  · intro h
    by_cases signed : raw.head? = some '-'
    · obtain ⟨digits, rfl⟩ := List.head?_eq_some_iff.mp signed
      obtain ⟨n, read, ⟨positive, small⟩, rfl⟩ := int64?_minus_eq_some_iff.mp h
      obtain ⟨-, all, rfl⟩ := Numeral.digits?_eq_some_iff.mp read
      refine ⟨by omega, ?_⟩
      rw [toList_toString_neg positive, digits_of_negative value all]
    · obtain ⟨n, read, small, rfl⟩ := (int64?_digits_eq_some_iff signed).mp h
      obtain ⟨-, all, rfl⟩ := Numeral.digits?_eq_some_iff.mp read
      exact ⟨by omega, (digits_of_value value all).symm⟩
  · rintro ⟨bounds, rfl⟩
    clear value
    cases z with
    | ofNat n =>
      have small : n < Nat.pow 2 63 := Int.ofNat_lt.mp bounds.2
      show int64? (toString n).toList = some (n : Int)
      refine (int64?_digits_eq_some_iff ?_).mpr ⟨n, Numeral.digits?_toString n, small, rfl⟩
      intro head
      cases Numeral.isDigit_of_mem_digits (List.mem_of_head? head)
    | negSucc n =>
      have negative : Int.negSucc n = -((n + 1 : Nat) : Int) := rfl
      rw [negative] at bounds ⊢
      rw [toList_toString_neg (Nat.succ_pos n), int64?_minus_eq_some_iff]
      exact ⟨n + 1, Numeral.digits?_toString _, by omega, rfl⟩

end Values

theorem bool?_eq_some_iff {raw : List Char} {b : Bool} :
    bool? raw = some b ↔ raw = (toString b).toList := by
  unfold bool?
  cases b with
  | true =>
    show _ ↔ raw = ['t', 'r', 'u', 'e']
    split <;> simp_all
  | false =>
    show _ ↔ raw = ['f', 'a', 'l', 's', 'e']
    split <;> simp_all

/-- What is true of the only value of a name, when only one text can make it true. -/
theorem IsObject.exists_value_iff {members : List (String × List Char)} {s text : List Char}
    {name : String} {p : List Char → Prop} {q : Prop} (object : IsObject members s)
    (unique : ∀ raw, Derives .value raw → (p raw ↔ q ∧ raw = text)) :
    (∃ raw, values name members = [raw] ∧ p raw) ↔ q ∧ values name members = [text] := by
  have value : ∀ raw, values name members = [raw] → Derives .value raw :=
    fun raw found => object.value (found ▸ List.mem_singleton_self raw)
  constructor
  · rintro ⟨raw, found, holds⟩
    obtain ⟨condition, rfl⟩ := (unique raw (value raw found)).mp holds
    exact ⟨condition, found⟩
  · rintro ⟨condition, found⟩
    exact ⟨text, found, (unique text (value text found)).mpr ⟨condition, rfl⟩⟩

end Json
end Census
