import Census.Proofs.Json.Number
import Census.Proofs.Text.Numeral
import Mathlib.Tactic.Ring

/-!
# How large a number is read

A number is read as a binary fraction of 64 bits, and the reader refuses it when that would not be
finite. It goes by the digits that fit 64 bits and a power of ten, which are rounded before they are
multiplied (`Fits`), and not by the number that is written (`Finite`). As long as the power of ten is
counted, the two differ only next to the bound: whatever is a factor of `1 + 2 ^ -51` below it is read,
and nothing is read that is as far beyond it (`fits_of_below`, `below_of_fits`).
-/

namespace Census
namespace Json
namespace Number

/-- The power of ten that a number is written with. -/
def power (n : Number) : Int :=
  match n.exponent with
  | none => 0
  | some (false, ds) => (Numeral.valueFrom 0 ds : Nat)
  | some (true, ds) => -(Numeral.valueFrom 0 ds : Nat)

/-- The binary fraction that is nearest to a number is finite. -/
def Finite (n : Number) : Prop :=
  Numeral.valueFrom 0 (n.whole ++ n.fraction) * 10 ^ n.power.toNat
    < tooLarge * 10 ^ (n.fraction.length + (-n.power).toNat)

instance (n : Number) : Decidable n.Finite := inferInstanceAs (Decidable (_ < _))

/-- The product of leading digits and a power of ten, both rounded, is finite. -/
def Bounded (m : Nat) (e : Int) : Prop :=
  e < 0 ∨ (e ≤ 308 ∧ nearest53 m * nearest53 (Nat.pow 10 e.toNat) < tooLarge)

/-- The binary fraction that a number is read as is finite. A power of ten of more than 31 bits is
not looked at any further: it makes a number either zero or too large. -/
def Fits (n : Number) : Prop :=
  n.leading.1 = 0 ∨ n.power < -mostExponent ∨
    (n.power ≤ mostExponent ∧ Bounded n.leading.1 (n.leading.2 + n.power))

theorem overflows_eq_false_iff {m : Nat} {e : Int} :
    overflows m e = false ↔ m = 0 ∨ Bounded m e := by
  simp only [overflows, Bounded, Bool.and_eq_false_iff, Bool.or_eq_false_iff, decide_eq_false_iff_not,
    not_not]
  refine or_congr Iff.rfl ⟨fun h => ?_, fun h => ?_⟩
  · rcases h with ⟨small, negative | below⟩
    · exact .inl (by omega)
    · exact .inr ⟨by omega, by omega⟩
  · rcases h with negative | ⟨small, below⟩
    · exact ⟨by omega, .inl (by omega)⟩
    · exact ⟨by omega, .inr (by omega)⟩

theorem excess?_eq_none_iff {n : Nat} {ds : List Char} (small : n ≤ mostExponent) :
    excess? n ds = none ↔ Numeral.valueFrom n ds ≤ mostExponent := by
  induction ds generalizing n with
  | nil => exact ⟨fun _ => small, fun _ => rfl⟩
  | cons c ds ih =>
    have step : Numeral.valueFrom n (c :: ds)
        = Numeral.valueFrom (10 * n + (c.toNat - '0'.toNat)) ds := rfl
    rw [excess?, step]
    by_cases fits : 10 * n + (c.toNat - '0'.toNat) ≤ mostExponent
    · rw [if_pos fits]
      exact ih fits
    · have larger := Numeral.le_valueFrom (10 * n + (c.toNat - '0'.toNat)) ds
      rw [if_neg fits]
      exact ⟨nofun, fun below => absurd (Nat.le_trans larger below) fits⟩

theorem ite_some_eq_none_iff {p : Prop} [Decidable p] {f : Fault} :
    (if p then some f else none) = none ↔ ¬ p := by
  split <;> simp [*]

/-- The reader refuses just the numbers that it would not read as finite. -/
theorem fault?_eq_none_iff {n : Number} (rest : List Char) : n.fault? rest = none ↔ n.Fits := by
  obtain ⟨sign, w, f, x⟩ := n
  rcases x with _ | ⟨negative, ds⟩
  · simp only [fault?, Fits, power, ite_some_eq_none_iff, Bool.not_eq_true, overflows_eq_false_iff]
    simp [mostExponent]
  by_cases counted : Numeral.valueFrom 0 ds ≤ mostExponent
  · have no_excess := (excess?_eq_none_iff (Nat.zero_le _)).mpr counted
    simp only [fault?, no_excess, ite_some_eq_none_iff, Bool.not_eq_true, overflows_eq_false_iff]
    refine or_congr Iff.rfl ?_
    cases negative with
    | false =>
      refine ⟨fun bounded => .inr ⟨Int.ofNat_le.mpr counted, bounded⟩, fun h => h.elim ?_ And.right⟩
      simp only [power]
      omega
    | true =>
      rw [if_pos rfl, Int.sub_eq_add_neg]
      refine ⟨fun bounded => .inr ⟨?_, bounded⟩, fun h => h.elim ?_ And.right⟩
      · simp only [power]
        omega
      · simp only [power]
        omega
  · obtain ⟨later, excess⟩ : ∃ later, excess? 0 ds = some later := by
      rw [← Option.ne_none_iff_exists']
      exact fun none_left => counted ((excess?_eq_none_iff (Nat.zero_le _)).mp none_left)
    simp only [fault?, excess, ite_some_eq_none_iff, not_and_or, not_not]
    refine or_congr Iff.rfl ?_
    cases negative with
    | false =>
      refine iff_of_false (not_not.mpr rfl) fun h => ?_
      simp only [power] at h
      rcases h with negative | ⟨small, -⟩
      · omega
      · omega
    | true =>
      refine iff_of_true (by decide) (.inl ?_)
      simp only [power]
      omega

theorem read_eq_ok_iff {s rest : List Char} {n : Number} :
    read s = .ok (n, rest) ↔ scan s = .ok (n, rest) ∧ n.Fits := by
  unfold read
  cases scanned : scan s with
  | error f => simp
  | ok x =>
    obtain ⟨m, behind⟩ := x
    cases fault : m.fault? behind with
    | some f =>
      have refused : ¬ m.Fits := by
        rw [← fault?_eq_none_iff behind, fault]
        nofun
      simp only [fault, reduceCtorEq, Except.ok.injEq, Prod.mk.injEq, false_iff, not_and, and_imp]
      rintro rfl -
      exact refused
    | none =>
      have fits : m.Fits := (fault?_eq_none_iff behind).mp fault
      simp only [fault, Except.ok.injEq, Prod.mk.injEq, iff_self_and, and_imp]
      rintro rfl -
      exact fits

/-! ## Leading digits -/

/-- What is absorbed of a row of digits, and what the digits that are left add to it. Digits are left
only when a number of 64 bits is full. -/
theorem absorb_spec {n m left : Nat} {ds : List Char} (all : ∀ c ∈ ds, c.isDigit = true)
    (fits : n ≤ Numeral.most64) (h : absorb n ds = (m, left)) :
    m ≤ Numeral.most64 ∧ left ≤ ds.length ∧ (left = 0 ∨ 2 ^ 60 ≤ m)
      ∧ ∃ r, r < 10 ^ left ∧ Numeral.valueFrom n ds = m * 10 ^ left + r := by
  induction ds generalizing n with
  | nil =>
    obtain ⟨rfl, rfl⟩ := Prod.mk.inj h
    exact ⟨fits, Nat.le_refl 0, .inl rfl, 0, Nat.one_pos, by simp [Numeral.valueFrom]⟩
  | cons c ds ih =>
    obtain ⟨digit, others⟩ := List.forall_mem_cons.mp all
    rw [absorb] at h
    by_cases more : 10 * n + (c.toNat - '0'.toNat) ≤ Numeral.most64
    · rw [if_pos more] at h
      obtain ⟨small, short, full, rest⟩ := ih others more h
      exact ⟨small, Nat.le_succ_of_le short, full, rest⟩
    · rw [if_neg more] at h
      obtain ⟨rfl, rfl⟩ := Prod.mk.inj h
      have nine : c.toNat - '0'.toNat < 10 := (Numeral.digit_of_isDigit digit).1
      have most : Numeral.most64 = 2 ^ 64 - 1 := rfl
      exact ⟨fits, Nat.le_refl _, .inr (by omega), _, Numeral.valueFrom_lt all,
        Numeral.valueFrom_eq n (c :: ds)⟩

/-- The leading digits of a number with as many zeros as digits are left out are as good as all of
its digits: they differ by less than one part in `2 ^ 59`. -/
theorem leading_spec {n : Number} (whole : ∀ c ∈ n.whole, c.isDigit = true)
    (fraction : ∀ c ∈ n.fraction, c.isDigit = true) :
    n.leading.1 ≤ Numeral.most64 ∧ ∃ left : Nat, n.leading.2 = (left : Int) - n.fraction.length
      ∧ (2 ^ 59 - 1) * Numeral.valueFrom 0 (n.whole ++ n.fraction) ≤ 2 ^ 59 * (n.leading.1 * 10 ^ left)
      ∧ 2 ^ 59 * (n.leading.1 * 10 ^ left)
        ≤ (2 ^ 59 + 1) * Numeral.valueFrom 0 (n.whole ++ n.fraction) := by
  obtain ⟨sign, w, f, x⟩ := n
  simp only at whole fraction ⊢
  cases first : absorb 0 w with
  | mk m₁ dropped =>
  cases second : absorb m₁ f with
  | mk m unused =>
  obtain ⟨small₁, -, full₁, r₁, low₁, value₁⟩ := absorb_spec whole (Nat.zero_le _) first
  obtain ⟨small, short, full, r, low, value⟩ := absorb_spec fraction small₁ second
  have lead : (⟨sign, w, f, x⟩ : Number).leading
      = (m, (dropped : Int) - (f.length - unused : Nat)) := by
    simp only [leading, first, second]
  rw [Numeral.valueFrom_eq] at value
  rw [lead, Numeral.valueFrom_append, value₁]
  refine ⟨small, dropped + unused, by push_cast [Nat.cast_sub short]; ring, ?_⟩
  have tail := Numeral.valueFrom_lt fraction
  have scale := Nat.pow_le_pow_right (show 0 < 10 by decide) short
  rw [Nat.pow_add]
  dsimp only
  rcases full₁ with rfl | full₁
  · -- All digits before the point are leading digits, so those behind it are taken as they stand.
    obtain rfl : r₁ = 0 := by simpa using low₁
    rcases full with rfl | full
    · simp only [Nat.pow_zero, Nat.mul_one, Nat.add_zero] at low value ⊢
      omega
    · have leads := Nat.mul_le_mul_right (10 ^ unused) full
      simp only [Nat.pow_zero, Nat.mul_one, Nat.one_mul, Nat.add_zero] at leads ⊢
      omega
  · -- What is left out before the point is less than one unit of the last leading digit, and so is
    -- what stands behind the point.
    have leads := Nat.mul_le_mul_right (10 ^ f.length * 10 ^ dropped) full₁
    have before := Nat.mul_le_mul_right (10 ^ f.length) (Nat.succ_le_of_lt low₁)
    have behind := Nat.mul_le_mul_right (10 ^ dropped) (Nat.le_of_lt tail)
    have rest := Nat.mul_le_mul_right (10 ^ dropped) (Nat.le_of_lt low)
    have wide := Nat.mul_le_mul_right (10 ^ dropped) scale
    have shifted : m₁ * (10 ^ f.length * 10 ^ dropped) + Numeral.valueFrom 0 f * 10 ^ dropped
        = m * (10 ^ dropped * 10 ^ unused) + r * 10 ^ dropped := by
      rw [← Nat.mul_assoc, ← Nat.add_mul, value]
      ring
    have written : (m₁ * 10 ^ dropped + r₁) * 10 ^ f.length
        = m₁ * (10 ^ f.length * 10 ^ dropped) + r₁ * 10 ^ f.length := by ring
    have product : 10 ^ dropped * 10 ^ f.length = 10 ^ f.length * 10 ^ dropped := Nat.mul_comm _ _
    rw [Nat.succ_mul] at before
    rw [written]
    omega

theorem roundQuotient_near {d : Nat} (positive : 0 < d) (n : Nat) :
    2 * (Decimal.roundQuotient n d * d) ≤ 2 * n + d
      ∧ 2 * n ≤ 2 * (Decimal.roundQuotient n d * d) + d := by
  have parts := Nat.div_add_mod' n d
  have rest := Nat.mod_lt n positive
  have next : (n / d + 1) * d = n / d * d + d := Nat.succ_mul _ _
  unfold Decimal.roundQuotient
  simp only
  split
  · omega
  split
  · omega
  split
  · omega
  · omega

/-- Rounding to 53 bits changes a number by at most one part in `2 ^ 53`. -/
theorem nearest53_near (n : Nat) :
    2 ^ 53 * nearest53 n ≤ (2 ^ 53 + 1) * n ∧ (2 ^ 53 - 1) * n ≤ 2 ^ 53 * nearest53 n := by
  have near := roundQuotient_near (Nat.two_pow_pos (n.log2 - 52)) n
  rw [← Nat.pow_eq] at near
  have same : nearest53 n = Decimal.roundQuotient n (Nat.pow 2 (n.log2 - 52))
      * Nat.pow 2 (n.log2 - 52) := rfl
  rw [same]
  by_cases large : 52 ≤ n.log2
  · -- The unit is the last of 53 bits.
    have nonzero : n ≠ 0 := by
      rintro rfl
      exact absurd large (by decide)
    have unit : Nat.pow 2 (n.log2 - 52) * 2 ^ 52 ≤ n :=
      calc Nat.pow 2 (n.log2 - 52) * 2 ^ 52
          = 2 ^ n.log2 := by rw [Nat.pow_eq, ← Nat.pow_add, Nat.sub_add_cancel large]
        _ ≤ n := Nat.log2_self_le nonzero
    omega
  · have unit : Nat.pow 2 (n.log2 - 52) = 1 := by
      rw [Nat.sub_eq_zero_of_le (by omega), Nat.pow_eq, Nat.pow_zero]
    rw [unit] at near ⊢
    omega

/-! ## Numbers away from the bound -/

/-- A number is less than `a / b` times the bound. -/
def Below (n : Number) (a b : Nat) : Prop :=
  b * (Numeral.valueFrom 0 (n.whole ++ n.fraction) * 10 ^ n.power.toNat)
    < a * (tooLarge * 10 ^ (n.fraction.length + (-n.power).toNat))

theorem nearest53_mul_near (m t : Nat) :
    2 ^ 106 * (nearest53 m * nearest53 t) ≤ (2 ^ 53 + 1) ^ 2 * (m * t)
      ∧ (2 ^ 53 - 1) ^ 2 * (m * t) ≤ 2 ^ 106 * (nearest53 m * nearest53 t) := by
  have upper := Nat.mul_le_mul (nearest53_near m).1 (nearest53_near t).1
  have lower := Nat.mul_le_mul (nearest53_near m).2 (nearest53_near t).2
  constructor
  · calc 2 ^ 106 * (nearest53 m * nearest53 t)
        = 2 ^ 53 * nearest53 m * (2 ^ 53 * nearest53 t) := by ring
      _ ≤ (2 ^ 53 + 1) * m * ((2 ^ 53 + 1) * t) := upper
      _ = (2 ^ 53 + 1) ^ 2 * (m * t) := by ring
  · calc (2 ^ 53 - 1) ^ 2 * (m * t)
        = (2 ^ 53 - 1) * m * ((2 ^ 53 - 1) * t) := by ring
      _ ≤ 2 ^ 53 * nearest53 m * (2 ^ 53 * nearest53 t) := lower
      _ = 2 ^ 106 * (nearest53 m * nearest53 t) := by ring

section Near

variable {n : Number} (whole : ∀ c ∈ n.whole, c.isDigit = true)
  (fraction : ∀ c ∈ n.fraction, c.isDigit = true)
include whole fraction

/-- What is read of a number is as good as the number, also when both are brought to the same power
of ten. -/
theorem product_near {e : Nat} (power : n.leading.2 + n.power = e) :
    (2 ^ 59 - 1) * (Numeral.valueFrom 0 (n.whole ++ n.fraction) * 10 ^ n.power.toNat)
        ≤ 2 ^ 59 * (n.leading.1 * 10 ^ e * 10 ^ (n.fraction.length + (-n.power).toNat)) ∧
      2 ^ 59 * (n.leading.1 * 10 ^ e * 10 ^ (n.fraction.length + (-n.power).toNat))
        ≤ (2 ^ 59 + 1) * (Numeral.valueFrom 0 (n.whole ++ n.fraction) * 10 ^ n.power.toNat) := by
  obtain ⟨-, left, shift, lower, upper⟩ := leading_spec whole fraction
  have exponents : left + n.power.toNat = e + (n.fraction.length + (-n.power).toNat) := by omega
  have product : n.leading.1 * 10 ^ e * 10 ^ (n.fraction.length + (-n.power).toNat)
      = n.leading.1 * 10 ^ left * 10 ^ n.power.toNat := by
    rw [Nat.mul_assoc, ← Nat.pow_add, ← exponents, Nat.pow_add, Nat.mul_assoc]
  have lower := Nat.mul_le_mul_right (10 ^ n.power.toNat) lower
  have upper := Nat.mul_le_mul_right (10 ^ n.power.toNat) upper
  rw [product]
  rw [Nat.mul_assoc, Nat.mul_assoc (2 ^ 59)] at lower
  rw [Nat.mul_assoc, Nat.mul_assoc (2 ^ 59 + 1)] at upper
  exact ⟨lower, upper⟩

/-- A number that is a little below the bound is read, as long as its power of ten is counted. -/
theorem fits_of_below (counted : n.power ≤ mostExponent) (below : n.Below (2 ^ 51) (2 ^ 51 + 1)) :
    n.Fits := by
  by_cases zero : n.leading.1 = 0
  · exact .inl zero
  refine .inr (.inr ⟨counted, ?_⟩)
  by_cases small : n.leading.2 + n.power < 0
  · exact .inl small
  obtain ⟨e, power⟩ := Int.eq_ofNat_of_zero_le (not_lt.mp small)
  have bound : (2 ^ 51 + 1) * 2 ^ 59 * (n.leading.1 * 10 ^ e) < (2 ^ 59 + 1) * 2 ^ 51 * tooLarge := by
    have near := (product_near whole fraction power).2
    unfold Below at below
    refine Nat.lt_of_mul_lt_mul_right (a := 10 ^ (n.fraction.length + (-n.power).toNat)) ?_
    rw [Nat.mul_assoc (_ * _), Nat.mul_assoc (_ * _) tooLarge]
    omega
  have first : e ≤ 308 := by
    by_contra large
    obtain ⟨top, top_eq⟩ : ∃ top, top = 309 := ⟨_, rfl⟩
    have most : (2 ^ 59 + 1) * 2 ^ 51 * tooLarge < (2 ^ 51 + 1) * 2 ^ 59 * 10 ^ top := by
      rw [top_eq]
      decide +kernel
    have digits : 10 ^ top ≤ 10 ^ e := Nat.pow_le_pow_right (by decide) (by omega)
    have some_digit := Nat.mul_le_mul (Nat.one_le_iff_ne_zero.mpr zero) digits
    omega
  have near := (nearest53_mul_near n.leading.1 (10 ^ e)).1
  rw [Bounded, power, Int.toNat_natCast, Nat.pow_eq]
  refine .inr ⟨by omega, ?_⟩
  omega

/-- A number that is read is at most a little beyond the bound, as long as its power of ten is
counted. -/
theorem below_of_fits (counted : -mostExponent ≤ n.power) (fits : n.Fits) :
    n.Below (2 ^ 51) (2 ^ 51 - 1) := by
  have wide : 2 ^ 66 < tooLarge := by decide +kernel
  have scale : 0 < 10 ^ (n.fraction.length + (-n.power).toNat) := Nat.pow_pos (by decide)
  have bound := Nat.mul_lt_mul_of_pos_right wide scale
  obtain ⟨most, left, shift, lower, -⟩ := leading_spec whole fraction
  rcases fits with zero | uncounted | ⟨-, bounded⟩
  · rw [zero] at lower
    have nothing : Numeral.valueFrom 0 (n.whole ++ n.fraction) = 0 := by omega
    rw [Below, nothing]
    omega
  · omega
  by_cases small : n.leading.2 + n.power < 0
  · -- The leading digits are multiplied by less than one.
    have exponents : left + n.power.toNat ≤ n.fraction.length + (-n.power).toNat := by omega
    have powers := Nat.pow_le_pow_right (show 0 < 10 by decide) exponents
    have product := Nat.mul_le_mul most powers
    have lower := Nat.mul_le_mul_right (10 ^ n.power.toNat) lower
    rw [Nat.mul_assoc, Nat.mul_assoc (2 ^ 59), Nat.mul_assoc n.leading.1, ← Nat.pow_add] at lower
    have full : Numeral.most64 = 2 ^ 64 - 1 := rfl
    rw [full] at product
    unfold Below
    omega
  · obtain ⟨e, power⟩ := Int.eq_ofNat_of_zero_le (not_lt.mp small)
    have product := (bounded.resolve_left small).2
    have near := (product_near whole fraction power).1
    have rounded := (nearest53_mul_near n.leading.1 (10 ^ e)).2
    rw [power, Int.toNat_natCast, Nat.pow_eq] at product
    have below : (2 ^ 53 - 1) ^ 2 * (n.leading.1 * 10 ^ e) < 2 ^ 106 * tooLarge := by omega
    have scaled := Nat.mul_lt_mul_of_pos_right below scale
    rw [Nat.mul_assoc, Nat.mul_assoc (2 ^ 106)] at scaled
    unfold Below
    omega

end Near

/-- A number of 64 bits is far below the bound. -/
theorem fits_ofDigits {n : Nat} (small : n ≤ Numeral.most64) :
    (ofDigits (toString n).toList).Fits := by
  have far : (2 ^ 51 + 1) * Numeral.most64 < 2 ^ 51 * tooLarge := by decide +kernel
  have counted : (0 : Int) ≤ mostExponent := by decide
  refine fits_of_below (fun _ => Numeral.isDigit_of_mem_digits) (List.forall_mem_nil _) counted ?_
  show (2 ^ 51 + 1) * (Numeral.valueFrom 0 ((toString n).toList ++ []) * 1)
    < 2 ^ 51 * (tooLarge * 1)
  rw [List.append_nil, Numeral.valueFrom_digits]
  omega

end Number
end Json
end Census
