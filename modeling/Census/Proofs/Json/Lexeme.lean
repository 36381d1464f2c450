import Census.Json.Skim
import Census.Proofs.Json.Grammar
import Census.Proofs.Json.Number
import Census.Proofs.Text.Numeral

/-!
# Strings and numbers in a text

A string is passed over just when its characters, up to the closing quote, are those that the grammar
allows (`exists_inside_of_skimString`, `skimString_append`), and a number is scanned just when it is
put together as the grammar says, into the parts that it is written with (`scan_eq_ok`,
`scan_append`). A number ends where the text cannot go on with it, which what stands behind a value
never does.
-/

namespace Census
namespace Json

open Grammar

/-! ## Strings -/

theorem isHex_of_ascii : ∀ m : Fin 0x80,
    (Quoted.hexValue? (Char.ofNat m)).all (fun n => IsHex (Char.ofNat m) n) = true := by
  decide +kernel

theorem hexValue?_of_isHex : ∀ n : Fin 0x10,
    ("0123456789abcdef".toList[n.val]?).all (Quoted.hexValue? · = some n.val) = true
      ∧ ("0123456789ABCDEF".toList[n.val]?).all (Quoted.hexValue? · = some n.val) = true := by
  decide +kernel

theorem hexValue?_eq_some_iff {c : Char} {n : Nat} :
    Quoted.hexValue? c = some n ↔ IsHex c n := by
  constructor
  · intro h
    have ascii : c.toNat < 0x80 := by
      unfold Quoted.hexValue? at h
      simp only at h
      split at h
      · omega
      split at h
      · omega
      split at h
      · omega
      · cases h
    have digit := isHex_of_ascii ⟨c.toNat, ascii⟩
    rw [Char.ofNat_toNat, h] at digit
    exact of_decide_eq_true digit
  · rintro (h | h)
    · obtain ⟨lt, -⟩ := List.getElem?_eq_some_iff.mp h
      have lower := (hexValue?_of_isHex ⟨n, lt⟩).1
      rw [h] at lower
      exact of_decide_eq_true lower
    · obtain ⟨lt, -⟩ := List.getElem?_eq_some_iff.mp h
      have upper := (hexValue?_of_isHex ⟨n, lt⟩).2
      rw [h] at upper
      exact of_decide_eq_true upper

theorem unit?_eq_some_iff {a b c d : Char} {n : Nat} :
    Quoted.unit? a b c d = some n ↔ IsCode [a, b, c, d] n := by
  simp only [Quoted.unit?, Option.bind_eq_bind, Option.bind_eq_some_iff, hexValue?_eq_some_iff,
    Option.some.injEq]
  constructor
  · rintro ⟨i, hi, j, hj, k, hk, l, hl, rfl⟩
    exact ⟨a, b, c, d, i, j, k, l, rfl, hi, hj, hk, hl, by omega⟩
  · rintro ⟨_, _, _, _, i, j, k, l, same, hi, hj, hk, hl, rfl⟩
    simp only [List.cons.injEq, and_true] at same
    obtain ⟨rfl, rfl, rfl, rfl⟩ := same
    exact ⟨i, hi, j, hj, k, hk, l, hl, by omega⟩

theorem mem_escapes_of_ascii : ∀ m : Fin 0x80,
    (Quoted.shortEscape? (Char.ofNat m)).all (fun d => (Char.ofNat m, d) ∈ escapes) = true := by
  decide +kernel

theorem shortEscape?_eq_some_iff {c d : Char} :
    Quoted.shortEscape? c = some d ↔ (c, d) ∈ escapes := by
  constructor
  · intro h
    have ascii : c.toNat < 0x80 := by
      by_contra large
      have other : ∀ x : Char, x.toNat < 0x80 → c ≠ x := by
        rintro x small rfl
        exact large small
      simp [Quoted.shortEscape?, other] at h
    have escape := mem_escapes_of_ascii ⟨c.toNat, ascii⟩
    rw [Char.ofNat_toNat, h] at escape
    exact of_decide_eq_true escape
  · intro h
    have all : ∀ e ∈ escapes, Quoted.shortEscape? e.1 = some e.2 := by decide
    exact all (c, d) h

theorem exists_inside_of_skimString {s rest : List Char} (h : skimString s = some rest) :
    ∃ t, Inside t ∧ s = t ++ '"' :: rest := by
  fun_induction skimString s with
  | case2 more =>
    obtain rfl := Option.some.inj h
    exact ⟨[], .nothing, rfl⟩
  | case3 a b c d more some_unit _ ih =>
    obtain ⟨t, inside, rfl⟩ := ih h
    obtain ⟨n, unit⟩ := Option.isSome_iff_exists.mp some_unit
    exact ⟨_, .code (unit?_eq_some_iff.mp unit) inside, rfl⟩
  | case5 e more _ some_escape _ ih =>
    obtain ⟨t, inside, rfl⟩ := ih h
    obtain ⟨d, escape⟩ := Option.isSome_iff_exists.mp some_escape
    exact ⟨_, .escape (shortEscape?_eq_some_iff.mp escape) inside, rfl⟩
  | case9 c more quote backslash control ih =>
    obtain ⟨t, inside, rfl⟩ := ih h
    exact ⟨c :: t, .plain quote backslash (by omega) inside, rfl⟩
  | case1 => cases h
  | case4 => cases h
  | case6 => cases h
  | case7 => cases h
  | case8 => cases h

theorem skimString_append {t : List Char} (inside : Inside t) (rest : List Char) :
    skimString (t ++ '"' :: rest) = some rest := by
  induction inside with
  | nothing => 
    rw [List.nil_append, skimString.eq_def]
    rfl
  | plain quote backslash control _ ih =>
    rw [List.cons_append, skimString.eq_def]
    simp only [if_neg quote, if_neg backslash]
    rw [if_neg (by omega), ih]
  | @escape c d s letter _ ih =>
    have escape := shortEscape?_eq_some_iff.mpr letter
    have other : c ≠ 'u' := by
      rintro rfl
      cases escape
    rw [List.cons_append, List.cons_append, skimString.eq_def]
    simp [other, escape, ih]
  | code digits _ ih =>
    obtain ⟨a, b, c, d, -, -, -, -, rfl, -⟩ := id digits
    have unit := unit?_eq_some_iff.mpr digits
    rw [List.cons_append, skimString.eq_def]
    simp [unit, ih]

/-! ## Numbers -/

theorem ne_of_isDigit {c d : Char} (digit : c.isDigit = true) (other : d.isDigit = false) :
    c ≠ d := by
  rintro rfl
  rw [digit] at other
  cases other

theorem isGap_of_isDigit {c : Char} (digit : c.isDigit = true) : isGap c = false := by
  have blank : c ≠ ' ' := ne_of_isDigit digit rfl
  have tab : c ≠ '\t' := ne_of_isDigit digit rfl
  have lineFeed : c ≠ '\n' := ne_of_isDigit digit rfl
  have carriage : c ≠ '\r' := ne_of_isDigit digit rfl
  simp [isGap, blank, tab, lineFeed, carriage]

/-- The digits behind a point, and how they are written with it. -/
inductive Grammar.Places : List Char → List Char → Prop
  | nothing : Places [] []
  | digits {s : List Char} (digits : Digits s) : Places s ('.' :: s)

/-- A power of ten, negative or not, and how it is written. -/
inductive Grammar.Power : Option (Bool × List Char) → List Char → Prop
  | nothing : Power none []
  | raised {e : Char} {sign s : List Char} (letter : e = 'e' ∨ e = 'E')
      (signed : sign = [] ∨ sign = ['+']) (digits : Digits s) :
      Power (some (false, s)) (e :: (sign ++ s))
  | lowered {e : Char} {s : List Char} (letter : e = 'e' ∨ e = 'E') (digits : Digits s) :
      Power (some (true, s)) (e :: '-' :: s)

/-- A number by its parts, and a text of it. -/
def Grammar.Written (n : Json.Number) (s : List Char) : Prop :=
  ∃ sign f e, sign = (if n.negative then ['-'] else []) ∧ Whole n.whole ∧ Places n.fraction f
    ∧ Power n.exponent e ∧ s = sign ++ (n.whole ++ (f ++ e))

namespace Grammar

variable {n : Json.Number} {s : List Char}

theorem Places.fraction {ds f : List Char} (places : Places ds f) : Fraction f := by
  cases places with
  | nothing => exact .nothing
  | digits digits => exact .digits digits

theorem Power.exponent {x : Option (Bool × List Char)} {e : List Char} (power : Power x e) :
    Exponent e := by
  cases power with
  | nothing => exact .nothing
  | raised letter signed digits => exact .digits letter (signed.imp_right .inl) digits
  | @lowered e s letter digits =>
    show Exponent (e :: (['-'] ++ s))
    exact .digits letter (.inr (.inr rfl)) digits

theorem Written.number (h : Written n s) : Number s := by
  obtain ⟨sign, f, e, rfl, whole, places, power, rfl⟩ := h
  refine ⟨_, n.whole, f, e, ?_, whole, places.fraction, power.exponent, rfl⟩
  cases n.negative with
  | false => exact .inl rfl
  | true => exact .inr rfl

theorem Fraction.exists_places {f : List Char} (fraction : Fraction f) : ∃ ds, Places ds f := by
  cases fraction with
  | nothing => exact ⟨[], .nothing⟩
  | digits digits => exact ⟨_, .digits digits⟩

theorem Exponent.exists_power {e : List Char} (exponent : Exponent e) : ∃ x, Power x e := by
  cases exponent with
  | nothing => exact ⟨none, .nothing⟩
  | digits letter signed digits =>
    rcases signed with rfl | rfl | rfl
    · exact ⟨_, .raised letter (.inl rfl) digits⟩
    · exact ⟨_, .raised letter (.inr rfl) digits⟩
    · exact ⟨_, .lowered letter digits⟩

theorem Number.exists_written (number : Number s) : ∃ n, Written n s := by
  obtain ⟨sign, w, f, e, signed, whole, fraction, exponent, rfl⟩ := number
  obtain ⟨ds, places⟩ := fraction.exists_places
  obtain ⟨x, power⟩ := exponent.exists_power
  rcases signed with rfl | rfl
  · exact ⟨⟨false, w, ds, x⟩, [], f, e, rfl, whole, places, power, rfl⟩
  · exact ⟨⟨true, w, ds, x⟩, ['-'], f, e, rfl, whole, places, power, rfl⟩

theorem Whole.all_digits {w : List Char} (whole : Whole w) : Digits w := by
  cases whole with
  | zero => exact ⟨by simp, by simp⟩
  | digits digits => exact digits

/-- The digits of a number are a text of it. -/
theorem written_ofDigits (n : Nat) :
    Written (Number.ofDigits (toString n).toList) (toString n).toList := by
  have digits : Digits (toString n).toList :=
    ⟨Numeral.digits_ne_nil n, fun _ => Numeral.isDigit_of_mem_digits⟩
  have whole : Whole (toString n).toList := by
    by_cases zero : n = 0
    · subst zero
      exact .zero
    · exact .digits digits (Numeral.head?_digits (Nat.pos_of_ne_zero zero))
  exact ⟨[], [], [], rfl, whole, .nothing, .nothing, by simp [Number.ofDigits]⟩

end Grammar

section Numbers

variable {s rest : List Char}

theorem readDigits_eq_ok {ds : List Char} (h : Number.readDigits s = .ok (ds, rest)) :
    Digits ds ∧ s = ds ++ rest := by
  unfold Number.readDigits at h
  split at h
  · cases h
  · next digits taken =>
    obtain ⟨rfl, rfl⟩ := Prod.mk.inj (Except.ok.inj h)
    exact ⟨⟨taken, fun c hc => List.mem_takeWhile_imp hc⟩, List.takeWhile_append_dropWhile.symm⟩

theorem readWhole_eq_ok {w : List Char} (h : Number.readWhole s = .ok (w, rest)) :
    Whole w ∧ s = w ++ rest := by
  unfold Number.readWhole at h
  split at h
  · split at h
    · obtain ⟨rfl, rfl⟩ := Prod.mk.inj (Except.ok.inj h)
      exact ⟨.zero, rfl⟩
    · split at h
      · cases h
      · obtain ⟨rfl, rfl⟩ := Prod.mk.inj (Except.ok.inj h)
        exact ⟨.zero, rfl⟩
  · next other =>
    obtain ⟨digits, rfl⟩ := readDigits_eq_ok h
    refine ⟨.digits digits fun lead => ?_, rfl⟩
    obtain ⟨ds, rfl⟩ := List.head?_eq_some_iff.mp lead
    exact other _ rfl

theorem readFraction_eq_ok {f : List Char} (h : Number.readFraction s = .ok (f, rest)) :
    ∃ t, Places f t ∧ s = t ++ rest := by
  unfold Number.readFraction at h
  split at h
  · obtain ⟨digits, rfl⟩ := readDigits_eq_ok h
    exact ⟨_, .digits digits, rfl⟩
  · obtain ⟨rfl, rfl⟩ := Prod.mk.inj (Except.ok.inj h)
    exact ⟨[], .nothing, rfl⟩

theorem readExponent_eq_ok {x : Option (Bool × List Char)}
    (h : Number.readExponent s = .ok (x, rest)) : ∃ t, Power x t ∧ s = t ++ rest := by
  unfold Number.readExponent at h
  simp only at h
  split at h
  · obtain ⟨rfl, rfl⟩ := Prod.mk.inj (Except.ok.inj h)
    exact ⟨[], .nothing, rfl⟩
  · split at h
    · next letter =>
      split at h
      -- Whatever the sign, the digits behind it are read in the same way.
      all_goals
        split at h
        · cases h
        rename_i read
        obtain ⟨rfl, rfl⟩ := Prod.mk.inj (Except.ok.inj h)
        obtain ⟨digits, rfl⟩ := readDigits_eq_ok read
      · exact ⟨_, .raised letter (.inr rfl) digits, rfl⟩
      · exact ⟨_, .lowered letter digits, rfl⟩
      · exact ⟨_, .raised letter (.inl rfl) digits, rfl⟩
    · obtain ⟨rfl, rfl⟩ := Prod.mk.inj (Except.ok.inj h)
      exact ⟨[], .nothing, rfl⟩

theorem readUnsigned_eq_ok {negative : Bool} {n : Number}
    (h : Number.readUnsigned negative s = .ok (n, rest)) :
    ∃ f e, n.negative = negative ∧ Whole n.whole ∧ Places n.fraction f ∧ Power n.exponent e
      ∧ s = n.whole ++ (f ++ (e ++ rest)) := by
  unfold Number.readUnsigned at h
  split at h
  · cases h
  next readWhole =>
  split at h
  · cases h
  next readFraction =>
  split at h
  · cases h
  next readExponent =>
  obtain ⟨rfl, rfl⟩ := Prod.mk.inj (Except.ok.inj h)
  obtain ⟨whole, rfl⟩ := readWhole_eq_ok readWhole
  obtain ⟨f, places, rfl⟩ := readFraction_eq_ok readFraction
  obtain ⟨e, power, rfl⟩ := readExponent_eq_ok readExponent
  exact ⟨f, e, rfl, whole, places, power, rfl⟩

theorem scan_eq_ok {n : Number} (h : Number.scan s = .ok (n, rest)) :
    ∃ t, Written n t ∧ s = t ++ rest := by
  unfold Number.scan at h
  split at h
  · obtain ⟨f, e, sign, whole, places, power, rfl⟩ := readUnsigned_eq_ok h
    exact ⟨_, ⟨['-'], f, e, by rw [sign]; rfl, whole, places, power, rfl⟩, by simp⟩
  · obtain ⟨f, e, sign, whole, places, power, rfl⟩ := readUnsigned_eq_ok h
    exact ⟨_, ⟨[], f, e, by rw [sign]; rfl, whole, places, power, rfl⟩, by simp⟩

theorem readWhole_append {w : List Char} (whole : Whole w) (stops : NoDigit rest) :
    Number.readWhole (w ++ rest) = .ok (w, rest) := by
  cases whole with
  | zero =>
    cases rest with
    | nil => rfl
    | cons c rest =>
      show (if c.isDigit then _ else _) = _
      rw [stops c rfl, if_neg Bool.false_ne_true]
  | digits digits lead =>
    rw [Number.readWhole_of_head?, Number.readDigits_append digits.2 digits.1 stops]
    rwa [List.head?_append_of_ne_nil _ digits.1]

theorem readFraction_append {ds f : List Char} (places : Places ds f) (stops : NoDigit rest)
    (point : rest.head? ≠ some '.') : Number.readFraction (f ++ rest) = .ok (ds, rest) := by
  cases places with
  | nothing =>
    rw [List.nil_append]
    unfold Number.readFraction
    split
    · exact (point rfl).elim
    · rfl
  | digits digits => exact Number.readDigits_append digits.2 digits.1 stops

theorem readExponent_append {x : Option (Bool × List Char)} {e : List Char} (power : Power x e)
    (behind : BehindValue rest) : Number.readExponent (e ++ rest) = .ok (x, rest) := by
  cases power with
  | nothing => exact Number.readExponent_behind behind
  | raised letter signed digits =>
    have read := Number.readDigits_append digits.2 digits.1 behind.noDigit
    rcases signed with rfl | rfl
    · obtain ⟨d, ds, rfl⟩ := List.exists_cons_of_ne_nil digits.1
      have digit := digits.2 d List.mem_cons_self
      have plus : d ≠ '+' := ne_of_isDigit digit rfl
      have minus : d ≠ '-' := ne_of_isDigit digit rfl
      rw [List.cons_append] at read
      simp [Number.readExponent, letter, plus, minus, read]
    · simp [Number.readExponent, letter, read]
  | lowered letter digits =>
    have read := Number.readDigits_append digits.2 digits.1 behind.noDigit
    simp [Number.readExponent, letter, read]

theorem head?_exponent {e : List Char} (exponent : Exponent e) (behind : BehindValue rest) :
    NoDigit (e ++ rest) ∧ (e ++ rest).head? ≠ some '.' := by
  cases exponent with
  | nothing => exact ⟨behind.noDigit, by cases behind <;> simp⟩
  | digits letter =>
    rw [List.cons_append]
    rcases letter with rfl | rfl <;> exact ⟨fun c hc => by cases hc; rfl, by simp⟩

theorem head?_fraction {f : List Char} (fraction : Fraction f) (stops : NoDigit rest) :
    NoDigit (f ++ rest) := by
  cases fraction with
  | nothing => exact stops
  | digits => exact fun c hc => by cases hc; rfl

/-- A number is taken apart into the parts that it is written with. -/
theorem scan_append {n : Number} {t : List Char} (written : Written n t)
    (behind : BehindValue rest) : Number.scan (t ++ rest) = .ok (n, rest) := by
  obtain ⟨negative, w, ds, x⟩ := n
  obtain ⟨sign, f, e, rfl, whole, places, power, rfl⟩ := written
  obtain ⟨stops, point⟩ := head?_exponent power.exponent behind
  have readWhole := readWhole_append whole (head?_fraction places.fraction stops)
  have readFraction := readFraction_append places stops point
  have readExponent := readExponent_append power behind
  have unsigned : Number.readUnsigned negative (w ++ (f ++ (e ++ rest)))
      = .ok (⟨negative, w, ds, x⟩, rest) := by
    simp only [Number.readUnsigned, readWhole, readFraction, readExponent]
  simp only [List.append_assoc]
  cases negative with
  | false =>
    have some_digit := whole.all_digits.1
    rw [if_neg Bool.false_ne_true, List.nil_append, Number.scan_of_head?, unsigned]
    rw [List.head?_append_of_ne_nil _ some_digit]
    intro head
    cases whole.all_digits.2 '-' (List.mem_of_head? head)
  | true => exact unsigned

theorem head_of_number {s : List Char} (number : Grammar.Number s) :
    ∃ c t, s = c :: t ∧ (c = '-' ∨ c.isDigit = true) := by
  obtain ⟨sign, w, f, e, signed, whole, -, -, rfl⟩ := number
  rcases signed with rfl | rfl
  · obtain ⟨some_digit, all⟩ := whole.all_digits
    obtain ⟨c, w, rfl⟩ := List.exists_cons_of_ne_nil some_digit
    exact ⟨c, _, rfl, .inr (all c List.mem_cons_self)⟩
  · exact ⟨'-', _, rfl, .inl rfl⟩

end Numbers

end Json
end Census
