import Census.Proofs.Json.Lexeme

/-!
# What strings spell

The text between the quotes of a string spells a list of characters. A code stands for the character
of its number, and the codes of two surrogates, a high one right before a low one, stand for one
character together; a surrogate that is not half of such a pair spells nothing, so a string with one
in it cannot be read. Any other string can, and it is read as what it spells (`quoted_spells`,
`spells_of_quoted`).
-/

namespace Census
namespace Json

open Grammar Quoted

/-- The text between the quotes of a string, and the characters that it stands for. -/
inductive Spells : List Char → List Char → Prop
  | nothing : Spells [] []
  | plain {c : Char} {s cs : List Char} (quote : c ≠ '"') (backslash : c ≠ '\\')
      (control : 0x20 ≤ c.toNat) (rest : Spells s cs) : Spells (c :: s) (c :: cs)
  | escape {c d : Char} {s cs : List Char} (letter : (c, d) ∈ escapes) (rest : Spells s cs) :
      Spells ('\\' :: c :: s) (d :: cs)
  | code {n : Nat} {u s cs : List Char} (digits : IsCode u n) (single : n < 0xD800 ∨ 0xDFFF < n)
      (rest : Spells s cs) : Spells ('\\' :: 'u' :: (u ++ s)) (Char.ofNat n :: cs)
  | pair {m n : Nat} {u v s cs : List Char} (first : IsCode u m) (high : 0xD800 ≤ m ∧ m ≤ 0xDBFF)
      (second : IsCode v n) (low : 0xDC00 ≤ n ∧ n ≤ 0xDFFF) (rest : Spells s cs) :
      Spells ('\\' :: 'u' :: (u ++ '\\' :: 'u' :: (v ++ s)))
        (Char.ofNat (0x10000 + (m - 0xD800) * 0x400 + (n - 0xDC00)) :: cs)

theorem Spells.inside {s cs : List Char} (h : Spells s cs) : Inside s := by
  induction h with
  | nothing => exact .nothing
  | plain quote backslash control _ ih => exact .plain quote backslash control ih
  | escape letter _ ih => exact .escape letter ih
  | code digits _ _ ih => exact .code digits ih
  | pair first _ second _ _ ih => exact .code first (.code second ih)

/-- Characters that need no escape spell themselves. -/
theorem spells_self {s : List Char}
    (plain : s.all (fun c => c ≠ '"' ∧ c ≠ '\\' ∧ 0x20 ≤ c.toNat) = true) : Spells s s := by
  induction s with
  | nil => exact .nothing
  | cons c s ih =>
    rw [List.all_cons, Bool.and_eq_true, decide_eq_true_eq] at plain
    obtain ⟨⟨quote, backslash, control⟩, others⟩ := plain
    exact .plain quote backslash control (ih others)

section Readers

variable {s rest : List Char} {c : Char} {n : Nat}

theorem readUnit_append {u : List Char} (digits : IsCode u n) (rest : List Char) :
    readUnit (u ++ rest) = .ok (n, rest) := by
  obtain ⟨a, b, c, d, -, -, -, -, rfl, -⟩ := id digits
  simp only [List.cons_append, List.nil_append, readUnit, unit?_eq_some_iff.mpr digits]

theorem readUnit_eq_ok (h : readUnit s = .ok (n, rest)) : ∃ u, IsCode u n ∧ s = u ++ rest := by
  unfold readUnit at h
  split at h
  · next a b c d more =>
    split at h
    · next unit =>
      obtain ⟨rfl, rfl⟩ := Prod.mk.inj (Except.ok.inj h)
      exact ⟨[a, b, c, d], unit?_eq_some_iff.mp unit, rfl⟩
    · cases h
  · cases h

theorem readPartner_eq_ok {m : Nat} (h : readPartner m s = .ok (c, rest)) :
    ∃ v n, IsCode v n ∧ (0xDC00 ≤ n ∧ n ≤ 0xDFFF) ∧ c = Text.paired m n
      ∧ s = '\\' :: 'u' :: (v ++ rest) := by
  unfold readPartner at h
  split at h
  · cases h
  · cases h
  · split at h
    · cases h
    next n more unit =>
    split at h
    · next low =>
      obtain ⟨rfl, rfl⟩ := Prod.mk.inj (Except.ok.inj h)
      obtain ⟨v, digits, rfl⟩ := readUnit_eq_ok unit
      exact ⟨v, n, digits, Text.isLowSurrogate_iff.mp low, rfl, rfl⟩
    · cases h
  · cases h
  · cases h

theorem readEscape_eq_ok (h : readEscape s = .ok (c, rest)) :
    ∃ t, (∀ u cs, Spells u cs → Spells ('\\' :: (t ++ u)) (c :: cs)) ∧ s = t ++ rest := by
  unfold readEscape at h
  split at h
  · cases h
  next e more =>
  split at h
  · next letter =>
    split at h
    · cases h
    next n behind unit =>
    obtain ⟨u, digits, rfl⟩ := readUnit_eq_ok unit
    split at h
    · cases h
    next not_low =>
    rw [Text.isLowSurrogate_iff] at not_low
    split at h
    · next high =>
      obtain ⟨v, m, second, low, same, rfl⟩ := readPartner_eq_ok h
      refine ⟨'u' :: (u ++ '\\' :: 'u' :: v), fun t cs rest => ?_, by simp [letter]⟩
      simp only [List.cons_append, List.append_assoc]
      rw [same]
      exact .pair digits (Text.isHighSurrogate_iff.mp high) second low rest
    · next not_high =>
      rw [Text.isHighSurrogate_iff] at not_high
      obtain ⟨rfl, rfl⟩ := Prod.mk.inj (Except.ok.inj h)
      refine ⟨'u' :: u, fun t cs rest => ?_, by simp [letter]⟩
      exact .code digits (by omega) rest
  · split at h
    · next d escape =>
      obtain ⟨rfl, rfl⟩ := Prod.mk.inj (Except.ok.inj h)
      exact ⟨[e], fun t cs rest => .escape (shortEscape?_eq_some_iff.mp escape) rest, rfl⟩
    · cases h

/-- A character that is read is the first one of what a string spells. -/
theorem readChar_eq_ok (h : readChar s = .ok (some c, rest)) :
    ∃ t, (∀ u cs, Spells u cs → Spells (t ++ u) (c :: cs)) ∧ s = t ++ rest := by
  unfold readChar at h
  split at h
  · cases h
  next d more =>
  split at h
  · cases h
  next quote =>
  split at h
  · next backslash =>
    split at h
    · cases h
    next escape =>
    obtain ⟨same, rfl⟩ := Prod.mk.inj (Except.ok.inj h)
    obtain rfl := Option.some.inj same
    obtain ⟨t, spells, rfl⟩ := readEscape_eq_ok escape
    exact ⟨'\\' :: t, spells, by rw [backslash]; rfl⟩
  next backslash =>
  split at h
  · cases h
  next control =>
  obtain ⟨same, rfl⟩ := Prod.mk.inj (Except.ok.inj h)
  obtain rfl := Option.some.inj same
  exact ⟨[d], fun u cs rest => .plain quote backslash (by omega) rest, rfl⟩

theorem readChar_eq_close (h : readChar s = .ok (none, rest)) : s = '"' :: rest := by
  unfold readChar at h
  split at h
  · cases h
  split at h
  · next quote =>
    obtain ⟨-, rfl⟩ := Prod.mk.inj (Except.ok.inj h)
    rw [quote]
  split at h
  · split at h
    · cases h
    · cases h
  split at h
  · cases h
  · cases h

end Readers

variable {s cs rest : List Char}

theorem spells_of_quoted (h : quoted s = .ok (cs, rest)) :
    ∃ t, Spells t cs ∧ s = t ++ '"' :: rest := by
  fun_induction quoted s generalizing cs with
  | case1 => cases h
  | case2 s more close =>
    obtain ⟨rfl, rfl⟩ := Prod.mk.inj (Except.ok.inj h)
    exact ⟨[], .nothing, readChar_eq_close close⟩
  | case3 => cases h
  | case4 s c more first others behind tail ih =>
    obtain ⟨rfl, rfl⟩ := Prod.mk.inj (Except.ok.inj h)
    obtain ⟨t, spells, rfl⟩ := readChar_eq_ok first
    obtain ⟨u, rest_spells, rfl⟩ := ih tail
    exact ⟨t ++ u, spells u _ rest_spells, by rw [List.append_assoc]⟩

theorem readChar_plain {c : Char} (quote : c ≠ '"') (backslash : c ≠ '\\')
    (control : 0x20 ≤ c.toNat) (s : List Char) : readChar (c :: s) = .ok (some c, s) := by
  simp only [readChar, if_neg quote, if_neg backslash]
  rw [if_neg (by omega)]

theorem readChar_escape {c d : Char} (letter : (c, d) ∈ escapes) (s : List Char) :
    readChar ('\\' :: c :: s) = .ok (some d, s) := by
  have escape := shortEscape?_eq_some_iff.mpr letter
  have other : c ≠ 'u' := by
    rintro rfl
    cases escape
  simp [readChar, readEscape, other, escape]

theorem readChar_code {u : List Char} {n : Nat} (digits : IsCode u n)
    (single : n < 0xD800 ∨ 0xDFFF < n) (s : List Char) :
    readChar ('\\' :: 'u' :: (u ++ s)) = .ok (some (Char.ofNat n), s) := by
  have not_low : ¬ Text.isLowSurrogate n = true := by
    rw [Text.isLowSurrogate_iff]
    omega
  have not_high : ¬ Text.isHighSurrogate n = true := by
    rw [Text.isHighSurrogate_iff]
    omega
  simp [readChar, readEscape, readUnit_append digits, not_low, not_high]

theorem readChar_pair {u v : List Char} {m n : Nat} (first : IsCode u m)
    (high : 0xD800 ≤ m ∧ m ≤ 0xDBFF) (second : IsCode v n) (low : 0xDC00 ≤ n ∧ n ≤ 0xDFFF)
    (s : List Char) :
    readChar ('\\' :: 'u' :: (u ++ '\\' :: 'u' :: (v ++ s)))
      = .ok (some (Text.paired m n), s) := by
  have not_low : ¬ Text.isLowSurrogate m = true := by
    rw [Text.isLowSurrogate_iff]
    omega
  simp [readChar, readEscape, readPartner, readUnit_append first, readUnit_append second, not_low,
    Text.isHighSurrogate_iff.mpr high, Text.isLowSurrogate_iff.mpr low]

/-- A string is read as what it spells. -/
theorem quoted_spells (h : Spells s cs) (rest : List Char) :
    quoted (s ++ '"' :: rest) = .ok (cs, rest) := by
  induction h with
  | nothing => exact quoted_close rfl
  | plain quote backslash control _ ih =>
    rw [List.cons_append, quoted_cons (readChar_plain quote backslash control _), ih]
  | escape letter _ ih =>
    rw [List.cons_append, List.cons_append, quoted_cons (readChar_escape letter _), ih]
  | code digits single _ ih =>
    rw [List.cons_append, List.cons_append, List.append_assoc,
      quoted_cons (readChar_code digits single _), ih]
  | pair first high second low _ ih =>
    simp only [List.cons_append, List.append_assoc]
    rw [quoted_cons (readChar_pair first high second low _), ih]
    rfl

end Json
end Census
