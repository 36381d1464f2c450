import Census.Proofs.Text.Utf8
import Census.Text.Form

/-!
# Form-encoded values can be read

Every byte is written in a way that stands for it alone, so a value is read back as it was, and no
byte is written with one of the characters that part the values of a query from each other.
-/

namespace Census
namespace Text
namespace Form

theorem toNat_ofNat {n : Nat} (ascii : n < 0x80) : (Char.ofNat n).toNat = n := by
  have valid : n.isValidChar := Or.inl (by omega)
  rw [Char.ofNat, dif_pos valid]
  rfl

theorem isPlain_range {b : UInt8} (h : isPlain b = true) :
    b.toNat < 0x80 ∧ b.toNat ≠ 0x25 ∧ b.toNat ≠ 0x26 ∧ b.toNat ≠ 0x2B ∧ b.toNat ≠ 0x3D := by
  simp only [isPlain, Bool.or_eq_true, Bool.and_eq_true, decide_eq_true_eq] at h
  omega

theorem ne_of_toNat_ne {n : Nat} {c : Char} (ascii : n < 0x80) (h : n ≠ c.toNat) :
    Char.ofNat n ≠ c := by
  rintro rfl
  exact h (toNat_ofNat ascii).symm

theorem hexValue?_hexDigit : ∀ n : Fin 16, hexValue? (hexDigit n) = some n.val := by
  decide

theorem isAlphanum_hexDigit : ∀ n : Fin 16, (hexDigit n).isAlphanum = true := by
  decide

theorem hexDigit_ne {c : Char} (other : c.isAlphanum = false) (n : Fin 16) : hexDigit n ≠ c := by
  rintro rfl
  rw [isAlphanum_hexDigit] at other
  cases other

/-- A percent sign aside, a character stands for one byte. -/
theorem decodeBytes?_cons {c : Char} (sign : c ≠ '%') (ascii : c.toNat < 0x80) (rest : List Char) :
    decodeBytes? (c :: rest)
      = (decodeBytes? rest).map (UInt8.ofNat (if c = '+' then 0x20 else c.toNat) :: ·) := by
  have legal : ¬ (c = '%' ∨ 0x80 ≤ c.toNat) := by
    rintro (same | large)
    · exact sign same
    · omega
  rw [decodeBytes?]
  · rw [if_neg legal]
  · intro a b more same
    exact absurd same sign

theorem decodeBytes?_encodeByte (b : UInt8) (rest : List Char) :
    decodeBytes? (encodeByte b ++ rest) = (decodeBytes? rest).map (b :: ·) := by
  -- A byte is written as its own character, as a plus sign, or as a code of two digits.
  unfold encodeByte
  split
  · next plain =>
    obtain ⟨ascii, percent, -, plus, -⟩ := isPlain_range plain
    have no_plus : Char.ofNat b.toNat ≠ '+' := ne_of_toNat_ne ascii plus
    rw [List.singleton_append, decodeBytes?_cons (ne_of_toNat_ne ascii percent)
      (by rwa [toNat_ofNat ascii]), if_neg no_plus, toNat_ofNat ascii, UInt8.ofNat_toNat]
  · split
    · next space =>
      have same : UInt8.ofNat 0x20 = b := by rw [← space, UInt8.ofNat_toNat]
      rw [List.singleton_append, decodeBytes?_cons (by decide) (by decide), if_pos rfl, same]
    · have size := b.toNat_lt
      have hi := hexValue?_hexDigit ⟨b.toNat / 16, by omega⟩
      have lo := hexValue?_hexDigit ⟨b.toNat % 16, by omega⟩
      have same : UInt8.ofNat (b.toNat / 16 * 16 + b.toNat % 16) = b := by
        rw [Nat.div_add_mod', UInt8.ofNat_toNat]
      simp only at hi lo
      simp only [List.cons_append, List.nil_append, decodeBytes?, hi, lo]
      cases decodeBytes? rest with
      | none => rfl
      | some more =>
        show some (UInt8.ofNat (b.toNat / 16 * 16 + b.toNat % 16) :: more) = some (b :: more)
        rw [same]

theorem decodeBytes?_encodeBytes (bs : List UInt8) : decodeBytes? (encodeBytes bs) = some bs := by
  induction bs with
  | nil => rfl
  | cons b bs ih =>
    have step : encodeBytes (b :: bs) = encodeByte b ++ encodeBytes bs := rfl
    rw [step, decodeBytes?_encodeByte, ih]
    rfl

/-- An encoded text is read back. -/
theorem decode?_encode (s : String) : decode? (encode s) = some s := by
  rw [decode?, encode, String.toList_ofList, decodeBytes?_encodeBytes]
  exact ofBytes?_bytes s

theorem mem_encodeByte {b : UInt8} {c : Char} (h : c ∈ encodeByte b) : c ≠ '&' ∧ c ≠ '=' := by
  unfold encodeByte at h
  split at h
  · next plain =>
    obtain ⟨ascii, -, ampersand, -, equals⟩ := isPlain_range plain
    obtain rfl := List.mem_singleton.mp h
    exact ⟨ne_of_toNat_ne ascii ampersand, ne_of_toNat_ne ascii equals⟩
  · split at h
    · obtain rfl := List.mem_singleton.mp h
      decide
    · have size := b.toNat_lt
      simp only [List.mem_cons, List.not_mem_nil, or_false] at h
      rcases h with rfl | rfl | rfl
      · decide
      · have digit : b.toNat / 16 < 16 := by omega
        exact ⟨hexDigit_ne rfl ⟨_, digit⟩, hexDigit_ne rfl ⟨_, digit⟩⟩
      · have digit : b.toNat % 16 < 16 := by omega
        exact ⟨hexDigit_ne rfl ⟨_, digit⟩, hexDigit_ne rfl ⟨_, digit⟩⟩

/-- An encoded text has none of the characters that part a query. -/
theorem mem_encode {s : String} {c : Char} (h : c ∈ (encode s).toList) : c ≠ '&' ∧ c ≠ '=' := by
  rw [encode, String.toList_ofList] at h
  obtain ⟨b, -, hc⟩ := List.mem_flatMap.mp h
  exact mem_encodeByte hc

end Form
end Text
end Census
