import Census.Http.Header
import Census.Proofs.Text.Blank

/-!
# Header values that are text

A value that is text is made of printable ASCII characters and tabs, one for each byte
(`valueText?_eq_some_iff`). Of white space only spaces and tabs are among them, so a word in such a
value is what spaces and tabs surround (`trimmed_valueText?_iff`).
-/

namespace Census
namespace Http

/-- The byte of a character in a value. -/
def code (c : Char) : UInt8 := UInt8.ofNat c.toNat

/-- Whether a character can be part of a value that is text. -/
def Printable (c : Char) : Prop := c = '\t' ∨ 0x20 ≤ c.toNat ∧ c.toNat ≤ 0x7E

variable {b : UInt8} {c : Char}

theorem toNat_code (printable : Printable c) : (code c).toNat = c.toNat := by
  have small : c.toNat < 256 := by
    rcases printable with rfl | h
    · decide
    · omega
  exact UInt8.toNat_ofNat_of_lt' small

theorem isTextByte_code (printable : Printable c) : isTextByte (code c) = true := by
  rw [isTextByte, toNat_code printable]
  rcases printable with rfl | ⟨low, high⟩
  · decide
  · simp [low, high]

theorem toNat_ofNat_byte (b : UInt8) : (Char.ofNat b.toNat).toNat = b.toNat := by
  have small := b.toNat_lt
  rw [Char.ofNat, dif_pos (Or.inl (by omega))]
  rfl

theorem code_ofNat (b : UInt8) : code (Char.ofNat b.toNat) = b := by
  rw [code, toNat_ofNat_byte, UInt8.ofNat_toNat]

theorem map_code_ofNat (v : List UInt8) : (v.map fun b => Char.ofNat b.toNat).map code = v := by
  rw [List.map_map]
  exact List.map_id'' code_ofNat v

theorem printable_ofNat (text : isTextByte b = true) : Printable (Char.ofNat b.toNat) := by
  rw [Printable, toNat_ofNat_byte]
  simp only [isTextByte, Bool.or_eq_true, Bool.and_eq_true, decide_eq_true_eq] at text
  refine text.imp_left fun tab => ?_
  rw [tab]

/-- A value is text just when it is made of printable characters. -/
theorem valueText?_eq_some_iff {v : List UInt8} {text : List Char} :
    valueText? v = some text ↔ v = text.map code ∧ ∀ c ∈ text, Printable c := by
  unfold valueText?
  constructor
  · intro h
    split at h
    case isFalse => cases h
    next all =>
    obtain rfl := Option.some.inj h
    rw [List.all_eq_true] at all
    refine ⟨(map_code_ofNat v).symm, fun c hc => ?_⟩
    obtain ⟨b, hb, rfl⟩ := List.mem_map.mp hc
    exact printable_ofNat (all b hb)
  · rintro ⟨rfl, printable⟩
    have all : (text.map code).all isTextByte = true := by
      rw [List.all_map, List.all_eq_true]
      exact fun c hc => isTextByte_code (printable c hc)
    rw [if_pos all, List.map_map]
    refine congrArg some ((List.map_congr_left fun c hc => ?_).trans (List.map_id text))
    show Char.ofNat (code c).toNat = c
    rw [toNat_code (printable c hc), Char.ofNat_toNat]

theorem isBlank_iff_of_printable (printable : Printable c) :
    Text.isBlank c = true ↔ c = ' ' ∨ c = '\t' := by
  constructor
  · intro blank
    rcases printable with rfl | ⟨low, high⟩
    · exact Or.inr rfl
    · left
      simp only [Text.isBlank, Text.blankRanges, List.any_cons, List.any_nil, Bool.or_eq_true,
        Bool.and_eq_true, decide_eq_true_eq, Bool.false_eq_true, or_false] at blank
      apply Char.toNat_inj.mp
      show c.toNat = 0x20
      omega
  · rintro (rfl | rfl) <;> decide

/-- A value is text around a word of printable characters when spaces and tabs surround the word. -/
theorem trimmed_valueText?_iff {v : List UInt8} {w : List Char}
    (dark : ∀ c ∈ w, Printable c ∧ Text.isBlank c = false) :
    (∃ text, valueText? v = some text ∧ Text.trimmed text = w)
      ↔ ∃ l r, (∀ c ∈ l ++ r, c = ' ' ∨ c = '\t') ∧ v = (l ++ w ++ r).map code := by
  constructor
  · rintro ⟨text, read, rfl⟩
    obtain ⟨rfl, printable⟩ := valueText?_eq_some_iff.mp read
    obtain ⟨l, r, blank, split⟩ := (Text.trimmed_eq_iff (.of_dark fun c hc => (dark c hc).2)).mp rfl
    refine ⟨l, r, fun c hc => ?_, congrArg _ split⟩
    rw [← isBlank_iff_of_printable (printable c ?_)]
    · exact blank c hc
    · rw [split, List.mem_append, List.mem_append]
      rcases List.mem_append.mp hc with h | h
      · exact Or.inl (Or.inl h)
      · exact Or.inr h
  · rintro ⟨l, r, gap, rfl⟩
    have printable_gap : ∀ c ∈ l ++ r, Printable c := by
      intro c hc
      rcases gap c hc with rfl | rfl
      · exact Or.inr (by decide)
      · exact Or.inl rfl
    have printable : ∀ c ∈ l ++ w ++ r, Printable c := by
      intro c hc
      rw [List.append_assoc, List.mem_append, List.mem_append] at hc
      rcases hc with h | h | h
      · exact printable_gap c (List.mem_append_left r h)
      · exact (dark c h).1
      · exact printable_gap c (List.mem_append_right l h)
    refine ⟨l ++ w ++ r, valueText?_eq_some_iff.mpr ⟨rfl, printable⟩, ?_⟩
    refine (Text.trimmed_eq_iff (.of_dark fun c hc => (dark c hc).2)).mpr ⟨l, r, fun c hc => ?_, rfl⟩
    rw [isBlank_iff_of_printable (printable_gap c hc)]
    exact gap c hc

end Http
end Census
