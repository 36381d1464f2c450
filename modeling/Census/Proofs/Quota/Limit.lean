import Census.Proofs.Http.Header
import Census.Quota.Limit

/-!
# When a quota is used up

Whether a response says that the quota is used up is a matter of its status and of two headers, one
that only has to be there and one whose first value has to say that nothing remains. A value that is
not text says nothing, and a later value does not count.
-/

namespace Census
namespace Quota

open Http

/-- The first value under a name. -/
def First (headers : Headers) (name : String) (v : List UInt8) : Prop :=
  ∃ before h after, headers = before ++ h :: after ∧ foldCase h.name = name.toList
    ∧ (∀ g ∈ before, foldCase g.name ≠ name.toList) ∧ h.value = v

/-- A zero among spaces and tabs. -/
def IsZero (v : List UInt8) : Prop :=
  ∃ l r, (∀ b ∈ l ++ r, b = 0x20 ∨ b = 0x9) ∧ v = l ++ 0x30 :: r

/-- The response says that the quota is used up. -/
def Limited (status : Nat) (headers : Headers) : Prop :=
  status = 429 ∨ status = 403 ∧ ((∃ h ∈ headers, foldCase h.name = "retry-after".toList)
    ∨ ∃ v, First headers "x-ratelimit-remaining" v ∧ IsZero v)

section Headers

variable {headers : Headers} {name : String} (folded : foldCase name = name.toList)
include folded

theorem value?_eq_some_iff {v : List UInt8} :
    headers.value? name = some v ↔ First headers name v := by
  simp only [Headers.value?, Option.map_eq_some_iff, List.find?_eq_some_iff_append, folded, First,
    decide_eq_true_eq, Bool.not_eq_true', decide_eq_false_iff_not]
  constructor
  · rintro ⟨h, ⟨named, before, after, rfl, others⟩, rfl⟩
    exact ⟨before, h, after, rfl, named, others, rfl⟩
  · rintro ⟨before, h, after, rfl, named, others, rfl⟩
    exact ⟨h, ⟨named, before, after, rfl, others⟩, rfl⟩

theorem isSome_value?_iff :
    (headers.value? name).isSome = true ↔ ∃ h ∈ headers, foldCase h.name = name.toList := by
  simp [Headers.value?, folded]

end Headers

/-- A value is text that is trimmed to a zero just when it is a zero among spaces and tabs. -/
theorem isZero_iff {v : List UInt8} :
    (valueText? v).any (fun t => Text.trimmed t = ['0']) = true ↔ IsZero v := by
  have zero : ∀ c ∈ ['0'], Printable c ∧ Text.isBlank c = false := by
    intro c hc
    obtain rfl := List.mem_singleton.mp hc
    exact ⟨Or.inr (by decide), by decide⟩
  rw [Option.any_eq_true]
  simp only [decide_eq_true_eq]
  rw [trimmed_valueText?_iff zero]
  constructor
  · rintro ⟨l, r, gap, rfl⟩
    refine ⟨l.map code, r.map code, ?_, ?_⟩
    · rw [← List.map_append]
      intro b hb
      obtain ⟨c, hc, rfl⟩ := List.mem_map.mp hb
      rcases gap c hc with rfl | rfl
      · exact Or.inl rfl
      · exact Or.inr rfl
    · rw [List.append_assoc, List.map_append]
      rfl
  · rintro ⟨l, r, gap, rfl⟩
    refine ⟨l.map fun b => Char.ofNat b.toNat, r.map fun b => Char.ofNat b.toNat, ?_, ?_⟩
    · rw [← List.map_append]
      intro c hc
      obtain ⟨b, hb, rfl⟩ := List.mem_map.mp hc
      rcases gap b hb with rfl | rfl
      · exact Or.inl rfl
      · exact Or.inr rfl
    · rw [List.append_assoc, List.map_append, List.map_append, map_code_ofNat, map_code_ofNat]
      rfl

theorem isLimit_iff {status : Nat} {headers : Headers} :
    isLimit status headers = true ↔ Limited status headers := by
  have delay : foldCase retryAfter = retryAfter.toList := by decide
  have left : foldCase limitRemaining = limitRemaining.toList := by decide
  have nothing_left : (headers.text? limitRemaining).any (fun t => Text.trimmed t = ['0']) = true
      ↔ ∃ v, First headers "x-ratelimit-remaining" v ∧ IsZero v := by
    rw [Headers.text?, Option.any_bind, Option.any_eq_true]
    refine exists_congr fun v => ?_
    rw [value?_eq_some_iff left]
    exact and_congr_right fun _ => isZero_iff
  rw [isLimit, Limited, ← nothing_left]
  simp only [Bool.or_eq_true, Bool.and_eq_true, decide_eq_true_eq, isSome_value?_iff delay]
  rfl

instance (status : Nat) (headers : Headers) : Decidable (Limited status headers) :=
  decidable_of_iff _ isLimit_iff

end Quota
end Census
