import Census.Options
import Census.Proofs.Search.Base
import Census.Quota.Request

/-!
# The address that a census is told

An address is looked at as it is written, and used without the slashes that end it. Both paths are
added to what is left, and addresses that differ in their last slashes lead to the same places
(`base_of_valid`). An address that is a scheme and nothing but slashes behind it passes as well, and of
that not even the scheme is left.
-/

namespace Census
namespace Options

open Search (address baseOf slashes)
open Quota (probeAddress)

variable {o : Options}

/-- Whether a text begins like an address. -/
def BeginsWithScheme (s : String) : Prop := ∃ scheme ∈ schemes, scheme.toList <+: s.toList

instance (s : String) : Decidable (BeginsWithScheme s) :=
  inferInstanceAs (Decidable (∃ scheme ∈ schemes, scheme.toList <+: s.toList))

/-- Whether an address goes on behind its scheme with something other than slashes. -/
def GoesOn (s : String) : Prop :=
  ∃ scheme ∈ schemes, ∃ rest, s = scheme ++ rest ∧ ∃ c ∈ rest.toList, c ≠ '/'

theorem exists_append_of_scheme {s : String} (h : BeginsWithScheme s) :
    ∃ scheme ∈ schemes, ∃ rest, s = scheme ++ rest := by
  obtain ⟨scheme, known, rest, text⟩ := h
  refine ⟨scheme, known, String.ofList rest, String.toList_injective ?_⟩
  rw [String.toList_append, String.toList_ofList, text]

theorem beginsWithScheme_append {scheme : String} (known : scheme ∈ schemes) (rest : String) :
    BeginsWithScheme (scheme ++ rest) :=
  ⟨scheme, known, rest.toList, String.toList_append.symm⟩

theorem beginsWithScheme_of_valid (valid : o.fault? = none) : BeginsWithScheme o.service := by
  unfold fault? at valid
  split at valid
  · cases valid
  split at valid
  · cases valid
  split at valid
  · cases valid
  next address =>
  obtain ⟨scheme, known, begins⟩ := List.any_eq_true.mp (not_not.mp address)
  exact ⟨scheme, known, List.isPrefixOf_iff_prefix.mp begins⟩

/-- A scheme alone is taken down to less than a scheme. -/
theorem baseOf_of_mem_schemes {scheme : String} (known : scheme ∈ schemes) :
    (baseOf scheme = "http:" ∨ baseOf scheme = "https:") ∧ ¬ BeginsWithScheme (baseOf scheme) := by
  rcases List.mem_pair.mp known with rfl | rfl
  · have base : baseOf "http://" = "http:" := by decide +kernel
    rw [base]
    exact ⟨.inl rfl, by decide⟩
  · have base : baseOf "https://" = "https:" := by decide +kernel
    rw [base]
    exact ⟨.inr rfl, by decide⟩

theorem baseOf_of_goesOn {s : String} (h : GoesOn s) : BeginsWithScheme (baseOf s) := by
  obtain ⟨scheme, known, rest, rfl, more⟩ := h
  rw [Search.baseOf_append_of_exists more]
  exact beginsWithScheme_append known _

/-- What begins like an address goes on, or comes down to a scheme without its slashes. -/
theorem goesOn_or_baseOf {s : String} (h : BeginsWithScheme s) :
    GoesOn s ∨ ∃ scheme ∈ schemes, baseOf s = baseOf scheme := by
  obtain ⟨scheme, known, rest, rfl⟩ := exists_append_of_scheme h
  by_cases more : ∃ c ∈ rest.toList, c ≠ '/'
  · exact .inl ⟨scheme, known, rest, rfl, more⟩
  · refine .inr ⟨scheme, known, Search.baseOf_append_of_all fun c hc => ?_⟩
    by_contra other
    exact more ⟨c, hc, other⟩

theorem beginsWithScheme_baseOf_iff {s : String} : BeginsWithScheme (baseOf s) ↔ GoesOn s := by
  constructor
  · intro begins
    obtain ⟨n, text⟩ := Search.exists_slashes s
    have whole : BeginsWithScheme s := by
      obtain ⟨scheme, known, rest, base⟩ := exists_append_of_scheme begins
      rw [text, base, String.append_assoc]
      exact beginsWithScheme_append known _
    rcases goesOn_or_baseOf whole with more | ⟨scheme, known, base⟩
    · exact more
    · rw [base] at begins
      exact absurd begins (baseOf_of_mem_schemes known).2
  · exact baseOf_of_goesOn

/-- The base of a valid address begins with a scheme just when the address goes on behind its scheme,
and is `http:` or `https:` otherwise. Taking the base once more changes nothing, so both addresses are
that base and a path, and they are the same ones whatever slashes end the address. -/
theorem base_of_valid (o : Options) (valid : o.fault? = none) :
    (BeginsWithScheme o.base ↔ GoesOn o.service) ∧
    (BeginsWithScheme o.base ∨ o.base = "http:" ∨ o.base = "https:") ∧
    baseOf o.base = o.base ∧
    address o.base = o.base ++ "/search/repositories" ∧
    probeAddress o.base = o.base ++ "/rate_limit" ∧
    ∀ (p : Options) (stem : String) (m n : Nat),
      o.service = stem ++ slashes m → p.service = stem ++ slashes n →
        address p.base = address o.base ∧ probeAddress p.base = probeAddress o.base := by
  have again : baseOf o.base = o.base := Search.baseOf_baseOf o.service
  refine ⟨beginsWithScheme_baseOf_iff, ?_, again, ?_, ?_, ?_⟩
  · rcases goesOn_or_baseOf (beginsWithScheme_of_valid valid) with more | ⟨scheme, known, base⟩
    · exact .inl (baseOf_of_goesOn more)
    · right
      rw [Options.base, base]
      exact (baseOf_of_mem_schemes known).1
  · rw [address, again]
  · rw [probeAddress, again]
  · intro p stem m n here there
    have same : p.base = o.base := by
      rw [Options.base, Options.base, here, there, Search.baseOf_append_slashes,
        Search.baseOf_append_slashes]
    rw [same]
    exact ⟨rfl, rfl⟩

/-- An address with a path and two slashes behind it. -/
theorem base_of_valid_path :
    ({ standard with service := "http://h/api//" } : Options).fault? = none ∧
    GoesOn "http://h/api//" ∧ BeginsWithScheme (baseOf "http://h/api//") ∧
    baseOf "http://h/api//" = "http://h/api" ∧
    address "http://h/api" = address (baseOf "http://h/api//") := by
  have valid : ({ standard with service := "http://h/api//" } : Options).fault? = none := by
    decide +kernel
  have goes_on : GoesOn "http://h/api//" :=
    ⟨"http://", by decide, "h/api//", by decide, 'h', by decide, by decide⟩
  have stripped : baseOf "http://h/api//" = "http://h/api" := by decide +kernel
  have unstripped : baseOf "http://h/api" = "http://h/api" := by decide +kernel
  have facts := base_of_valid _ valid
  have same := (facts.2.2.2.2.2 { standard with service := "http://h/api" } "http://h/api" 2 0
    (by decide) (by decide)).1
  rw [Options.base, unstripped] at same
  exact ⟨valid, goes_on, facts.1.mpr goes_on, stripped, same⟩

/-- A scheme alone is a valid address. Its base is no address any more, and both paths are read as
hosts. -/
theorem scheme_alone_is_valid :
    ({ standard with service := "http://" } : Options).fault? = none ∧
    ({ standard with service := "http://" } : Options).base = "http:" ∧
    ¬ BeginsWithScheme ({ standard with service := "http://" } : Options).base ∧
    (Http.Url.ofText? (address "http:")).map Http.Url.authority = some "search" ∧
    (Http.Url.ofText? (probeAddress "http:")).map Http.Url.authority = some "rate_limit" := by
  decide +kernel

end Options
end Census
