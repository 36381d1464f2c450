import Census.Search.Query
import Mathlib.Data.List.DropRight

/-!
# Addresses without the slashes that end them

An address is its base with some number of slashes behind it, and the base does not end in one. So
taking the base of a base changes nothing, and addresses that differ in their last slashes only have
the same base.
-/

namespace Census
namespace Search

variable {address rest : String}

def slashes (n : Nat) : String := String.ofList (List.replicate n '/')

theorem toList_baseOf (address : String) :
    (baseOf address).toList = address.toList.rdropWhile (· = '/') := by
  rw [baseOf, String.toList_ofList, List.rdropWhile]

theorem baseOf_baseOf (address : String) : baseOf (baseOf address) = baseOf address := by
  apply String.toList_injective
  rw [toList_baseOf, toList_baseOf, List.rdropWhile_idempotent]

theorem baseOf_append_of_all (h : ∀ c ∈ rest.toList, c = '/') :
    baseOf (address ++ rest) = baseOf address := by
  have gone : ∀ c ∈ rest.toList.reverse, decide (c = '/') = true :=
    fun c hc => decide_eq_true (h c (List.mem_reverse.mp hc))
  rw [baseOf, String.toList_append, List.reverse_append, List.dropWhile_append_of_pos gone, baseOf]

theorem baseOf_append_slashes (address : String) (n : Nat) :
    baseOf (address ++ slashes n) = baseOf address := by
  refine baseOf_append_of_all fun c hc => ?_
  rw [slashes, String.toList_ofList] at hc
  exact List.eq_of_mem_replicate hc

/-- An address is its base with slashes behind it. -/
theorem exists_slashes (address : String) : ∃ n, address = baseOf address ++ slashes n := by
  have all : ∀ c ∈ address.toList.rtakeWhile (· = '/'), c = '/' := by
    intro c hc
    have slash := List.mem_rtakeWhile_imp hc
    exact of_decide_eq_true slash
  refine ⟨(address.toList.rtakeWhile (· = '/')).length, String.toList_injective ?_⟩
  rw [String.toList_append, toList_baseOf, slashes, String.toList_ofList,
    ← List.eq_replicate_of_mem all, List.rdropWhile_append_rtakeWhile]

/-- Only what ends an address is taken off it. -/
theorem baseOf_append_of_exists (h : ∃ c ∈ rest.toList, c ≠ '/') :
    baseOf (address ++ rest) = address ++ baseOf rest := by
  obtain ⟨c, hc, other⟩ := h
  have stays : ¬ (rest.toList.reverse.dropWhile fun c => c = '/').isEmpty = true := by
    rw [List.isEmpty_iff, List.dropWhile_eq_nil_iff]
    exact fun gone => other (of_decide_eq_true (gone c (List.mem_reverse.mpr hc)))
  apply String.toList_injective
  rw [toList_baseOf, String.toList_append, String.toList_append, toList_baseOf, List.rdropWhile,
    List.reverse_append, List.dropWhile_append, if_neg stays, List.reverse_append,
    List.reverse_reverse, List.rdropWhile]

end Search
end Census
