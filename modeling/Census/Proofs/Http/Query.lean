import Census.Http.Url
import Census.Proofs.Text.Form
import Mathlib.Data.List.Basic
import Mathlib.Data.List.TakeWhile

/-!
# Parameters of a query

A service reads a query as pairs of names and values with `&` between them. The parameter that is
added to an address without a query is what the service reads under its name, whatever characters the
value has.
-/

namespace Census

theorem Text.partsAt_of_not_mem {sep : Char} {s : List Char} (h : sep ∉ s) :
    Text.partsAt sep s = [s] := by
  induction s with
  | nil => rfl
  | cons c rest ih =>
    obtain ⟨other, fresh⟩ := not_or.mp (List.mem_cons.not.mp h)
    rw [partsAt, if_neg (Ne.symm other), ih fresh]

namespace Http
namespace Url

/-- The value of the first pair in a query that has a given name. -/
def parameter? (u : Url) (name : String) : Option String :=
  u.query.bind fun q => (Text.partsAt '&' q.toList).findSome? fun pair =>
    match cut (· = '=') pair with
    | (n, _ :: value) =>
      if Text.Form.decode? (String.ofList n) = some name then
        Text.Form.decode? (String.ofList value)
      else none
    | _ => none

theorem passes_of_not_mem {c : Char} {s : List Char} (h : c ∉ s) :
    ∀ d ∈ s, (!decide (d = c)) = true := by
  intro d hd
  have other : d ≠ c := by
    rintro rfl
    exact h hd
  rw [decide_eq_false other]
  rfl

theorem cut_of_not_mem {c : Char} {s : List Char} (h : c ∉ s) : cut (· = c) s = (s, []) := by
  rw [cut, List.takeWhile_eq_self_iff.mpr (passes_of_not_mem h),
    List.dropWhile_eq_nil_iff.mpr (passes_of_not_mem h)]

theorem cut_append {c : Char} {s rest : List Char} (h : c ∉ s) :
    cut (· = c) (s ++ c :: rest) = (s, c :: rest) := by
  have before := passes_of_not_mem h
  have taken : (c :: rest).takeWhile (fun d => !decide (d = c)) = [] := by simp
  have dropped : (c :: rest).dropWhile (fun d => !decide (d = c)) = c :: rest := by simp
  rw [cut, List.takeWhile_append_of_pos before, List.dropWhile_append_of_pos before, taken, dropped,
    List.append_nil]

/-- The parameter of an address is the one that was added to it. -/
theorem parameter?_withParameter {u : Url} (bare : u.query = none) (name value : String) :
    (u.withParameter name value).parameter? name = some value := by
  have query : (u.withParameter name value).query
      = some (Text.Form.encode name ++ "=" ++ Text.Form.encode value) := by
    simp only [withParameter, bare]
  have pair : (Text.Form.encode name ++ "=" ++ Text.Form.encode value).toList
      = (Text.Form.encode name).toList ++ '=' :: (Text.Form.encode value).toList := by
    simp
  have single : '&' ∉ (Text.Form.encode name).toList ++ '=' :: (Text.Form.encode value).toList := by
    rw [List.mem_append, List.mem_cons]
    rintro (mem | same | mem)
    · exact (Text.Form.mem_encode mem).1 rfl
    · cases same
    · exact (Text.Form.mem_encode mem).1 rfl
  have name_first : '=' ∉ (Text.Form.encode name).toList :=
    fun mem => (Text.Form.mem_encode mem).2 rfl
  rw [parameter?, query, Option.bind_some, pair, Text.partsAt_of_not_mem single]
  simp only [List.findSome?_cons, cut_append name_first, String.ofList_toList,
    Text.Form.decode?_encode, if_true]

theorem withoutQuery_withParameter (u : Url) (name value : String) :
    { u.withParameter name value with query := none } = { u with query := none } := rfl

end Url
end Http
end Census
