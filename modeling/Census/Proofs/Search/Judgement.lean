import Census.Proofs.Json.Raw
import Census.Proofs.Quota.Limit
import Census.Search.Judgement

/-!
# What a search is judged to have found

The status and the headers come first, and the body is looked at only when they say nothing. A body
counts results when it is an object with the number in one member, or else an array with the number in
front.
-/

namespace Census
namespace Search

open Json Quota

/-- The members of a document say that there are `n` results, and whether some are missing. -/
def Counts (members : List (String × List Char)) (n : Nat) (b : Bool) : Prop :=
  n < Nat.pow 2 64 ∧ values "total_count" members = [(toString n).toList]
    ∧ (values "incomplete_results" members = [(toString b).toList]
      ∨ values "incomplete_results" members = [] ∧ b = false)

instance (members : List (String × List Char)) (n : Nat) (b : Bool) :
    Decidable (Counts members n b) := inferInstanceAs (Decidable (_ ∧ _))

/-- So do the items of an array. -/
def CountsInPlace (items : List (List Char)) (n : Nat) (b : Bool) : Prop :=
  n < Nat.pow 2 64 ∧ (items = [(toString n).toList, (toString b).toList]
    ∨ items = [(toString n).toList] ∧ b = false)

namespace Document

theorem total?_eq_some_iff {raw : List Char} {n : Nat} :
    total? raw = some (some n) ↔ nat64? raw = some n := by
  unfold total?
  split
  · next null =>
    obtain rfl := of_decide_eq_true null
    exact ⟨nofun, nofun⟩
  · simp

/-- A document with a number is one whose first field is that number. -/
theorem ofFields?_eq_some_iff {fields : Fields} {n : Nat} {b : Bool} :
    ofFields? fields = some ⟨some n, b⟩ ↔ (fields ≠ .byPlace [] ∧ fields.fits 2 = true)
      ∧ (∃ raw, fields.find? "total_count" 0 = some (some raw) ∧ nat64? raw = some n)
      ∧ ((∃ raw, fields.find? "incomplete_results" 1 = some (some raw) ∧ bool? raw = some b)
        ∨ fields.find? "incomplete_results" 1 = some none ∧ b = false) := by
  constructor
  · intro h
    obtain ⟨field, total, h⟩ := Option.bind_eq_some_iff.mp h
    obtain ⟨word, flag, h⟩ := Option.bind_eq_some_iff.mp h
    split at h
    · cases h
    next shape =>
    rw [not_or, not_not] at shape
    cases field with
    | none =>
      -- A document without the field has no number.
      obtain ⟨found, read, h⟩ := Option.bind_eq_some_iff.mp h
      obtain rfl := Option.some.inj read
      cases word with
      | none => cases h
      | some word =>
        obtain ⟨b, -, h⟩ := Option.bind_eq_some_iff.mp h
        cases h
    | some raw =>
      obtain ⟨found, read, h⟩ := Option.bind_eq_some_iff.mp h
      cases word with
      | none =>
        cases h
        exact ⟨shape, ⟨raw, total, total?_eq_some_iff.mp read⟩, .inr ⟨flag, rfl⟩⟩
      | some word =>
        obtain ⟨b, truth, h⟩ := Option.bind_eq_some_iff.mp h
        cases h
        exact ⟨shape, ⟨raw, total, total?_eq_some_iff.mp read⟩, .inl ⟨word, flag, truth⟩⟩
  · rintro ⟨shape, ⟨raw, total, read⟩, ⟨word, flag, truth⟩ | ⟨flag, rfl⟩⟩
    · simp [ofFields?, total, flag, shape, total?_eq_some_iff.mpr read, truth]
    · simp [ofFields?, total, flag, shape, total?_eq_some_iff.mpr read]

theorem ofFields?_byName {members : List (String × List Char)} {s : List Char}
    (object : IsObject members s) {n : Nat} {b : Bool} :
    ofFields? (.byName members) = some ⟨some n, b⟩ ↔ Counts members n b := by
  have shape : Fields.byName members ≠ .byPlace [] ∧ (Fields.byName members).fits 2 = true :=
    ⟨nofun, rfl⟩
  have total : (∃ raw, values "total_count" members = [raw] ∧ nat64? raw = some n)
      ↔ n < Nat.pow 2 64 ∧ values "total_count" members = [(toString n).toList] :=
    object.exists_value_iff fun _ value => nat64?_eq_some_iff value
  have flag : (∃ raw, values "incomplete_results" members = [raw] ∧ bool? raw = some b)
      ↔ values "incomplete_results" members = [(toString b).toList] := by
    simp only [bool?_eq_some_iff, exists_eq_right]
  rw [ofFields?_eq_some_iff, and_iff_right shape]
  simp only [find?_eq_some_iff, find?_eq_none_iff, total, flag, Counts, and_assoc]

theorem ofFields?_byPlace {items : List (List Char)} {s : List Char} (array : IsArray items s)
    {n : Nat} {b : Bool} :
    ofFields? (.byPlace items) = some ⟨some n, b⟩ ↔ CountsInPlace items n b := by
  have number : ∀ v ∈ items, nat64? v = some n ↔ n < Nat.pow 2 64 ∧ v = (toString n).toList :=
    fun v mem => nat64?_eq_some_iff (array.value mem)
  rw [ofFields?_eq_some_iff, CountsInPlace]
  rcases items with _ | ⟨v, _ | ⟨w, _ | ⟨x, items⟩⟩⟩
  · simp
  · simp [Fields.find?, Fields.fits, number, and_assoc]
  · simp [Fields.find?, Fields.fits, number, bool?_eq_some_iff, and_assoc]
  · simp [Fields.fits]

theorem ofText?_eq_some_iff {body : String} {n : Nat} {b : Bool} :
    ofText? body = some ⟨some n, b⟩ ↔
      (∃ members, IsObject members body.toList ∧ Counts members n b)
        ∨ ∃ items, IsArray items body.toList ∧ CountsInPlace items n b := by
  rw [ofText?, Option.bind_eq_some_iff]
  constructor
  · rintro ⟨fields, read, document⟩
    cases fields with
    | byName members =>
      have object := ofText?_eq_byName_iff.mp read
      exact .inl ⟨members, object, (ofFields?_byName object).mp document⟩
    | byPlace items =>
      have array := ofText?_eq_byPlace_iff.mp read
      exact .inr ⟨items, array, (ofFields?_byPlace array).mp document⟩
  · rintro (⟨members, object, counts⟩ | ⟨items, array, counts⟩)
    · exact ⟨_, ofText?_eq_byName_iff.mpr object, (ofFields?_byName object).mpr counts⟩
    · exact ⟨_, ofText?_eq_byPlace_iff.mpr array, (ofFields?_byPlace array).mpr counts⟩

end Document

/-! ## Judging -/

section Judging

variable {status : Nat} {headers : Http.Headers} {body : String}

theorem judgeBody_eq_counted_iff {n : Nat} {b : Bool} :
    judgeBody body = .counted n b ↔ Document.ofText? body = some ⟨some n, b⟩ := by
  unfold judgeBody
  rcases Document.ofText? body with _ | ⟨_ | m, c⟩ <;> simp

theorem judgeBody_cases (body : String) :
    (∃ n b, judgeBody body = .counted n b) ∨ judgeBody body = .failed .malformed := by
  unfold judgeBody
  rcases Document.ofText? body with _ | ⟨_ | m, c⟩
  · exact .inr rfl
  · exact .inr rfl
  · exact .inl ⟨m, c, rfl⟩

theorem judgeBody_eq_malformed (h : ∀ n b, judgeBody body ≠ .counted n b) :
    judgeBody body = .failed .malformed :=
  (judgeBody_cases body).resolve_left fun ⟨n, b, counted⟩ => h n b counted

theorem judgeBody_ne_failed {r : Reason} (other : r ≠ .malformed) :
    judgeBody body ≠ .failed r := by
  intro failed
  rcases judgeBody_cases body with ⟨n, b, counted⟩ | malformed
  · cases counted.symm.trans failed
  · exact other (Outcome.failed.inj (failed.symm.trans malformed))

theorem isServerError_iff : Http.isServerError status = true ↔ 500 ≤ status ∧ status ≤ 599 := by
  rw [Http.isServerError, decide_eq_true_eq]
  omega

theorem judge_of_limited (limited : Limited status headers) :
    judge status headers body = .failed .rateLimited := by
  rw [judge, if_pos (isLimit_iff.mpr limited)]

theorem judge_of_unlimited (unlimited : ¬ Limited status headers) :
    judge status headers body
      = if 500 ≤ status ∧ status ≤ 599 then .failed .other else judgeBody body := by
  rw [← isLimit_iff] at unlimited
  simp only [judge, if_neg unlimited, isServerError_iff]

theorem judge_eq_rateLimited_iff :
    judge status headers body = .failed .rateLimited ↔ Limited status headers := by
  refine ⟨fun h => ?_, judge_of_limited⟩
  by_contra unlimited
  rw [judge_of_unlimited unlimited] at h
  split at h
  · cases h
  · exact absurd h (judgeBody_ne_failed nofun)

theorem judge_eq_other_iff (unlimited : ¬ Limited status headers) :
    judge status headers body = .failed .other ↔ 500 ≤ status ∧ status ≤ 599 := by
  rw [judge_of_unlimited unlimited]
  split
  · next down => simp [down]
  · next up => exact iff_of_false (judgeBody_ne_failed nofun) up

theorem judge_eq_counted_iff {n : Nat} {b : Bool} :
    judge status headers body = .counted n b ↔ ¬ Limited status headers
      ∧ ¬ (500 ≤ status ∧ status ≤ 599) ∧ judgeBody body = .counted n b := by
  by_cases limited : Limited status headers
  · rw [judge_of_limited limited]
    exact ⟨nofun, fun h => absurd limited h.1⟩
  · rw [judge_of_unlimited limited, and_iff_right limited]
    split
    · next down => exact ⟨nofun, fun h => absurd down h.1⟩
    · next up => rw [and_iff_right up]

theorem lt_of_judgeBody_eq_counted {n : Nat} {b : Bool} (h : judgeBody body = .counted n b) :
    n < Nat.pow 2 64 := by
  rw [judgeBody_eq_counted_iff, Document.ofText?_eq_some_iff] at h
  rcases h with ⟨-, -, fits, -⟩ | ⟨-, -, fits, -⟩
  · exact fits
  · exact fits

/-- The body of an object counts what its members say. -/
theorem judgeBody_object {members : List (String × List Char)}
    (object : IsObject members body.toList) {n : Nat} {b : Bool} :
    judgeBody body = .counted n b ↔ Counts members n b := by
  have read := ofText?_eq_byName_iff.mpr object
  rw [judgeBody_eq_counted_iff, Document.ofText?, read, Option.bind_some,
    Document.ofFields?_byName object]

/-- What an answer is judged to be, where its body is an object or no JSON text at all. -/
theorem judge_exact (status : Nat) (headers : Http.Headers) (body : String) :
    (judge status headers body = .failed .rateLimited ↔ Limited status headers)
    ∧ (¬ Limited status headers →
      (judge status headers body = .failed .other ↔ 500 ≤ status ∧ status ≤ 599))
    ∧ (¬ Limited status headers → ¬ (500 ≤ status ∧ status ≤ 599) →
      (∀ others, ¬ Limited status others →
        judge status others body = judge status headers body)
      ∧ (∀ members, IsObject members body.toList →
        (∀ n b, judge status headers body = .counted n b ↔ Counts members n b)
        ∧ ((∀ n b, ¬ Counts members n b) → judge status headers body = .failed .malformed))
      ∧ (¬ IsJson body.toList → judge status headers body = .failed .malformed)) := by
  refine ⟨judge_eq_rateLimited_iff, judge_eq_other_iff, fun unlimited up => ?_⟩
  have by_body : ∀ others, ¬ Limited status others → judge status others body = judgeBody body := by
    intro others unlimited
    rw [judge_of_unlimited unlimited, if_neg up]
  rw [by_body headers unlimited]
  refine ⟨by_body, fun members object => ⟨fun n b => judgeBody_object object, fun none => ?_⟩,
    fun no_json => ?_⟩
  · exact judgeBody_eq_malformed fun n b counted => none n b ((judgeBody_object object).mp counted)
  · refine judgeBody_eq_malformed fun n b counted => ?_
    rw [judgeBody_eq_counted_iff, Document.ofText?, ofText?_eq_none no_json] at counted
    cases counted

/-- A refusal that does not speak of a limit is judged by its body. The name of the number is written
with an escape, and what stands before it is nested. -/
theorem judge_exact_nested :
    let items := "[\x7b\"total_count\":[1e999,\"\\ud800\"]\x7d, null]"
    let body := "\x7b \"items\":" ++ items ++ ",\n\t\"\\u0074otal_count\" : 18446744073709551615 ,"
      ++ "\"incomplete_results\":true\x7d\n"
    let members := [("items", items.toList),
      ("total_count", "18446744073709551615".toList), ("incomplete_results", "true".toList)]
    let headers : Http.Headers := [⟨"X-RateLimit-Remaining", Text.bytes "00"⟩]
    ¬ Limited 403 headers ∧ IsObject members body.toList
      ∧ judge 403 headers body = .counted 18446744073709551615 true := by
  intro items body members headers
  have unlimited : ¬ Limited 403 headers := by decide +kernel
  have object : IsObject members body.toList := by decide +kernel
  have counts : Counts members 18446744073709551615 true := by decide +kernel
  obtain ⟨-, -, by_body⟩ := judge_exact 403 headers body
  obtain ⟨-, by_members, -⟩ := by_body unlimited (by decide)
  exact ⟨unlimited, object, ((by_members members object).1 _ _).mpr counts⟩

/-! ## Where a count comes from -/

/-- The body is an object with the number in a member, and with a member that says that results are
missing if some are. -/
def HasCount (body : String) (n : Nat) (b : Bool) : Prop :=
  ∃ members, IsObject members body.toList ∧ ("total_count", (toString n).toList) ∈ members
    ∧ (b = true → ("incomplete_results", "true".toList) ∈ members)

theorem Counts.hasCount {members : List (String × List Char)} {n : Nat} {b : Bool}
    (counts : Counts members n b) (object : IsObject members body.toList) : HasCount body n b := by
  obtain ⟨-, total, flag⟩ := counts
  refine ⟨members, object, mem_values.mp (total ▸ List.mem_singleton_self _), ?_⟩
  rintro rfl
  rcases flag with flag | ⟨-, no_flag⟩
  · exact mem_values.mp (flag ▸ List.mem_singleton_self _)
  · cases no_flag

theorem judgeBody_eq_counted {n : Nat} {b : Bool} (h : judgeBody body = .counted n b) :
    HasCount body n b ∨ ∃ items, IsArray items body.toList ∧ CountsInPlace items n b := by
  rw [judgeBody_eq_counted_iff, Document.ofText?_eq_some_iff] at h
  exact h.imp_left fun ⟨members, object, counts⟩ => counts.hasCount object

/-- A number is taken from a member of an object unless the body is an array that counts in place and
the status and the headers leave it to the body. -/
theorem hasCount_of_counted_iff (status : Nat) (headers : Http.Headers) (body : String) :
    (∀ n b, judge status headers body = .counted n b → HasCount body n b)
      ↔ Limited status headers ∨ (500 ≤ status ∧ status ≤ 599)
        ∨ ∀ items, IsArray items body.toList → ∀ n b, ¬ CountsInPlace items n b := by
  constructor
  · intro h
    by_contra undecided
    simp only [not_or, not_forall, not_not] at undecided
    obtain ⟨unlimited, up, items, array, n, b, counts⟩ := undecided
    have read := Document.ofText?_eq_some_iff.mpr (.inr ⟨items, array, counts⟩)
    have counted := judge_eq_counted_iff.mpr ⟨unlimited, up, judgeBody_eq_counted_iff.mpr read⟩
    obtain ⟨members, object, -⟩ := h n b counted
    exact object.not_isArray array
  · intro decided n b counted
    obtain ⟨unlimited, up, counted⟩ := judge_eq_counted_iff.mp counted
    have no_array := (decided.resolve_left unlimited).resolve_left up
    rcases judgeBody_eq_counted counted with member | ⟨items, array, counts⟩
    · exact member
    · exact absurd counts (no_array items array n b)

/-- An array of one number has no member at all. -/
theorem counted_without_member :
    judge 200 [] "[5]" = .counted 5 false ∧ ¬ HasCount "[5]" 5 false := by
  refine ⟨by decide +kernel, ?_⟩
  rintro ⟨members, object, -⟩
  have array : IsArray ["5".toList] "[5]".toList := by decide +kernel
  exact object.not_isArray array

end Judging

end Search
end Census
