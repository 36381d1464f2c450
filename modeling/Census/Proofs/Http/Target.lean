import Census.Proofs.Http.Query
import Mathlib.Data.List.DropRight

/-!
# What a request names

A request names the path and the query of its address in one text. No path has a question mark, since
it would be a percent code there, so the first question mark of that text is where the query begins and
the service knows the address that was meant (`named_target`).

Whether an address has a query can be seen from its text: a question mark opens one unless a number sign
stands in front of it. Reading an address takes blanks out of the text and a scheme and an authority off
it, which have neither of these characters in them, so nothing of that is lost on the way
(`query_eq_none_of_bare`).
-/

namespace Census
namespace Http
namespace Url

variable {c : Char} {s front rest : List Char} {u : Url}

/-! ## Texts without a query -/

/-- No question mark opens a query: each has a number sign in front of it. -/
def Bare (s : List Char) : Prop := ∀ before after, s = before ++ '?' :: after → '#' ∈ before

theorem bare_of_not_mem (h : '?' ∉ s) : Bare s := by
  rintro before after rfl
  exact absurd (List.mem_append_right _ List.mem_cons_self) h

theorem Bare.not_mem (h : Bare s) (no_sign : '#' ∉ s) : '?' ∉ s := by
  intro mem
  obtain ⟨before, after, rfl⟩ := List.append_of_mem mem
  exact no_sign (List.mem_append_left _ (h before after rfl))

theorem Bare.of_append (h : Bare (front ++ rest)) : Bare front := by
  rintro before after rfl
  exact h before (after ++ rest) (by rw [List.append_assoc, List.cons_append])

theorem Bare.behind (h : Bare (front ++ rest)) (no_sign : '#' ∉ front) : Bare rest := by
  rintro before after rfl
  have sign := h (front ++ before) after (List.append_assoc _ _ _).symm
  exact (List.mem_append.mp sign).resolve_left no_sign

theorem Bare.append (h : Bare front) (no_mark : '?' ∉ rest) : Bare (front ++ rest) := by
  intro before after text
  rcases List.append_eq_append_iff.mp text with ⟨more, -, split⟩ | ⟨more, split, tail⟩
  · exact absurd (split ▸ List.mem_append_right _ List.mem_cons_self) no_mark
  · cases more with
    | nil =>
      obtain rfl : '?' :: after = rest := tail
      exact absurd List.mem_cons_self no_mark
    | cons d more =>
      obtain ⟨rfl, -⟩ := List.cons.inj tail
      exact h before more split

theorem Bare.filter {p : Char → Bool} (h : Bare s) (kept : p '#' = true) : Bare (s.filter p) := by
  intro before after text
  obtain ⟨first, second, rfl, here, there⟩ := List.filter_eq_append_iff.mp text
  obtain ⟨gone, later, rfl, none_kept, -, -⟩ := List.filter_eq_cons_iff.mp there
  have sign := h (first ++ gone) later (List.append_assoc _ _ _).symm
  rw [← here]
  rcases List.mem_append.mp sign with mem | mem
  · exact List.mem_filter.mpr ⟨mem, kept⟩
  · exact absurd kept (none_kept '#' mem)

theorem not_mem_takeWhile {p : Char → Bool} (h : p c = false) : c ∉ s.takeWhile p := by
  intro mem
  rw [List.mem_takeWhile_imp mem] at h
  cases h

theorem Bare.dropWhile {p : Char → Bool} (h : Bare s) (stops : p '#' = false) :
    Bare (s.dropWhile p) := by
  rw [← List.takeWhile_append_dropWhile (p := p) (l := s)] at h
  exact h.behind (not_mem_takeWhile stops)

theorem Bare.rdropWhile (p : Char → Bool) (h : Bare s) : Bare (s.rdropWhile p) := by
  obtain ⟨rest, text⟩ := List.rdropWhile_prefix p (l := s)
  rw [← text] at h
  exact h.of_append

theorem Bare.cleaned (h : Bare s) : Bare (cleaned s) := by
  have start : Bare (s.dropWhile fun c => c.toNat ≤ 0x20) := h.dropWhile (by decide)
  exact (start.rdropWhile _).filter (by decide)

/-! ## Reading an address -/

/-- The first part of a cut text has none of the characters at which it could have been cut. -/
theorem cut_eq {p : Char → Bool} (parts : cut p s = (front, rest)) :
    s = front ++ rest ∧ ∀ c ∈ front, p c = false := by
  obtain ⟨rfl, rfl⟩ := Prod.mk.inj parts
  refine ⟨List.takeWhile_append_dropWhile.symm, fun c hc => ?_⟩
  have passed := List.mem_takeWhile_imp hc
  rwa [Bool.not_eq_true'] at passed

/-- A scheme and its colon have no number sign. -/
theorem scheme?_eq_some {name : List Char} (h : scheme? s = some (name, rest)) :
    ∃ front, s = front ++ rest ∧ '#' ∉ front := by
  unfold scheme? at h
  split at h
  case h_2 => cases h
  next c tail behind parts =>
  split at h
  case isFalse => cases h
  next letters =>
  obtain ⟨first, others⟩ := letters
  obtain ⟨-, rfl⟩ := Prod.mk.inj (Option.some.inj h)
  obtain ⟨whole, -⟩ := cut_eq parts
  refine ⟨c :: tail ++ [':'], ?_, ?_⟩
  · rw [whole, List.append_assoc]
    rfl
  · intro sign
    rcases List.mem_append.mp sign with mem | mem
    · rcases List.mem_cons.mp mem with rfl | mem
      · exact absurd first (by decide)
      · exact absurd (List.all_eq_true.mp others '#' mem) (by decide)
    · exact absurd (List.mem_singleton.mp mem) (by decide)

/-- Behind the authority, a slash at most is in front of the path. -/
theorem ofRest?_eq_some {secure : Bool} (h : ofRest? secure s = some u) :
    ∃ front rest, s = front ++ rest ∧ '#' ∉ front ∧ (u.path, u.query) = pathAndQuery [] rest := by
  have slashes : '#' ∉ s.takeWhile isSlash := not_mem_takeWhile (by decide)
  unfold ofRest? at h
  -- The authority ends at the first slash, question mark or number sign.
  cases parts : cut (fun c => isSlash c || c = '?' || c = '#') (s.dropWhile isSlash) with
  | mk authority rest =>
  simp only [parts] at h
  obtain ⟨behind, name⟩ := cut_eq parts
  have no_sign : '#' ∉ authority := fun sign => absurd (name '#' sign) (by decide)
  obtain ⟨gap, tail, rfl, none_there, read⟩ : ∃ gap tail, rest = gap ++ tail ∧ '#' ∉ gap
      ∧ (u.path, u.query) = pathAndQuery [] tail := by
    split at h
    case h_1 => cases h
    cases rest with
    | nil =>
      cases h
      exact ⟨[], [], rfl, List.not_mem_nil, rfl⟩
    | cons c more =>
      by_cases slash : isSlash c = true
      · simp only [if_pos slash] at h
        cases h
        refine ⟨[c], more, rfl, fun sign => ?_, rfl⟩
        rw [← List.mem_singleton.mp sign] at slash
        exact absurd slash (by decide)
      · simp only [if_neg slash] at h
        cases h
        exact ⟨[], c :: more, rfl, List.not_mem_nil, rfl⟩
  refine ⟨s.takeWhile isSlash ++ (authority ++ gap), tail, ?_, ?_, read⟩
  · rw [List.append_assoc, List.append_assoc, ← behind, List.takeWhile_append_dropWhile]
  · rw [List.mem_append, List.mem_append]
    exact not_or.mpr ⟨slashes, not_or.mpr ⟨no_sign, none_there⟩⟩

theorem ofText?_eq_some {text : String} (h : ofText? text = some u) :
    ∃ front rest, cleaned text.toList = front ++ rest ∧ '#' ∉ front
      ∧ (u.path, u.query) = pathAndQuery [] rest := by
  unfold ofText? at h
  have read : ∃ name tail secure, scheme? (cleaned text.toList) = some (name, tail)
      ∧ ofRest? secure tail = some u := by
    split at h
    · next tail scheme => exact ⟨_, tail, false, scheme, h⟩
    · next tail scheme => exact ⟨_, tail, true, scheme, h⟩
    · cases h
  obtain ⟨name, tail, secure, scheme, behind⟩ := read
  obtain ⟨front, whole, no_sign⟩ := scheme?_eq_some scheme
  obtain ⟨gap, rest, rfl, none_there, path⟩ := ofRest?_eq_some behind
  refine ⟨front ++ gap, rest, ?_, ?_, path⟩
  · rw [whole, List.append_assoc]
  · rw [List.mem_append]
    exact not_or.mpr ⟨no_sign, none_there⟩

theorem pathAndQuery_of_bare (h : Bare s) (before : List (List Char)) :
    (pathAndQuery before s).2 = none := by
  cases parts : cut (· = '#') s with
  | mk front rest =>
  obtain ⟨rfl, ends⟩ := cut_eq parts
  have no_sign : '#' ∉ front := fun sign => absurd (ends '#' sign) (by decide)
  simp only [pathAndQuery, parts, cut_of_not_mem (h.of_append.not_mem no_sign)]

/-- An address has no query when no question mark opens one in its text. -/
theorem query_eq_none_of_bare {text : String} (bare : Bare text.toList)
    (h : ofText? text = some u) : u.query = none := by
  obtain ⟨front, rest, whole, no_sign, read⟩ := ofText?_eq_some h
  have cleaned := bare.cleaned
  rw [whole] at cleaned
  have query : u.query = (pathAndQuery [] rest).2 := congrArg Prod.snd read
  rw [query, pathAndQuery_of_bare (cleaned.behind no_sign)]

/-! ## Paths have no question mark -/

theorem mark_not_mem_percentCode (b : UInt8) : '?' ∉ percentCode b := by
  have size := b.toNat_lt
  rw [percentCode, List.mem_cons, List.mem_cons, List.mem_singleton]
  rintro (sign | high | low)
  · cases sign
  · exact Text.Form.hexDigit_ne rfl ⟨b.toNat / 16, by omega⟩ high.symm
  · exact Text.Form.hexDigit_ne rfl ⟨b.toNat % 16, by omega⟩ low.symm

theorem mark_not_mem_escaped (s : List Char) : '?' ∉ escaped escapedInPath s := by
  intro mem
  obtain ⟨c, -, written⟩ := List.mem_flatMap.mp mem
  split at written
  · obtain ⟨b, -, code⟩ := List.mem_flatMap.mp written
    exact mark_not_mem_percentCode b code
  · next plain =>
    rw [← List.mem_singleton.mp written] at plain
    exact plain (by decide)

theorem mark_not_mem_concat {done : List (List Char)} {part : List Char} (h : ∀ p ∈ done, '?' ∉ p)
    (last : '?' ∉ part) : ∀ p ∈ done ++ [part], '?' ∉ p :=
  List.forall_mem_append.mpr ⟨h, List.forall_mem_singleton.mpr last⟩

theorem mark_not_mem_segments {done parts : List (List Char)} (h : ∀ p ∈ done, '?' ∉ p) :
    ∀ p ∈ segments done parts, '?' ∉ p := by
  have fewer : ∀ {done : List (List Char)}, (∀ p ∈ done, '?' ∉ p) → ∀ p ∈ done.dropLast, '?' ∉ p :=
    fun h p hp => h p (List.dropLast_subset _ hp)
  -- A segment that joins those before it has been escaped; one of dots only takes away from them.
  fun_induction segments done parts with
  | case1 done => exact h
  | case2 done part double => exact mark_not_mem_concat (fewer h) List.not_mem_nil
  | case3 done part _ single => exact mark_not_mem_concat h List.not_mem_nil
  | case4 done part _ _ => exact mark_not_mem_concat h (mark_not_mem_escaped part)
  | case5 done part more _ double ih => exact ih (fewer h)
  | case6 done part more _ _ single ih => exact ih h
  | case7 done part more _ _ _ ih => exact ih (mark_not_mem_concat h (mark_not_mem_escaped part))

theorem mark_not_mem_pathText (s : List Char) : '?' ∉ (pathText [] s).toList := by
  intro mem
  rw [pathText, String.toList_ofList] at mem
  obtain ⟨part, part_mem, here⟩ := List.mem_flatMap.mp mem
  rcases List.mem_cons.mp here with slash | inside
  · cases slash
  · exact mark_not_mem_segments (List.forall_mem_nil _) part part_mem inside

theorem path_pathAndQuery (before : List (List Char)) (s : List Char) :
    ∃ rest, (pathAndQuery before s).1 = pathText before rest := by
  simp only [pathAndQuery]
  split
  · exact ⟨_, rfl⟩
  · exact ⟨_, rfl⟩

/-- The path of an address that was read has no question mark. -/
theorem mark_not_mem_path {text : String} (h : ofText? text = some u) : '?' ∉ u.path.toList := by
  obtain ⟨front, rest, -, -, read⟩ := ofText?_eq_some h
  obtain ⟨tail, path⟩ := path_pathAndQuery [] rest
  have same : u.path = (pathAndQuery [] rest).1 := congrArg Prod.fst read
  rw [same, path]
  exact mark_not_mem_pathText tail

/-! ## What a service reads -/

/-- The address that a request for a target at a service names: the query is what stands behind the
first question mark. -/
def named (service : Url) (target : String) : Url :=
  match cut (· = '?') target.toList with
  | (path, []) => { service with path := String.ofList path, query := none }
  | (path, _ :: query) =>
    { service with path := String.ofList path, query := some (String.ofList query) }

/-- An address is what a request for its target names at the same service. -/
theorem named_target (plain : '?' ∉ u.path.toList) (query : Option String) :
    u.named ({ u with query } : Url).target = { u with query } := by
  cases query with
  | none =>
    have text : ({ u with query := none } : Url).target.toList = u.path.toList := by
      rw [target, String.append_empty]
    rw [named, text, cut_of_not_mem plain]
    simp only [String.ofList_toList]
  | some q =>
    have text : ({ u with query := some q } : Url).target.toList
        = u.path.toList ++ '?' :: q.toList := by
      rw [target, String.toList_append, String.toList_append]
      rfl
    rw [named, text, cut_append plain]
    simp only [String.ofList_toList]

/-- A service reads the added parameter from the target as it was meant. -/
theorem parameter?_named_target {name value : String} (plain : '?' ∉ u.path.toList)
    (bare : u.query = none) :
    (u.named (u.withParameter name value).target).parameter? name = some value := by
  have same : u.named (u.withParameter name value).target = u.withParameter name value :=
    named_target plain _
  rw [same, parameter?_withParameter bare]

end Url
end Http
end Census
