import Census.Proofs.Json.Rendering
import Census.Proofs.Json.Values
import Census.Proofs.Terms.Plain

/-!
# Terms in a JSON object

A JSON object lists the names of its members, each once and in the order in which they first stand,
as far as the value that they are given last is an object with a color (`languages`). A text that
begins with a brace and is no such object has no terms, not even as a plain list.

White space in front of the brace is looked past when the kind of a list is told, but it is left in
the text that is read as JSON, and that allows only four characters of it (`ofText_behind_blanks`).
-/

namespace Census
namespace Terms

open Text (isBlank)
open Json (Renders Value isGap skipGap)
open Json.Grammar (Gap)

/-- The names of members that have a color in the value that they are given last. -/
def languages (ms : List (String × Value)) : List Term :=
  (ms.map Prod.fst).eraseDups.filter fun n => (ms.reverse.lookup n).any (Value.hasMember color)

theorem colored_eq_languages (ms : List (String × Value)) : colored ms = languages ms := by
  have names := Json.names_filter_of_nodup (Value.hasMember color) (Json.nodup_names_lastValues ms)
  rw [colored, names, Json.names_lastValues, languages]
  exact List.filter_congr fun n _ => by rw [Json.lookup_lastValues]

/-! ## Texts that begin with a brace -/

section Brace

variable {text : String} {v : Value}

theorem isJson_of_head? {s : List Char} (start : s.head? = some '\x7b') : isJson s = true := by
  obtain ⟨t, rfl⟩ := List.head?_eq_some_iff.mp start
  rw [isJson_cons rfl]
  rfl

theorem ofText_of_value (json : isJson text.toList = true)
    (read : Value.ofText text.toList = .ok v) :
    ofText text = needSome (languages (v.members?.getD [])) := by
  rw [ofText, if_pos json, ofJson, read, ← colored_eq_languages]

theorem ofText_of_fault {f : Json.Fault} (json : isJson text.toList = true)
    (read : Value.ofText text.toList = .error f) : ofText text = .error (.notJson f text) := by
  rw [ofText, if_pos json, ofJson, read]

/-- What is read from a brace on is an object with white space behind it. -/
theorem exists_object_of_read {s : List Char} (start : s.head? = some '\x7b')
    (read : Value.ofText s = .ok v) :
    ∃ ms t h, v = .object ms ∧ Renders Json.Number.Fits Json.mostOpen (.object ms) t ∧ Gap h
      ∧ s = t ++ h := by
  obtain ⟨g, t, h, before, after, renders, rfl⟩ := Json.ofText_eq_ok_iff.mp read
  cases g with
  | cons c g =>
    obtain rfl := Option.some.inj start
    exact absurd (before '\x7b' List.mem_cons_self) (by decide)
  | nil =>
    obtain ⟨c, u, rfl, -, -⟩ := Json.head_of_value renders.derives
    obtain ⟨ms, rfl⟩ := renders.exists_object start
    exact ⟨ms, _, h, rfl, renders, after, rfl⟩

end Brace

/-- Every rendering of an object is read as its languages, and what begins with a brace and is no
rendering of an object is no list of terms. -/
theorem ofText_of_rendering :
    (∀ (ms : List (String × Value)) (t h : List Char),
      Renders Json.Number.Fits 127 (.object ms) t → Gap h →
        ofText (String.ofList (t ++ h))
          = if languages ms = [] then .error .empty else .ok (languages ms)) ∧
    ∀ text : String, text.toList.head? = some '\x7b' →
      (¬ ∃ ms t h, Renders Json.Number.Fits 127 (.object ms) t ∧ Gap h ∧ text.toList = t ++ h) →
        ∃ f, ofText text = .error (.notJson f text) := by
  constructor
  · intro ms t h renders after
    have read : Value.ofText (String.ofList (t ++ h)).toList = .ok (.object ms) := by
      rw [String.toList_ofList]
      exact Json.ofText_eq_ok_iff.mpr ⟨[], t, h, nofun, after, renders, rfl⟩
    have json : isJson (String.ofList (t ++ h)).toList = true := by
      rw [String.toList_ofList]
      refine isJson_of_head? ?_
      rw [List.head?_append, renders.head?_object]
      rfl
    exact ofText_of_value json read
  · intro text start no_object
    cases read : Value.ofText text.toList with
    | error f => exact ⟨f, ofText_of_fault (isJson_of_head? start) read⟩
    | ok v =>
      obtain ⟨ms, t, h, -, renders, after, whole⟩ := exists_object_of_read start read
      exact absurd ⟨ms, t, h, renders, after, whole⟩ no_object

/-- A name that stands twice, once with an escape, and a text that ends too early. -/
theorem ofText_of_repeated_name :
    Renders Json.Number.Fits 127 (.object [("a", .null), ("a", .object [("color", .null)])])
      "\x7b\"a\":null, \"\\u0061\" :\x7b\"color\":null\x7d\x7d".toList ∧
    ofText "\x7b\"a\":null, \"\\u0061\" :\x7b\"color\":null\x7d\x7d\n" = .ok ["a"] ∧
    (¬ ∃ ms t h, Renders Json.Number.Fits 127 (.object ms) t ∧ Gap h ∧ "\x7b".toList = t ++ h) ∧
    ∃ f, ofText "\x7b" = .error (.notJson f "\x7b") := by
  have no_gap : Gap [] := List.forall_mem_nil _
  have value : Renders Json.Number.Fits 126 (.object [("color", .null)]) _ :=
    Json.renders_singleton (Json.spells_self (by decide)) .null
  have first : Json.Grammar.Key ['a'] "\"a\":".toList :=
    ⟨[], [], no_gap, no_gap, (Json.spells_self (by decide)).inside, rfl⟩
  have escaped : Json.Spells "\\u0061".toList ['a'] :=
    .code (n := 0x61) ⟨'0', '0', '6', '1', 0, 0, 6, 1, rfl, by decide, by decide, by decide, by decide,
      rfl⟩ (by decide) .nothing
  have second : Json.Grammar.Key "\\u0061".toList " \"\\u0061\" :".toList :=
    ⟨[' '], [' '], by decide, by decide, escaped.inside, rfl⟩
  have null : Renders Json.Number.Fits 126 .null "null".toList := .null
  have members := Json.Grammar.Derives.members first no_gap null.derives no_gap
    (.member second no_gap value.derives no_gap)
  have renders : Renders Json.Number.Fits 127
      (.object [("a", .null), ("a", .object [("color", .null)])])
      "\x7b\"a\":null, \"\\u0061\" :\x7b\"color\":null\x7d\x7d".toList :=
    Json.renders_object members
      (.cons ⟨Json.spells_self (by decide), null⟩ (.cons ⟨escaped, value⟩ .nil))
  have read := ofText_of_rendering.1 _ _ ['\n'] renders (by decide)
  have refused : ofText "\x7b" = .error (.notJson ⟨.endInObject, 0⟩ "\x7b") := by decide +kernel
  have no_object :
      ¬ ∃ ms t h, Renders Json.Number.Fits 127 (.object ms) t ∧ Gap h ∧ "\x7b".toList = t ++ h := by
    rintro ⟨ms, t, h, renders, after, whole⟩
    have read := ofText_of_rendering.1 ms t h renders after
    rw [← whole, String.ofList_toList, refused] at read
    split at read
    · cases read
    · cases read
  exact ⟨renders, read, no_object, ofText_of_rendering.2 _ rfl no_object⟩

/-- The largest binary fraction is often written like this. What is written is below the bound, but
its digits and its power of ten are rounded before they are multiplied, and the product is not. The
other way round, a number beyond the bound is read when its product is below it. -/
theorem number_refused_below_bound :
    Renders Json.Number.Finite 127
      (.object [("a", .object [("color", .number "1.7976931348623158e308")])])
      "\x7b\"a\":\x7b\"color\":1.7976931348623158e308\x7d\x7d".toList ∧
    languages [("a", .object [("color", .number "1.7976931348623158e308")])] = ["a"] ∧
    ofText "\x7b\"a\":\x7b\"color\":1.7976931348623158e308\x7d\x7d"
      = .error (.notJson ⟨.outOfRange, 2⟩
        "\x7b\"a\":\x7b\"color\":1.7976931348623158e308\x7d\x7d") ∧
    (∃ n, Json.Grammar.Written n "179769313486231581e291".toList ∧ ¬ n.Finite) ∧
    ofText "\x7b\"a\":\x7b\"color\":179769313486231581e291\x7d\x7d" = .ok ["a"] := by
  have below : Json.Grammar.Written
      ⟨false, "1".toList, "7976931348623158".toList, some (false, "308".toList)⟩
      "1.7976931348623158e308".toList :=
    ⟨[], _, _, rfl, .digits (by decide) (by decide), .digits (by decide),
      .raised (.inl rfl) (.inl rfl) (by decide), by decide⟩
  have number : Renders Json.Number.Finite 125 (.number "1.7976931348623158e308") _ :=
    .number below (by decide +kernel)
  have color : Renders Json.Number.Finite 126
      (.object [("color", .number "1.7976931348623158e308")]) _ :=
    Json.renders_singleton (Json.spells_self (by decide)) number
  have language : Renders Json.Number.Finite 127
      (.object [("a", .object [("color", .number "1.7976931348623158e308")])]) _ :=
    Json.renders_singleton (Json.spells_self (by decide)) color
  have beyond : Json.Grammar.Written
      ⟨false, "179769313486231581".toList, [], some (false, "291".toList)⟩
      "179769313486231581e291".toList :=
    ⟨[], _, _, rfl, .digits (by decide) (by decide), .nothing,
      .raised (.inl rfl) (.inl rfl) (by decide), by decide⟩
  exact ⟨language, by decide +kernel, by decide +kernel, ⟨_, beyond, by decide +kernel⟩,
    by decide +kernel⟩

/-! ## White space in front of a brace -/

theorem not_isDigit_of_isBlank {c : Char} (blank : isBlank c = true) : ¬ c.isDigit = true := by
  simp only [isBlank, Text.blankRanges, List.any_cons, List.any_nil, Bool.or_false, Bool.or_eq_true,
    Bool.and_eq_true, decide_eq_true_eq] at blank
  simp only [Char.isDigit, UInt32.le_iff_toNat_le, ge_iff_le, Bool.and_eq_true, decide_eq_true_eq]
  show ¬ (48 ≤ c.toNat ∧ c.toNat ≤ 57)
  omega

/-- No value begins with white space of any kind. -/
theorem readValue_of_isBlank {c : Char} (blank : isBlank c = true) (no_gap : isGap c = false)
    (steps room : Nat) (s : List Char) :
    Json.readValue (steps + 1) room (c :: s) = .error (.within .noValue (c :: s)) := by
  have other : ∀ x, isBlank x = false → c ≠ x := by
    rintro x dark rfl
    rw [blank] at dark
    cases dark
  have no_number : ¬ (c = '-' ∨ c.isDigit = true) :=
    not_or.mpr ⟨other '-' rfl, not_isDigit_of_isBlank blank⟩
  rw [Json.readValue, Json.Grammar.skipGap_cons no_gap]
  simp only [if_neg (other '"' rfl), if_neg (other '[' rfl), if_neg (other '\x7b' rfl),
    if_neg (other 'n' rfl), if_neg (other 't' rfl), if_neg (other 'f' rfl), if_neg no_number]

theorem ofText_append_of_not_gap {w : List Char} (blank : ∀ c ∈ w, isBlank c = true)
    (other : ¬ Gap w) (s : List Char) :
    Value.ofText (w ++ s) = .error (.within .noValue (skipGap w ++ s)) := by
  obtain ⟨g, gap, text⟩ := Json.Grammar.exists_gap w
  obtain ⟨c, u, first⟩ := List.exists_cons_of_ne_nil fun none_left =>
    other (Json.Grammar.skipGap_eq_nil_iff.mp none_left)
  have no_gap : isGap c = false := by
    have := List.head?_dropWhile_not isGap w
    rw [← skipGap, first] at this
    exact this
  have mem : c ∈ w := by
    rw [text, first]
    exact List.mem_append_right _ List.mem_cons_self
  rw [first] at text ⊢
  rw [Value.ofText, text, List.append_assoc, Json.readValue_gap gap, List.cons_append,
    readValue_of_isBlank (blank c mem) no_gap]

/-- An object is read behind the white space that JSON allows, and not behind any other. -/
theorem ofText_behind_blanks {w : List Char} {text : String} {ts : List Term}
    (blank : ∀ c ∈ w, isBlank c = true) (start : text.toList.head? = some '\x7b')
    (accepted : ofText text = .ok ts) :
    (Gap w → ofText (String.ofList w ++ text) = .ok ts) ∧
    (¬ Gap w → ofText (String.ofList w ++ text)
      = .error (.notJson (.within .noValue (skipGap w ++ text.toList)) (String.ofList w ++ text))) := by
  have whole : (String.ofList w ++ text).toList = w ++ text.toList := by
    rw [String.toList_append, String.toList_ofList]
  have json : isJson (String.ofList w ++ text).toList = true := by
    rw [whole, isJson_append blank, isJson_of_head? start]
  constructor
  · intro gap
    cases read : Value.ofText text.toList with
    | error f =>
      rw [ofText_of_fault (isJson_of_head? start) read] at accepted
      cases accepted
    | ok v =>
      obtain ⟨g, t, h, before, after, renders, body⟩ := Json.ofText_eq_ok_iff.mp read
      have read_behind : Value.ofText (String.ofList w ++ text).toList = .ok v := by
        rw [whole, body]
        exact Json.ofText_eq_ok_iff.mpr
          ⟨w ++ g, t, h, gap.append before, after, renders, (List.append_assoc _ _ _).symm⟩
      rw [ofText_of_value json read_behind, ← ofText_of_value (isJson_of_head? start) read, accepted]
  · intro other
    refine ofText_of_fault json ?_
    rw [whole]
    exact ofText_append_of_not_gap blank other _

/-- A line feed in front of an object, and a line separator. -/
theorem ofText_behind_line_feed :
    isBlank '\n' = true ∧ isBlank '\u2028' = true ∧
    ofText "\x7b\"a\":\x7b\"color\":1\x7d\x7d" = .ok ["a"] ∧
    ofText "\n\x7b\"a\":\x7b\"color\":1\x7d\x7d" = .ok ["a"] ∧
    ofText "\u2028\x7b\"a\":\x7b\"color\":1\x7d\x7d" ≠ .ok ["a"] := by
  have accepted : ofText "\x7b\"a\":\x7b\"color\":1\x7d\x7d" = .ok ["a"] := by decide +kernel
  have line_feed : ∀ c ∈ ['\n'], isBlank c = true := List.forall_mem_singleton.mpr rfl
  have separator : ∀ c ∈ ['\u2028'], isBlank c = true := List.forall_mem_singleton.mpr rfl
  refine ⟨rfl, rfl, accepted, (ofText_behind_blanks line_feed rfl accepted).1 (by decide), ?_⟩
  have refused := (ofText_behind_blanks separator rfl accepted).2 (by decide)
  exact fun read => nomatch refused.symm.trans read

/-- A no-break space in front of an object is looked past and then refused. -/
theorem no_break_space_refused :
    isBlank '\u00a0' = true ∧
    ofText "\x7b\"a\":\x7b\"color\":1\x7d\x7d" = .ok ["a"] ∧
    ofText "\u00a0\x7b\"a\":\x7b\"color\":1\x7d\x7d" ≠ .ok ["a"] := by
  decide +kernel

end Terms
end Census
