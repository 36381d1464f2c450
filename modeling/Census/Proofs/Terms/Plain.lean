import Census.Proofs.Text.Blank
import Census.Terms

/-!
# Plain lists of terms

A line of a plain list holds a term, with white space around it, or it is blank or a comment and
holds none (`Line`). The terms of a list are those of its lines in their order (`Lists`), and there is
one way to read them: whatever stands between the line feeds is trimmed and is then a term, nothing,
or a comment (`listed?`).
-/

namespace Census
namespace Terms

open Text (isBlank trimmed trimStart lines)

/-- A term that a line of a plain list can hold. -/
structure Listable (t : Term) : Prop where
  nonempty : t.toList ≠ []
  tight : Text.Tight t.toList
  oneLine : '\n' ∉ t.toList
  noComment : t.toList.head? ≠ some '#'

/-- A line without its end, and the term that it holds. -/
inductive Line : List Char → Option Term → Prop
  | blank {s : List Char} (blank : ∀ c ∈ s, isBlank c = true) : Line s none
  | comment {g s : List Char} (indent : ∀ c ∈ g, isBlank c = true) : Line (g ++ '#' :: s) none
  | term {g h : List Char} {t : Term} (listable : Listable t)
      (around : ∀ c ∈ g ++ h, isBlank c = true) : Line (g ++ t.toList ++ h) (some t)

/-- A text of lines, and the terms that they hold. The last line may have no end. -/
inductive Lists : List Term → List Char → Prop
  | last {s : List Char} {t : Option Term} (line : Line s t) (oneLine : '\n' ∉ s) : Lists t.toList s
  | line {s e rest : List Char} {t : Option Term} {ts : List Term} (line : Line s t)
      (oneLine : '\n' ∉ s) (ends : e = ['\n'] ∨ e = ['\r', '\n']) (more : Lists ts rest) :
      Lists (t.toList ++ ts) (s ++ (e ++ rest))

/-- Terms written one a line. -/
def oneALine (ts : List Term) : List Char := ts.flatMap fun t => t.toList ++ ['\n']

/-! ## Which kind of list -/

theorem isJson_append {g : List Char} (blank : ∀ c ∈ g, isBlank c = true) (s : List Char) :
    isJson (g ++ s) = isJson s := by
  rw [isJson, Text.trimStart_append blank, isJson]

theorem isJson_cons {c : Char} (dark : isBlank c = false) (s : List Char) :
    isJson (c :: s) = decide (c = '\x7b') := by
  rw [isJson, Text.trimStart_cons dark, List.head?_cons]
  simp

theorem not_isJson_of_blank {s : List Char} (blank : ∀ c ∈ s, isBlank c = true) :
    isJson s = false := by
  rw [← List.append_nil s, isJson_append blank]
  rfl

/-! ## Lines -/

/-- The term of a line without its end. -/
def listed? (line : List Char) : Option Term :=
  if isTerm (trimmed line) then some (String.ofList (trimmed line)) else none

theorem isTerm_iff {s : List Char} : isTerm s = true ↔ s ≠ [] ∧ s.head? ≠ some '#' := by
  simp [isTerm]

theorem listed?_of_line {s : List Char} {t : Option Term} (line : Line s t) : listed? s = t := by
  cases line with
  | blank blank =>
    have nothing_left : trimmed s = [] :=
      (Text.trimmed_eq_iff (.of_dark (by simp))).mpr ⟨s, [], by simpa using blank, by simp⟩
    rw [listed?, nothing_left]
    rfl
  | @comment g s indent =>
    -- However the comment ends, it still begins with its sign when it has been trimmed.
    obtain ⟨r, blank, text⟩ := Text.exists_trimEnd ('#' :: s)
    have start : trimStart (g ++ '#' :: s) = '#' :: s := by
      rw [Text.trimStart_append indent, Text.trimStart_cons rfl]
    have sign : (Text.trimEnd ('#' :: s)).head? = some '#' := by
      cases cut : Text.trimEnd ('#' :: s) with
      | nil =>
        rw [cut, List.nil_append] at text
        cases blank '#' (text ▸ List.mem_cons_self)
      | cons c more =>
        rw [cut, List.cons_append] at text
        rw [List.head?_cons, (List.cons.inj text).1]
    have no_term : ¬ isTerm (trimmed (g ++ '#' :: s)) = true := by
      rw [isTerm_iff, trimmed, start]
      exact fun h => h.2 sign
    rw [listed?, if_neg no_term]
  | @term g h t listable around =>
    have word : trimmed (g ++ t.toList ++ h) = t.toList :=
      (Text.trimmed_eq_iff listable.tight).mpr ⟨g, h, around, rfl⟩
    have is_term : isTerm t.toList = true := isTerm_iff.mpr ⟨listable.nonempty, listable.noComment⟩
    rw [listed?, word, if_pos is_term, String.ofList_toList]

theorem mem_of_mem_trimmed {s : List Char} {c : Char} (h : c ∈ trimmed s) : c ∈ s := by
  obtain ⟨l, r, -, text⟩ := (Text.trimmed_eq_iff (Text.tight_trimmed s)).mp rfl
  rw [text]
  exact List.mem_append_left _ (List.mem_append_right _ h)

theorem line_of_not_isTerm {s : List Char} (no_term : ¬ isTerm (trimmed s) = true) :
    Line s none := by
  obtain ⟨l, r, around, text⟩ := (Text.trimmed_eq_iff (Text.tight_trimmed s)).mp rfl
  rw [isTerm_iff, not_and_or, not_not, not_not] at no_term
  rcases no_term with nothing_left | sign
  · rw [nothing_left, List.append_nil] at text
    exact .blank (text ▸ around)
  · obtain ⟨u, comment⟩ := List.head?_eq_some_iff.mp sign
    rw [comment, List.append_assoc, List.cons_append] at text
    rw [text]
    exact .comment (List.forall_mem_append.mp around).1

/-- Every line is blank, a comment or the line of a term. -/
theorem line_listed? {s : List Char} (oneLine : '\n' ∉ s) : Line s (listed? s) := by
  by_cases is_term : isTerm (trimmed s) = true
  · obtain ⟨l, r, around, text⟩ := (Text.trimmed_eq_iff (Text.tight_trimmed s)).mp rfl
    obtain ⟨nonempty, noComment⟩ := isTerm_iff.mp is_term
    have listable : Listable (String.ofList (trimmed s)) := by
      refine ⟨?_, ?_, ?_, ?_⟩ <;> rw [String.toList_ofList]
      · exact nonempty
      · exact Text.tight_trimmed s
      · exact fun mem => oneLine (mem_of_mem_trimmed mem)
      · exact noComment
    have line := Line.term listable around
    rw [String.toList_ofList, ← text] at line
    rwa [listed?, if_pos is_term]
  · rw [listed?, if_neg is_term]
    exact line_of_not_isTerm is_term

theorem line_none_iff {s : List Char} : Line s none ↔ listed? s = none := by
  refine ⟨listed?_of_line, fun h => line_of_not_isTerm fun is_term => ?_⟩
  rw [listed?, if_pos is_term] at h
  cases h

/-- A line that is not blank begins with the sign of a comment or with its term. -/
theorem Line.start {s : List Char} {t : Option Term} (line : Line s t) :
    (t = none ∧ ∀ c ∈ s, isBlank c = true) ∨
      ∃ g c u, s = g ++ c :: u ∧ (∀ b ∈ g, isBlank b = true) ∧ isBlank c = false ∧
        (c = '#' ∨ ∃ term ∈ t, term.toList.head? = some c) := by
  cases line with
  | blank blank => exact .inl ⟨rfl, blank⟩
  | @comment g s indent => exact .inr ⟨g, '#', s, rfl, indent, rfl, .inl rfl⟩
  | @term g h t listable around =>
    right
    obtain ⟨c, word, text⟩ := List.exists_cons_of_ne_nil listable.nonempty
    refine ⟨g, c, word ++ h, ?_, (List.forall_mem_append.mp around).1, ?_, .inr ⟨t, rfl, ?_⟩⟩
    · rw [text, List.append_assoc, List.cons_append]
    · exact listable.tight.first c (by rw [text]; rfl)
    · rw [text, List.head?_cons]

theorem Line.listable {s : List Char} {t : Term} (line : Line s (some t)) : Listable t := by
  cases line with
  | term listable _ => exact listable

/-- Before a line feed stands a line, perhaps with a carriage return at its end. -/
theorem lines_append {s : List Char} (oneLine : '\n' ∉ s) (rest : List Char) :
    ∃ l, lines (s ++ '\n' :: rest) = l :: lines rest ∧ (s = l ∨ s = l ++ ['\r']) := by
  induction s with
  | nil => exact ⟨[], rfl, .inl rfl⟩
  | cons c s ih =>
    rw [List.mem_cons, not_or] at oneLine
    obtain ⟨other, oneLine⟩ := oneLine
    by_cases ending : c = '\r' ∧ s = []
    · obtain ⟨rfl, rfl⟩ := ending
      exact ⟨[], rfl, .inr rfl⟩
    have inside : ∀ more, c = '\r' → s ++ '\n' :: rest = '\n' :: more → False := by
      intro more carriage same
      cases s with
      | nil => exact ending ⟨carriage, rfl⟩
      | cons d s => exact oneLine (by simp [(List.cons.inj same).1])
    obtain ⟨l, first, cut⟩ := ih oneLine
    refine ⟨c :: l, ?_, cut.imp (congrArg _) (congrArg _)⟩
    rw [List.cons_append, Text.lines.eq_4 _ _ (fun lf => other lf.symm) inside, first]

theorem lines_of_not_mem {s : List Char} (oneLine : '\n' ∉ s) :
    lines s = if s = [] then [] else [s] := by
  induction s with
  | nil => rfl
  | cons c s ih =>
    rw [List.mem_cons, not_or] at oneLine
    obtain ⟨other, oneLine⟩ := oneLine
    have inside : ∀ more, c = '\r' → s = '\n' :: more → False := by
      rintro more - rfl
      exact oneLine List.mem_cons_self
    rw [Text.lines.eq_4 _ _ (fun lf => other lf.symm) inside, ih oneLine,
      if_neg (List.cons_ne_nil c s)]
    cases s with
    | nil => rfl
    | cons d s => rfl

/-! ## Texts -/

theorem plain_eq_filterMap (text : List Char) : plain text = (lines text).filterMap listed? := by
  rw [plain]
  induction lines text with
  | nil => rfl
  | cons l ls ih =>
    rw [List.filterMap_cons, ← ih, listed?]
    by_cases is_term : isTerm (trimmed l) = true
    · simp [is_term]
    · simp [is_term]

theorem plain_of_not_mem {s : List Char} (oneLine : '\n' ∉ s) : plain s = (listed? s).toList := by
  rw [plain_eq_filterMap, lines_of_not_mem oneLine]
  split
  · next empty =>
    subst empty
    rfl
  · cases h : listed? s with
    | none => simp [h]
    | some t => simp [h]

/-- A carriage return at the end of a line is white space. -/
theorem listed?_carriage (s : List Char) : listed? (s ++ ['\r']) = listed? s := by
  have blank : ∀ c ∈ ['\r'], isBlank c = true := List.forall_mem_singleton.mpr rfl
  rw [listed?, Text.trimmed_append s blank, listed?]

theorem plain_append {s : List Char} (oneLine : '\n' ∉ s) (rest : List Char) :
    plain (s ++ '\n' :: rest) = (listed? s).toList ++ plain rest := by
  obtain ⟨l, first, cut⟩ := lines_append oneLine rest
  have same : listed? s = listed? l := by
    rcases cut with rfl | rfl
    · rfl
    · exact listed?_carriage l
  rw [plain_eq_filterMap, plain_eq_filterMap, first, List.filterMap_cons, same]
  cases listed? l <;> rfl

theorem plain_of_lists {ts : List Term} {text : List Char} (h : Lists ts text) :
    plain text = ts := by
  induction h with
  | last line oneLine => rw [plain_of_not_mem oneLine, listed?_of_line line]
  | @line s e rest t ts line oneLine ends more ih =>
    rcases ends with rfl | rfl
    · rw [List.singleton_append, plain_append oneLine, listed?_of_line line, ih]
    · have carriage : '\n' ∉ s ++ ['\r'] := by simp [oneLine]
      have text : s ++ (['\r', '\n'] ++ rest) = s ++ ['\r'] ++ '\n' :: rest := by simp
      rw [text, plain_append carriage, listed?_carriage, listed?_of_line line, ih]

theorem lists_plain (text : List Char) : Lists (plain text) text := by
  induction size : text.length using Nat.strongRecOn generalizing text with
  | ind _ ih =>
    subst size
    by_cases more : '\n' ∈ text
    · obtain ⟨s, rest, rfl, oneLine⟩ := List.eq_append_cons_of_mem more
      rw [plain_append oneLine]
      exact .line (line_listed? oneLine) oneLine (.inl rfl) (ih _ (by simp; omega) rest rfl)
    · rw [plain_of_not_mem more]
      exact .last (line_listed? more) more

theorem Lists.listable {ts : List Term} {text : List Char} (h : Lists ts text) :
    ∀ t ∈ ts, Listable t := by
  induction h with
  | last line _ =>
    intro t mem
    rw [Option.mem_toList] at mem
    exact (Option.mem_def.mp mem ▸ line).listable
  | line line _ _ _ ih =>
    refine List.forall_mem_append.mpr ⟨fun t mem => ?_, ih⟩
    rw [Option.mem_toList] at mem
    exact (Option.mem_def.mp mem ▸ line).listable

theorem lists_oneALine {ts : List Term} (listable : ∀ t ∈ ts, Listable t) :
    Lists ts (oneALine ts) := by
  induction ts with
  | nil => exact .last (.blank (List.forall_mem_nil _)) List.not_mem_nil
  | cons t ts ih =>
    obtain ⟨one, others⟩ := List.forall_mem_cons.mp listable
    have line := Line.term (g := []) (h := []) one (by simp)
    rw [List.nil_append, List.append_nil] at line
    rw [oneALine, List.flatMap_cons, List.append_assoc]
    exact .line line one.oneLine (.inl rfl) (ih others)

/-- What stands in front of the first term does not make a list look like JSON. -/
theorem not_isJson_of_lists {ts : List Term} {text : List Char} (h : Lists ts text)
    (first : ∀ t ∈ ts.head?, t.toList.head? ≠ some '\x7b') : isJson text = false := by
  induction h with
  | @last s t line _ =>
    rcases line.start with ⟨-, blank⟩ | ⟨g, c, u, rfl, indent, dark, start⟩
    · exact not_isJson_of_blank blank
    · rw [isJson_append indent, isJson_cons dark, decide_eq_false_iff_not]
      rintro rfl
      rcases start with sign | ⟨t, rfl, head⟩
      · cases sign
      · exact first t rfl head
  | @line s e rest t ts line _ ends _ ih =>
    rcases line.start with ⟨rfl, blank⟩ | ⟨g, c, u, rfl, indent, dark, start⟩
    · have ending : ∀ c ∈ e, isBlank c = true := by
        rcases ends with rfl | rfl
        · exact List.forall_mem_singleton.mpr rfl
        · exact List.forall_mem_cons.mpr ⟨rfl, List.forall_mem_singleton.mpr rfl⟩
      rw [isJson_append blank, isJson_append ending]
      exact ih first
    · rw [List.append_assoc, List.cons_append, isJson_append indent, isJson_cons dark,
        decide_eq_false_iff_not]
      rintro rfl
      rcases start with sign | ⟨t, rfl, head⟩
      · cases sign
      · exact first t rfl head

theorem plain_eq_nil_iff (text : List Char) :
    plain text = [] ↔ ∀ line ∈ text.splitOn '\n', Line line none := by
  induction size : text.length using Nat.strongRecOn generalizing text with
  | ind _ ih =>
    subst size
    by_cases more : '\n' ∈ text
    · obtain ⟨s, rest, rfl, oneLine⟩ := List.eq_append_cons_of_mem more
      rw [plain_append oneLine, List.append_eq_nil_iff, Option.toList_eq_nil_iff,
        List.splitOn_append_cons_self_of_not_mem oneLine, List.forall_mem_cons, line_none_iff,
        ih _ (by simp; omega) rest rfl]
    · rw [plain_of_not_mem more, Option.toList_eq_nil_iff, List.splitOn_eq_singleton more,
        List.forall_mem_singleton, line_none_iff]

theorem ofText_of_not_isJson {text : String} (h : isJson text.toList = false) :
    ofText text = needSome (plain text.toList) := by
  rw [ofText, h]
  rfl

theorem needSome_eq_ok {ts : List Term} (some_term : ts ≠ []) : needSome ts = .ok ts :=
  if_neg some_term

theorem needSome_eq_empty_iff {ts : List Term} : needSome ts = .error .empty ↔ ts = [] := by
  rw [needSome]
  split
  · next none_left => simp [none_left]
  · next some_term => simp [some_term]

/-- Terms that are listed, however the list is laid out, are read in their order, and from a plain
list nothing else is read. -/
theorem ofText_of_plain_list :
    (∀ ts : List Term, ts ≠ [] → (∀ t ∈ ts, Listable t) →
      (∀ t ∈ ts.head?, t.toList.head? ≠ some '\x7b') →
        ofText (String.ofList (oneALine ts)) = .ok ts ∧
        ∀ text : String, Lists ts text.toList → ofText text = .ok ts) ∧
    ∀ text : String, (trimStart text.toList).head? ≠ some '\x7b' →
      ((∃ ts, ofText text = .ok ts ∧ ts ≠ [] ∧ (∀ t ∈ ts, Listable t) ∧ Lists ts text.toList) ∨
        ofText text = .error .empty) ∧
      (ofText text = .error .empty ↔ ∀ line ∈ text.toList.splitOn '\n', Line line none) := by
  constructor
  · intro ts some_term listable first
    have reads : ∀ text : String, Lists ts text.toList → ofText text = .ok ts := by
      intro text lists
      rw [ofText_of_not_isJson (not_isJson_of_lists lists first), plain_of_lists lists,
        needSome_eq_ok some_term]
    refine ⟨reads _ ?_, reads⟩
    rw [String.toList_ofList]
    exact lists_oneALine listable
  · intro text start
    have not_json : isJson text.toList = false := decide_eq_false start
    rw [ofText_of_not_isJson not_json, needSome_eq_empty_iff, plain_eq_nil_iff]
    refine ⟨?_, Iff.rfl⟩
    by_cases no_term : plain text.toList = []
    · exact .inr ((plain_eq_nil_iff _).mp no_term)
    · have lists := lists_plain text.toList
      exact .inl ⟨_, needSome_eq_ok no_term, no_term, lists.listable, lists⟩

/-- A list with a comment, an empty line, indentation and both ends of lines, and one of comments. -/
theorem ofText_of_decorated_list :
    Lists ["C#", "Rust", "Rust"] " # names\r\n  C#\t\r\n\nRust\n\x0bRust".toList ∧
    ofText " # names\r\n  C#\t\r\n\nRust\n\x0bRust" = .ok ["C#", "Rust", "Rust"] ∧
    (trimStart "# \x7b\n \r\n".toList).head? ≠ some '\x7b' ∧
    ofText "# \x7b\n \r\n" = .error .empty := by
  have terms : plain " # names\r\n  C#\t\r\n\nRust\n\x0bRust".toList = ["C#", "Rust", "Rust"] := by
    decide +kernel
  have lists := lists_plain " # names\r\n  C#\t\r\n\nRust\n\x0bRust".toList
  rw [terms] at lists
  have reads := ofText_of_plain_list.1 _ (List.cons_ne_nil _ _) lists.listable (by decide)
  have comment : (trimStart "# \x7b\n \r\n".toList).head? ≠ some '\x7b' := by decide +kernel
  have none_left : plain "# \x7b\n \r\n".toList = [] := by decide +kernel
  exact ⟨lists, reads.2 _ lists, comment,
    (ofText_of_plain_list.2 _ comment).2.mpr ((plain_eq_nil_iff _).mp none_left)⟩

end Terms
end Census
