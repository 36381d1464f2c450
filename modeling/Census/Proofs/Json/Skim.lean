import Census.Proofs.Json.Lexeme

/-!
# What is passed over is a value

A reader that passes over a value accepts just what the grammar calls one, wherever it stops: what
it passes over is a value (`Passes`), and a value is passed over to its last character, provided that
what follows cannot belong to it (`skimmed_of_derives`). The first is an induction on the steps of
the reader, the second one on how the value is put together. So the raw text that is kept of a value
is that value (`rawValue?_eq_some`, `rawValue?_append`).
-/

namespace Census
namespace Json

open Grammar

/-! ## Values -/

theorem skimWord_eq_some_iff {word s rest : List Char} :
    skimWord word s = some rest ↔ s = word ++ rest := by
  induction word generalizing s with
  | nil =>
    rw [skimWord, List.nil_append, Option.some.injEq]
  | cons w word ih =>
    cases s with
    | nil => simp [skimWord]
    | cons c s =>
      rw [skimWord, List.cons_append, List.cons.injEq]
      by_cases same : c = w
      · rw [if_pos same, ih]
        exact ⟨fun h => ⟨same, h⟩, And.right⟩
      · rw [if_neg same]
        exact ⟨nofun, fun h => absurd h.1 same⟩

theorem head_of_value {v : List Char} (value : Derives .value v) :
    ∃ c s, v = c :: s ∧ isGap c = false ∧ c ≠ ']' := by
  cases value with
  | word word =>
    simp only [List.mem_cons, List.not_mem_nil, or_false] at word
    rcases word with rfl | rfl | rfl <;> exact ⟨_, _, rfl, rfl, by decide⟩
  | number number =>
    obtain ⟨c, t, rfl, rfl | digit⟩ := head_of_number number
    · exact ⟨'-', t, rfl, rfl, by decide⟩
    · exact ⟨c, t, rfl, isGap_of_isDigit digit, ne_of_isDigit digit rfl⟩
  | string => exact ⟨_, _, rfl, rfl, by decide⟩
  | array => exact ⟨_, _, rfl, rfl, by decide⟩
  | object => exact ⟨_, _, rfl, rfl, by decide⟩

theorem skipGap_value {g v : List Char} (gap : Gap g) (value : Derives .value v) (s : List Char) :
    skipGap (g ++ (v ++ s)) = v ++ s := by
  obtain ⟨c, t, rfl, no_gap, -⟩ := head_of_value value
  rw [skipGap_append gap, List.cons_append, skipGap_cons no_gap]

theorem exists_key_of_skimName {s rest : List Char} (h : skimName s = some rest) :
    ∃ name t, (∀ g, Gap g → Key name (g ++ '"' :: t)) ∧ s = t ++ rest := by
  unfold skimName at h
  obtain ⟨more, string, colon⟩ := Option.bind_eq_some_iff.mp h
  obtain ⟨name, inside, rfl⟩ := exists_inside_of_skimString string
  split at colon
  · next behind first =>
    obtain rfl := Option.some.inj colon
    obtain ⟨g, gap, text⟩ := exists_gap more
    rw [first] at text
    refine ⟨name, name ++ '"' :: (g ++ [':']), fun g' gap' => ?_, by simp [text]⟩
    exact ⟨g', g, gap', gap, inside, rfl⟩
  · cases colon

/-- What is left of an array behind one of its items. -/
def ItemsBehind (s rest : List Char) : Prop :=
  ∃ h, Gap h ∧ (s = h ++ ']' :: rest
    ∨ ∃ w vs t, Derives (.items (w :: vs)) t ∧ s = h ++ ',' :: (t ++ ']' :: rest))

/-- What is left of an object behind one of its members. -/
def MembersBehind (s rest : List Char) : Prop :=
  ∃ h, Gap h ∧ (s = h ++ '\x7d' :: rest
    ∨ ∃ m ms t, Derives (.members (m :: ms)) t ∧ s = h ++ ',' :: (t ++ '\x7d' :: rest))

theorem ItemsBehind.cons {g v s rest : List Char} (behind : ItemsBehind s rest) (gap : Gap g)
    (value : Derives .value v) :
    ∃ vs t, Derives (.items (v :: vs)) t ∧ g ++ (v ++ s) = t ++ ']' :: rest := by
  obtain ⟨h, after, rfl | ⟨w, vs, t, items, rfl⟩⟩ := behind
  · exact ⟨[], _, .item gap value after, by simp⟩
  · exact ⟨w :: vs, _, .items gap value after items, by simp⟩

theorem MembersBehind.cons {n g v s rest : List Char} (behind : MembersBehind s rest)
    (gap : Gap g) (value : Derives .value v) :
    ∃ ms t, (∀ k, Key n k → Derives (.members ((n, v) :: ms)) (k ++ t))
      ∧ g ++ (v ++ s) = t ++ '\x7d' :: rest := by
  obtain ⟨h, after, rfl | ⟨m, ms, t, members, rfl⟩⟩ := behind
  · exact ⟨[], _, fun k key => .member key gap value after, by simp⟩
  · exact ⟨m :: ms, _, fun k key => .members key gap value after members, by simp⟩

/-- What is passed over in a number of steps is what the grammar calls it. -/
structure Passes (steps : Nat) : Prop where
  value : ∀ {s rest}, skimValue steps s = some rest →
    ∃ g v, Gap g ∧ Derives .value v ∧ s = g ++ (v ++ rest)
  firstItem : ∀ {s rest}, skimFirstItem steps s = some rest →
    ∃ vs t, Derives (.items vs) t ∧ s = t ++ ']' :: rest
  items : ∀ {s rest}, skimItems steps s = some rest → ItemsBehind s rest
  firstMember : ∀ {s rest}, skimFirstMember steps s = some rest →
    ∃ ms t, Derives (.members ms) t ∧ s = t ++ '\x7d' :: rest
  members : ∀ {s rest}, skimMembers steps s = some rest → MembersBehind s rest
  member : ∀ {s rest}, skimMember steps s = some rest →
    ∃ m ms t, (∀ g, Gap g → Derives (.members (m :: ms)) (g ++ '"' :: t)) ∧ s = t ++ '\x7d' :: rest

theorem value_of_skimValue {steps : Nat} (ih : Passes steps) {s rest : List Char}
    (h : skimValue (steps + 1) s = some rest) :
    ∃ g v, Gap g ∧ Derives .value v ∧ s = g ++ (v ++ rest) := by
  obtain ⟨g, gap, text⟩ := exists_gap s
  unfold skimValue at h
  split at h
  · cases h
  next c more first =>
  rw [first] at text
  suffices value : ∃ v, Derives .value v ∧ c :: more = v ++ rest by
    obtain ⟨v, value, same⟩ := value
    exact ⟨g, v, gap, value, by rw [text, same]⟩
  clear first text
  split at h
  · next quote =>
    obtain ⟨t, inside, rfl⟩ := exists_inside_of_skimString h
    exact ⟨_, .string inside, by simp [quote]⟩
  split at h
  · next bracket =>
    obtain ⟨vs, t, items, rfl⟩ := ih.firstItem h
    exact ⟨_, .array items, by simp [bracket]⟩
  split at h
  · next brace =>
    obtain ⟨ms, t, members, rfl⟩ := ih.firstMember h
    exact ⟨_, .object members, by simp [brace]⟩
  split at h
  · next letter =>
    obtain rfl := skimWord_eq_some_iff.mp h
    exact ⟨"null".toList, .word (by simp), by rw [letter]; rfl⟩
  split at h
  · next letter =>
    obtain rfl := skimWord_eq_some_iff.mp h
    exact ⟨"true".toList, .word (by simp), by rw [letter]; rfl⟩
  split at h
  · next letter =>
    obtain rfl := skimWord_eq_some_iff.mp h
    exact ⟨"false".toList, .word (by simp), by rw [letter]; rfl⟩
  split at h
  · cases read : Number.scan (c :: more) with
    | error f =>
      rw [read] at h
      cases h
    | ok x =>
      rw [read] at h
      obtain rfl := Option.some.inj h
      obtain ⟨t, written, same⟩ := scan_eq_ok read
      exact ⟨t, .number written.number, same⟩
  · cases h

theorem firstItem_of_skim {steps : Nat} (ih : Passes steps) {s rest : List Char}
    (h : skimFirstItem (steps + 1) s = some rest) :
    ∃ vs t, Derives (.items vs) t ∧ s = t ++ ']' :: rest := by
  obtain ⟨g, gap, text⟩ := exists_gap s
  unfold skimFirstItem at h
  split at h
  · cases h
  next c more first =>
  rw [first] at text
  split at h
  · next close =>
    obtain rfl := Option.some.inj h
    exact ⟨[], g, .noItem gap, by rw [text, close]⟩
  · split at h
    · cases h
    next others value =>
    obtain ⟨g', v, gap', value, same⟩ := ih.value value
    obtain ⟨vs, t, items, whole⟩ := (ih.items h).cons (gap.append gap') value
    exact ⟨v :: vs, t, items, by rw [text, same, ← whole, List.append_assoc]⟩

theorem items_of_skim {steps : Nat} (ih : Passes steps) {s rest : List Char}
    (h : skimItems (steps + 1) s = some rest) : ItemsBehind s rest := by
  obtain ⟨g, gap, text⟩ := exists_gap s
  unfold skimItems at h
  split at h
  · cases h
  next c more first =>
  rw [first] at text
  split at h
  · next close =>
    obtain rfl := Option.some.inj h
    exact ⟨g, gap, .inl (by rw [text, close])⟩
  split at h
  · next comma =>
    split at h
    · cases h
    next others value =>
    obtain ⟨g', v, gap', value, same⟩ := ih.value value
    obtain ⟨vs, t, items, whole⟩ := (ih.items h).cons gap' value
    exact ⟨g, gap, .inr ⟨v, vs, t, items, by rw [text, comma, same, whole]⟩⟩
  · cases h

theorem firstMember_of_skim {steps : Nat} (ih : Passes steps) {s rest : List Char}
    (h : skimFirstMember (steps + 1) s = some rest) :
    ∃ ms t, Derives (.members ms) t ∧ s = t ++ '\x7d' :: rest := by
  obtain ⟨g, gap, text⟩ := exists_gap s
  unfold skimFirstMember at h
  split at h
  · cases h
  next c more first =>
  rw [first] at text
  split at h
  · next close =>
    obtain rfl := Option.some.inj h
    exact ⟨[], g, .noMember gap, by rw [text, close]⟩
  split at h
  · next quote =>
    obtain ⟨m, ms, t, members, rfl⟩ := ih.member h
    exact ⟨m :: ms, _, members g gap, by simp [text, quote]⟩
  · cases h

theorem members_of_skim {steps : Nat} (ih : Passes steps) {s rest : List Char}
    (h : skimMembers (steps + 1) s = some rest) : MembersBehind s rest := by
  obtain ⟨g, gap, text⟩ := exists_gap s
  unfold skimMembers at h
  split at h
  · cases h
  next c more first =>
  rw [first] at text
  split at h
  · next close =>
    obtain rfl := Option.some.inj h
    exact ⟨g, gap, .inl (by rw [text, close])⟩
  split at h
  · next comma =>
    obtain ⟨g', gap', text'⟩ := exists_gap more
    split at h
    · next others quote =>
      obtain ⟨m, ms, t, members, rfl⟩ := ih.member h
      rw [quote] at text'
      exact ⟨g, gap, .inr ⟨m, ms, _, members g' gap', by simp [text, comma, text']⟩⟩
    · cases h
  · cases h

theorem member_of_skim {steps : Nat} (ih : Passes steps) {s rest : List Char}
    (h : skimMember (steps + 1) s = some rest) :
    ∃ m ms t, (∀ g, Gap g → Derives (.members (m :: ms)) (g ++ '"' :: t))
      ∧ s = t ++ '\x7d' :: rest := by
  unfold skimMember at h
  split at h
  · cases h
  next behind named =>
  split at h
  · cases h
  next others passed =>
  obtain ⟨n, k, key, rfl⟩ := exists_key_of_skimName named
  obtain ⟨g, v, gap, value, rfl⟩ := ih.value passed
  obtain ⟨ms, t, members, whole⟩ := (ih.members h).cons gap value
  refine ⟨(n, v), ms, k ++ t, fun g' gap' => ?_, by rw [whole, List.append_assoc]⟩
  have derived := members _ (key g' gap')
  rwa [List.append_assoc, List.cons_append] at derived

theorem passes (steps : Nat) : Passes steps := by
  induction steps with
  | zero => constructor <;> intro s rest h <;> cases h
  | succ steps ih =>
    exact ⟨value_of_skimValue ih, firstItem_of_skim ih, items_of_skim ih, firstMember_of_skim ih,
      members_of_skim ih, member_of_skim ih⟩

/-! ### Values are passed over -/

/-- A part of a text is passed over to its last character. For the items of an array and the members
of an object, this is said from the first one on. -/
def Skimmed : Part → List Char → Prop
  | .value, v => ∀ steps rest, BehindValue rest → 2 * v.length ≤ steps →
    skimValue steps (v ++ rest) = some rest
  | .items [], _ => True
  | .items (_ :: _), s => ∀ steps rest, 2 * s.length < steps →
    ∃ more, skimValue steps (s ++ ']' :: rest) = some more ∧ skimItems steps more = some rest
  | .members [], _ => True
  | .members (_ :: _), s => ∀ steps rest, 2 * s.length < steps →
    ∃ more, skipGap (s ++ '\x7d' :: rest) = '"' :: more ∧ skimMember steps more = some rest

theorem skimValue_gap {g : List Char} (gap : Gap g) (steps : Nat) (s : List Char) :
    skimValue steps (g ++ s) = skimValue steps s := by
  cases steps with
  | zero => rw [skimValue, skimValue]
  | succ steps => rw [skimValue, skimValue, skipGap_append gap]

theorem skimValue_skipGap (steps : Nat) (s : List Char) :
    skimValue steps (skipGap s) = skimValue steps s := by
  obtain ⟨g, gap, text⟩ := exists_gap s
  rw [← skimValue_gap gap, ← text]

/-- The items of an array do not begin with its closing bracket. -/
theorem skipGap_items {v s : List Char} {vs : List (List Char)}
    (items : Derives (.items (v :: vs)) s) (rest : List Char) :
    ∃ c t, skipGap (s ++ rest) = c :: t ∧ c ≠ ']' := by
  cases items with
  | item before value after =>
    obtain ⟨c, t, rfl, -, close⟩ := head_of_value value
    simp only [List.append_assoc]
    rw [skipGap_value before value]
    exact ⟨c, _, rfl, close⟩
  | items before value after others =>
    obtain ⟨c, t, rfl, -, close⟩ := head_of_value value
    simp only [List.append_assoc]
    rw [skipGap_value before value]
    exact ⟨c, _, rfl, close⟩

theorem behindValue_gap {h : List Char} (gap : Gap h) {s : List Char} (behind : BehindValue s) :
    BehindValue (h ++ s) := by
  cases h with
  | nil => exact behind
  | cons c h =>
    have blank := gap c List.mem_cons_self
    simp only [List.mem_cons, List.not_mem_nil, or_false] at blank
    rcases blank with rfl | rfl | rfl | rfl
    · exact .blank _
    · exact .tab _
    · exact .lineFeed _
    · exact .carriageReturn _

theorem skipGap_key {n k : List Char} (key : Key n k) (rest : List Char) :
    ∃ h, Gap h ∧ skipGap (k ++ rest) = '"' :: (n ++ '"' :: (h ++ ':' :: rest)) := by
  obtain ⟨g, h, before, after, -, rfl⟩ := key
  refine ⟨h, after, ?_⟩
  simp only [List.append_assoc, List.cons_append, List.nil_append]
  rw [skipGap_append before, skipGap_cons rfl]

theorem skimName_key {n k : List Char} (key : Key n k) (rest : List Char) :
    ∃ more, skipGap (k ++ rest) = '"' :: more ∧ skimName more = some rest := by
  obtain ⟨h, gap, first⟩ := skipGap_key key rest
  obtain ⟨-, -, -, -, inside, -⟩ := key
  refine ⟨_, first, ?_⟩
  rw [skimName, skimString_append inside]
  simp only [Option.bind_eq_bind, Option.bind_some]
  rw [skipGap_append gap, skipGap_cons rfl]
  rfl

theorem length_key {n k : List Char} (key : Key n k) : 3 ≤ k.length := by
  obtain ⟨g, h, -, -, -, rfl⟩ := key
  simp only [List.length_append, List.length_cons]
  omega

theorem skimValue_number {steps : Nat} {c : Char} {s : List Char}
    (first : c = '-' ∨ c.isDigit = true) :
    skimValue (steps + 1) (c :: s) = (Number.scan (c :: s)).toOption.map Prod.snd := by
  rcases first with rfl | digit
  · rw [skimValue, skipGap_cons rfl]
    rfl
  · have quote : c ≠ '"' := ne_of_isDigit digit rfl
    have bracket : c ≠ '[' := ne_of_isDigit digit rfl
    have brace : c ≠ '\x7b' := ne_of_isDigit digit rfl
    have null : c ≠ 'n' := ne_of_isDigit digit rfl
    have true_word : c ≠ 't' := ne_of_isDigit digit rfl
    have false_word : c ≠ 'f' := ne_of_isDigit digit rfl
    rw [skimValue, skipGap_cons (isGap_of_isDigit digit)]
    simp only [if_neg quote, if_neg bracket, if_neg brace, if_neg null, if_neg true_word,
      if_neg false_word, if_pos (Or.inr digit)]

section Skimmed

variable {v s : List Char}

theorem skimmed_word {c : Char} {word : List Char}
    (skim : ∀ steps rest, skimValue (steps + 1) (c :: (word ++ rest))
      = skimWord word (word ++ rest)) : Skimmed .value (c :: word) := by
  intro steps rest _ enough
  simp only [List.length_cons] at enough
  obtain ⟨steps, rfl⟩ := Nat.exists_eq_add_of_le' (show 1 ≤ steps by omega)
  rw [List.cons_append, skim]
  exact skimWord_eq_some_iff.mpr rfl

theorem skimmed_number (number : Grammar.Number s) : Skimmed .value s := by
  intro steps rest behind enough
  obtain ⟨n, written⟩ := number.exists_written
  have scan := scan_append written behind
  obtain ⟨c, t, rfl, first⟩ := head_of_number number
  simp only [List.length_cons] at enough
  obtain ⟨steps, rfl⟩ := Nat.exists_eq_add_of_le' (show 1 ≤ steps by omega)
  rw [List.cons_append] at scan ⊢
  rw [skimValue_number first, scan]
  rfl

theorem skimmed_string (inside : Inside s) : Skimmed .value ('"' :: (s ++ ['"'])) := by
  intro steps rest _ enough
  simp only [List.length_cons] at enough
  obtain ⟨steps, rfl⟩ := Nat.exists_eq_add_of_le' (show 1 ≤ steps by omega)
  simp only [List.cons_append, List.append_assoc, List.nil_append]
  rw [skimValue, skipGap_cons rfl]
  exact skimString_append inside rest

theorem skimmed_array {vs : List (List Char)} (items : Derives (.items vs) s)
    (skimmed : Skimmed (.items vs) s) : Skimmed .value ('[' :: (s ++ [']'])) := by
  intro steps rest _ enough
  simp only [List.length_cons, List.length_append, List.length_nil] at enough
  obtain ⟨steps, rfl⟩ := Nat.exists_eq_add_of_le' (show 2 ≤ steps by omega)
  have open_bracket : skimValue (steps + 2) ('[' :: (s ++ ']' :: rest))
      = skimFirstItem (steps + 1) (s ++ ']' :: rest) := by
    rw [skimValue, skipGap_cons rfl]
    rfl
  simp only [List.cons_append, List.append_assoc, List.nil_append]
  rw [open_bracket, skimFirstItem]
  cases vs with
  | nil =>
    cases items with
    | noItem gap =>
      rw [skipGap_append gap, skipGap_cons rfl]
      rfl
  | cons v vs =>
    obtain ⟨more, passed, behind⟩ := skimmed steps rest (by omega)
    obtain ⟨c, t, first, close⟩ := skipGap_items items (']' :: rest)
    rw [← skimValue_skipGap, first] at passed
    rw [first]
    simp only [if_neg close, passed, behind]

theorem skimmed_object {ms : List (List Char × List Char)} (members : Derives (.members ms) s)
    (skimmed : Skimmed (.members ms) s) : Skimmed .value ('\x7b' :: (s ++ ['\x7d'])) := by
  intro steps rest _ enough
  simp only [List.length_cons, List.length_append, List.length_nil] at enough
  obtain ⟨steps, rfl⟩ := Nat.exists_eq_add_of_le' (show 2 ≤ steps by omega)
  have open_brace : skimValue (steps + 2) ('\x7b' :: (s ++ '\x7d' :: rest))
      = skimFirstMember (steps + 1) (s ++ '\x7d' :: rest) := by
    rw [skimValue, skipGap_cons rfl]
    rfl
  simp only [List.cons_append, List.append_assoc, List.nil_append]
  rw [open_brace, skimFirstMember]
  cases ms with
  | nil =>
    cases members with
    | noMember gap =>
      rw [skipGap_append gap, skipGap_cons rfl]
      rfl
  | cons m ms =>
    obtain ⟨more, first, passed⟩ := skimmed steps rest (by omega)
    rw [first]
    exact passed

theorem skimmed_item {g h : List Char} (before : Gap g) (skimmed : Skimmed .value v)
    (after : Gap h) : Skimmed (.items [v]) (g ++ (v ++ h)) := by
  intro steps rest enough
  simp only [List.length_append] at enough
  have value := skimmed steps (h ++ ']' :: rest) (behindValue_gap after (.bracket rest)) (by omega)
  refine ⟨h ++ ']' :: rest, ?_, ?_⟩
  · simp only [List.append_assoc]
    rw [skimValue_gap before, value]
  · obtain ⟨steps, rfl⟩ := Nat.exists_eq_add_of_le' (show 1 ≤ steps by omega)
    rw [skimItems, skipGap_append after, skipGap_cons rfl]
    rfl

theorem skimmed_items {g h w : List Char} {vs : List (List Char)} (before : Gap g)
    (skimmed : Skimmed .value v) (after : Gap h) (others : Skimmed (.items (w :: vs)) s) :
    Skimmed (.items (v :: w :: vs)) (g ++ (v ++ (h ++ ',' :: s))) := by
  intro steps rest enough
  simp only [List.length_append, List.length_cons] at enough
  have value := skimmed steps (h ++ ',' :: (s ++ ']' :: rest))
    (behindValue_gap after (.comma _)) (by omega)
  refine ⟨h ++ ',' :: (s ++ ']' :: rest), ?_, ?_⟩
  · simp only [List.append_assoc, List.cons_append]
    rw [skimValue_gap before, value]
  · obtain ⟨steps, rfl⟩ := Nat.exists_eq_add_of_le' (show 1 ≤ steps by omega)
    obtain ⟨more, passed, behind⟩ := others steps rest (by omega)
    rw [skimItems, skipGap_append after, skipGap_cons rfl]
    simp only [passed, behind]
    rfl

/-- A member is passed over together with the members behind it. -/
theorem skimMember_key {steps : Nat} {k n g t rest : List Char} (key : Key n k) (before : Gap g)
    (value : skimValue steps (v ++ t) = some t) (others : skimMembers steps t = some rest) :
    ∃ more, skipGap (k ++ (g ++ (v ++ t))) = '"' :: more
      ∧ skimMember (steps + 1) more = some rest := by
  obtain ⟨more, first, name⟩ := skimName_key key (g ++ (v ++ t))
  refine ⟨more, first, ?_⟩
  simp only [skimMember, name, skimValue_gap before, value, others]

theorem skimmed_member {k n g h : List Char} (key : Key n k) (before : Gap g)
    (skimmed : Skimmed .value v) (after : Gap h) :
    Skimmed (.members [(n, v)]) (k ++ (g ++ (v ++ h))) := by
  intro steps rest enough
  have length := length_key key
  simp only [List.length_append] at enough
  obtain ⟨steps, rfl⟩ := Nat.exists_eq_add_of_le' (show 2 ≤ steps by omega)
  have value := skimmed (steps + 1) (h ++ '\x7d' :: rest) (behindValue_gap after (.brace rest))
    (by omega)
  have others : skimMembers (steps + 1) (h ++ '\x7d' :: rest) = some rest := by
    rw [skimMembers, skipGap_append after, skipGap_cons rfl]
    rfl
  simp only [List.append_assoc]
  exact skimMember_key key before value others

theorem skimmed_members {k n g h : List Char} {m : List Char × List Char}
    {ms : List (List Char × List Char)} (key : Key n k) (before : Gap g)
    (skimmed : Skimmed .value v) (after : Gap h) (others : Skimmed (.members (m :: ms)) s) :
    Skimmed (.members ((n, v) :: m :: ms)) (k ++ (g ++ (v ++ (h ++ ',' :: s)))) := by
  intro steps rest enough
  have length := length_key key
  simp only [List.length_append, List.length_cons] at enough
  obtain ⟨steps, rfl⟩ := Nat.exists_eq_add_of_le' (show 2 ≤ steps by omega)
  have value := skimmed (steps + 1) (h ++ ',' :: (s ++ '\x7d' :: rest))
    (behindValue_gap after (.comma _)) (by omega)
  have others : skimMembers (steps + 1) (h ++ ',' :: (s ++ '\x7d' :: rest)) = some rest := by
    obtain ⟨more, first, passed⟩ := others steps rest (by omega)
    rw [skimMembers, skipGap_append after, skipGap_cons rfl]
    simp only [first, passed]
    rfl
  simp only [List.append_assoc, List.cons_append]
  exact skimMember_key key before value others

end Skimmed

theorem skimmed_of_derives {p : Part} {s : List Char} (h : Derives p s) : Skimmed p s := by
  induction h with
  | word word =>
    simp only [List.mem_cons, List.not_mem_nil, or_false] at word
    rcases word with rfl | rfl | rfl <;> exact skimmed_word fun steps rest => rfl
  | number number => exact skimmed_number number
  | string inside => exact skimmed_string inside
  | array items ih => exact skimmed_array items ih
  | object members ih => exact skimmed_object members ih
  | noItem => trivial
  | item before _ after ih => exact skimmed_item before ih after
  | items before _ after _ ih others => exact skimmed_items before ih after others
  | noMember => trivial
  | member key before _ after ih => exact skimmed_member key before ih after
  | members key before _ after _ ih others => exact skimmed_members key before ih after others

/-! ## Raw values -/

theorem rawValue?_append {g v rest : List Char} (gap : Gap g) (value : Derives .value v)
    (behind : BehindValue rest) : rawValue? (g ++ (v ++ rest)) = some (v, rest) := by
  have passed := skimmed_of_derives value (2 * (v ++ rest).length + 1) rest behind
    (by rw [List.length_append]; omega)
  have taken : (v ++ rest).length - rest.length = v.length := by
    rw [List.length_append]
    omega
  simp only [rawValue?]
  rw [skipGap_value gap value, passed]
  simp only [taken, List.take_left]

theorem rawValue?_eq_some {s v rest : List Char} (h : rawValue? s = some (v, rest)) :
    ∃ g, Gap g ∧ Derives .value v ∧ s = g ++ (v ++ rest) := by
  obtain ⟨g, gap, text⟩ := exists_gap s
  simp only [rawValue?] at h
  split at h
  · cases h
  next behind passed =>
  obtain ⟨raw, rfl⟩ := Prod.mk.inj (Option.some.inj h)
  obtain ⟨g', w, gap', value, rest_text⟩ := (passes _).value passed
  have whole : s = (g ++ g') ++ (w ++ behind) := by rw [text, rest_text, List.append_assoc]
  have first : skipGap s = w ++ behind := by
    rw [whole, skipGap_value (gap.append gap') value]
  have taken : (w ++ behind).length - behind.length = w.length := by
    rw [List.length_append]
    omega
  rw [first, taken, List.take_left] at raw
  subst raw
  exact ⟨g ++ g', gap.append gap', value, whole⟩

end Json
end Census
