import Census.Json.Reader
import Census.Proofs.Json.Size
import Census.Proofs.Json.Skim
import Census.Proofs.Json.Spelling
import Mathlib.Data.List.Forall2

/-!
# Renderings of values

A value has many texts: any gaps between its parts, any spelling of its strings. The reader accepts
just these, and reads each of them as the value that it renders, as long as no more arrays and
objects are open at once than it has room for and every number fits (`ofText_eq_ok_iff`). One
direction is an induction on the steps of the reader (`Reads`), the other one on how the rendering is
put together (`ReadAs`).
-/

namespace Census
namespace Json

open Grammar

/-- A value with at most `room` arrays and objects inside each other and with numbers of a certain
size, and a text of it. -/
inductive Renders (size : Number → Prop) : Nat → Value → List Char → Prop
  | null {room : Nat} : Renders size room .null "null".toList
  | bool {room : Nat} (b : Bool) : Renders size room (.bool b) (toString b).toList
  | number {room : Nat} {n : Number} {s : List Char} (written : Written n s) (sized : size n) :
      Renders size room (.number (String.ofList s)) s
  | string {room : Nat} {text : String} {s : List Char} (spells : Spells s text.toList) :
      Renders size room (.string text) ('"' :: (s ++ ['"']))
  | array {room : Nat} {vs : List Value} {raws : List (List Char)} {s : List Char}
      (items : Derives (.items raws) s) (count : vs.length = raws.length)
      (values : ∀ v raw, (v, raw) ∈ vs.zip raws → Renders size room v raw) :
      Renders size (room + 1) (.array vs) ('[' :: (s ++ [']']))
  | object {room : Nat} {ms : List (String × Value)} {raws : List (List Char × List Char)}
      {s : List Char} (members : Derives (.members raws) s) (count : ms.length = raws.length)
      (names : ∀ m raw, (m, raw) ∈ ms.zip raws → Spells raw.1 m.1.toList)
      (values : ∀ m raw, (m, raw) ∈ ms.zip raws → Renders size room m.2 raw.2) :
      Renders size (room + 1) (.object ms) ('\x7b' :: (s ++ ['\x7d']))

/-- A member, and its raw name and value. -/
def RendersMember (size : Number → Prop) (room : Nat) (m : String × Value)
    (raw : List Char × List Char) : Prop :=
  Spells raw.1 m.1.toList ∧ Renders size room m.2 raw.2

section Renders

variable {size : Number → Prop} {room : Nat}

theorem renders_array {vs : List Value} {raws : List (List Char)} {s : List Char}
    (items : Derives (.items raws) s) (values : List.Forall₂ (Renders size room) vs raws) :
    Renders size (room + 1) (.array vs) ('[' :: (s ++ [']'])) := by
  obtain ⟨count, values⟩ := List.forall₂_iff_zip.mp values
  exact .array items count fun v raw mem => values mem

theorem renders_object {ms : List (String × Value)} {raws : List (List Char × List Char)}
    {s : List Char} (members : Derives (.members raws) s)
    (values : List.Forall₂ (RendersMember size room) ms raws) :
    Renders size (room + 1) (.object ms) ('\x7b' :: (s ++ ['\x7d'])) := by
  obtain ⟨count, values⟩ := List.forall₂_iff_zip.mp values
  exact .object members count (fun m raw mem => (values mem).1) fun m raw mem => (values mem).2

/-- A rendering of a value is a value of the grammar. -/
theorem Renders.derives {v : Value} {s : List Char} (h : Renders size room v s) :
    Derives .value s := by
  cases h with
  | null => exact .word (by simp)
  | bool b => cases b <;> exact .word (by simp [toString])
  | number written => exact .number written.number
  | string spells => exact .string spells.inside
  | array items => exact .array items
  | object members => exact .object members

/-- An object of one member, without gaps. -/
theorem renders_singleton {name : String} {v : Value} {n s : List Char}
    (spells : Spells n name.toList) (value : Renders size room v s) :
    Renders size (room + 1) (.object [(name, v)])
      ('\x7b' :: ('"' :: (n ++ '"' :: ':' :: s) ++ ['\x7d'])) := by
  have no_gap : Gap [] := List.forall_mem_nil _
  have key : Key n ('"' :: (n ++ '"' :: [':'])) := ⟨[], [], no_gap, no_gap, spells.inside, rfl⟩
  have members := Derives.member key no_gap value.derives no_gap
  have object := renders_object members (.cons (⟨spells, value⟩ : RendersMember _ _ (name, v) _) .nil)
  simpa using object

/-- Only an object is rendered with a brace in front. -/
theorem Renders.exists_object {v : Value} {s : List Char} (h : Renders size room v s)
    (start : s.head? = some '\x7b') : ∃ ms, v = .object ms := by
  cases h with
  | null => exact absurd start (by decide)
  | bool b => cases b <;> exact absurd start (by decide)
  | number written =>
    obtain ⟨c, t, rfl, first⟩ := head_of_number written.number
    obtain rfl := Option.some.inj start
    exact absurd first (by decide)
  | string => exact absurd start (by simp)
  | array => exact absurd start (by simp)
  | @object _ ms => exact ⟨ms, rfl⟩

theorem Renders.head?_object {ms : List (String × Value)} {s : List Char}
    (h : Renders size room (.object ms) s) : s.head? = some '\x7b' := by
  cases h with
  | object => rfl

end Renders

/-! ## What is read is rendered -/

theorem readWord_eq_ok_iff {word s rest : List Char} :
    readWord word s = .ok rest ↔ s = word ++ rest := by
  induction word generalizing s with
  | nil =>
    rw [readWord, List.nil_append, Except.ok.injEq]
  | cons w word ih =>
    cases s with
    | nil => simp [readWord]
    | cons c s =>
      rw [readWord, List.cons_append, List.cons.injEq]
      by_cases same : c = w
      · rw [if_pos same, ih]
        exact ⟨fun h => ⟨same, h⟩, And.right⟩
      · rw [if_neg same]
        exact ⟨nofun, fun h => absurd h.1 same⟩

theorem eq_append_of_readWord {word s rest : List Char} {v w : Value}
    (h : (readWord word s).map (v, ·) = .ok (w, rest)) : w = v ∧ s = word ++ rest := by
  cases read : readWord word s with
  | error f =>
    rw [read] at h
    cases h
  | ok behind =>
    rw [read] at h
    obtain ⟨rfl, rfl⟩ := Prod.mk.inj (Except.ok.inj h)
    exact ⟨rfl, readWord_eq_ok_iff.mp read⟩

theorem exists_key_of_readName {s name rest : List Char} (h : readName s = .ok (name, rest)) :
    ∃ raw t, Spells raw name ∧ (∀ g, Gap g → Key raw (g ++ '"' :: t)) ∧ s = t ++ rest := by
  unfold readName at h
  split at h
  · cases h
  next cs behind string =>
  obtain ⟨raw, spells, rfl⟩ := spells_of_quoted string
  obtain ⟨g, gap, text⟩ := exists_gap behind
  split at h
  · cases h
  next c more first =>
  rw [first] at text
  split at h
  · next colon =>
    obtain ⟨rfl, rfl⟩ := Prod.mk.inj (Except.ok.inj h)
    refine ⟨raw, raw ++ '"' :: (g ++ [':']), spells, fun g' gap' => ?_, by simp [text, colon]⟩
    exact ⟨g', g, gap', gap, spells.inside, rfl⟩
  · cases h

/-- What is left of an array behind one of its items, and the items in it. -/
def ItemsLeft (size : Number → Prop) (room : Nat) (vs : List Value) (s rest : List Char) : Prop :=
  ∃ h, Gap h ∧ ((vs = [] ∧ s = h ++ ']' :: rest)
    ∨ ∃ raw raws t, Derives (.items (raw :: raws)) t
      ∧ List.Forall₂ (Renders size room) vs (raw :: raws) ∧ s = h ++ ',' :: (t ++ ']' :: rest))

/-- What is left of an object behind one of its members, and the members in it. -/
def MembersLeft (size : Number → Prop) (room : Nat) (ms : List (String × Value))
    (s rest : List Char) : Prop :=
  ∃ h, Gap h ∧ ((ms = [] ∧ s = h ++ '\x7d' :: rest)
    ∨ ∃ raw raws t, Derives (.members (raw :: raws)) t
      ∧ List.Forall₂ (RendersMember size room) ms (raw :: raws)
      ∧ s = h ++ ',' :: (t ++ '\x7d' :: rest))

section Left

variable {size : Number → Prop} {room : Nat} {g raw s rest : List Char}

theorem ItemsLeft.cons {v : Value} {vs : List Value} (left : ItemsLeft size room vs s rest)
    (gap : Gap g) (value : Renders size room v raw) :
    ∃ raws t, Derives (.items (raw :: raws)) t
      ∧ List.Forall₂ (Renders size room) (v :: vs) (raw :: raws)
      ∧ g ++ (raw ++ s) = t ++ ']' :: rest := by
  obtain ⟨h, after, ⟨rfl, rfl⟩ | ⟨w, raws, t, items, values, rfl⟩⟩ := left
  · exact ⟨[], _, .item gap value.derives after, .cons value .nil, by simp⟩
  · exact ⟨w :: raws, _, .items gap value.derives after items, .cons value values, by simp⟩

theorem MembersLeft.cons {n : List Char} {m : String × Value} {ms : List (String × Value)}
    (left : MembersLeft size room ms s rest) (gap : Gap g)
    (member : RendersMember size room m (n, raw)) :
    ∃ raws t, (∀ k, Key n k → Derives (.members ((n, raw) :: raws)) (k ++ t))
      ∧ List.Forall₂ (RendersMember size room) (m :: ms) ((n, raw) :: raws)
      ∧ g ++ (raw ++ s) = t ++ '\x7d' :: rest := by
  obtain ⟨h, after, ⟨rfl, rfl⟩ | ⟨r, raws, t, members, values, rfl⟩⟩ := left
  · exact ⟨[], _, fun k key => .member key gap member.2.derives after, .cons member .nil, by simp⟩
  · exact ⟨r :: raws, _, fun k key => .members key gap member.2.derives after members,
      .cons member values, by simp⟩

end Left

/-- What is read in a number of steps is rendered by what it is read from. -/
structure Reads (steps : Nat) : Prop where
  value : ∀ {room s v rest}, readValue steps room s = .ok (v, rest) →
    ∃ g t, Gap g ∧ Renders Number.Fits room v t ∧ s = g ++ (t ++ rest)
  firstItem : ∀ {room s vs rest}, readFirstItem steps room s = .ok (vs, rest) →
    ∃ raws t, Derives (.items raws) t ∧ List.Forall₂ (Renders Number.Fits room) vs raws
      ∧ s = t ++ ']' :: rest
  items : ∀ {room s vs rest}, readItems steps room s = .ok (vs, rest) →
    ItemsLeft Number.Fits room vs s rest
  firstMember : ∀ {room s ms rest}, readFirstMember steps room s = .ok (ms, rest) →
    ∃ raws t, Derives (.members raws) t ∧ List.Forall₂ (RendersMember Number.Fits room) ms raws
      ∧ s = t ++ '\x7d' :: rest
  members : ∀ {room s ms rest}, readMembers steps room s = .ok (ms, rest) →
    MembersLeft Number.Fits room ms s rest
  member : ∀ {room s ms rest}, readMember steps room s = .ok (ms, rest) →
    ∃ raw raws t, (∀ g, Gap g → Derives (.members (raw :: raws)) (g ++ '"' :: t))
      ∧ List.Forall₂ (RendersMember Number.Fits room) ms (raw :: raws) ∧ s = t ++ '\x7d' :: rest

section Reads

variable {steps room : Nat} {s rest : List Char} {vs : List Value} {ms : List (String × Value)}

theorem renders_of_readValue (ih : Reads steps) {v : Value}
    (h : readValue (steps + 1) room s = .ok (v, rest)) :
    ∃ g t, Gap g ∧ Renders Number.Fits room v t ∧ s = g ++ (t ++ rest) := by
  obtain ⟨g, gap, text⟩ := exists_gap s
  unfold readValue at h
  split at h
  · cases h
  next c more first =>
  rw [first] at text
  suffices value : ∃ t, Renders Number.Fits room v t ∧ c :: more = t ++ rest by
    obtain ⟨t, value, same⟩ := value
    exact ⟨g, t, gap, value, by rw [text, same]⟩
  clear first text
  split at h
  · next quote =>
    split at h
    · cases h
    next cs behind string =>
    obtain ⟨rfl, rfl⟩ := Prod.mk.inj (Except.ok.inj h)
    obtain ⟨t, spells, rfl⟩ := spells_of_quoted string
    exact ⟨_, .string (by rwa [String.toList_ofList]), by simp [quote]⟩
  split at h
  · next bracket =>
    split at h
    · cases h
    next some_room =>
    obtain ⟨room, rfl⟩ := Nat.exists_eq_add_one_of_ne_zero some_room
    split at h
    · cases h
    next items behind read =>
    obtain ⟨rfl, rfl⟩ := Prod.mk.inj (Except.ok.inj h)
    obtain ⟨raws, t, derived, values, rfl⟩ := ih.firstItem read
    exact ⟨_, renders_array derived values, by simp [bracket]⟩
  split at h
  · next brace =>
    split at h
    · cases h
    next some_room =>
    obtain ⟨room, rfl⟩ := Nat.exists_eq_add_one_of_ne_zero some_room
    split at h
    · cases h
    next members behind read =>
    obtain ⟨rfl, rfl⟩ := Prod.mk.inj (Except.ok.inj h)
    obtain ⟨raws, t, derived, values, rfl⟩ := ih.firstMember read
    exact ⟨_, renders_object derived values, by simp [brace]⟩
  split at h
  · next letter =>
    obtain ⟨rfl, rfl⟩ := eq_append_of_readWord h
    exact ⟨_, .null, by rw [letter]; rfl⟩
  split at h
  · next letter =>
    obtain ⟨rfl, rfl⟩ := eq_append_of_readWord h
    exact ⟨_, .bool true, by rw [letter]; rfl⟩
  split at h
  · next letter =>
    obtain ⟨rfl, rfl⟩ := eq_append_of_readWord h
    exact ⟨_, .bool false, by rw [letter]; rfl⟩
  split at h
  · split at h
    · cases h
    next n behind read =>
    obtain ⟨rfl, rfl⟩ := Prod.mk.inj (Except.ok.inj h)
    obtain ⟨scanned, fits⟩ := Number.read_eq_ok_iff.mp read
    obtain ⟨t, written, same⟩ := scan_eq_ok scanned
    -- The value keeps the text that was passed over.
    have taken : more.length + 1 - behind.length = t.length := by
      have length := congrArg List.length same
      rw [List.length_cons, List.length_append] at length
      omega
    rw [taken, same, List.take_left]
    exact ⟨t, .number written fits, rfl⟩
  · cases h

theorem items_of_readFirstItem (ih : Reads steps)
    (h : readFirstItem (steps + 1) room s = .ok (vs, rest)) :
    ∃ raws t, Derives (.items raws) t ∧ List.Forall₂ (Renders Number.Fits room) vs raws
      ∧ s = t ++ ']' :: rest := by
  obtain ⟨g, gap, text⟩ := exists_gap s
  unfold readFirstItem at h
  split at h
  · cases h
  next c more first =>
  rw [first] at text
  split at h
  · next close =>
    obtain ⟨rfl, rfl⟩ := Prod.mk.inj (Except.ok.inj h)
    exact ⟨[], g, .noItem gap, .nil, by rw [text, close]⟩
  split at h
  · cases h
  next v behind value =>
  split at h
  · cases h
  next others behind' left =>
  obtain ⟨rfl, rfl⟩ := Prod.mk.inj (Except.ok.inj h)
  obtain ⟨g', raw, gap', value, same⟩ := ih.value value
  obtain ⟨raws, t, items, values, whole⟩ := (ih.items left).cons (gap.append gap') value
  exact ⟨raw :: raws, t, items, values, by rw [text, same, ← whole, List.append_assoc]⟩

theorem itemsLeft_of_readItems (ih : Reads steps)
    (h : readItems (steps + 1) room s = .ok (vs, rest)) : ItemsLeft Number.Fits room vs s rest := by
  obtain ⟨g, gap, text⟩ := exists_gap s
  unfold readItems at h
  split at h
  · cases h
  next c more first =>
  rw [first] at text
  split at h
  · next close =>
    obtain ⟨rfl, rfl⟩ := Prod.mk.inj (Except.ok.inj h)
    exact ⟨g, gap, .inl ⟨rfl, by rw [text, close]⟩⟩
  split at h
  · next comma =>
    obtain ⟨g₁, gap₁, text₁⟩ := exists_gap more
    split at h
    · cases h
    next d others second =>
    rw [second] at text₁
    split at h
    · cases h
    split at h
    · cases h
    next v behind value =>
    split at h
    · cases h
    next us behind' left =>
    obtain ⟨rfl, rfl⟩ := Prod.mk.inj (Except.ok.inj h)
    obtain ⟨g₂, raw, gap₂, value, same⟩ := ih.value value
    obtain ⟨raws, t, items, values, whole⟩ := (ih.items left).cons (gap₁.append gap₂) value
    refine ⟨g, gap, .inr ⟨raw, raws, t, items, values, ?_⟩⟩
    rw [text, comma, text₁, same, ← whole, List.append_assoc]
  · cases h

theorem members_of_readFirstMember (ih : Reads steps)
    (h : readFirstMember (steps + 1) room s = .ok (ms, rest)) :
    ∃ raws t, Derives (.members raws) t ∧ List.Forall₂ (RendersMember Number.Fits room) ms raws
      ∧ s = t ++ '\x7d' :: rest := by
  obtain ⟨g, gap, text⟩ := exists_gap s
  unfold readFirstMember at h
  split at h
  · cases h
  next c more first =>
  rw [first] at text
  split at h
  · next close =>
    obtain ⟨rfl, rfl⟩ := Prod.mk.inj (Except.ok.inj h)
    exact ⟨[], g, .noMember gap, .nil, by rw [text, close]⟩
  split at h
  · next quote =>
    obtain ⟨raw, raws, t, members, values, rfl⟩ := ih.member h
    exact ⟨raw :: raws, _, members g gap, values, by simp [text, quote]⟩
  · cases h

theorem membersLeft_of_readMembers (ih : Reads steps)
    (h : readMembers (steps + 1) room s = .ok (ms, rest)) :
    MembersLeft Number.Fits room ms s rest := by
  obtain ⟨g, gap, text⟩ := exists_gap s
  unfold readMembers at h
  split at h
  · cases h
  next c more first =>
  rw [first] at text
  split at h
  · next close =>
    obtain ⟨rfl, rfl⟩ := Prod.mk.inj (Except.ok.inj h)
    exact ⟨g, gap, .inl ⟨rfl, by rw [text, close]⟩⟩
  split at h
  · next comma =>
    obtain ⟨g', gap', text'⟩ := exists_gap more
    split at h
    · cases h
    next d others second =>
    rw [second] at text'
    split at h
    · next quote =>
      obtain ⟨raw, raws, t, members, values, rfl⟩ := ih.member h
      refine ⟨g, gap, .inr ⟨raw, raws, _, members g' gap', values, ?_⟩⟩
      simp [text, comma, text', quote]
    split at h
    · cases h
    · cases h
  · cases h

theorem members_of_readMember (ih : Reads steps)
    (h : readMember (steps + 1) room s = .ok (ms, rest)) :
    ∃ raw raws t, (∀ g, Gap g → Derives (.members (raw :: raws)) (g ++ '"' :: t))
      ∧ List.Forall₂ (RendersMember Number.Fits room) ms (raw :: raws)
      ∧ s = t ++ '\x7d' :: rest := by
  unfold readMember at h
  split at h
  · cases h
  next name behind named =>
  split at h
  · cases h
  next v others value =>
  split at h
  · cases h
  next us behind' left =>
  obtain ⟨rfl, rfl⟩ := Prod.mk.inj (Except.ok.inj h)
  obtain ⟨n, k, spells, key, rfl⟩ := exists_key_of_readName named
  obtain ⟨g, raw, gap, renders, rfl⟩ := ih.value value
  have member : RendersMember Number.Fits room (String.ofList name, v) (n, raw) :=
    ⟨by rwa [String.toList_ofList], renders⟩
  obtain ⟨raws, t, members, values, whole⟩ := (ih.members left).cons gap member
  refine ⟨(n, raw), raws, k ++ t, fun g' gap' => ?_, values, by rw [whole, List.append_assoc]⟩
  have derived := members _ (key g' gap')
  rwa [List.append_assoc, List.cons_append] at derived

end Reads

theorem reads (steps : Nat) : Reads steps := by
  induction steps with
  | zero =>
    -- Without a step nothing is read.
    constructor <;> intro room s v rest h
    · rw [readValue] at h
      cases h
    · rw [readFirstItem] at h
      cases h
    · rw [readItems] at h
      cases h
    · rw [readFirstMember] at h
      cases h
    · rw [readMembers] at h
      cases h
    · rw [readMember] at h
      cases h
  | succ steps ih =>
    exact ⟨renders_of_readValue ih, items_of_readFirstItem ih, itemsLeft_of_readItems ih,
      members_of_readFirstMember ih, membersLeft_of_readMembers ih, members_of_readMember ih⟩

/-! ## Renderings are read -/

/-- A text is read to its last character, as a value. -/
def ReadAs (room : Nat) (v : Value) (t : List Char) : Prop :=
  ∀ steps rest, BehindValue rest → 2 * t.length ≤ steps →
    readValue steps room (t ++ rest) = .ok (v, rest)

/-- A member with a raw name that spells its name and a raw value that is read as its value. -/
def MemberReadAs (room : Nat) (m : String × Value) (raw : List Char × List Char) : Prop :=
  Spells raw.1 m.1.toList ∧ ReadAs room m.2 raw.2

section ReadAs

variable {room : Nat} {s : List Char}

theorem readValue_gap {g : List Char} (gap : Gap g) (steps : Nat) :
    readValue (steps + 1) room (g ++ s) = readValue (steps + 1) room s := by
  rw [readValue, readValue, skipGap_append gap]

theorem readValue_skipGap (steps : Nat) :
    readValue (steps + 1) room (skipGap s) = readValue (steps + 1) room s := by
  obtain ⟨g, gap, text⟩ := exists_gap s
  rw [← readValue_gap gap, ← text]

theorem readName_key {n k name : List Char} (key : Key n k) (spells : Spells n name)
    (rest : List Char) :
    ∃ more, skipGap (k ++ rest) = '"' :: more ∧ readName more = .ok (name, rest) := by
  obtain ⟨h, gap, first⟩ := skipGap_key key rest
  refine ⟨_, first, ?_⟩
  simp only [readName, quoted_spells spells]
  rw [skipGap_append gap, skipGap_cons rfl]
  rfl

theorem readValue_number {room steps : Nat} {c : Char} {s after : List Char} {number : Number}
    (first : c = '-' ∨ c.isDigit = true) (read : Number.read (c :: s) = .ok (number, after)) :
    readValue (steps + 1) room (c :: s)
      = .ok (.number (String.ofList ((c :: s).take (s.length + 1 - after.length))), after) := by
  rcases first with rfl | digit
  · rw [readValue, skipGap_cons rfl]
    simp [read]
  · have quote : c ≠ '"' := ne_of_isDigit digit rfl
    have bracket : c ≠ '[' := ne_of_isDigit digit rfl
    have brace : c ≠ '\x7b' := ne_of_isDigit digit rfl
    have null : c ≠ 'n' := ne_of_isDigit digit rfl
    have true_word : c ≠ 't' := ne_of_isDigit digit rfl
    have false_word : c ≠ 'f' := ne_of_isDigit digit rfl
    rw [readValue, skipGap_cons (isGap_of_isDigit digit)]
    simp only [if_neg quote, if_neg bracket, if_neg brace, if_neg null, if_neg true_word,
      if_neg false_word, if_pos (Or.inr digit), read]

theorem readAs_word {v : Value} {c : Char} {word : List Char}
    (read : ∀ steps rest, readValue (steps + 1) room (c :: (word ++ rest))
      = (readWord word (word ++ rest)).map (v, ·)) : ReadAs room v (c :: word) := by
  intro steps rest _ enough
  simp only [List.length_cons] at enough
  obtain ⟨steps, rfl⟩ := Nat.exists_eq_add_of_le' (show 1 ≤ steps by omega)
  rw [List.cons_append, read, readWord_eq_ok_iff.mpr rfl]
  rfl

theorem readAs_number {n : Number} (written : Written n s) (fits : n.Fits) :
    ReadAs room (.number (String.ofList s)) s := by
  intro steps rest behind enough
  have read := Number.read_eq_ok_iff.mpr ⟨scan_append written behind, fits⟩
  obtain ⟨c, t, rfl, first⟩ := head_of_number written.number
  have taken : (t ++ rest).length + 1 - rest.length = (c :: t).length := by
    rw [List.length_append, List.length_cons]
    omega
  simp only [List.length_cons] at enough
  obtain ⟨steps, rfl⟩ := Nat.exists_eq_add_of_le' (show 1 ≤ steps by omega)
  rw [List.cons_append] at read ⊢
  rw [readValue_number first read, taken, ← List.cons_append, List.take_left]

theorem readAs_string {text : String} (spells : Spells s text.toList) :
    ReadAs room (.string text) ('"' :: (s ++ ['"'])) := by
  intro steps rest _ enough
  simp only [List.length_cons] at enough
  obtain ⟨steps, rfl⟩ := Nat.exists_eq_add_of_le' (show 1 ≤ steps by omega)
  simp only [List.cons_append, List.append_assoc, List.nil_append, readValue]
  rw [skipGap_cons rfl]
  simp only [quoted_spells spells, String.ofList_toList]
  rfl

/-- The first item of an array is read, and then the items behind it. -/
theorem readItems_rendered {raw : List Char} {raws : List (List Char)} {v : Value} {vs : List Value}
    (items : Derives (.items (raw :: raws)) s)
    (values : List.Forall₂ (ReadAs room) (v :: vs) (raw :: raws)) (steps : Nat) (rest : List Char)
    (enough : 2 * s.length < steps) :
    ∃ more, readValue steps room (s ++ ']' :: rest) = .ok (v, more)
      ∧ readItems steps room more = .ok (vs, rest) := by
  induction raws generalizing raw v vs s steps with
  | nil =>
    obtain ⟨value, none_left⟩ := List.forall₂_cons.mp values
    obtain rfl := List.forall₂_nil_right_iff.mp none_left
    cases items with
    | @item g _ h before _ after =>
      simp only [List.length_append] at enough
      obtain ⟨steps, rfl⟩ := Nat.exists_eq_add_of_le' (show 1 ≤ steps by omega)
      have first := value (steps + 1) (h ++ ']' :: rest) (behindValue_gap after (.bracket rest))
        (by omega)
      refine ⟨h ++ ']' :: rest, ?_, ?_⟩
      · simp only [List.append_assoc]
        rw [readValue_gap before, first]
      · rw [readItems, skipGap_append after, skipGap_cons rfl]
        rfl
  | cons raw' raws ih =>
    obtain ⟨value, others⟩ := List.forall₂_cons.mp values
    obtain ⟨v', vs, -, -, rfl⟩ := List.forall₂_cons_right_iff.mp others
    cases items with
    | @items g _ h s _ _ before _ after left =>
      simp only [List.length_append, List.length_cons] at enough
      obtain ⟨steps, rfl⟩ := Nat.exists_eq_add_of_le' (show 2 ≤ steps by omega)
      have first := value (steps + 2) (h ++ ',' :: (s ++ ']' :: rest))
        (behindValue_gap after (.comma _)) (by omega)
      obtain ⟨more, second, behind⟩ := ih left others (steps + 1) (by omega)
      obtain ⟨d, t, start, no_close⟩ := skipGap_items left (']' :: rest)
      rw [← readValue_skipGap, start] at second
      refine ⟨h ++ ',' :: (s ++ ']' :: rest), ?_, ?_⟩
      · simp only [List.append_assoc, List.cons_append]
        rw [readValue_gap before, first]
      · rw [readItems, skipGap_append after, skipGap_cons rfl]
        simp only [start, if_neg no_close, second, behind]
        rfl

theorem readAs_array {raws : List (List Char)} {vs : List Value} (items : Derives (.items raws) s)
    (values : List.Forall₂ (ReadAs room) vs raws) :
    ReadAs (room + 1) (.array vs) ('[' :: (s ++ [']'])) := by
  intro steps rest _ enough
  simp only [List.length_cons, List.length_append, List.length_nil] at enough
  obtain ⟨steps, rfl⟩ := Nat.exists_eq_add_of_le' (show 3 ≤ steps by omega)
  suffices first : readFirstItem (steps + 2) room (s ++ ']' :: rest) = .ok (vs, rest) by
    simp only [List.cons_append, List.append_assoc, List.nil_append]
    rw [readValue, skipGap_cons rfl]
    simp only [Nat.add_sub_cancel, first]
    rfl
  cases values with
  | nil =>
    cases items with
    | noItem gap =>
      rw [readFirstItem, skipGap_append gap, skipGap_cons rfl]
      rfl
  | cons value values =>
    obtain ⟨more, read, behind⟩ := readItems_rendered items (.cons value values) (steps + 1) rest
      (by omega)
    obtain ⟨c, t, start, no_close⟩ := skipGap_items items (']' :: rest)
    rw [← readValue_skipGap, start] at read
    rw [readFirstItem, start]
    simp only [if_neg no_close, read, behind]

/-- A member is read together with the members behind it. -/
theorem readMember_key {raw : List Char × List Char} {m : String × Value}
    {ms : List (String × Value)} {k g t rest : List Char} {steps : Nat} (key : Key raw.1 k)
    (before : Gap g) (name : Spells raw.1 m.1.toList)
    (value : readValue (steps + 1) room (raw.2 ++ t) = .ok (m.2, t))
    (others : readMembers (steps + 1) room t = .ok (ms, rest)) :
    ∃ more, skipGap (k ++ (g ++ (raw.2 ++ t))) = '"' :: more
      ∧ readMember (steps + 2) room more = .ok (m :: ms, rest) := by
  obtain ⟨more, first, name⟩ := readName_key key name (g ++ (raw.2 ++ t))
  refine ⟨more, first, ?_⟩
  simp only [readMember, name, readValue_gap before, value, others, String.ofList_toList]

theorem readMembers_rendered {raw : List Char × List Char} {raws : List (List Char × List Char)}
    {m : String × Value} {ms : List (String × Value)} (members : Derives (.members (raw :: raws)) s)
    (values : List.Forall₂ (MemberReadAs room) (m :: ms) (raw :: raws)) (steps : Nat)
    (rest : List Char) (enough : 2 * s.length < steps) :
    ∃ more, skipGap (s ++ '\x7d' :: rest) = '"' :: more
      ∧ readMember steps room more = .ok (m :: ms, rest) := by
  induction raws generalizing raw m ms s steps with
  | nil =>
    obtain ⟨⟨name, value⟩, none_left⟩ := List.forall₂_cons.mp values
    obtain rfl := List.forall₂_nil_right_iff.mp none_left
    cases members with
    | @member n k g v h key before _ after =>
      have value : ReadAs room m.2 v := value
      have length := length_key key
      simp only [List.length_append] at enough
      obtain ⟨steps, rfl⟩ := Nat.exists_eq_add_of_le' (show 2 ≤ steps by omega)
      have read := value (steps + 1) (h ++ '\x7d' :: rest) (behindValue_gap after (.brace rest))
        (by omega)
      have close : readMembers (steps + 1) room (h ++ '\x7d' :: rest) = .ok ([], rest) := by
        rw [readMembers, skipGap_append after, skipGap_cons rfl]
        rfl
      simp only [List.append_assoc]
      exact readMember_key key before name read close
  | cons raw' raws ih =>
    obtain ⟨⟨name, value⟩, others⟩ := List.forall₂_cons.mp values
    obtain ⟨m', ms, -, -, rfl⟩ := List.forall₂_cons_right_iff.mp others
    cases members with
    | @members n k g v h s _ _ key before _ after left =>
      have value : ReadAs room m.2 v := value
      have length := length_key key
      simp only [List.length_append, List.length_cons] at enough
      obtain ⟨steps, rfl⟩ := Nat.exists_eq_add_of_le' (show 2 ≤ steps by omega)
      have read := value (steps + 1) (h ++ ',' :: (s ++ '\x7d' :: rest))
        (behindValue_gap after (.comma _)) (by omega)
      have behind : readMembers (steps + 1) room (h ++ ',' :: (s ++ '\x7d' :: rest))
          = .ok (m' :: ms, rest) := by
        obtain ⟨more, start, member⟩ := ih left others steps (by omega)
        rw [readMembers, skipGap_append after, skipGap_cons rfl]
        simp only [start, member]
        rfl
      simp only [List.append_assoc, List.cons_append]
      exact readMember_key key before name read behind

theorem readAs_object {raws : List (List Char × List Char)} {ms : List (String × Value)}
    (members : Derives (.members raws) s) (values : List.Forall₂ (MemberReadAs room) ms raws) :
    ReadAs (room + 1) (.object ms) ('\x7b' :: (s ++ ['\x7d'])) := by
  intro steps rest _ enough
  simp only [List.length_cons, List.length_append, List.length_nil] at enough
  obtain ⟨steps, rfl⟩ := Nat.exists_eq_add_of_le' (show 3 ≤ steps by omega)
  suffices first : readFirstMember (steps + 2) room (s ++ '\x7d' :: rest) = .ok (ms, rest) by
    simp only [List.cons_append, List.append_assoc, List.nil_append]
    rw [readValue, skipGap_cons rfl]
    simp only [Nat.add_sub_cancel, first]
    rfl
  cases values with
  | nil =>
    cases members with
    | noMember gap =>
      rw [readFirstMember, skipGap_append gap, skipGap_cons rfl]
      rfl
  | cons value values =>
    obtain ⟨more, start, member⟩ := readMembers_rendered members (.cons value values) (steps + 1) rest
      (by omega)
    rw [readFirstMember, start]
    simp only [member]
    rfl

end ReadAs

theorem Renders.readAs {room : Nat} {v : Value} {t : List Char} (h : Renders Number.Fits room v t) :
    ReadAs room v t := by
  induction h with
  | null => exact readAs_word fun steps rest => by rw [readValue, skipGap_cons rfl]; rfl
  | bool b =>
    cases b with
    | false => exact readAs_word fun steps rest => by rw [readValue, skipGap_cons rfl]; rfl
    | true => exact readAs_word fun steps rest => by rw [readValue, skipGap_cons rfl]; rfl
  | number written fits => exact readAs_number written fits
  | string spells => exact readAs_string spells
  | array items count _ ih =>
    exact readAs_array items (List.forall₂_iff_zip.mpr ⟨count, fun mem => ih _ _ mem⟩)
  | object members count names _ ih =>
    exact readAs_object members
      (List.forall₂_iff_zip.mpr ⟨count, fun mem => ⟨names _ _ mem, ih _ _ mem⟩⟩)

/-- A text is read as a value just when it is a rendering of it, with gaps around it. -/
theorem ofText_eq_ok_iff {s : List Char} {v : Value} :
    Value.ofText s = .ok v
      ↔ ∃ g t h, Gap g ∧ Gap h ∧ Renders Number.Fits mostOpen v t ∧ s = g ++ (t ++ h) := by
  constructor
  · intro read
    unfold Value.ofText at read
    split at read
    · cases read
    next w rest first =>
    split at read
    · next none_left =>
      obtain rfl := Except.ok.inj read
      obtain ⟨g, t, gap, renders, text⟩ := (reads _).value first
      exact ⟨g, t, rest, gap, skipGap_eq_nil_iff.mp none_left, renders, text⟩
    · cases read
  · rintro ⟨g, t, h, before, after, renders, rfl⟩
    have behind : BehindValue h := by
      have := behindValue_gap after .nothing
      rwa [List.append_nil] at this
    have read := renders.readAs (2 * (g ++ (t ++ h)).length + 1) h behind
      (by simp only [List.length_append]; omega)
    rw [Value.ofText, readValue_gap before, read]
    simp only [skipGap_eq_nil_iff.mpr after]

end Json
end Census
