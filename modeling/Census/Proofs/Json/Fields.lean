import Census.Json.Fields
import Census.Proofs.Json.Skim
import Census.Proofs.Json.Spelling

/-!
# The content of a document

The fields of a document are read from a text just when the text is an object or an array, and they
are its members, with their names as the characters that they spell, or its items. Everything else
has no fields: text that is not JSON at all, a value of another kind, and an object in which a name
has half a surrogate pair, since such a name spells nothing.
-/

namespace Census
namespace Json

open Grammar

/-- A raw member has the given name and value. -/
def Named (raw : List Char × List Char) (m : String × List Char) : Prop :=
  Spells raw.1 m.1.toList ∧ raw.2 = m.2

/-- The text is an object with the given members. -/
def IsObject (members : List (String × List Char)) (s : List Char) : Prop :=
  ∃ g t h ms, Gap g ∧ Gap h ∧ Derives (.members ms) t ∧ List.Forall₂ Named ms members
    ∧ s = g ++ '\x7b' :: (t ++ '\x7d' :: h)

/-- The text is an array with the given items. -/
def IsArray (items : List (List Char)) (s : List Char) : Prop :=
  ∃ g t h, Gap g ∧ Gap h ∧ Derives (.items items) t ∧ s = g ++ '[' :: (t ++ ']' :: h)

/-- The text is a JSON text. -/
def IsJson (s : List Char) : Prop := ∃ v, Text v s

theorem IsObject.isJson {members : List (String × List Char)} {s : List Char}
    (h : IsObject members s) : IsJson s := by
  obtain ⟨g, t, h, ms, before, after, derived, -, rfl⟩ := h
  exact ⟨_, g, h, before, after, .object derived, by simp⟩

theorem IsArray.isJson {items : List (List Char)} {s : List Char} (h : IsArray items s) :
    IsJson s := by
  obtain ⟨g, t, h, before, after, derived, rfl⟩ := h
  exact ⟨_, g, h, before, after, .array derived, by simp⟩

/-! ## Members -/

section Members

variable {s rest t : List Char} {members : List (String × List Char)}

theorem quoted_of_toOption {name behind : List Char}
    (h : (Quoted.quoted s).toOption = some (name, behind)) :
    Quoted.quoted s = .ok (name, behind) := by
  cases read : Quoted.quoted s with
  | error f =>
    rw [read] at h
    cases h
  | ok x =>
    rw [read] at h
    rw [Option.some.inj h]

/-- The members that are read make up the text up to the closing brace. -/
theorem readMembers_eq_some {steps : Nat} (h : Fields.readMembers steps s = some (members, rest)) :
    ∃ m ms t, Derives (.members (m :: ms)) t ∧ List.Forall₂ Named (m :: ms) members
      ∧ s = t ++ '\x7d' :: rest := by
  induction steps generalizing s members with
  | zero => cases h
  | succ steps ih =>
    obtain ⟨g, before, text⟩ := exists_gap s
    unfold Fields.readMembers at h
    split at h
    case h_2 => cases h
    next more quote =>
    rw [quote] at text
    split at h
    · cases h
    next name behind string =>
    obtain ⟨n, spells, rfl⟩ := spells_of_quoted (quoted_of_toOption string)
    obtain ⟨g₁, gap₁, text₁⟩ := exists_gap behind
    split at h
    case h_2 => cases h
    next raws colon =>
    rw [colon] at text₁
    split at h
    · cases h
    next raw others passed =>
    obtain ⟨g₂, gap₂, value, rfl⟩ := rawValue?_eq_some passed
    obtain ⟨g₃, gap₃, text₃⟩ := exists_gap others
    have key : Key n (g ++ '"' :: (n ++ '"' :: (g₁ ++ [':']))) :=
      ⟨g, g₁, before, gap₁, spells.inside, rfl⟩
    have named : Named (n, raw) (String.ofList name, raw) :=
      ⟨by rwa [String.toList_ofList], rfl⟩
    split at h
    · next brace =>
      obtain ⟨rfl, rfl⟩ := Prod.mk.inj (Option.some.inj h)
      rw [brace] at text₃
      refine ⟨(n, raw), [], _, .member key gap₂ value gap₃, .cons named .nil, ?_⟩
      simp [text, text₁, text₃]
    · next more comma =>
      obtain ⟨⟨ms, behind⟩, read, same⟩ := Option.map_eq_some_iff.mp h
      obtain ⟨rfl, rfl⟩ := Prod.mk.inj same
      obtain ⟨m, ms', t, derived, all, rfl⟩ := ih read
      rw [comma] at text₃
      refine ⟨(n, raw), m :: ms', _, .members key gap₂ value gap₃ derived, .cons named all, ?_⟩
      simp [text, text₁, text₃]
    · cases h

/-- A member is read with its name as it is spelled, and what stands behind its value decides whether
it is the last one. -/
theorem readMembers_key {steps : Nat} {n k g v : List Char} {m : String × List Char}
    (key : Key n k) (before : Gap g) (value : Derives .value v) (named : Named (n, v) m)
    (behind : BehindValue t) :
    (skipGap t = '\x7d' :: rest →
      Fields.readMembers (steps + 1) (k ++ (g ++ (v ++ t))) = some ([m], rest))
    ∧ (skipGap t = ',' :: rest → Fields.readMembers (steps + 1) (k ++ (g ++ (v ++ t)))
      = (Fields.readMembers steps rest).map fun ms => (m :: ms.1, ms.2)) := by
  obtain ⟨name, raw⟩ := m
  obtain ⟨spells, rfl⟩ := named
  obtain ⟨h, gap, first⟩ := skipGap_key key (g ++ (v ++ t))
  have read := quoted_spells spells (h ++ ':' :: (g ++ (v ++ t)))
  have colon : skipGap (h ++ ':' :: (g ++ (v ++ t))) = ':' :: (g ++ (v ++ t)) := by
    rw [skipGap_append gap, skipGap_cons rfl]
  constructor
  · intro brace
    simp only [Fields.readMembers, first, read, Except.toOption, colon,
      rawValue?_append before value behind, String.ofList_toList, brace]
  · intro comma
    simp only [Fields.readMembers, first, read, Except.toOption, colon,
      rawValue?_append before value behind, String.ofList_toList, comma]

theorem readMembers_append {ms : List (List Char × List Char)} {steps : Nat}
    (derived : Derives (.members ms) t) (named : List.Forall₂ Named ms members)
    (some_member : ms ≠ []) (enough : ms.length ≤ steps) (rest : List Char) :
    Fields.readMembers steps (t ++ '\x7d' :: rest) = some (members, rest) := by
  induction ms generalizing t members steps with
  | nil => exact absurd rfl some_member
  | cons raw ms ih =>
    rw [List.length_cons] at enough
    obtain ⟨steps, rfl⟩ := Nat.exists_eq_add_of_le' (show 1 ≤ steps by omega)
    cases named with
    | cons first others =>
    cases derived with
    | member key before value after =>
      cases others with
      | nil =>
      simp only [List.append_assoc]
      exact (readMembers_key key before value first (behindValue_gap after (.brace rest))).1
        (skipGap_append after _)
    | members key before value after derived =>
      have read : Fields.readMembers steps (_ ++ '\x7d' :: rest) = some (_, rest) :=
        ih derived others (by simp) (by omega)
      simp only [List.append_assoc, List.cons_append]
      rw [(readMembers_key key before value first (behindValue_gap after (.comma _))).2
        (skipGap_append after _), read, Option.map_some]

end Members

/-! ## Items -/

section Items

variable {s rest t : List Char} {items : List (List Char)}

/-- The items that are read make up the text up to the closing bracket. -/
theorem readItems_eq_some {steps : Nat} (h : Fields.readItems steps s = some (items, rest)) :
    ∃ v vs t, items = v :: vs ∧ Derives (.items (v :: vs)) t ∧ s = t ++ ']' :: rest := by
  induction steps generalizing s items with
  | zero => cases h
  | succ steps ih =>
    unfold Fields.readItems at h
    split at h
    · cases h
    next raw behind passed =>
    obtain ⟨g, before, value, rfl⟩ := rawValue?_eq_some passed
    obtain ⟨g', after, text⟩ := exists_gap behind
    split at h
    · next bracket =>
      obtain ⟨rfl, rfl⟩ := Prod.mk.inj (Option.some.inj h)
      rw [bracket] at text
      exact ⟨raw, [], _, rfl, .item before value after, by simp [text]⟩
    · next comma =>
      obtain ⟨⟨vs, behind⟩, read, same⟩ := Option.map_eq_some_iff.mp h
      obtain ⟨rfl, rfl⟩ := Prod.mk.inj same
      obtain ⟨v, vs, t, rfl, derived, rfl⟩ := ih read
      rw [comma] at text
      exact ⟨raw, v :: vs, _, rfl, .items before value after derived, by simp [text]⟩
    · cases h

theorem readItems_append {steps : Nat} (derived : Derives (.items items) t) (some_item : items ≠ [])
    (enough : items.length ≤ steps) (rest : List Char) :
    Fields.readItems steps (t ++ ']' :: rest) = some (items, rest) := by
  induction items generalizing t steps with
  | nil => exact absurd rfl some_item
  | cons v vs ih =>
    rw [List.length_cons] at enough
    obtain ⟨steps, rfl⟩ := Nat.exists_eq_add_of_le' (show 1 ≤ steps by omega)
    cases derived with
    | item before value after =>
      simp only [List.append_assoc]
      rw [Fields.readItems, rawValue?_append before value (behindValue_gap after (.bracket rest))]
      simp only
      rw [skipGap_append after, skipGap_cons rfl]
      rfl
    | items before value after derived =>
      have read : Fields.readItems steps (_ ++ ']' :: rest) = some (_, rest) :=
        ih derived (by simp) (by omega)
      simp only [List.append_assoc, List.cons_append]
      rw [Fields.readItems, rawValue?_append before value (behindValue_gap after (.comma _))]
      simp only
      rw [skipGap_append after, skipGap_cons rfl]
      simp only [read, Option.map_some]

end Items

/-! ## Documents -/

theorem skipGap_skipGap (s : List Char) : skipGap (skipGap s) = skipGap s := by
  obtain ⟨g, gap, text⟩ := exists_gap s
  rw [← skipGap_append gap, ← text]

theorem readMembers_skipGap (steps : Nat) (s : List Char) :
    Fields.readMembers steps (skipGap s) = Fields.readMembers steps s := by
  cases steps with
  | zero => rw [Fields.readMembers, Fields.readMembers]
  | succ steps => rw [Fields.readMembers, Fields.readMembers, skipGap_skipGap]

theorem readItems_skipGap (steps : Nat) (s : List Char) :
    Fields.readItems steps (skipGap s) = Fields.readItems steps s := by
  have value : rawValue? (skipGap s) = rawValue? s := by rw [rawValue?, rawValue?, skipGap_skipGap]
  cases steps with
  | zero => rw [Fields.readItems, Fields.readItems]
  | succ steps => rw [Fields.readItems, Fields.readItems, value]

theorem length_value {v : List Char} (value : Derives .value v) : 0 < v.length := by
  obtain ⟨c, s, rfl, -, -⟩ := head_of_value value
  exact Nat.succ_pos _

/-- Enough is left for one step for each member when the gap before them is passed over. -/
theorem length_members {ms : List (List Char × List Char)} {t : List Char}
    (derived : Derives (.members ms) t) (rest : List Char) :
    ms.length ≤ (skipGap (t ++ rest)).length := by
  induction ms generalizing t rest with
  | nil => exact Nat.zero_le _
  | cons m ms ih =>
    cases derived with
    | member key before value after =>
      obtain ⟨h, -, first⟩ := skipGap_key key (_ ++ (_ ++ (_ ++ rest)))
      simp only [List.append_assoc]
      rw [first]
      exact Nat.succ_pos _
    | @members n k g v h s m' ms' key before value after derived =>
      obtain ⟨i, -, first⟩ := skipGap_key key (g ++ (v ++ (h ++ ',' :: (s ++ rest))))
      have others := ih derived rest
      have shorter := List.length_dropWhile_le isGap (s ++ rest)
      simp only [List.append_assoc, List.cons_append]
      rw [first]
      simp only [skipGap, List.length_cons, List.length_append] at others shorter ⊢
      omega

theorem length_items {vs : List (List Char)} {t : List Char} (derived : Derives (.items vs) t)
    (rest : List Char) : vs.length ≤ (skipGap (t ++ rest)).length := by
  induction vs generalizing t rest with
  | nil => exact Nat.zero_le _
  | cons v vs ih =>
    cases derived with
    | @item g v h before value after =>
      have some_char := length_value value
      simp only [List.append_assoc]
      rw [skipGap_value before value]
      simp only [List.length_cons, List.length_append, List.length_nil]
      omega
    | @items g v h s w ws before value after derived =>
      have some_char := length_value value
      have others := ih derived rest
      have shorter := List.length_dropWhile_le isGap (s ++ rest)
      simp only [List.append_assoc, List.cons_append]
      rw [skipGap_value before value]
      simp only [skipGap, List.length_cons, List.length_append] at others shorter ⊢
      omega

section Documents

variable {g t rest : List Char} {members : List (String × List Char)}

theorem read?_object {ms : List (List Char × List Char)} (gap : Gap g)
    (derived : Derives (.members ms) t) (named : List.Forall₂ Named ms members)
    (rest : List Char) :
    Fields.read? (g ++ '\x7b' :: (t ++ '\x7d' :: rest)) = some (.byName members, rest) := by
  rw [Fields.read?, skipGap_append gap, skipGap_cons rfl]
  simp only
  cases ms with
  | nil =>
    cases named with
    | nil =>
    cases derived with
    | noMember gap =>
    rw [skipGap_append gap, skipGap_cons rfl]
    rfl
  | cons m ms =>
    have enough := length_members derived ('\x7d' :: rest)
    have read := readMembers_append derived named (List.cons_ne_nil m ms) enough rest
    rw [← readMembers_skipGap] at read
    obtain ⟨more, first, -⟩ := skimmed_of_derives derived (2 * t.length + 1) rest (by omega)
    rw [first] at read ⊢
    show (Fields.readMembers ('"' :: more).length ('"' :: more)).map _ = _
    rw [read]
    rfl

theorem read?_array {items : List (List Char)} (gap : Gap g) (derived : Derives (.items items) t)
    (rest : List Char) :
    Fields.read? (g ++ '[' :: (t ++ ']' :: rest)) = some (.byPlace items, rest) := by
  rw [Fields.read?, skipGap_append gap, skipGap_cons rfl]
  simp only
  cases items with
  | nil =>
    cases derived with
    | noItem gap =>
    rw [skipGap_append gap, skipGap_cons rfl]
    rfl
  | cons v vs =>
    have enough := length_items derived (']' :: rest)
    have read := readItems_append derived (List.cons_ne_nil v vs) enough rest
    rw [← readItems_skipGap] at read
    obtain ⟨c, more, first, close⟩ := skipGap_items derived (']' :: rest)
    rw [first] at read ⊢
    split
    · next same => exact absurd (List.cons.inj same).1 close
    · rw [read]
      rfl

/-- What the fields of a document say about its text. -/
def Content : Fields → List Char → Prop
  | .byName members => IsObject members
  | .byPlace items => IsArray items

theorem content_of_read? {s h : List Char} {fields : Fields}
    (read : Fields.read? s = some (fields, h)) (after : Gap h) : Content fields s := by
  obtain ⟨g, before, text⟩ := exists_gap s
  unfold Fields.read? at read
  split at read
  · next more brace =>
    rw [brace] at text
    obtain ⟨g', gap, first⟩ := exists_gap more
    split at read
    · next close =>
      obtain ⟨rfl, rfl⟩ := Prod.mk.inj (Option.some.inj read)
      rw [close] at first
      exact ⟨g, g', _, [], before, after, .noMember gap, .nil, by rw [text, first]⟩
    · obtain ⟨⟨members, behind⟩, members_read, same⟩ := Option.map_eq_some_iff.mp read
      obtain ⟨rfl, rfl⟩ := Prod.mk.inj same
      rw [readMembers_skipGap] at members_read
      obtain ⟨m, ms, t, derived, named, rfl⟩ := readMembers_eq_some members_read
      exact ⟨g, t, _, _, before, after, derived, named, text⟩
  · next more bracket =>
    rw [bracket] at text
    obtain ⟨g', gap, first⟩ := exists_gap more
    split at read
    · next close =>
      obtain ⟨rfl, rfl⟩ := Prod.mk.inj (Option.some.inj read)
      rw [close] at first
      exact ⟨g, g', _, before, after, .noItem gap, by rw [text, first]⟩
    · obtain ⟨⟨items, behind⟩, items_read, same⟩ := Option.map_eq_some_iff.mp read
      obtain ⟨rfl, rfl⟩ := Prod.mk.inj same
      rw [readItems_skipGap] at items_read
      obtain ⟨v, vs, t, rfl, derived, rfl⟩ := readItems_eq_some items_read
      exact ⟨g, t, _, before, after, derived, text⟩
  · cases read

/-- The fields that are read from a text are its content. -/
theorem ofText?_eq_some_iff {s : List Char} {fields : Fields} :
    Fields.ofText? s = some fields ↔ Content fields s := by
  constructor
  · intro h
    obtain ⟨⟨fields', rest⟩, read, whole⟩ := Option.bind_eq_some_iff.mp h
    simp only at whole
    split at whole
    · next empty =>
      obtain rfl := Option.some.inj whole
      exact content_of_read? read (skipGap_eq_nil_iff.mp empty)
    · cases whole
  · intro content
    suffices read : ∃ h, Gap h ∧ Fields.read? s = some (fields, h) by
      obtain ⟨h, after, read⟩ := read
      rw [Fields.ofText?, read]
      exact if_pos (skipGap_eq_nil_iff.mpr after)
    cases fields with
    | byName members =>
      obtain ⟨g, t, h, ms, before, after, derived, named, rfl⟩ := content
      exact ⟨h, after, read?_object before derived named h⟩
    | byPlace items =>
      obtain ⟨g, t, h, before, after, derived, rfl⟩ := content
      exact ⟨h, after, read?_array before derived h⟩

theorem ofText?_eq_byName_iff {s : List Char} :
    Fields.ofText? s = some (.byName members) ↔ IsObject members s := ofText?_eq_some_iff

theorem ofText?_eq_byPlace_iff {s : List Char} {items : List (List Char)} :
    Fields.ofText? s = some (.byPlace items) ↔ IsArray items s := ofText?_eq_some_iff

instance (members : List (String × List Char)) (s : List Char) :
    Decidable (IsObject members s) := decidable_of_iff _ ofText?_eq_byName_iff

instance (items : List (List Char)) (s : List Char) : Decidable (IsArray items s) :=
  decidable_of_iff _ ofText?_eq_byPlace_iff

theorem IsObject.unique {s : List Char} {others : List (String × List Char)}
    (object : IsObject members s) (also : IsObject others s) : members = others := by
  have read := ofText?_eq_byName_iff.mpr object
  rw [ofText?_eq_byName_iff.mpr also] at read
  cases read
  rfl

/-- A text is not an object and an array at once. -/
theorem IsObject.not_isArray {s : List Char} {items : List (List Char)}
    (object : IsObject members s) : ¬ IsArray items s := by
  intro array
  have read := ofText?_eq_byName_iff.mpr object
  rw [ofText?_eq_byPlace_iff.mpr array] at read
  cases read

/-- What is read from the fields of a text that is no array is read from its members. -/
theorem ofText?_bind_eq_some_iff {α : Type} {read : Fields → Option α} {a : α} {s : List Char}
    (no_array : ∀ items, ¬ IsArray items s) :
    (Fields.ofText? s).bind read = some a
      ↔ ∃ members, IsObject members s ∧ read (.byName members) = some a := by
  rw [Option.bind_eq_some_iff]
  constructor
  · rintro ⟨members | items, content, h⟩
    · exact ⟨members, ofText?_eq_byName_iff.mp content, h⟩
    · exact absurd (ofText?_eq_byPlace_iff.mp content) (no_array items)
  · rintro ⟨members, object, h⟩
    exact ⟨_, ofText?_eq_byName_iff.mpr object, h⟩

/-- What is no JSON text has no fields. -/
theorem ofText?_eq_none {s : List Char} (h : ¬ IsJson s) : Fields.ofText? s = none := by
  cases read : Fields.ofText? s with
  | none => rfl
  | some fields =>
    have content := ofText?_eq_some_iff.mp read
    cases fields with
    | byName members => exact absurd (IsObject.isJson content) h
    | byPlace items => exact absurd (IsArray.isJson content) h

end Documents

/-! ## Values -/

theorem value_of_mem_members {ms : List (List Char × List Char)} {t : List Char}
    (derived : Derives (.members ms) t) {m : List Char × List Char} (mem : m ∈ ms) :
    Derives .value m.2 := by
  induction ms generalizing t with
  | nil => cases mem
  | cons first ms ih =>
    cases derived with
    | member key before value after =>
      obtain rfl := List.mem_singleton.mp mem
      exact value
    | members key before value after derived =>
      rcases List.mem_cons.mp mem with rfl | mem
      · exact value
      · exact ih derived mem

theorem value_of_mem_items {vs : List (List Char)} {t : List Char} (derived : Derives (.items vs) t)
    {v : List Char} (mem : v ∈ vs) : Derives .value v := by
  induction vs generalizing t with
  | nil => cases mem
  | cons first vs ih =>
    cases derived with
    | item before value after =>
      obtain rfl := List.mem_singleton.mp mem
      exact value
    | items before value after derived =>
      rcases List.mem_cons.mp mem with rfl | mem
      · exact value
      · exact ih derived mem

/-- The values of the members of a name, in their order. -/
def values (name : String) (members : List (String × List Char)) : List (List Char) :=
  (members.filter fun m => m.1 = name).map Prod.snd

section Values

variable {s raw : List Char} {members : List (String × List Char)} {name : String}

theorem IsObject.value (object : IsObject members s) (mem : raw ∈ values name members) :
    Derives .value raw := by
  obtain ⟨g, t, h, ms, -, -, derived, named, -⟩ := object
  have raws : members.map Prod.snd = ms.map Prod.snd := by
    clear derived mem
    induction named with
    | nil => rfl
    | cons named _ ih => rw [List.map_cons, List.map_cons, ih, named.2]
  have mem := List.map_subset Prod.snd (List.filter_subset_self members) mem
  rw [raws] at mem
  obtain ⟨m, among, rfl⟩ := List.mem_map.mp mem
  exact value_of_mem_members derived among

theorem IsArray.value {items : List (List Char)} (array : IsArray items s) (mem : raw ∈ items) :
    Derives .value raw := by
  obtain ⟨g, t, h, -, -, derived, -⟩ := array
  exact value_of_mem_items derived mem

theorem mem_values : raw ∈ values name members ↔ (name, raw) ∈ members := by
  simp [values]

theorem find?_byName (members : List (String × List Char)) (name : String) (place : Nat) :
    Fields.find? (.byName members) name place = match values name members with
      | [] => some none
      | [raw] => some (some raw)
      | _ => none := by
  simp only [Fields.find?, values]
  rcases members.filter _ with _ | ⟨m, _ | ⟨m', ms⟩⟩ <;> rfl

theorem find?_eq_some_iff {place : Nat} :
    Fields.find? (.byName members) name place = some (some raw) ↔ values name members = [raw] := by
  rw [find?_byName]
  rcases values name members with _ | ⟨v, _ | ⟨w, vs⟩⟩ <;> simp

theorem find?_eq_none_iff {place : Nat} :
    Fields.find? (.byName members) name place = some none ↔ values name members = [] := by
  rw [find?_byName]
  rcases values name members with _ | ⟨v, _ | ⟨w, vs⟩⟩ <;> simp

end Values

end Json
end Census
