import Census.Json.Printer
import Census.Proofs.Json.Rendering

/-!
# Reading written values

A value that is written over lines and blanks is read back as it was, members in their order, when its
numbers fit 64 bits and it does not nest deeper than a reader goes (`ofText_text`): what is written of
it is one of its renderings (`Plain.renders`). The induction is on how the value is built up.
-/

namespace Census
namespace Json

open Grammar

/-- A value of numbers of 64 bits and with at most `room` arrays and objects inside each other. -/
inductive Plain : Nat → Value → Prop
  | null {room : Nat} : Plain room .null
  | bool {room : Nat} (b : Bool) : Plain room (.bool b)
  | number {room : Nat} (n : Nat) (fits : n ≤ Numeral.most64) : Plain room (.ofNat n)
  | string {room : Nat} (text : String) : Plain room (.string text)
  | array {room : Nat} {items : List Value} (all : ∀ v ∈ items, Plain room v) :
      Plain (room + 1) (.array items)
  | object {room : Nat} {members : List (String × Value)} (all : ∀ m ∈ members, Plain room m.2) :
      Plain (room + 1) (.object members)

theorem gap_newLine (level : Nat) : Gap (newLine level) := by
  refine List.forall_mem_cons.mpr ⟨by simp, fun c hc => ?_⟩
  rw [List.eq_of_mem_replicate hc]
  exact List.mem_cons_self

/-- A string is written with a spelling of it. -/
theorem spells_encode (cs : List Char) : Spells (cs.flatMap Quoted.encodeChar) cs := by
  obtain ⟨t, spells, text⟩ := spells_of_quoted (Quoted.quoted_encode cs [])
  rwa [List.append_cancel_right text]

theorem key_encode (level : Nat) (name : List Char) :
    Key (name.flatMap Quoted.encodeChar) (newLine level ++ (Quoted.encode name ++ [':'])) :=
  ⟨newLine level, [], gap_newLine level, List.forall_mem_nil _, (spells_encode name).inside,
    by simp [Quoted.encode]⟩

/-- Items, the first one as well, stand on lines of their own. -/
theorem derives_items (level outer : Nat) {v : Value} {vs : List Value}
    (all : ∀ u ∈ v :: vs, Derives .value (writeValue level u)) :
    Derives (.items ((v :: vs).map (writeValue level)))
      (newLine level ++ (writeValue level v ++ (writeItems level vs ++ newLine outer))) := by
  obtain ⟨first, others⟩ := List.forall_mem_cons.mp all
  induction vs generalizing v with
  | nil => exact .item (gap_newLine level) first (gap_newLine outer)
  | cons u us ih =>
    have left := ih others (List.forall_mem_cons.mp others).1 (List.forall_mem_cons.mp others).2
    have items := Derives.items (gap_newLine level) first (List.forall_mem_nil _) left
    simpa [writeItems] using items

theorem derives_members (level outer : Nat) {m : String × Value} {ms : List (String × Value)}
    (all : ∀ u ∈ m :: ms, Derives .value (writeValue level u.2)) :
    Derives (.members ((m :: ms).map fun u =>
        (u.1.toList.flatMap Quoted.encodeChar, writeValue level u.2)))
      (newLine level ++ (Quoted.encode m.1.toList ++ ':' :: ' '
        :: (writeValue level m.2 ++ (writeMembers level ms ++ newLine outer)))) := by
  have blank : Gap [' '] := by decide
  obtain ⟨first, others⟩ := List.forall_mem_cons.mp all
  induction ms generalizing m with
  | nil =>
    have member := Derives.member (key_encode level m.1.toList) blank first (gap_newLine outer)
    simpa [writeMembers] using member
  | cons u us ih =>
    have left := ih others (List.forall_mem_cons.mp others).1 (List.forall_mem_cons.mp others).2
    have members := Derives.members (key_encode level m.1.toList) blank first
      (List.forall_mem_nil _) left
    simpa [writeMembers] using members

/-- What is written of a plain value is a rendering of it. -/
theorem Plain.renders {room : Nat} {v : Value} (h : Plain room v) (level : Nat) :
    Renders Number.Fits room v (writeValue level v) := by
  induction h generalizing level with
  | null => exact .null
  | bool b => cases b <;> exact .bool _
  | @number room n fits =>
    have number : Renders Number.Fits room _ _ :=
      .number (written_ofDigits n) (Number.fits_ofDigits fits)
    rwa [String.ofList_toList] at number
  | string text => exact .string (spells_encode text.toList)
  | @array _ items _ ih =>
    cases items with
    | nil => exact renders_array (.noItem (List.forall_mem_nil _)) .nil
    | cons v vs =>
      have values : List.Forall₂ (Renders Number.Fits _) (v :: vs)
          ((v :: vs).map (writeValue (level + 1))) :=
        List.forall₂_map_right_iff.mpr (List.forall₂_same.mpr fun u mem => ih u mem (level + 1))
      have items := derives_items (level + 1) level fun u mem => (ih u mem (level + 1)).derives
      simpa [writeValue] using renders_array items values
  | @object _ members _ ih =>
    cases members with
    | nil => exact renders_object (.noMember (List.forall_mem_nil _)) .nil
    | cons m ms =>
      have values : List.Forall₂ (RendersMember Number.Fits _) (m :: ms) ((m :: ms).map fun u =>
          (u.1.toList.flatMap Quoted.encodeChar, writeValue (level + 1) u.2)) :=
        List.forall₂_map_right_iff.mpr
          (List.forall₂_same.mpr fun u mem => ⟨spells_encode _, ih u mem (level + 1)⟩)
      have members := derives_members (level + 1) level fun u mem => (ih u mem (level + 1)).derives
      simpa [writeValue] using renders_object members values

/-- A written value is read back as it was. -/
theorem ofText_text {v : Value} (h : Plain mostOpen v) : Value.ofText v.text.toList = .ok v := by
  have no_gap : Gap [] := List.forall_mem_nil _
  rw [Value.text, String.toList_ofList]
  exact ofText_eq_ok_iff.mpr ⟨[], _, [], no_gap, no_gap, h.renders 0, by simp⟩

end Json
end Census
