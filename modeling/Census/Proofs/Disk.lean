import Census.Disk
import Census.Proofs.Text.Utf8

/-!
# What is written can be read

A path leads to a place, and writing puts a file there. Directories are not touched by that, so every
path leads to the same place afterwards (`place?_put`): the path that was written to has the new
content, and a path that leads elsewhere the one it had. Paths are told apart by their places and not
by their names, since different names can lead to one file.
-/

namespace Census
namespace Disk

/-- Where the file is, or would be, that a path leads to. -/
def place? (d : Disk) (path : String) : Option Place :=
  match d.route path with
  | .error _ => none
  | .ok r =>
    match d.walk r.start r.directories with
    | .error _ => none
    | .ok here =>
      if namesDirectory r.last ∨ r.slashed then none
      else if longestName < r.last.utf8ByteSize then none
      else if d.node? (here ++ [r.last]) = some .directory then none
      else some (here ++ [r.last])

/-- Two paths that do not lead to one file. -/
def Apart (d : Disk) (a b : String) : Prop := ∀ p, d.place? a = some p → d.place? b ≠ some p

variable {d d' : Disk} {path other : String} {p q : Place} {content : List UInt8} {text : String}

/-- Whatever stands in the way of writing, no place does. -/
theorem write_eq_ok_iff :
    d.write path content = .ok d' ↔ ∃ p, d.place? path = some p ∧ d' = d.put p (.file content) := by
  unfold write place?
  cases d.route path with
  | error f => simp
  | ok r =>
    simp only
    cases d.walk r.start r.directories with
    | error f => simp
    | ok here =>
      simp only
      by_cases directory : namesDirectory r.last ∨ r.slashed
      · simp only [if_pos directory]
        simp
      · by_cases long : longestName < r.last.utf8ByteSize
        · simp only [if_neg directory, if_pos long]
          simp
        · simp only [if_neg directory, if_neg long]
          cases d.node? (here ++ [r.last]) with
          | none => simp [eq_comm]
          | some n => cases n <;> simp [eq_comm]

/-- How a path leads to its place. -/
theorem route_of_place? (h : d.place? path = some p) :
    ∃ r here, d.route path = .ok r ∧ d.walk r.start r.directories = .ok here
      ∧ ¬ (namesDirectory r.last ∨ r.slashed) ∧ ¬ longestName < r.last.utf8ByteSize
      ∧ d.node? (here ++ [r.last]) ≠ some .directory ∧ here ++ [r.last] = p := by
  unfold place? at h
  split at h
  · cases h
  · next r route =>
    split at h
    · cases h
    · next here walked =>
      split at h
      · cases h
      · next named =>
        split at h
        · cases h
        · next short =>
          split at h
          · cases h
          · next file => exact ⟨r, here, route, walked, named, short, file, Option.some.inj h⟩

theorem place?_eq_some (h : d.place? path = some p) :
    p ≠ [] ∧ d.node? p ≠ some .directory := by
  obtain ⟨r, here, -, -, -, -, file, rfl⟩ := route_of_place? h
  exact ⟨by simp, file⟩

theorem node?_put_self (n : Node) (below : p ≠ []) : (d.put p n).node? p = some n := by
  rw [node?, if_neg below, put, List.find?_cons_of_pos (by simp)]
  rfl

theorem node?_put_eq_directory_iff (file : d.node? p ≠ some .directory) (q : Place) :
    (d.put p (.file content)).node? q = some .directory ↔ d.node? q = some .directory := by
  by_cases same : q = p
  · subst same
    by_cases root : q = []
    · rw [node?, if_pos root, node?, if_pos root]
    · rw [node?_put_self _ root]
      simp [file]
  · rw [node?_put_of_ne _ same]

theorem enter_eq_ok_iff {here there : Place} {name : String} :
    d.enter here name = .ok there ↔
      if name = "" ∨ name = "." then there = here
      else if name = ".." then there = here.dropLast
      else ¬ longestName < name.utf8ByteSize ∧ d.node? (here ++ [name]) = some .directory
        ∧ there = here ++ [name] := by
  unfold enter
  split
  · simp [eq_comm]
  · split
    · simp [eq_comm]
    · split
      · simp [*]
      · next short =>
        cases d.node? (here ++ [name]) with
        | none => simp
        | some n => cases n <;> simp [short, eq_comm]

/-- A file never lies on the way to a place, so the ways stay as they are. -/
theorem enter_put (file : d.node? p ≠ some .directory) (content : List UInt8) (here there : Place)
    (name : String) :
    (d.put p (.file content)).enter here name = .ok there ↔ d.enter here name = .ok there := by
  rw [enter_eq_ok_iff, enter_eq_ok_iff, node?_put_eq_directory_iff file]

theorem walk_put (file : d.node? p ≠ some .directory) (content : List UInt8) (here there : Place)
    (names : List String) :
    (d.put p (.file content)).walk here names = .ok there ↔ d.walk here names = .ok there := by
  induction names generalizing here with
  | nil => exact Iff.rfl
  | cons name names ih =>
    have first := enter_put file content here
    rw [walk, walk]
    cases entered : d.enter here name with
    | ok next =>
      rw [(first next name).mpr entered]
      exact ih next
    | error f =>
      cases entered' : (d.put p (.file content)).enter here name with
      | ok next =>
        rw [(first next name).mp entered'] at entered
        cases entered
      | error f' => simp

/-- After writing, every path leads where it led before. -/
theorem place?_put (file : d.node? p ≠ some .directory) (path : String) :
    (d.put p (.file content)).place? path = d.place? path := by
  have same_route : (d.put p (.file content)).route path = d.route path := rfl
  unfold place?
  rw [same_route]
  cases d.route path with
  | error f => rfl
  | ok r =>
    have ways here := walk_put file content r.start here r.directories
    simp only
    cases walked : d.walk r.start r.directories with
    | ok here =>
      rw [(ways here).mpr walked]
      simp only [node?_put_eq_directory_iff file]
    | error f =>
      cases walked' : (d.put p (.file content)).walk r.start r.directories with
      | ok here =>
        rw [(ways here).mp walked'] at walked
        cases walked
      | error f' => rfl

/-- The content of a file is what is at its place. -/
theorem read_eq_ok (h : d.place? path = some p) (node : d.node? p = some (.file content)) :
    d.read path = .ok content := by
  obtain ⟨r, here, route, walked, named, short, -, rfl⟩ := route_of_place? h
  obtain ⟨named, unslashed⟩ := not_or.mp named
  simp only [read, route, walked, if_neg named, if_neg short, node, if_neg unslashed]

theorem writeText_eq_ok_iff :
    d.writeText path text = .ok d' ↔
      ∃ p, d.place? path = some p ∧ d' = d.put p (.file (Text.bytes text)) := write_eq_ok_iff

theorem writeText_of_place? (h : d.place? path = some p) (text : String) :
    d.writeText path text = .ok (d.put p (.file (Text.bytes text))) :=
  writeText_eq_ok_iff.mpr ⟨p, h, rfl⟩

theorem readText_eq_ok (h : d.place? path = some p)
    (node : d.node? p = some (.file (Text.bytes text))) : d.readText path = .ok text := by
  rw [readText, read_eq_ok h node]
  simp only [Text.ofBytes?_bytes]

/-- A written text is read back. -/
theorem readText_writeText (h : d.writeText path text = .ok d') : d'.readText path = .ok text := by
  obtain ⟨p, place, rfl⟩ := writeText_eq_ok_iff.mp h
  obtain ⟨below, file⟩ := place?_eq_some place
  exact readText_eq_ok ((place?_put file path).trans place) (node?_put_self _ below)

/-- Two texts that are written one after the other to different files are both read back. -/
theorem readText_of_writes {disk first last : Disk} {a b s t : String} (apart : disk.Apart a b)
    (one : disk.writeText a s = .ok first) (other : first.writeText b t = .ok last) :
    last.readText a = .ok s ∧ last.readText b = .ok t := by
  refine ⟨?_, readText_writeText other⟩
  obtain ⟨p, place, rfl⟩ := writeText_eq_ok_iff.mp one
  obtain ⟨below, file⟩ := place?_eq_some place
  obtain ⟨q, place', rfl⟩ := writeText_eq_ok_iff.mp other
  obtain ⟨-, file'⟩ := place?_eq_some place'
  -- The first text has moved no place, so the two places are those on the disk before it.
  rw [place?_put file] at place'
  have elsewhere : p ≠ q := by
    rintro rfl
    exact apart p place place'
  refine readText_eq_ok (p := p) ?_ ?_
  · rw [place?_put file', place?_put file, place]
  · rw [node?_put_of_ne _ elsewhere, node?_put_self _ below]

end Disk
end Census
