/-!
# Environment variables

The environment gives values to names. A name has at most one value, and a value that is there is
never replaced.
-/

namespace Census

structure Environment where
  values : List (String × String)
deriving DecidableEq

namespace Environment

def empty : Environment := { values := [] }

def value? (e : Environment) (name : String) : Option String := e.values.lookup name

/-- Gives a value to a name that has none. -/
def fill (e : Environment) (name value : String) : Environment :=
  match e.value? name with
  | some _ => e
  | none => { values := (name, value) :: e.values }

theorem value?_fill (e : Environment) (name value other : String) :
    (e.fill name value).value? other =
      (e.value? other).or (if other = name then some value else none) := by
  unfold fill
  split
  · rename_i v h
    by_cases he : other = name
    · subst he
      simp [h]
    · simp [he]
  · rename_i h
    by_cases he : other = name
    · subst he
      rw [h]
      simp [value?]
    · simp only [value?, List.lookup_cons, he, if_false, Option.or_none]
      have : (other == name) = false := by simpa using he
      simp [this]

end Environment
end Census
