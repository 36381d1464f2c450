import Census.Outcome

/-!
# Tallies of failures

Every failed search is counted under its reason, whether the term is counted later or not.
-/

namespace Census

/-- How many searches failed for each reason. -/
structure Tally where
  rateLimited : Nat
  malformed : Nat
  other : Nat
deriving DecidableEq

namespace Tally

def zero : Tally := ⟨0, 0, 0⟩

def count (t : Tally) : Reason → Nat
  | .rateLimited => t.rateLimited
  | .malformed => t.malformed
  | .other => t.other

def add (t : Tally) : Reason → Tally
  | .rateLimited => { t with rateLimited := t.rateLimited + 1 }
  | .malformed => { t with malformed := t.malformed + 1 }
  | .other => { t with other := t.other + 1 }

def total (t : Tally) : Nat := t.rateLimited + t.malformed + t.other

theorem count_add (t : Tally) (r s : Reason) :
    (t.add r).count s = t.count s + if r = s then 1 else 0 := by
  cases r <;> cases s <;> simp [add, count]

theorem total_add (t : Tally) (r : Reason) : (t.add r).total = t.total + 1 := by
  cases r <;> simp only [add, total] <;> omega

end Tally
end Census
