import Census.Term

/-!
# Outcomes of a search

A search for one term ends in a count or fails for one of three reasons. A failure is an ordinary
outcome: it is recorded and the term is searched for again later.
-/

namespace Census

/-- Why a search gave no count. -/
inductive Reason
  | rateLimited
  | malformed
  | other
deriving DecidableEq

namespace Reason

/-- The reasons in the order in which they are reported. -/
def all : List Reason := [rateLimited, malformed, other]

def text : Reason → String
  | rateLimited => "Rate limited"
  | malformed => "Malformed response"
  | other => "Other failure"

theorem mem_all (r : Reason) : r ∈ all := by cases r <;> decide

end Reason

/-- How a search for a term ended. A count is incomplete when the service gave up before it had looked
at everything. -/
inductive Outcome
  | counted (count : Nat) (incomplete : Bool)
  | failed (reason : Reason)
deriving DecidableEq

namespace Outcome

def isCounted : Outcome → Bool
  | counted _ _ => true
  | failed _ => false

end Outcome

/-- The outcomes of a batch, each with the term it belongs to. -/
abbrev Results := List (Term × Outcome)

end Census
