import Census.Json.Fields
import Census.Outcome
import Census.Quota.Limit

/-!
# Judging the answer to a search

An answer is judged by its status and headers first: signs of an exhausted quota, then a failure of
the service itself. Any other answer is judged by its body alone, which has to be a document with the
number of results.
-/

namespace Census
namespace Search

/-- What is looked at in the document of a search. -/
structure Document where
  total : Option Nat
  incomplete : Bool
deriving DecidableEq

namespace Document

/-- The number of results; a null stands for no number. -/
def total? (raw : List Char) : Option (Option Nat) :=
  if Json.isNull raw then some none else (Json.nat64? raw).map some

/-- The document of the given fields. An array has to hold the first field. -/
def ofFields? (fields : Json.Fields) : Option Document := do
  let total ← fields.find? "total_count" 0
  let incomplete ← fields.find? "incomplete_results" 1
  if fields = .byPlace [] ∨ ¬ fields.fits 2 then none
  else
    let total ← match total with
      | none => some none
      | some raw => total? raw
    let incomplete ← match incomplete with
      | none => some false
      | some raw => Json.bool? raw
    some { total, incomplete }

def ofText? (body : String) : Option Document := (Json.Fields.ofText? body.toList).bind ofFields?

end Document

/-- The outcome that the body of an answer stands for. -/
def judgeBody (body : String) : Outcome :=
  match Document.ofText? body with
  | some { total := some n, incomplete } => .counted n incomplete
  | _ => .failed .malformed

/-- The outcome that an answer stands for. -/
def judge (status : Nat) (headers : Http.Headers) (body : String) : Outcome :=
  if Quota.isLimit status headers then .failed .rateLimited
  else if Http.isServerError status then .failed .other
  else judgeBody body

end Search
end Census
