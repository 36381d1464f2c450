import Census.Json.Printer
import Census.Ledger

/-!
# The file of counts

The counts are an object with one member for each counted term, in the order of the worklist. A term
without a count has no member, so that a failure cannot be taken for a count of nothing.
-/

namespace Census
namespace Report

/-- The counts of a ledger as the members of a document, no two of them with one name. -/
def countsMembers (l : Ledger) : List (String × Json.Value) :=
  Json.lastValues (l.countsInOrder.map fun c => (c.1, Json.Value.ofNat c.2))

/-- The counts of a ledger as a document. -/
def countsDocument (l : Ledger) : Json.Value := .object (countsMembers l)

def countsText (l : Ledger) : String := (countsDocument l).text

end Report
end Census
