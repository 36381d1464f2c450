import Census.Quota.Window

/-!
# Answers of a quota probe

A probe asks the service for its window. It fails when the service cannot be reached, answers with a
status that is neither success nor a sign of an exhausted quota, or sends something that is not a
window.
-/

namespace Census
namespace Quota

/-- Why a probe brought no window. -/
inductive ProbeFault
  | unreachable (why : String)
  | badStatus (status : Nat) (excerpt : String)
  | unreadable (why : String)
deriving DecidableEq

namespace ProbeFault

def message : ProbeFault → String
  | unreachable why => "Quota probe request failed: " ++ why
  | badStatus status excerpt =>
    "Quota probe returned status " ++ toString status ++ ": " ++ excerpt
  | unreadable why => "Quota probe response could not be decoded: " ++ why

/-- The message together with what caused the fault, if something else did. -/
def chain : ProbeFault → String
  | unreachable why => (unreachable why).message ++ ": " ++ why
  | f => f.message

end ProbeFault

/-- What came of one probe. -/
abbrev ProbeAnswer := Except ProbeFault Window

/-- A probe that is still to be made: its answer may depend on the instant at which it is. -/
abbrev Probe := Instant → ProbeAnswer

/-- A probe with a given answer, whenever it is made. -/
def Probe.giving (a : ProbeAnswer) : Probe := fun _ => a

end Quota
end Census
