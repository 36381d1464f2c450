import Census.Credential
import Census.Http.Client
import Census.Options
import Census.Report.File
import Census.Sweep.Phase
import Census.Terms

/-!
# Why a census fails

A census fails when it cannot begin, when its service cannot be probed, or when its results cannot be
written. Terms that could not be counted are no failure of the census.
-/

namespace Census
namespace Survey

/-- Why a census gave no findings. -/
inductive Failure
  | options (fault : Options.Fault)
  | credential (fault : Credential.Fault) (path : String)
  | terms (fault : Terms.Fault) (path : String)
  | client (fault : Http.ClientFault)
  | sweep (kind : Sweep.Kind) (fault : Quota.ProbeFault)
  | report (fault : Report.Fault)
  /-- The sleep until a reset was out of range, which aborts the census. -/
  | overflowed
  /-- There were not enough probes to come to an end. -/
  | unprobed
deriving DecidableEq

def sweepName : Sweep.Kind → String
  | .primary => "primary"
  | .retry => "retry"

/-- What is said about a failure, causes included. -/
def Failure.message : Failure → String
  | options f => "Invalid configuration: " ++ f.message
  | credential f path => "Failed to load API credential: " ++ f.message path
  | terms f path => "Failed to load terms: " ++ f.chain path
  | client f => "Failed to initialize HTTP client: " ++ f.chain
  | sweep kind f =>
    "Quota endpoint unreachable during " ++ sweepName kind ++ " sweep: " ++ f.chain
  | report f => f.message
  | overflowed => "overflow when adding durations"
  | unprobed => "Quota endpoint was not probed to the end"

/-- The status with which the program ends. -/
def Failure.status : Failure → Nat
  | overflowed => 101
  | _ => 1

end Survey
end Census
