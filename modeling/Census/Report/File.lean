import Census.Decimal
import Census.Disk
import Census.Ledger.Notes
import Census.Report.Counts
import Census.Report.Summary

/-!
# Writing the results

The two result files are written one after the other, the counts first. A file that cannot be written
ends the census, and the one before it stays.
-/

namespace Census
namespace Report

/-- A result file that cannot be written. -/
inductive Fault
  | counts (path : String) (fault : DiskFault)
  | summary (path : String) (fault : DiskFault)
deriving DecidableEq

def Fault.message : Fault → String
  | counts path f => "Failed to write counts file " ++ path ++ ": " ++ f.message
  | summary path f => "Failed to write summary file " ++ path ++ ": " ++ f.message

/-- Writes the file of counts: the disk after it, and how many counts were written. -/
def writeCounts (disk : Disk) (path : String) (l : Ledger) : Except Fault (Disk × Nat) :=
  match disk.writeText path (countsText l) with
  | .error f => .error (.counts path f)
  | .ok disk => .ok (disk, (countsMembers l).length)

def writeSummary (disk : Disk) (path : String) (s : Summary) : Except Fault Disk :=
  match disk.writeText path s.text with
  | .error f => .error (.summary path f)
  | .ok disk => .ok disk

def noteCounts (written : Nat) (path : String) : Log.Note :=
  ⟨.info, Log.target "export::counts", "Wrote " ++ toString written ++ " counts to " ++ path⟩

def noteSummary (path : String) : Log.Note :=
  ⟨.info, Log.target "export::summary", "Wrote run summary to " ++ path⟩

/-- The numbers that the last lines of a census are about. -/
def outcomeText (resolved targeted unresolved : Nat) (more : String) (seconds : Float) : String :=
  "✅ Counted " ++ toString resolved ++ " of " ++ toString targeted ++ " term"
    ++ Ledger.plural targeted "" "s" ++ " (" ++ toString unresolved ++ " unresolved" ++ more ++ ") in "
    ++ Decimal.fixed 1 seconds ++ "s"

/-- The last line of the log. -/
def noteOutcome (targeted resolved unresolved : Nat) (seconds : Float) : Log.Note :=
  ⟨.info, Ledger.statisticsTarget, outcomeText resolved targeted unresolved "" seconds⟩

/-- The line on how many searches there were in how long a time. -/
def noteSearches (l : Ledger) (elapsed : Span) : Log.Note :=
  let seconds := elapsed.inSeconds
  let rate : Float := if seconds > 0.0 then Float.ofNat l.attempts / seconds else 0.0
  ⟨.info, Ledger.progressTarget, l.searchesIssued ++ " in " ++ Decimal.fixed 2 seconds
    ++ " seconds (~" ++ Decimal.fixed 2 rate ++ " searches/sec)"⟩

end Report
end Census
