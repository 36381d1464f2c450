import Census.Ledger
import Census.Log.Note

/-!
# Notes about a ledger

What is logged when terms are taken out of a ledger and results are entered, and the lines that sum up
how far the census has come.
-/

namespace Census
namespace Ledger

open Log

/-- A word for one thing or for any other number of them. -/
def plural (n : Nat) (one many : String) : String := if n = 1 then one else many

def stateTarget : String := target "sweep::state"

def noteRecord (l : Ledger) (t : Term) : Outcome → List Note
  | .counted n incomplete =>
    match l.counted[t]? with
    | some old => [⟨.debug, stateTarget, t ++ " already counted, keeping " ++ toString old⟩]
    | none =>
      if incomplete then
        [⟨.warn, stateTarget, t ++ ": " ++ toString n ++ " (search reported incomplete results)"⟩]
      else [⟨.debug, stateTarget, t ++ ": " ++ toString n⟩]
  | .failed r =>
    if l.counted.contains t then [] else [⟨.warn, stateTarget, t ++ ": " ++ r.text⟩]

def noteMerge (l : Ledger) : Results → List Note
  | [] => []
  | (t, o) :: rest => l.noteRecord t o ++ (l.record t o).noteMerge rest

/-- A note for each counted term that taking a batch drops. -/
def noteSkipped (l : Ledger) (limit : Nat) : List Note :=
  let dropped := l.pending.take (l.pending.length - (l.nextBatch limit).2.pending.length)
  (dropped.filter l.counted.contains).map fun t =>
    ⟨.debug, stateTarget, "Skipping " ++ t ++ ": already counted"⟩

def progressTarget : String := target "app::logging"

/-- How many terms of the worklist are counted. -/
def score (l : Ledger) : String :=
  "[" ++ toString l.counted.size ++ "/" ++ toString l.worklist.length ++ "] "

/-- The line for a batch of the primary sweep, after it was taken. -/
def notePrimaryBatch (l : Ledger) (size quota : Nat) : Note :=
  ⟨.info, progressTarget, l.score ++ "batch of " ++ toString size ++ " dispatched, quota "
    ++ toString quota ++ ", " ++ toString l.pending.length ++ " pending"⟩

def noteRetryBatch (l : Ledger) (size quota : Nat) : Note :=
  ⟨.info, progressTarget, l.score ++ "retry batch of " ++ toString size ++ " dispatched, quota "
    ++ toString quota ++ ", " ++ toString l.retriesLeft ++ " retr"
    ++ plural l.retriesLeft "y" "ies" ++ " left"⟩

/-- The start of the line on how many searches there were; how long they took follows it. -/
def searchesIssued (l : Ledger) : String := "Issued " ++ toString l.attempts ++ " searches"

def statisticsTarget : String := target "app::statistics"

end Ledger

/-- The lines on failed searches by reason, or none when nothing failed. -/
def Tally.notes (t : Tally) : List Log.Note :=
  if t.total = 0 then []
  else
    ⟨.info, Ledger.statisticsTarget, "Failed attempts (" ++ toString t.total ++ " total):"⟩
      :: (Reason.all.filter fun r => 0 < t.count r).map fun r =>
        ⟨.info, Ledger.statisticsTarget, "   " ++ r.text ++ ": " ++ toString (t.count r)⟩

end Census
