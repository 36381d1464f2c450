import Census.Main
import Census.Proofs.Ledger.Queue
import Census.Proofs.Ledger.Rotation
import Census.Proofs.Sweep.Answers
import Census.Proofs.Sweep.Effort
import Census.Proofs.Sweep.Keeping
import Census.Proofs.Sweep.Passes
import Census.Proofs.Sweep.Trace
import Census.Proofs.Sweep.Turns
import Census.Proofs.Ledger.Order
import Census.Proofs.Sweep.Arrival
import Census.Proofs.Sweep.Resume
import Census.Proofs.Sweep.Balance
import Census.Proofs.Sweep.Budget
import Census.Proofs.Sweep.Walk
import Census.Proofs.Report.Decode
import Census.Proofs.Survey.Agreement
import Census.Proofs.Survey.Constant
import Census.Proofs.Survey.Failures
import Census.Proofs.Quota.Patience
import Census.Proofs.Quota.Probe
import Census.Proofs.Search.Judgement
import Census.Proofs.Quota.Window
import Census.Proofs.Sweep.Flight
import Census.Proofs.Sweep.Probing
import Census.Proofs.Sweep.Halt
import Census.Proofs.Terms.Languages
import Census.Proofs.Options
import Census.Proofs.Search.Target
