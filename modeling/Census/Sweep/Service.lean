import Census.Outcome
import Census.Time.Span

/-!
# A service to search with

A service is known by its replies: what comes of the first, second, third search for a term and how
long it takes. A search that takes longer than the deadline, or never ends, is a failure at the
deadline. The searches of a batch run side by side, so each is judged alone and the batch ends with
the slowest; in which order the results of a batch come in is up to the service.
-/

namespace Census
namespace Sweep

/-- What comes of one search, and when. No outcome means that the search never ends. -/
structure Reply where
  outcome : Option Outcome
  delay : Span
deriving DecidableEq

namespace Reply

def now (o : Outcome) : Reply := ⟨some o, .zero⟩

/-- The outcome at a deadline. One that is due exactly at the deadline is in time. -/
def outcomeBy (r : Reply) (deadline : Span) : Outcome :=
  match r.outcome with
  | some o => if r.delay ≤ deadline then o else .failed .other
  | none => .failed .other

/-- How long the search is waited for. -/
def waitedFor (r : Reply) (deadline : Span) : Span :=
  match r.outcome with
  | some _ => r.delay.shorter deadline
  | none => deadline

end Reply

/-- The replies of a service, and the order in which the results of a batch come in. The batch is
named by the number of searches before it. -/
structure Service where
  /-- What comes of the search for a term that was searched for `n` times before. -/
  reply : Term → Nat → Reply
  arrival : Nat → Results → Results
  /-- Every result comes in, and comes in once. -/
  arrival_perm : ∀ n results, (arrival n results).Perm results

namespace Service

/-- A service whose results come in in the order of the batch. -/
def inOrder (reply : Term → Nat → Reply) : Service where
  reply := reply
  arrival := fun _ results => results
  arrival_perm := fun _ results => List.Perm.refl results

/-- The replies to a batch. `asked` tells how often a term was searched for before. -/
def replies (s : Service) (asked : Term → Nat) : List Term → List (Term × Reply)
  | [] => []
  | t :: rest =>
    (t, s.reply t (asked t))
      :: s.replies (fun u => if u = t then asked u + 1 else asked u) rest

/-- The results of a batch in its own order. -/
def results (s : Service) (deadline : Span) (asked : Term → Nat) (batch : List Term) : Results :=
  (s.replies asked batch).map fun r => (r.1, r.2.outcomeBy deadline)

/-- How long a batch takes. -/
def duration (s : Service) (deadline : Span) (asked : Term → Nat) (batch : List Term) : Span :=
  (s.replies asked batch).foldl (fun d r => d.longer (r.2.waitedFor deadline)) .zero

theorem map_fst_replies (s : Service) (asked : Term → Nat) (batch : List Term) :
    (s.replies asked batch).map Prod.fst = batch := by
  induction batch generalizing asked with
  | nil => rfl
  | cons t rest ih => simp [replies, ih]

/-- A batch gives one result for each of its terms. -/
theorem map_fst_results (s : Service) (deadline : Span) (asked : Term → Nat) (batch : List Term) :
    (s.results deadline asked batch).map Prod.fst = batch := by
  simp only [results, List.map_map, Function.comp_def]
  exact s.map_fst_replies asked batch

end Service
end Sweep
end Census
