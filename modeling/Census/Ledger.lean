import Census.Ledger.Tally

/-!
# The ledger of a census

The ledger knows which terms are still to be searched for, which have been counted, and which failed
last time. Batches of terms are taken out of it, and their results are entered together once all of
them are known. A count, once entered, stays; a failed term keeps its reason while it is out to be
searched for again.
-/

namespace Census

/-- Everything a census remembers between two batches. -/
structure Ledger where
  /-- The terms to report on, each once, in the order of the input. -/
  worklist : List Term
  /-- The terms that wait for their first search, repeats included. -/
  pending : List Term
  counted : TermMap Nat
  /-- The terms whose last search failed, but for those that are out to be searched for again. -/
  failed : TermSet
  /-- Why the last search of a term failed. -/
  reasons : TermMap Reason
  /-- The counted terms whose count is incomplete. -/
  flagged : TermSet
  retriesLeft : Nat
  /-- The last term that was taken out to be searched for again. -/
  cursor : Option Term
  /-- How many searches have been entered. -/
  attempts : Nat
  tally : Tally
deriving DecidableEq

namespace Ledger

/-- A list without the later copies of its terms. -/
def firsts : List Term → List Term
  | [] => []
  | t :: rest => t :: (firsts rest).filter fun u => u ≠ t

/-- The ledger of a census of `terms` that may go over the failed terms `retries` times. -/
def start (terms : List Term) (retries : Nat) : Ledger where
  worklist := firsts terms
  pending := terms
  counted := ∅
  failed := ∅
  reasons := ∅
  flagged := ∅
  retriesLeft := retries
  cursor := none
  attempts := 0
  tally := .zero

/-! ## Taking terms out -/

/-- Drops the pending terms that have been counted. -/
def prune (l : Ledger) : Ledger :=
  { l with pending := l.pending.filter fun t => !l.counted.contains t }

/-- Takes terms off the front of a list until `limit` are in hand: those in hand, and the list that is
left. Terms that are counted or already in hand are dropped on the way and do not use up the limit. -/
def gather (counted : TermMap Nat) (limit : Nat) : List Term → List Term → List Term × List Term
  | inHand, [] => (inHand, [])
  | inHand, t :: rest =>
    if limit ≤ inHand.length then (inHand, t :: rest)
    else if counted.contains t ∨ t ∈ inHand then gather counted limit inHand rest
    else gather counted limit (inHand ++ [t]) rest

/-- Takes up to `limit` uncounted terms, no two alike, off the front of the pending ones. -/
def nextBatch (l : Ledger) (limit : Nat) : List Term × Ledger :=
  let (batch, rest) := gather l.counted limit [] l.pending
  (batch, { l with pending := rest })

/-- The failed terms that come after the cursor. -/
def ahead (l : Ledger) : List Term :=
  match l.cursor with
  | none => l.failed.toList
  | some c => l.failed.toList.filter fun t => Term.before c t

/-- The terms that `takeRetry` takes: first those after the cursor, then, from the beginning, those
not yet taken. -/
def retryBatch (l : Ledger) (limit : Nat) : List Term :=
  let first := l.ahead.take limit
  first ++ (l.failed.toList.filter fun t => t ∉ first).take (limit - first.length)

/-- Takes up to `limit` failed terms out, in the order of terms and going on where the batch before
this one stopped. A small limit so comes round to every failed term. -/
def takeRetry (l : Ledger) (limit : Nat) : List Term × Ledger :=
  let batch := l.retryBatch limit
  (batch, { l with
    failed := batch.foldl (fun s t => s.erase t) l.failed
    cursor := batch.getLast?.or l.cursor })

def spendRetry (l : Ledger) : Ledger := { l with retriesLeft := l.retriesLeft - 1 }

/-! ## Entering results -/

/-- Enters a count. The first count of a term is the one that stays. -/
def recordCount (l : Ledger) (t : Term) (n : Nat) (incomplete : Bool) : Ledger :=
  let cleared := { l with failed := l.failed.erase t, reasons := l.reasons.erase t }
  if l.counted.contains t then cleared
  else { cleared with
    counted := l.counted.insert t n
    flagged := if incomplete then l.flagged.insert t else l.flagged.erase t }

/-- Enters a failure. It is tallied in any case, and otherwise forgotten for a term that has been
counted. -/
def recordFailure (l : Ledger) (t : Term) (r : Reason) : Ledger :=
  let tallied := { l with tally := l.tally.add r }
  if l.counted.contains t then tallied
  else { tallied with failed := l.failed.insert t, reasons := l.reasons.insert t r }

def record (l : Ledger) (t : Term) : Outcome → Ledger
  | .counted n incomplete => l.recordCount t n incomplete
  | .failed r => l.recordFailure t r

def recordAll (l : Ledger) (results : Results) : Ledger :=
  results.foldl (fun l r => l.record r.1 r.2) l

/-- Enters the results of a batch in their order, and counts them as searches. -/
def merge (l : Ledger) (results : Results) : Ledger :=
  { l.recordAll results with attempts := l.attempts + results.length }

/-! ## Reporting -/

def countsInOrder (l : Ledger) : List (Term × Nat) :=
  l.worklist.filterMap fun t => l.counted[t]?.map fun n => (t, n)

/-- The failed terms in the order of the worklist. -/
def unresolved (l : Ledger) : List Term := l.worklist.filter fun t => l.failed.contains t

/-- The terms with an incomplete count in the order of the worklist. -/
def incomplete (l : Ledger) : List Term := l.worklist.filter fun t => l.flagged.contains t

/-- Whether every term of the worklist is either counted or failed, and none is both. -/
def settled (l : Ledger) : Bool :=
  l.worklist.all fun t => l.counted.contains t != l.failed.contains t

/-! ## Laws of the operations -/

theorem mem_firsts {t : Term} {ts : List Term} : t ∈ firsts ts ↔ t ∈ ts := by
  induction ts with
  | nil => simp [firsts]
  | cons u ts ih =>
    simp only [firsts, List.mem_cons, List.mem_filter, ih, decide_eq_true_eq]
    by_cases h : t = u <;> simp [h]

theorem nodup_firsts (ts : List Term) : (firsts ts).Nodup := by
  induction ts with
  | nil => simp [firsts]
  | cons u ts ih =>
    simp only [firsts, List.nodup_cons]
    exact ⟨by simp, ih.filter _⟩

@[simp] theorem pending_prune (l : Ledger) :
    l.prune.pending = l.pending.filter fun t => !l.counted.contains t := rfl

@[simp] theorem counted_prune (l : Ledger) : l.prune.counted = l.counted := rfl

@[simp] theorem failed_prune (l : Ledger) : l.prune.failed = l.failed := rfl

/-- How many searches there have been plays no part in entering an outcome. -/
theorem record_attempts (l : Ledger) (n : Nat) (t : Term) (o : Outcome) :
    ({ l with attempts := n } : Ledger).record t o = { l.record t o with attempts := n } := by
  cases o with
  | counted c i => simp only [record, recordCount]; split <;> rfl
  | failed r => simp only [record, recordFailure]; split <;> rfl

theorem recordAll_attempts (l : Ledger) (n : Nat) (results : Results) :
    ({ l with attempts := n } : Ledger).recordAll results
      = { l.recordAll results with attempts := n } := by
  induction results generalizing l with
  | nil => rfl
  | cons r results ih =>
    simp only [recordAll, List.foldl_cons, record_attempts] at ih ⊢
    exact ih _

theorem recordAll_append (l : Ledger) (a b : Results) :
    l.recordAll (a ++ b) = (l.recordAll a).recordAll b := List.foldl_append

/-- Entering two lists of results one after the other is entering them as one. -/
theorem merge_append (l : Ledger) (a b : Results) : l.merge (a ++ b) = (l.merge a).merge b := by
  have h := recordAll_attempts (l.recordAll a) (l.attempts + a.length) b
  simp only [merge, h, recordAll_append, List.length_append, Nat.add_assoc]

end Ledger
end Census
