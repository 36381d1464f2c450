import Census.Proofs.Ledger.Rotation
import Census.Proofs.Sweep.Findings
import Census.Proofs.Sweep.Walk
import Mathlib.Data.ENat.Lattice
import Mathlib.Order.CompletePartialOrder

/-!
# What the retries buy

A pass of the retry sweep that is given quota for all terms searches for every failed term, and for
no other. So when each quota that is granted is as large as that, a term that fails `k` times before
it is counted has been searched for `min k j + 1` times after `j` passes, and it is still failed
just when `j < k` (`Tried`). The sweep stops when no such term is left or the retries are used up,
whichever comes first, and that gives the end in closed form.

The numbers of failures are taken in `ℕ∞`, since a term may never be counted.
-/

namespace Census
namespace Sweep

open Quota Ledger Relation

/-! ## How long a term fails -/

open Classical in
/-- How many searches for a term fail before the first one that counts it. -/
noncomputable def failures (service : Service) (deadline : Span) (t : Term) : ℕ∞ :=
  if h : ∃ n, ((service.reply t n).outcomeBy deadline).isCounted = true then (Nat.find h : ℕ∞)
  else ⊤

section Failures

variable {service : Service} {deadline : Span} {t : Term} {n : Nat}

theorem natCast_lt_failures_iff :
    (n : ℕ∞) < failures service deadline t
      ↔ ∀ m ≤ n, ((service.reply t m).outcomeBy deadline).isCounted = false := by
  unfold failures
  split
  · next some_counted =>
    rw [Nat.cast_lt, Nat.lt_find_iff]
    simp only [Bool.not_eq_true]
  · next none_counted =>
    rw [not_exists] at none_counted
    refine iff_of_true (ENat.natCast_lt_top n) fun m _ => ?_
    exact Bool.eq_false_of_not_eq_true (none_counted m)

theorem succ_le_failures (h : (n : ℕ∞) < failures service deadline t) :
    ((n + 1 : ℕ) : ℕ∞) ≤ failures service deadline t := by
  rw [Nat.cast_add_one]
  exact ENat.natCast_add_one_le_iff.mpr h

theorem isCounted_of_failures_eq (h : failures service deadline t = n) :
    ((service.reply t n).outcomeBy deadline).isCounted = true := by
  unfold failures at h
  split at h
  · next some_counted =>
    rw [← Nat.cast_inj.mp h]
    exact Nat.find_spec some_counted
  · exact absurd h (ENat.top_ne_natCast n)

theorem failures_le_iSup {terms : List Term} (ht : t ∈ terms) :
    failures service deadline t ≤ ⨆ t ∈ terms, failures service deadline t :=
  le_iSup₂ (f := fun t (_ : t ∈ terms) => failures service deadline t) t ht

end Failures

/-! ## Quotas that are large enough -/

/-- Whenever the probe brings quota, it is for at least `n` searches. -/
def Ample (n : Nat) (probe : Probe) : Prop :=
  ∀ now w, probe now = .ok w → w.remaining = 0 ∨ n ≤ w.remaining

variable {pace : Pace} {service : Service} {kind : Kind}

/-- The quota is that of one of the probes, and the probes after it are left. -/
theorem awaitFrom_granted {backoff : Backoff} {probes rest : List Probe} {run waited : Run}
    {w : Window} (h : awaitFrom pace backoff probes run = .granted w waited rest) :
    ∃ probe now, probe :: rest <:+ probes ∧ probe now = .ok w := by
  have behind (probe : Probe) {tail : List Probe}
      (later : ∃ granting now, granting :: rest <:+ tail ∧ granting now = .ok w) :
      ∃ granting now, granting :: rest <:+ probe :: tail ∧ granting now = .ok w := by
    obtain ⟨granting, now, left, answer⟩ := later
    exact ⟨granting, now, left.trans (List.suffix_cons probe tail), answer⟩
  fun_induction awaitFrom pace backoff probes run with
  | case1 backoff run => cases h
  | case2 backoff probe tail run f failed missed last => cases h
  | case3 backoff probe tail run f failed missed delay later next ih => exact behind probe (ih h)
  | case4 backoff probe tail run found answer probed exhausted overflow => cases h
  | case5 backoff probe tail run found answer probed exhausted sleep slept ih =>
    exact behind probe (ih h)
  | case6 backoff probe tail run found answer probed left =>
    obtain ⟨rfl, -, rfl⟩ := Awaited.granted.inj h
    exact ⟨probe, run.now, List.suffix_refl _, answer⟩

theorem await_ample {n : Nat} {probes rest : List Probe} {run waited : Run} {w : Window}
    (ample : ∀ probe ∈ probes, Ample n probe)
    (h : await pace probes run = .granted w waited rest) (room : 0 < w.remaining) :
    n ≤ w.remaining ∧ ∀ probe ∈ rest, Ample n probe := by
  obtain ⟨probe, now, left, answer⟩ := awaitFrom_granted h
  have here := ample probe (left.subset List.mem_cons_self) now w answer
  exact ⟨here.resolve_left (Nat.ne_of_gt room), fun probe hp =>
    ample probe (left.subset (List.mem_cons_of_mem _ hp))⟩

theorem ample_rest_of_complete {n : Nat} (kind : Kind) (probes : List Probe) (run : Run)
    (ample : ∀ probe ∈ probes, Ample n probe)
    (complete : (phase kind pace service probes run).ending = .complete) :
    ∀ probe ∈ (phase kind pace service probes run).rest, Ample n probe := by
  induction probes, run using phase_rule kind pace service with
  | idle probes run finished => exact ample
  | granted probes run w waited rest busy awaited ih =>
    obtain ⟨room, -, -⟩ := sent_of_granted service busy awaited
    exact ih (await_ample ample awaited room).2 complete
  | stopped probes run a ending busy awaited stop =>
    exact absurd (complete ▸ stop) a.ending?_ne_complete

/-! ## Passes over all failed terms -/

/-- After `j` passes, in which each failed term was searched for. `asked` tells how often that was
done in all. -/
structure Tried (service : Service) (deadline : Span) (terms : List Term) (retries j : Nat)
    (asked : Term → Nat) (l : Ledger) : Prop where
  sound : l.Sound
  spent : l.retriesLeft + j = retries
  needed : (j : ℕ∞) ≤ ⨆ t ∈ terms, failures service deadline t
  searched : ∀ t ∈ terms, (asked t : ℕ∞) = min (failures service deadline t) j + 1
  stands : ∀ t ∈ terms, ∀ n, asked t = n + 1 →
    l.standing t = .of ((service.reply t n).outcomeBy deadline)
  failed : ∀ t ∈ l.failed, t ∈ terms

namespace Tried

variable {deadline : Span} {terms : List Term} {retries j : Nat} {asked : Term → Nat} {l : Ledger}
  {t : Term}

/-- A term that was counted by then. -/
theorem of_le (h : Tried service deadline terms retries j asked l) (ht : t ∈ terms)
    (soon : failures service deadline t ≤ j) :
    ∃ (n : Nat) (count : Nat) (incomplete : Bool), failures service deadline t = n
      ∧ (service.reply t n).outcomeBy deadline = .counted count incomplete
      ∧ l.standing t = .of (.counted count incomplete) := by
  obtain ⟨n, hn⟩ := ENat.ne_top_iff_exists.mp (ne_top_of_le_ne_top (ENat.natCast_ne_top j) soon)
  have searched := h.searched t ht
  rw [min_eq_left soon, ← hn] at searched
  have stands := h.stands t ht n (by exact_mod_cast searched)
  have counts := isCounted_of_failures_eq hn.symm
  cases outcome : (service.reply t n).outcomeBy deadline with
  | counted count incomplete => exact ⟨n, count, incomplete, hn.symm, outcome, outcome ▸ stands⟩
  | failed r =>
    rw [outcome] at counts
    cases counts

/-- A term that has failed in every pass. -/
theorem of_lt (h : Tried service deadline terms retries j asked l) (ht : t ∈ terms)
    (later : (j : ℕ∞) < failures service deadline t) :
    asked t = j + 1 ∧ ∃ r, (service.reply t j).outcomeBy deadline = .failed r
      ∧ l.standing t = .of (.failed r) := by
  have searched := h.searched t ht
  rw [min_eq_right later.le] at searched
  have times : asked t = j + 1 := by exact_mod_cast searched
  have stands := h.stands t ht j times
  have fails := natCast_lt_failures_iff.mp later j (Nat.le_refl j)
  cases outcome : (service.reply t j).outcomeBy deadline with
  | counted count incomplete =>
    rw [outcome] at fails
    cases fails
  | failed r => exact ⟨times, r, rfl, outcome ▸ stands⟩

theorem mem_failed_iff (h : Tried service deadline terms retries j asked l) (ht : t ∈ terms) :
    t ∈ l.failed ↔ (j : ℕ∞) < failures service deadline t := by
  rw [Ledger.mem_failed_iff]
  rcases le_or_gt (failures service deadline t) j with soon | later
  · obtain ⟨n, count, incomplete, -, -, stands⟩ := h.of_le ht soon
    rw [stands]
    exact iff_of_false Bool.false_ne_true (not_lt_of_ge soon)
  · obtain ⟨-, r, -, stands⟩ := h.of_lt ht later
    rw [stands]
    exact iff_of_true rfl later

/-- A batch with quota for all terms is made of all that have failed. -/
theorem mem_takeOut_iff (h : Tried service deadline terms retries j asked l) {limit : Nat}
    (ample : terms.length ≤ limit) : t ∈ (l.takeOut .retry limit).1 ↔ t ∈ l.failed := by
  have front : (l.takeOut .retry limit).1 = l.rotation.take limit :=
    l.spendRetry.takeRetry_fst limit
  have few : l.rotation.length ≤ terms.length :=
    (l.nodup_rotation.subperm fun t ht => h.failed t (mem_rotation.mp ht)).length_le
  rw [front, List.take_of_length_le (Nat.le_trans few ample), mem_rotation]

theorem pass (h : Tried service deadline terms retries j asked l) {limit : Nat}
    {results : Results} (ample : terms.length ≤ limit) (room : 0 < limit) (busy : ¬ l.Idle .retry)
    (back : results.Perm (service.results deadline asked (l.takeOut .retry limit).1)) :
    Tried service deadline terms retries (j + 1)
      (fun t => asked t + (l.takeOut .retry limit).1.count t)
      ((l.takeOut .retry limit).2.merge results) := by
  have out := taken_takeOut h.sound room busy
  have mem_batch := fun t => h.mem_takeOut_iff ample (t := t)
  have once : ∀ {t}, t ∈ l.failed → (l.takeOut .retry limit).1.count t = 1 :=
    fun {t} failed => out.nodup.count.trans (if_pos ((mem_batch t).mpr failed))
  have never : ∀ {t}, t ∉ l.failed → (l.takeOut .retry limit).1.count t = 0 :=
    fun {t} other => List.count_eq_zero_of_not_mem (mt (mem_batch t).mp other)
  obtain ⟨passes, -⟩ := not_or.mp busy
  refine
    { sound := sound_merge out.sound results, spent := ?_, needed := ?_, searched := ?_
      stands := ?_, failed := ?_ }
  · have left : (l.takeOut .retry limit).2.retriesLeft = l.retriesLeft - 1 := rfl
    have spent := h.spent
    rw [merge_retriesLeft, left]
    omega
  · -- Some term is failed, and it has failed once more than there were passes.
    obtain ⟨t, failed⟩ := List.exists_mem_of_ne_nil _ out.nonempty
    rw [mem_batch t] at failed
    have ht := h.failed t failed
    have later := (h.mem_failed_iff ht).mp failed
    exact (succ_le_failures later).trans (failures_le_iSup ht)
  · intro t ht
    have searched := h.searched t ht
    rcases le_or_gt (failures service deadline t) j with soon | later
    · have other : t ∉ l.failed := mt (h.mem_failed_iff ht).mp soon.not_gt
      have soon' : failures service deadline t ≤ ((j + 1 : ℕ) : ℕ∞) :=
        soon.trans (Nat.cast_le.mpr (Nat.le_succ j))
      rw [never other, Nat.add_zero, searched, min_eq_left soon, min_eq_left soon']
    · have failed := (h.mem_failed_iff ht).mpr later
      rw [once failed, (h.of_lt ht later).1, min_eq_right (succ_le_failures later)]
      rfl
  · intro t ht n times
    by_cases failed : t ∈ l.failed
    · rw [once failed] at times
      rw [standing_back_of_mem out back ((mem_batch t).mpr failed), Nat.add_right_cancel times]
    · rw [never failed] at times
      rw [standing_back_of_not_mem out back (mt (mem_batch t).mp failed)]
      exact h.stands t ht n times
  · intro t failed
    by_cases hb : t ∈ (l.takeOut .retry limit).1
    · exact h.failed t ((mem_batch t).mp hb)
    · rw [Ledger.mem_failed_iff, standing_back_of_not_mem out back hb] at failed
      exact h.failed t (Ledger.mem_failed_iff.mpr failed)

/-- When a retry sweep has nothing left to do, the passes that were made come to the same as all the
retries would. -/
theorem stop_of_idle (h : Tried service deadline terms retries j asked l) (idle : l.Idle .retry) :
    j = retries ∨ ∀ t ∈ terms, failures service deadline t ≤ j := by
  have spent := h.spent
  refine idle.imp (fun none_left => by omega) fun none_failed t ht => not_lt.mp fun later => ?_
  have failed := (h.mem_failed_iff ht).mpr later
  rw [Std.ExtTreeSet.isEmpty_iff.mp none_failed] at failed
  exact Std.ExtTreeSet.not_mem_empty failed

theorem retriesLeft_eq (h : Tried service deadline terms retries j asked l)
    (stop : j = retries ∨ ∀ t ∈ terms, failures service deadline t ≤ j) :
    (l.retriesLeft : ℕ∞)
      = retries - min (retries : ℕ∞) (⨆ t ∈ terms, failures service deadline t) := by
  have spent := h.spent
  have passes : min (retries : ℕ∞) (⨆ t ∈ terms, failures service deadline t) = j := by
    rcases stop with rfl | all
    · exact min_eq_left h.needed
    · have most : ⨆ t ∈ terms, failures service deadline t = j :=
        le_antisymm (iSup₂_le all) h.needed
      rw [most]
      exact min_eq_right (Nat.cast_le.mpr (by omega))
  rw [passes, ← spent, ← ENat.natCast_sub, Nat.add_sub_cancel]

end Tried

/-! ## The whole census -/

/-- A retry sweep with ample quotas has made some number of passes over all failed terms, however it
ends. -/
theorem tried_retry {terms : List Term} {retries : Nat} (probes : List Probe) (run : Run)
    (ample : ∀ probe ∈ probes, Ample terms.length probe) {j : Nat}
    (h : Tried service pace.deadline terms retries j run.asked run.ledger) :
    ∃ j, Tried service pace.deadline terms retries j
      (phase .retry pace service probes run).run.asked
      (phase .retry pace service probes run).run.ledger := by
  have waits {run waited : Run} {j : Nat} (waiting : ReflTransGen Wait (ready .retry run) waited)
      (h : Tried service pace.deadline terms retries j run.asked run.ledger) :
      Tried service pace.deadline terms retries j waited.asked waited.ledger := by
    rw [ledger_eq_of_waits waiting, asked_eq_of_batches (batches_eq_of_waits waiting)]
    exact h
  induction probes, run using phase_rule .retry pace service generalizing j with
  | idle probes run finished => exact ⟨j, h⟩
  | granted probes run w waited rest busy awaited ih =>
    obtain ⟨room, -, -⟩ := sent_of_granted service busy awaited
    obtain ⟨enough, later⟩ := await_ample ample awaited room
    obtain ⟨results, back, asked, entered⟩ := entered_of_granted service busy awaited
    refine ih later (j := j + 1) ?_
    rw [asked, entered]
    exact h.pass enough room busy back
  | stopped probes run a ending busy awaited stop =>
    exact ⟨j, waits ((follows_of_await awaited).waits stop) h⟩

section Census

variable {terms : List Term} {retries : Nat} {began : Instant} {probes : List Probe}

theorem StandsByLast.standing_of_asked {run : Run} {t : Term} (h : StandsByLast pace service t run)
    {n : Nat} (asked : run.asked t = n + 1) :
    run.ledger.standing t = .of ((service.reply t n).outcomeBy pace.deadline) := by
  rw [h.standing, answers, asked, List.range_succ, List.map_append, List.map_singleton,
    List.getLast?_concat]
  rfl

/-- A completed primary sweep over distinct terms has searched for each of them once. -/
theorem tried_primary (distinct : terms.Nodup)
    (complete : (phase .primary pace service probes
      (.start (.start terms retries) began)).ending = .complete) :
    let run := (phase .primary pace service probes (.start (.start terms retries) began)).run
    Tried service pace.deadline terms retries 0 run.asked run.ledger := by
  intro run
  have swept : run = sweeps pace service [⟨.primary, probes⟩]
      (.start (.start terms retries) began) := rfl
  obtain ⟨sent, last, -, passes, left⟩ :=
    phase_passes .primary pace service probes (.start (.start terms retries) began)
  refine
    { sound := sound_phase .primary probes (sound_start terms retries), spent := ?_
      needed := ?_, searched := ?_, stands := ?_, failed := ?_ }
  · show run.ledger.retriesLeft = retries
    rw [left, retriesLeft_readied, passes.retriesLeft_primary]
    rfl
  · rw [Nat.cast_zero]
    exact zero_le
  · intro t ht
    rw [asked_eq_count, flatten_batches_of_nodup distinct complete,
      List.count_eq_one_of_mem distinct ht, Nat.cast_zero, min_zero]
    rfl
  · intro t _ n asked
    exact (swept ▸ standsByLast_swept _ t).standing_of_asked asked
  · intro t failed
    exact (entered_swept_iff complete swept t).mp (Or.inr failed)

/-- What a number of retries buys for a term. -/
structure Bought (pace : Pace) (service : Service) (retries : Nat) (run : Run) (t : Term) :
    Prop where
  asked : (run.asked t : ℕ∞) = min (failures service pace.deadline t) retries + 1
  counted : t ∈ run.ledger.counted ↔ failures service pace.deadline t ≤ retries
  count : ∀ n : Nat, failures service pace.deadline t = n → n ≤ retries →
    ∃ count incomplete, (service.reply t n).outcomeBy pace.deadline = .counted count incomplete
      ∧ run.ledger.counted[t]? = some count
  failed : t ∈ run.ledger.failed ↔ retries < failures service pace.deadline t
  reason : retries < failures service pace.deadline t →
    ∃ r, (service.reply t retries).outcomeBy pace.deadline = .failed r
      ∧ run.ledger.reasons[t]? = some r

theorem Tried.bought {j : Nat} {run : Run}
    (h : Tried service pace.deadline terms retries j run.asked run.ledger)
    (stop : j = retries ∨ ∀ t ∈ terms, failures service pace.deadline t ≤ j) {t : Term}
    (ht : t ∈ terms) : Bought pace service retries run t := by
  have within : (j : ℕ∞) ≤ retries := Nat.cast_le.mpr (by have := h.spent; omega)
  rcases le_or_gt (failures service pace.deadline t) j with soon | later
  · obtain ⟨n, count, incomplete, fails, outcome, stands⟩ := h.of_le ht soon
    have enough := soon.trans within
    refine ⟨?_, ?_, fun m again _ => ?_, ?_, fun late => absurd late enough.not_gt⟩
    · rw [h.searched t ht, min_eq_left soon, min_eq_left enough]
    · rw [mem_counted_iff, stands]
      exact iff_of_true rfl enough
    · rw [fails] at again
      obtain rfl := Nat.cast_inj.mp again
      exact ⟨count, incomplete, outcome, congrArg Standing.count stands⟩
    · rw [h.mem_failed_iff ht]
      exact iff_of_false soon.not_gt enough.not_gt
  · -- The term would have needed another pass, so there was none left to spend.
    obtain rfl := stop.resolve_right fun all => absurd later (all t ht).not_gt
    obtain ⟨-, r, outcome, stands⟩ := h.of_lt ht later
    refine ⟨h.searched t ht, ?_, fun m fails few => ?_, h.mem_failed_iff ht, fun _ => ?_⟩
    · rw [mem_counted_iff, stands]
      exact iff_of_false Bool.false_ne_true later.not_ge
    · rw [fails] at later
      exact absurd (Nat.cast_lt.mp later) few.not_gt
    · exact ⟨r, outcome, congrArg Standing.reason stands⟩

end Census

/-- With quotas that are large enough for all terms, a census that comes through its sweeps gives
each term one search and as many more as there are retries, until one counts it. Retries that no
term needs are left over. -/
theorem retries_buy_searches (terms : List Term) (distinct : terms.Nodup) (retries : Nat)
    (began : Instant) (pace : Pace) (service : Service) (probes : List Probe)
    (ample : ∀ probe ∈ probes, Ample terms.length probe)
    (done : (Survey.sweeps pace service probes (.start (.start terms retries) began)).1 = .ok ()) :
    let run := (Survey.sweeps pace service probes (.start (.start terms retries) began)).2
    (∀ t ∈ terms, Bought pace service retries run t)
      ∧ (run.ledger.retriesLeft : ℕ∞)
        = retries - min (retries : ℕ∞) (⨆ t ∈ terms, failures service pace.deadline t) := by
  intro run
  obtain ⟨first, second, last⟩ := complete_of_ok done
  have fresh := tried_primary distinct first
  obtain ⟨j, tried⟩ := tried_retry _ _ (ample_rest_of_complete .primary probes _ ample first) fresh
  have idle := idle_of_complete _ _ second
  have swept : (phase .retry pace service (phase .primary pace service probes
      (.start (.start terms retries) began)).rest (phase .primary pace service probes
      (.start (.start terms retries) began)).run).run = run := last.symm
  rw [swept] at tried idle
  have stop := tried.stop_of_idle idle
  exact ⟨fun t ht => tried.bought stop ht, tried.retriesLeft_eq stop⟩

/-- With two retries, "Zig" is counted by the second one and "C" never is. The last probe is left
over. -/
theorem retries_buy_searches_of_three_terms :
    let needs : Term → Nat := fun t => if t = "C" then 5 else if t = "Zig" then 2 else 0
    let service := Service.inOrder fun t n =>
      .now (if n < needs t then .failed .malformed else .counted (10 * n) false)
    let pace := Pace.ofDeadline (.ofSeconds 10)
    let outage : Probe := Probe.giving (.error (.badStatus 500 "down"))
    let finding (n : Nat) : Probe := Probe.giving (.ok ⟨n, .ofSeconds 0⟩)
    let probes := [finding 3, outage, finding 0, finding 4, finding 3, finding 3]
    let terms := ["Go", "C", "Zig"]
    let census := Survey.sweeps pace service probes (.start (.start terms 2) ⟨0⟩)
    terms.Nodup ∧ (∀ probe ∈ probes, Ample terms.length probe) ∧ census.1 = .ok ()
      ∧ batches census.2 = [["Go", "C", "Zig"], ["C", "Zig"], ["C", "Zig"]]
      ∧ census.2.ledger.retriesLeft = 0
      ∧ ∀ t ∈ terms, Bought pace service 2 census.2 t := by
  intro needs service pace outage finding probes terms census
  have distinct : terms.Nodup := by decide
  have of_outage : Ample terms.length outage := by
    intro now w answer
    cases answer
  have of_finding : ∀ n, n = 0 ∨ 3 ≤ n → Ample terms.length (finding n) := by
    intro n large now w answer
    cases answer
    exact large
  have ample : ∀ probe ∈ probes, Ample terms.length probe := by
    simp only [probes, List.forall_mem_cons]
    exact ⟨of_finding 3 (by decide), of_outage, of_finding 0 (by decide), of_finding 4 (by decide),
      of_finding 3 (by decide), of_finding 3 (by decide), by simp⟩
  have done : census.1 = .ok () := by decide +kernel
  have bought := retries_buy_searches terms distinct 2 ⟨0⟩ pace service probes ample done
  exact ⟨distinct, ample, done, by decide +kernel, by decide +kernel, bought.1⟩

end Sweep
end Census
