import Census.Proofs.Sweep.Advance
import Census.Proofs.Sweep.Probing
import Census.Proofs.Sweep.Walk
import Mathlib.Algebra.BigOperators.Group.List.Basic
import Mathlib.Data.List.Perm.Subperm
import Mathlib.Data.Stream.Init

/-!
# The primary sweep comes to an end

A sweep has no bound of its own: it goes on until nothing is left to do or a wait fails. Here the
probes are an endless stream, and all that is asked of it is that each wait for quota comes to an end
(`primary_halts`). Every round then takes at least one uncounted term off the pending ones and puts
none back, whatever its search comes to, so there are no more rounds than uncounted terms were
pending at first.

The measure is the number of pending terms after pruning. That is why the batch of a round is never
empty: pruned terms are uncounted, and quota that is granted is not nothing.
-/

namespace Census

namespace Ledger

variable {l : Ledger} {limit : Nat}

/-- What is taken and what is left are pending terms, and no two of them are the same one. -/
theorem takeOut_primary_subperm (l : Ledger) (limit : Nat) :
    ((l.takeOut .primary limit).1 ++ (l.takeOut .primary limit).2.pending).Subperm
      l.prune.pending := by
  refine List.subperm_iff_count.mpr fun t => ?_
  have places := gather_count_le l.counted limit [] l.prune.pending t
  rw [List.count_nil, Nat.zero_add] at places
  rw [List.count_append]
  exact places

theorem length_takeOut_primary_lt (room : 0 < limit) (busy : ¬ l.Idle .primary) :
    (l.takeOut .primary limit).2.pending.length < l.prune.pending.length := by
  have parts := (l.takeOut_primary_subperm limit).length_le
  have some_taken := List.length_pos_iff.mpr (takeOut_ne_nil room busy)
  rw [List.length_append] at parts
  omega

end Ledger

namespace Sweep

open Quota Ledger

/-! ## What goes out -/

/-- The terms that passes of the primary sweep send out are uncounted pending ones, each place of
which is used once at most. -/
theorem Passes.subperm_pending {service : Service} {deadline : Span} {asked : Term → Nat}
    {l last : Ledger} {sent : List (List Term)}
    (h : Passes .primary service deadline asked l sent last) :
    (sent.flatten ++ last.prune.pending).Subperm l.prune.pending := by
  induction h with
  | none asked l => exact List.Subperm.refl _
  | @pass asked l last sent results limit room busy back more ih =>
    have pruned : ((l.takeOut .primary limit).2.merge results).prune.pending.Subperm
        (l.takeOut .primary limit).2.pending := by
      rw [pending_prune, merge_pending]
      exact List.filter_sublist.subperm
    rw [List.flatten_cons, List.append_assoc]
    exact ((List.subperm_append_left _).mpr (ih.trans pruned)).trans
      (l.takeOut_primary_subperm limit)

/-! ## Rounds -/

variable {pace : Pace} {service : Service} {kind : Kind}

/-- The probes that a wait has used bring the same quota when there are no more. -/
theorem awaitFrom_granted_alone {backoff : Backoff} {probes rest : List Probe} {run waited : Run}
    {w : Window} (h : awaitFrom pace backoff probes run = .granted w waited rest) :
    ∃ used, probes = used ++ rest ∧ awaitFrom pace backoff used run = .granted w waited [] := by
  fun_induction awaitFrom pace backoff probes run with
  | case1 backoff run => cases h
  | case2 backoff probe tail run f failed missed last => cases h
  | case3 backoff probe tail run f failed missed delay later next ih =>
    obtain ⟨used, rfl, granted⟩ := ih h
    exact ⟨probe :: used, rfl, (awaitFrom_of_failure failed next).trans granted⟩
  | case4 backoff probe tail run found answer probed exhausted overflow => cases h
  | case5 backoff probe tail run found answer probed exhausted sleep slept ih =>
    obtain ⟨used, rfl, granted⟩ := ih h
    exact ⟨probe :: used, rfl, (awaitFrom_of_slept answer exhausted slept).trans granted⟩
  | case6 backoff probe tail run found answer probed left =>
    obtain ⟨rfl, rfl, rfl⟩ := Awaited.granted.inj h
    exact ⟨[probe], rfl, awaitFrom_of_left answer (eq_false_of_ne_true left)⟩

/-- The loop of a sweep comes to `loop`, where the probes `later` are still to be made. A round is a
wait that brings quota, and the pass after it. -/
inductive Reaches (kind : Kind) (pace : Pace) (service : Service) :
    Stream' Probe → Run → Stream' Probe → Run → Prop
  | here (probes : Stream' Probe) (run : Run) : Reaches kind pace service probes run probes run
  | round {probes later : Stream' Probe} {run waited loop : Run} {w : Window} (n : Nat)
      (busy : ¬ run.ledger.Idle kind)
      (granted : await pace (probes.take n) (ready kind run) = .granted w waited [])
      (more : Reaches kind pace service (probes.drop n) (pass kind pace service w waited) later
        loop) :
      Reaches kind pace service probes run later loop

/-- A sweep has come to an end after some of the probes, and those behind them make no difference. -/
def Halts (kind : Kind) (pace : Pace) (service : Service) (probes : Stream' Probe) (run : Run)
    (ending : Ending) (last : Run) : Prop :=
  ∃ n, ∀ m ≥ n, ∃ rest, phase kind pace service (probes.take m) run = ⟨ending, last, rest⟩

theorem take_add {α : Type} (s : Stream' α) (n m : Nat) :
    s.take (n + m) = s.take n ++ (s.drop n).take m := by
  induction n generalizing s with
  | zero => rw [Nat.zero_add, Stream'.take_zero, List.nil_append, Stream'.drop_zero]
  | succ n ih =>
    rw [Nat.succ_add, Stream'.take_succ, Stream'.take_succ, ih, Stream'.drop_succ, List.cons_append]

/-- A round of the primary sweep that found the pending terms of `loop`: a batch of some terms goes
out, and fewer terms are pending than before. -/
structure Shortens (pace : Pace) (service : Service) (loop : Run) (w : Window) (waited : Run) :
    Prop where
  some_taken : (waited.ledger.nextBatch w.batchLimit).1 ≠ []
  out : batches (primaryPass pace service w waited)
    = batches waited ++ [(waited.ledger.nextBatch w.batchLimit).1]
  pruned : waited.ledger.pending.length ≤ loop.ledger.pending.length
  shorter : (primaryPass pace service w waited).ledger.pending.length < waited.ledger.pending.length

theorem shortens_of_granted (service : Service) {probes rest : List Probe} {loop waited : Run}
    {w : Window} (busy : ¬ loop.ledger.Idle .primary)
    (awaited : await pace probes (ready .primary loop) = .granted w waited rest) :
    Shortens pace service loop w waited := by
  obtain ⟨before, waiting, rfl, room⟩ := follows_of_await awaited
  have same : (before.probe (some w.remaining)).ledger = loop.ledger.prune :=
    ledger_eq_of_waits waiting
  have some_taken := takeOut_ne_nil room busy
  have fewer := length_takeOut_primary_lt room busy
  rw [takeOut, ← same] at some_taken fewer
  have sent : Sent pace service (before.probe (some w.remaining)) _ _ _ :=
    primaryPass_sent some_taken
  refine ⟨some_taken, sent.batches_eq, ?_, by rwa [sent.pending_eq]⟩
  rw [same, pending_prune]
  exact List.length_filter_le _ _

/-- Every round has fewer uncounted terms pending than the one before it. -/
theorem uncounted_decreases (service : Service) {probes rest : List Probe} {run waited : Run}
    {w : Window} (busy : ¬ run.ledger.Idle .primary)
    (awaited : await pace probes (ready .primary run) = .granted w waited rest) :
    (pass .primary pace service w waited).ledger.prune.pending.length
      < run.ledger.prune.pending.length := by
  obtain ⟨room, -, sent⟩ := sent_of_granted service busy awaited
  have fewer := length_takeOut_primary_lt room busy
  rw [pending_prune, sent.pending_eq]
  exact Nat.lt_of_le_of_lt (List.length_filter_le _ _) fewer

/-- The wait before a round can be followed by any number of other probes. -/
theorem phase_of_granted {probes : List Probe} (more : List Probe) {run waited : Run} {w : Window}
    (busy : ¬ run.ledger.Idle kind)
    (granted : await pace probes (ready kind run) = .granted w waited []) :
    phase kind pace service (probes ++ more) run
      = phase kind pace service more (pass kind pace service w waited) := by
  have longer : await pace (probes ++ more) (ready kind run) = .granted w waited ([] ++ more) :=
    prolongs_of_await more granted
  rw [phase_of_busy _ busy, longer, List.nil_append]

theorem phase_of_gaveUp {probes rest : List Probe} (more : List Probe) {run stopped : Run}
    {f : ProbeFault} (busy : ¬ run.ledger.Idle kind)
    (gaveUp : await pace probes (ready kind run) = .gaveUp f stopped rest) :
    phase kind pace service (probes ++ more) run = ⟨.stopped f, stopped, rest ++ more⟩ :=
  phase_of_stopped service busy (prolongs_of_await more gaveUp) rfl

/-- The sweep goes on from `loop` as if it had begun there. -/
theorem Reaches.phase_take {probes later : Stream' Probe} {run loop : Run}
    (h : Reaches kind pace service probes run later loop) :
    ∃ n, later = probes.drop n ∧ ∀ m, phase kind pace service (probes.take (n + m)) run
      = phase kind pace service (later.take m) loop := by
  induction h with
  | here probes run => exact ⟨0, Stream'.drop_zero.symm, fun m => by rw [Nat.zero_add]⟩
  | round k busy granted _ ih =>
    obtain ⟨n, rfl, goes_on⟩ := ih
    refine ⟨k + n, Stream'.drop_drop _ _ _, fun m => ?_⟩
    rw [Nat.add_assoc, take_add, phase_of_granted _ busy granted, goes_on]

/-- Where the loop of a sweep ends, the sweep does. -/
theorem Reaches.halts {probes later : Stream' Probe} {run loop last : Run} {ending : Ending}
    (h : Reaches kind pace service probes run later loop)
    (halts : Halts kind pace service later loop ending last) :
    Halts kind pace service probes run ending last := by
  obtain ⟨k, halts⟩ := halts
  obtain ⟨n, -, goes_on⟩ := h.phase_take
  refine ⟨n + k, fun m enough => ?_⟩
  obtain ⟨j, rfl⟩ := Nat.exists_eq_add_of_le (Nat.le_of_add_right_le enough)
  rw [goes_on]
  exact halts j (Nat.le_of_add_le_add_left enough)

/-- A wait of the sweep fails in the end, and leaves `last`. -/
def GivesUp (kind : Kind) (pace : Pace) (service : Service) (probes : Stream' Probe) (run : Run)
    (f : ProbeFault) (last : Run) : Prop :=
  ∃ later loop n rest, Reaches kind pace service probes run later loop
    ∧ await pace (later.take n) (ready kind loop) = .gaveUp f last rest

/-- The wait of a round uses up some number of probes. -/
theorem exists_granted_alone {probes : Stream' Probe} {n : Nat} {rest : List Probe}
    {run waited : Run} {w : Window} (h : await pace (probes.take n) run = .granted w waited rest) :
    ∃ k, await pace (probes.take k) run = .granted w waited [] := by
  obtain ⟨used, split, granted⟩ := awaitFrom_granted_alone h
  have front : (probes.take n).take used.length = used := by rw [split, List.take_left]
  rw [Stream'.take_take] at front
  exact ⟨_, front ▸ granted⟩

/-- Rounds follow each other until nothing is left to do or a wait fails. -/
theorem exists_last_round (service : Service) (probes : Stream' Probe) (run : Run)
    (returns : ∀ later loop, Reaches .primary pace service probes run later loop →
      ¬ loop.ledger.Idle .primary →
        ∃ n, (await pace (later.take n) (ready .primary loop)).answer?.isSome) :
    ∃ later loop, Reaches .primary pace service probes run later loop
      ∧ (loop.ledger.Idle .primary
        ∨ ∃ n f last rest, ¬ loop.ledger.Idle .primary
          ∧ await pace (later.take n) (ready .primary loop) = .gaveUp f last rest) := by
  -- On the number of uncounted terms that are pending, of which every round takes some.
  induction size : run.ledger.prune.pending.length using Nat.strongRecOn
    generalizing probes run with
  | ind _ ih =>
    subst size
    rcases Classical.em (run.ledger.Idle .primary) with finished | busy
    · exact ⟨probes, run, .here probes run, .inl finished⟩
    obtain ⟨n, ended⟩ := returns probes run (.here probes run) busy
    cases awaited : await pace (probes.take n) (ready .primary run) with
    | unprobed stopped =>
      rw [awaited] at ended
      cases ended
    | overflowed w stopped rest =>
      rw [awaited] at ended
      cases ended
    | gaveUp f stopped rest =>
      exact ⟨probes, run, .here probes run, .inr ⟨n, f, stopped, rest, busy, awaited⟩⟩
    | granted w waited rest =>
      obtain ⟨k, granted⟩ := exists_granted_alone awaited
      obtain ⟨later, loop, reaches, last⟩ := ih _ (uncounted_decreases service busy granted)
        (probes.drop k) _ (fun later loop reaches => returns later loop
          (.round k busy granted reaches)) rfl
      exact ⟨later, loop, .round k busy granted reaches, last⟩

theorem exists_halts (service : Service) (probes : Stream' Probe) (run : Run)
    (returns : ∀ later loop, Reaches .primary pace service probes run later loop →
      ¬ loop.ledger.Idle .primary →
        ∃ n, (await pace (later.take n) (ready .primary loop)).answer?.isSome) :
    ∃ ending last, Halts .primary pace service probes run ending last
      ∧ (ending = .complete
        ∨ ∃ f, ending = .stopped f ∧ GivesUp .primary pace service probes run f last) := by
  obtain ⟨later, loop, reaches, finished | ⟨n, f, last, rest, busy, gaveUp⟩⟩ :=
    exists_last_round service probes run returns
  · exact ⟨_, _, reaches.halts ⟨0, fun m _ => ⟨_, phase_of_idle _ finished⟩⟩, .inl rfl⟩
  · refine ⟨.stopped f, last, reaches.halts ⟨n, fun m enough => ?_⟩,
      .inr ⟨f, rfl, later, loop, n, rest, reaches, gaveUp⟩⟩
    obtain ⟨j, rfl⟩ := Nat.exists_eq_add_of_le enough
    exact ⟨_, by rw [take_add, phase_of_gaveUp _ busy gaveUp]⟩

/-- When every wait for quota comes to an end, the primary sweep does, whatever the searches come to.
It has sent out uncounted pending terms only, and each place among them once at most, in no more
batches than there were such places. It is completed with nothing pending unless a wait has failed,
and none of its rounds was without a batch. -/
theorem primary_halts (pace : Pace) (service : Service) (probes : Stream' Probe) (run : Run)
    (returns : ∀ later loop, Reaches .primary pace service probes run later loop →
      ¬ loop.ledger.Idle .primary →
        ∃ n, (await pace (later.take n) (ready .primary loop)).answer?.isSome) :
    let uncounted := run.ledger.pending.filter fun t => !run.ledger.counted.contains t
    ∃ ending last sent, Halts .primary pace service probes run ending last
      ∧ batches last = batches run ++ sent
      ∧ sent.flatten.Subperm uncounted ∧ sent.length ≤ uncounted.length
      ∧ ((ending = .complete ∧ last.ledger.pending = [])
        ∨ ∃ f, ending = .stopped f ∧ GivesUp .primary pace service probes run f last)
      ∧ ∀ later loop, Reaches .primary pace service probes run later loop →
        ¬ loop.ledger.Idle .primary → ∀ n w waited rest,
          await pace (later.take n) (ready .primary loop) = .granted w waited rest →
          Shortens pace service loop w waited := by
  intro uncounted
  obtain ⟨ending, last, halts, ended⟩ := exists_halts service probes run returns
  obtain ⟨n, halted⟩ := id halts
  obtain ⟨rest, phase⟩ := halted n (Nat.le_refl n)
  obtain ⟨sent, final, went, passes, -⟩ := phase_passes .primary pace service (probes.take n) run
  rw [phase] at went
  have places : sent.flatten.Subperm uncounted :=
    (List.sublist_append_left _ _).subperm.trans passes.subperm_pending
  refine ⟨ending, last, sent, halts, went, places, ?_, ended.imp_left fun complete => ⟨complete, ?_⟩,
    fun later loop _ busy n w waited rest awaited => shortens_of_granted service busy awaited⟩
  · -- No batch is empty, so there are at most as many batches as terms in them.
    have filled : (sent.map List.length).length ≤ (sent.map List.length).sum := by
      refine List.length_le_sum_of_one_le _ fun size hs => ?_
      obtain ⟨batch, hb, rfl⟩ := List.mem_map.mp hs
      exact passes.nonempty batch hb
    rw [List.length_map, ← List.length_flatten] at filled
    exact Nat.le_trans filled places.length_le
  · have drained : (primary pace service (probes.take n) run).ending = .complete → _ :=
      pending_of_primary_complete (probes.take n) run
    rw [← Sweep.phase.eq_1, phase] at drained
    exact drained complete

/-- Windows that are exhausted and windows for one search take turns, each reset when it is found, a
counted term is pending, and another one is searched for in vain. -/
theorem primary_halts_when_searches_fail :
    let pace := Pace.ofDeadline (.ofSeconds 10)
    let service := Service.inOrder fun t _ =>
      .now (if t = "C" then .failed .malformed else .counted t.length false)
    let probes : Stream' Probe := fun k now => .ok ⟨k % 2, now⟩
    let ledger := Ledger.start ["Go", "Zig", "C", "Go", "C"] 0
    let run := Run.start { ledger with counted := ledger.counted.insert "Zig" 3 } ⟨0⟩
    batches (phase .primary pace service (probes.take 6) run).run = [["Go"], ["C"], ["C"]]
      ∧ (∀ later loop, Reaches .primary pace service probes run later loop →
        ¬ loop.ledger.Idle .primary →
          ∃ n, (await pace (later.take n) (ready .primary loop)).answer?.isSome)
      ∧ ∃ ending last sent, Halts .primary pace service probes run ending last
        ∧ batches last = batches run ++ sent ∧ sent.length ≤ 4 := by
  intro pace service probes ledger run
  have returns : ∀ later loop, Reaches .primary pace service probes run later loop →
      ¬ loop.ledger.Idle .primary →
        ∃ n, (await pace (later.take n) (ready .primary loop)).answer?.isSome := by
    intro later loop reaches _
    obtain ⟨k, rfl, -⟩ := reaches.phase_take
    -- Of two windows in a row one has something left.
    have two : (probes.drop k).take 2 = [probes k, probes (k + 1)] := by
      simp [Stream'.take_succ, Stream'.head, Stream'.get, Stream'.drop]
    refine ⟨2, ?_⟩
    rw [two, await]
    rcases Nat.mod_two_eq_zero_or_one k with even | odd
    · have odd : (k + 1) % 2 = 1 := by omega
      have slept (now : Instant) : pace.patience.sleep? now now = some _ :=
        Patience.sleep?_of_past (Int.le_refl _)
      have same (r : Run) : (r.probe (some 0)).now = r.now := rfl
      simp [probes, awaitFrom, Window.isExhausted, Awaited.answer?, even, odd, same, slept]
    · simp [probes, awaitFrom, Window.isExhausted, Awaited.answer?, odd]
  obtain ⟨ending, last, sent, halts, went, -, few, -⟩ :=
    primary_halts pace service probes run returns
  exact ⟨by decide +kernel, returns, ending, last, sent, halts, went, few⟩

end Sweep
end Census
