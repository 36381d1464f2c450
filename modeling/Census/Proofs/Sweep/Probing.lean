import Census.Proofs.Quota.Backoff
import Census.Proofs.Sweep.Resume
import Mathlib.Data.List.DropRight

/-!
# When a wait for quota ends

A wait goes on as long as every window is exhausted and can be slept through, and the failures in a
row are few enough to be followed by another probe (`Undecided`). It ends with the first call after
which this no longer holds, and with the answer to that call (`await_decides`): a window that is not
exhausted, the fault that is one too many, or a window for which there is no sleep.

The calls are those that the probes in front would answer, each after the sleep that is due after the
one before it. The induction goes over the probes with the calls so far as a parameter, and the
delays that are left to the loop are those of the list without as many as there are failures at the
end of these calls.
-/

namespace Census
namespace Sweep

open Quota Log

/-- A call of the probe, with its time on the clock of the run. -/
structure Call where
  time : Span
  answer : ProbeAnswer

namespace Call

def failed (c : Call) : Bool := !c.answer.isOk

def event (c : Call) : Event := .probed (c.answer.toOption.map Window.remaining) c.time

end Call

/-- How many failures in a row the calls end with. -/
def row (calls : List Call) : Nat := (calls.rtakeWhile Call.failed).length

/-- Nothing has ended the wait: every window was exhausted and slept through, and no more failures
than may be followed by another probe came one after the other. -/
structure Undecided (pace : Pace) (began : Instant) (calls : List Call) : Prop where
  slept : ∀ c ∈ calls, ∀ w, c.answer = .ok w → w.isExhausted = true
    ∧ (pace.patience.sleep? w.resetsAt (began.plus c.time)).isSome
  few : ∀ failures, failures <:+: calls → (∀ c ∈ failures, c.failed = true) →
    failures.length ≤ pace.reprobes

/-- The sleep that is due after a call, if there is one: until the reset of its window, or the delay
after as many failures in a row. -/
def due? (pace : Pace) (began : Instant) (before : List Call) (c : Call) : Option Span :=
  match c.answer with
  | .ok w => pace.patience.sleep? w.resetsAt (began.plus c.time)
  | .error _ => pace.backoff.delays[row before]?

/-- The probes answer the calls one by one. The first call is made right away, and as long as the
wait goes on the next one is made after the sleep that is due. -/
structure Paced (pace : Pace) (began : Instant) (start : Span) (probes : List Probe)
    (calls : List Call) : Prop where
  answers : List.Forall₂ (fun probe c => c.answer = probe (began.plus c.time)) probes calls
  first : ∀ c ∈ calls.head?, c.time = start
  next : ∀ before c d after, calls = before ++ c :: d :: after →
    Undecided pace began (before ++ [c]) →
      ∃ sleep, due? pace began before c = some sleep ∧ d.time = c.time + sleep

namespace Awaited

/-- What a wait returned. -/
def answer? : Awaited → Option ProbeAnswer
  | granted w _ _ => some (.ok w)
  | gaveUp f _ _ => some (.error f)
  | overflowed _ _ _ => none
  | unprobed _ => none

/-- The window for which there was no sleep. -/
def overflow? : Awaited → Option Window
  | overflowed w _ _ => some w
  | _ => none

/-- The answer to the last call, with which a wait ended. -/
def last? : Awaited → Option ProbeAnswer
  | granted w _ _ => some (.ok w)
  | gaveUp f _ _ => some (.error f)
  | overflowed w _ _ => some (.ok w)
  | unprobed _ => none

variable {waited : Awaited}

theorem probed_of_answer? {a : ProbeAnswer} (h : waited.answer? = some a) :
    waited.ending? ≠ some .unprobed := by
  cases waited with
  | unprobed run => cases h
  | overflowed w run rest => cases h
  | granted w run rest => simp [ending?]
  | gaveUp f run rest => simp [ending?]

theorem probed_of_overflow? {w : Window} (h : waited.overflow? = some w) :
    waited.ending? ≠ some .unprobed := by
  cases waited with
  | overflowed w run rest => simp [ending?]
  | granted w run rest => cases h
  | gaveUp f run rest => cases h
  | unprobed run => cases h

end Awaited

/-- The calls `made` are the first ones, they used up just their probes and were all that was done,
and the last of them was made when the wait ended and brought its answer. -/
structure Used (probes : List Probe) (run : Run) (waited : Awaited) (calls made : List Call) :
    Prop where
  first : made <+: calls
  rest : waited.rest = probes.drop made.length
  events : waited.run.events = (made.map Call.event).reverse ++ run.events
  last : ∀ a, waited.last? = some a → made.getLast? = some ⟨waited.run.elapsed, a⟩

/-! ## Failures in a row -/

variable {pace : Pace} {began : Instant} {before calls : List Call} {c : Call} {w : Window}
  {f : ProbeFault}

theorem row_concat_of_failed (failed : c.failed = true) : row (before ++ [c]) = row before + 1 := by
  rw [row, List.rtakeWhile_concat_pos _ _ _ failed, List.length_append]
  rfl

theorem row_concat_of_answered (answered : c.failed = false) : row (before ++ [c]) = 0 := by
  rw [row, List.rtakeWhile_concat_neg _ _ _ (by simp [answered])]
  rfl

theorem length_le_row {failures : List Call} (last : failures <:+ calls)
    (failed : ∀ c ∈ failures, c.failed = true) : failures.length ≤ row calls := by
  induction calls using List.reverseRecOn generalizing failures with
  | nil => simp [List.suffix_nil.mp last]
  | append_singleton calls c ih =>
    rcases List.suffix_concat_iff.mp last with rfl | ⟨earlier, rfl, in_front⟩
    · exact Nat.zero_le _
    · have here : c.failed = true := failed c (by simp)
      have others := ih in_front fun d hd => failed d (List.mem_append_left _ hd)
      rw [row_concat_of_failed here, List.length_append]
      exact Nat.succ_le_succ others

/-! ## What ends a wait -/

theorem undecided_nil (pace : Pace) (began : Instant) : Undecided pace began [] where
  slept := fun _ hc => absurd hc List.not_mem_nil
  few := fun failures part _ => by simp [List.infix_nil.mp part]

theorem Undecided.of_front (h : Undecided pace began calls) (first : before <+: calls) :
    Undecided pace began before where
  slept := fun c hc => h.slept c (first.subset hc)
  few := fun failures part => h.few failures (part.trans first.isInfix)

theorem Undecided.row_le (h : Undecided pace began calls) : row calls ≤ pace.reprobes :=
  h.few _ (List.rtakeWhile_suffix _ _).isInfix fun _ => List.mem_rtakeWhile_imp

theorem Undecided.concat (h : Undecided pace began before)
    (slept : ∀ w, c.answer = .ok w → w.isExhausted = true
      ∧ (pace.patience.sleep? w.resetsAt (began.plus c.time)).isSome)
    (room : c.failed = true → row before < pace.reprobes) :
    Undecided pace began (before ++ [c]) := by
  refine ⟨fun d hd w brought => ?_, fun failures part failed => ?_⟩
  · rcases List.mem_append.mp hd with earlier | here
    · exact h.slept d earlier w brought
    · rw [List.mem_singleton.mp here] at brought ⊢
      exact slept w brought
  · rcases List.infix_concat_iff.mp part with last | earlier
    · rcases List.suffix_concat_iff.mp last with rfl | ⟨others, rfl, in_front⟩
      · exact Nat.zero_le _
      · have bound := length_le_row in_front fun d hd => failed d (List.mem_append_left _ hd)
        have free := room (failed c (by simp))
        rw [List.length_append]
        show others.length + 1 ≤ pace.reprobes
        omega
    · exact h.few failures earlier failed

theorem Undecided.concat_ok_iff (h : Undecided pace began before) (answer : c.answer = .ok w) :
    Undecided pace began (before ++ [c]) ↔ w.isExhausted = true
      ∧ (pace.patience.sleep? w.resetsAt (began.plus c.time)).isSome := by
  constructor
  · intro still
    exact still.slept c (by simp) w answer
  · intro slept
    apply h.concat
    · intro v brought
      cases answer.symm.trans brought
      exact slept
    · intro failed
      rw [Call.failed, answer] at failed
      cases failed

theorem Undecided.concat_error_iff (h : Undecided pace began before)
    (answer : c.answer = .error f) :
    Undecided pace began (before ++ [c]) ↔ row before < pace.reprobes := by
  constructor
  · intro still
    have failed : c.failed = true := by rw [Call.failed, answer]; rfl
    have bound := still.row_le
    rw [row_concat_of_failed failed] at bound
    exact bound
  · intro room
    apply h.concat
    · intro w brought
      cases answer.symm.trans brought
    · intro _
      exact room

/-- The call that ends a wait. -/
def Decides (pace : Pace) (began : Instant) (before : List Call) (c : Call) : Prop :=
  Undecided pace began before ∧ ¬ Undecided pace began (before ++ [c])

theorem decides_of_left (h : Undecided pace began before) (answer : c.answer = .ok w)
    (left : w.isExhausted = false) : Decides pace began before c := by
  refine ⟨h, fun still => ?_⟩
  rw [((h.concat_ok_iff answer).mp still).1] at left
  cases left

theorem decides_of_overflow (h : Undecided pace began before) (answer : c.answer = .ok w)
    (overflow : pace.patience.sleep? w.resetsAt (began.plus c.time) = none) :
    Decides pace began before c := by
  refine ⟨h, fun still => ?_⟩
  have slept := ((h.concat_ok_iff answer).mp still).2
  rw [overflow] at slept
  cases slept

theorem decides_error_iff (answer : c.answer = .error f) :
    Decides pace began before c ↔ Undecided pace began before
      ∧ ∃ earlier failures, before = earlier ++ failures ∧ failures.length = pace.reprobes
        ∧ ∀ d ∈ failures, d.failed = true := by
  refine and_congr_right fun h => ?_
  rw [h.concat_error_iff answer, Nat.not_lt]
  constructor
  · intro full
    exact ⟨before.rdropWhile Call.failed, before.rtakeWhile Call.failed,
      (List.rdropWhile_append_rtakeWhile).symm, Nat.le_antisymm h.row_le full,
      fun _ => List.mem_rtakeWhile_imp⟩
  · rintro ⟨earlier, failures, rfl, enough, failed⟩
    rw [← enough]
    exact length_le_row (List.suffix_append earlier failures) failed

section Unique

variable {before' after after' : List Call} {c' : Call}

theorem Decides.length_le (h : Decides pace began before c) (h' : Decides pace began before' c')
    (same : before ++ c :: after = before' ++ c' :: after') : before'.length ≤ before.length := by
  by_contra! shorter
  have longer : before ++ [c] <+: before' := by
    apply List.prefix_of_prefix_length_le _ (List.prefix_append before' (c' :: after'))
    · rw [List.length_append]
      exact shorter
    · rw [← same, List.append_cons before c after]
      exact List.prefix_append _ _
  exact h.2 (h'.1.of_front longer)

/-- A wait is ended by one call only. -/
theorem Decides.unique (h : Decides pace began before c) (h' : Decides pace began before' c')
    (same : before ++ c :: after = before' ++ c' :: after') : before = before' ∧ c = c' := by
  have lengths : before.length = before'.length :=
    Nat.le_antisymm (h'.length_le h same.symm) (h.length_le h' same)
  obtain ⟨rfl, rest⟩ := List.append_inj same lengths
  exact ⟨rfl, (List.cons.inj rest).1⟩

end Unique

/-! ## The calls of a wait -/

/-- The calls from `time` on, after those `before`. A sleep that is not due is left out. -/
def schedule (pace : Pace) (began : Instant) : List Call → Span → List Probe → List Call
  | _, _, [] => []
  | before, time, probe :: rest =>
    let c : Call := ⟨time, probe (began.plus time)⟩
    c :: schedule pace began (before ++ [c]) (time + (due? pace began before c).getD .zero) rest

theorem schedule_answers (pace : Pace) (began : Instant) (before : List Call) (time : Span)
    (probes : List Probe) :
    List.Forall₂ (fun probe c => c.answer = probe (began.plus c.time)) probes
      (schedule pace began before time probes) := by
  induction probes generalizing before time with
  | nil => exact .nil
  | cons probe rest ih => exact .cons rfl (ih _ _)

theorem schedule_first {time : Span} {probes : List Probe}
    (h : c ∈ (schedule pace began before time probes).head?) : c.time = time := by
  cases probes with
  | nil => cases h
  | cons probe rest =>
    cases h
    rfl

/-- As long as the wait goes on, a sleep is due after each call. -/
theorem due?_of_undecided (h : Undecided pace began (before ++ [c])) :
    ∃ sleep, due? pace began before c = some sleep := by
  cases answer : c.answer with
  | ok w =>
    rw [due?, answer]
    exact Option.isSome_iff_exists.mp (h.slept c (by simp) w answer).2
  | error f =>
    have room := ((h.of_front (List.prefix_append _ _)).concat_error_iff answer).mp h
    have more : row before < pace.backoff.delays.length := by
      rw [Backoff.length_delays]
      exact room
    rw [due?, answer]
    exact ⟨_, List.getElem?_eq_getElem more⟩

theorem schedule_next {time : Span} {probes : List Probe}
    {front after : List Call} {d : Call}
    (split : schedule pace began before time probes = front ++ c :: d :: after)
    (still : Undecided pace began (before ++ front ++ [c])) :
    ∃ sleep, due? pace began (before ++ front) c = some sleep ∧ d.time = c.time + sleep := by
  induction probes generalizing before time front with
  | nil => simp [schedule] at split
  | cons probe rest ih =>
    rw [schedule] at split
    cases front with
    | nil =>
      rw [List.append_nil] at still ⊢
      obtain ⟨rfl, more⟩ := List.cons.inj split
      obtain ⟨sleep, due⟩ := due?_of_undecided still
      have time := schedule_first (c := d) (by rw [more]; rfl)
      rw [due] at time
      exact ⟨sleep, due, time⟩
    | cons c₀ front =>
      obtain ⟨rfl, more⟩ := List.cons.inj split
      rw [List.append_cons before _ front] at still ⊢
      exact ih more still

theorem schedule_paced (pace : Pace) (began : Instant) (start : Span) (probes : List Probe) :
    Paced pace began start probes (schedule pace began [] start probes) where
  answers := schedule_answers pace began [] start probes
  first := fun _ h => schedule_first h
  next := fun _ _ _ _ split still => schedule_next split still

/-! ## The loop -/

section Loop

variable {probe : Probe} {rest : List Probe} {run after : Run} {waited : Awaited}
  {made : List Call}

/-- The wait ended with this call, in the way that its answer calls for. -/
def Brings (pace : Pace) (began : Instant) (c : Call) : Awaited → Prop
  | .granted w _ _ => c.answer = .ok w ∧ w.isExhausted = false
  | .gaveUp f _ _ => c.answer = .error f
  | .overflowed w _ _ => c.answer = .ok w ∧ w.isExhausted = true
      ∧ pace.patience.sleep? w.resetsAt (began.plus c.time) = none
  | .unprobed _ => False

section Brings

variable (h : Brings pace began c waited)

include h

theorem Brings.last?_eq : waited.last? = some c.answer := by
  cases waited with
  | granted w run rest => exact congrArg some h.1.symm
  | gaveUp f run rest => exact congrArg some (Eq.symm h)
  | overflowed w run rest => exact congrArg some h.1.symm
  | unprobed run => exact h.elim

theorem Brings.probed : waited.ending? ≠ some .unprobed := by
  cases waited with
  | unprobed run => exact h.elim
  | granted w run rest => simp [Awaited.ending?]
  | gaveUp f run rest => simp [Awaited.ending?]
  | overflowed w run rest => simp [Awaited.ending?]

theorem Brings.answer?_eq_ok_iff :
    waited.answer? = some (.ok w) ↔ c.answer = .ok w ∧ w.isExhausted = false := by
  cases waited with
  | granted v run rest =>
    obtain ⟨answer, left⟩ := h
    rw [answer]
    constructor
    · intro same
      cases same
      exact ⟨rfl, left⟩
    · rintro ⟨same, -⟩
      exact congrArg some same
  | gaveUp f run rest => simp [Awaited.answer?, show c.answer = .error f from h]
  | overflowed v run rest =>
    obtain ⟨answer, exhausted, -⟩ := h
    rw [answer]
    refine iff_of_false (by simp [Awaited.answer?]) ?_
    rintro ⟨same, left⟩
    cases same
    rw [exhausted] at left
    cases left
  | unprobed run => exact h.elim

theorem Brings.answer?_eq_error_iff :
    waited.answer? = some (.error f) ↔ c.answer = .error f := by
  cases waited with
  | granted w run rest => simp [Awaited.answer?, h.1]
  | gaveUp g run rest => simp [Awaited.answer?, show c.answer = .error g from h]
  | overflowed w run rest => simp [Awaited.answer?, h.1]
  | unprobed run => exact h.elim

theorem Brings.overflow?_eq_some_iff :
    waited.overflow? = some w ↔ c.answer = .ok w ∧ w.isExhausted = true
      ∧ pace.patience.sleep? w.resetsAt (began.plus c.time) = none := by
  cases waited with
  | granted v run rest =>
    obtain ⟨answer, left⟩ := h
    rw [answer]
    refine iff_of_false (by simp [Awaited.overflow?]) ?_
    rintro ⟨same, exhausted, -⟩
    cases same
    rw [left] at exhausted
    cases exhausted
  | gaveUp f run rest => simp [Awaited.overflow?, show c.answer = .error f from h]
  | overflowed v run rest =>
    obtain ⟨answer, overflow⟩ := h
    rw [answer]
    constructor
    · intro same
      cases same
      exact ⟨rfl, overflow⟩
    · rintro ⟨same, -⟩
      cases same
      rfl
  | unprobed run => exact h.elim

end Brings

/-- The wait ends with the call that decides it, or goes through all calls without one. -/
def Ends (pace : Pace) (began : Instant) (before : List Call) (waited : Awaited)
    (calls made : List Call) : Prop :=
  (waited.ending? = some .unprobed ∧ made = calls ∧ Undecided pace began (before ++ calls))
    ∨ ∃ front c, made = front ++ [c] ∧ Brings pace began c waited
      ∧ Decides pace began (before ++ front) c

/-- A call is in front of the wait after it. -/
theorem wait_goes_on (events : after.events = c.event :: run.events)
    (later : ∃ made, Used rest after waited calls made
      ∧ Ends pace began (before ++ [c]) waited calls made) :
    ∃ made, Used (probe :: rest) run waited (c :: calls) made
      ∧ Ends pace began before waited (c :: calls) made := by
  obtain ⟨made, used, ends⟩ := later
  refine ⟨c :: made, ⟨List.cons_prefix_cons.mpr ⟨rfl, used.first⟩, used.rest, ?_, ?_⟩, ?_⟩
  · rw [used.events, events, List.map_cons, List.reverse_cons, List.append_assoc]
    rfl
  · intro a answer
    rw [List.getLast?_cons, used.last a answer]
    rfl
  · rcases ends with ⟨open_end, rfl, still⟩ | ⟨front, d, rfl, brings, decides⟩
    · rw [← List.append_cons] at still
      exact Or.inl ⟨open_end, rfl, still⟩
    · rw [← List.append_cons] at decides
      exact Or.inr ⟨c :: front, d, rfl, brings, decides⟩

/-- A call that decides is the only one. -/
theorem wait_ends (decides : Decides pace began before c) (calls : List Call)
    (left : waited.rest = rest) (events : waited.run.events = c.event :: run.events)
    (brings : Brings pace began c waited) (time : waited.run.elapsed = c.time) :
    ∃ made, Used (probe :: rest) run waited (c :: calls) made
      ∧ Ends pace began before waited (c :: calls) made := by
  refine ⟨[c], ⟨List.cons_prefix_cons.mpr ⟨rfl, List.nil_prefix⟩, left, events, ?_⟩,
    Or.inr ⟨[], c, rfl, brings, ?_⟩⟩
  · intro a h
    rw [Option.some.inj (h.symm.trans brings.last?_eq), time]
    rfl
  · rw [List.append_nil]
    exact decides

section Delays

variable {b later : Backoff} {delay : Span}
  (left : b.delays = pace.backoff.delays.drop (row before))

include left

theorem next?_eq_none_iff_row : b.next? = none ↔ pace.reprobes ≤ row before := by
  rw [Backoff.next?_eq_none_iff, left, List.drop_eq_nil_iff, Backoff.length_delays]
  rfl

/-- After a failure that may be followed by another probe the loop takes the delay that is due. -/
theorem delay_due (next : b.next? = some (delay, later)) (began : Instant)
    (answer : c.answer = .error f) :
    due? pace began before c = some delay
      ∧ later.delays = pace.backoff.delays.drop (row (before ++ [c])) := by
  have failed : c.failed = true := by rw [Call.failed, answer]; rfl
  rw [Backoff.delays_of_next? next] at left
  constructor
  · rw [due?, answer]
    show pace.backoff.delays[row before]? = some delay
    rw [← List.head?_drop, ← left]
    rfl
  · rw [row_concat_of_failed failed, ← List.tail_drop, ← left]
    rfl

end Delays

theorem awaitFrom_used (pace : Pace) {b : Backoff} (probes : List Probe) (run : Run)
    (undecided : Undecided pace run.began before)
    (left : b.delays = pace.backoff.delays.drop (row before)) :
    ∃ made, Used probes run (awaitFrom pace b probes run)
        (schedule pace run.began before run.elapsed probes) made
      ∧ Ends pace run.began before (awaitFrom pace b probes run)
        (schedule pace run.began before run.elapsed probes) made := by
  induction probes generalizing before b run with
  | nil =>
    refine ⟨[], ⟨List.prefix_rfl, rfl, rfl, fun a h => by cases h⟩, Or.inl ⟨rfl, rfl, ?_⟩⟩
    rw [schedule, List.append_nil]
    exact undecided
  | cons probe rest ih =>
    simp only [schedule]
    generalize call : (⟨run.elapsed, probe (run.began.plus run.elapsed)⟩ : Call) = c
    have time : c.time = run.elapsed := by rw [← call]
    have brought : c.answer = probe run.now := by rw [← call]; rfl
    cases answer : probe run.now with
    | error f =>
      rw [answer] at brought
      have event : c.event = .probed none run.elapsed := by rw [Call.event, brought, time]; rfl
      cases next : b.next? with
      | none =>
        have full := (next?_eq_none_iff_row left).mp next
        have decides : Decides pace run.began before c := by
          refine ⟨undecided, ?_⟩
          rw [undecided.concat_error_iff brought, Nat.not_lt]
          exact full
        rw [awaitFrom_of_last_failure answer next]
        exact wait_ends decides _ rfl (by rw [event]; rfl) brought time.symm
      | some pair =>
        obtain ⟨delay, later⟩ := pair
        have more : row before < pace.reprobes := by
          rw [← Nat.not_le, ← next?_eq_none_iff_row left, next]
          exact Option.some_ne_none _
        obtain ⟨due, later_left⟩ := delay_due left next run.began brought
        rw [awaitFrom_of_failure answer next, due]
        exact wait_goes_on (by rw [event]; rfl)
          (ih (((run.probe none).say [noteProbeFault f]).rest delay)
            ((undecided.concat_error_iff brought).mpr more) later_left)
    | ok w =>
      rw [answer] at brought
      have event : c.event = .probed (some w.remaining) run.elapsed := by
        rw [Call.event, brought, time]
        rfl
      have here : run.began.plus c.time = run.now := by rw [time]; rfl
      by_cases exhausted : w.isExhausted = true
      · cases slept : pace.patience.sleep? w.resetsAt run.now with
        | none =>
          rw [awaitFrom_of_overflow answer exhausted slept]
          rw [← here] at slept
          exact wait_ends (decides_of_overflow undecided brought slept) _ rfl (by rw [event]; rfl)
            ⟨brought, exhausted, slept⟩ time.symm
        | some sleep =>
          have due : due? pace run.began before c = some sleep := by
            rw [due?, brought, ← slept, ← here]
          -- An answer starts the delays anew, whatever the row of failures in front of it was.
          have answered : c.failed = false := by rw [Call.failed, brought]; rfl
          have anew : pace.backoff.delays = pace.backoff.delays.drop (row (before ++ [c])) := by
            rw [row_concat_of_answered answered]
            rfl
          rw [awaitFrom_of_slept answer exhausted slept, due]
          rw [← here] at slept
          have still : Undecided pace run.began (before ++ [c]) :=
            (undecided.concat_ok_iff brought).mpr ⟨exhausted, Option.isSome_of_eq_some slept⟩
          exact wait_goes_on (by rw [event]; rfl)
            (ih (((run.probe (some w.remaining)).say [noteExhausted w sleep]).rest sleep) still anew)
      · have some_left := eq_false_of_ne_true exhausted
        rw [awaitFrom_of_left answer some_left]
        exact wait_ends (decides_of_left undecided brought some_left) _ rfl (by rw [event]; rfl)
          ⟨brought, some_left⟩ time.symm

/-! ## The end -/

variable (ends : Ends pace began [] waited calls made)

include ends

/-- Where a call decides, the wait has ended with it. -/
theorem brings_of_decides (first : made <+: calls) {after : List Call}
    (split : calls = before ++ c :: after) (decides : Decides pace began before c) :
    Brings pace began c waited := by
  subst split
  rcases ends with ⟨-, -, still⟩ | ⟨front, last, rfl, brings, also⟩
  · rw [List.nil_append, List.append_cons] at still
    exact absurd (still.of_front (List.prefix_append _ _)) decides.2
  · obtain ⟨rest, same⟩ := first
    rw [← List.append_cons] at same
    rw [List.nil_append] at also
    rw [← (also.unique decides same).2]
    exact brings

/-- What a call that decides brings is what the wait comes to. -/
theorem comes_to_iff (first : made <+: calls) {outcome : Prop} {brought : Call → Prop}
    (probed : outcome → waited.ending? ≠ some .unprobed)
    (same : ∀ c, Brings pace began c waited → (outcome ↔ brought c)) :
    outcome ↔ ∃ before c after, calls = before ++ c :: after ∧ brought c
      ∧ Decides pace began before c := by
  constructor
  · intro h
    rcases ends with ⟨open_end, -, -⟩ | ⟨front, c, rfl, brings, decides⟩
    · exact absurd open_end (probed h)
    · obtain ⟨rest, rfl⟩ := first
      rw [List.nil_append] at decides
      exact ⟨front, c, rest, (List.append_cons _ _ _).symm, (same c brings).mp h, decides⟩
  · rintro ⟨before, c, after, split, h, decides⟩
    exact (same c (brings_of_decides ends first split decides)).mpr h

theorem answer?_eq_ok_iff (first : made <+: calls) :
    waited.answer? = some (.ok w) ↔ ∃ before c after, calls = before ++ c :: after
      ∧ c.answer = .ok w ∧ w.isExhausted = false ∧ Undecided pace began before := by
  rw [comes_to_iff ends first Awaited.probed_of_answer? fun _ brings => brings.answer?_eq_ok_iff]
  constructor
  · rintro ⟨before, c, after, split, ⟨answer, left⟩, decides⟩
    exact ⟨before, c, after, split, answer, left, decides.1⟩
  · rintro ⟨before, c, after, split, answer, left, still⟩
    exact ⟨before, c, after, split, ⟨answer, left⟩, decides_of_left still answer left⟩

theorem answer?_eq_error_iff (first : made <+: calls) :
    waited.answer? = some (.error f) ↔ ∃ before c after, calls = before ++ c :: after
      ∧ c.answer = .error f ∧ Decides pace began before c :=
  comes_to_iff ends first Awaited.probed_of_answer? fun _ brings => brings.answer?_eq_error_iff

theorem overflow?_eq_some_iff (first : made <+: calls) :
    waited.overflow? = some w ↔ ∃ before c after, calls = before ++ c :: after
      ∧ c.answer = .ok w ∧ w.isExhausted = true
      ∧ pace.patience.sleep? w.resetsAt (began.plus c.time) = none
      ∧ Undecided pace began before := by
  rw [comes_to_iff ends first Awaited.probed_of_overflow? fun _ brings => brings.overflow?_eq_some_iff]
  constructor
  · rintro ⟨before, c, after, split, ⟨answer, exhausted, overflow⟩, decides⟩
    exact ⟨before, c, after, split, answer, exhausted, overflow, decides.1⟩
  · rintro ⟨before, c, after, split, answer, exhausted, overflow, still⟩
    exact ⟨before, c, after, split, ⟨answer, exhausted, overflow⟩,
      decides_of_overflow still answer overflow⟩

theorem unprobed_iff (first : made <+: calls) :
    waited.ending? = some .unprobed ↔ Undecided pace began calls := by
  rcases ends with ⟨open_end, -, still⟩ | ⟨front, last, rfl, brings, decides⟩
  · exact iff_of_true open_end still
  · exact iff_of_false brings.probed fun still => decides.2 (still.of_front first)

theorem made_iff (first : made <+: calls) {after : List Call}
    (split : calls = before ++ c :: after) :
    before.length < made.length ↔ Undecided pace began before := by
  subst split
  rcases ends with ⟨-, rfl, still⟩ | ⟨front, last, rfl, -, decides⟩
  · refine iff_of_true (by simp) ?_
    exact still.of_front (List.prefix_append _ _)
  · have in_front := List.prefix_append before (c :: after)
    constructor
    · intro short
      rw [List.length_append] at short
      have shorter : before <+: front :=
        List.prefix_of_prefix_length_le in_front ((List.prefix_append _ _).trans first)
          (Nat.le_of_lt_succ short)
      exact decides.1.of_front shorter
    · intro still
      by_contra! long
      exact decides.2 (still.of_front (List.prefix_of_prefix_length_le first in_front long))

end Loop

/-- A wait ends as it should, as long as there is a sleep for each window. The calls that the probes
would answer, with the sleep that is due between any two of them, tell how: with the first window that
is not exhausted unless too many failures in a row come before it, with the last of those failures if
they do, and not yet if there is neither. A window that is exhausted and has no sleep, because the
time until its reset and the grace are out of range together, breaks the wait off. Only the calls up
to the one that decides are made. -/
theorem await_decides (pace : Pace) (probes : List Probe) (run : Run) :
    ∃ calls made, Paced pace run.began run.elapsed probes calls
      ∧ (∀ w, (await pace probes run).answer? = some (.ok w)
        ↔ ∃ before c after, calls = before ++ c :: after ∧ c.answer = .ok w
          ∧ w.isExhausted = false ∧ Undecided pace run.began before)
      ∧ (∀ f, (await pace probes run).answer? = some (.error f)
        ↔ ∃ before failures c after, calls = before ++ failures ++ c :: after
          ∧ c.answer = .error f ∧ failures.length = pace.reprobes
          ∧ (∀ d ∈ failures, d.failed = true) ∧ Undecided pace run.began (before ++ failures))
      ∧ (∀ w, (await pace probes run).overflow? = some w
        ↔ ∃ before c after, calls = before ++ c :: after ∧ c.answer = .ok w
          ∧ w.isExhausted = true
          ∧ pace.patience.sleep? w.resetsAt (run.began.plus c.time) = none
          ∧ Undecided pace run.began before)
      ∧ ((await pace probes run).ending? = some .unprobed ↔ Undecided pace run.began calls)
      ∧ Used probes run (await pace probes run) calls made
      ∧ ∀ before c after, calls = before ++ c :: after →
        (before.length < made.length ↔ Undecided pace run.began before) := by
  obtain ⟨made, used, ends⟩ :=
    awaitFrom_used pace (b := pace.backoff) probes run (undecided_nil pace run.began) rfl
  refine ⟨_, made, schedule_paced pace run.began run.elapsed probes,
    fun w => answer?_eq_ok_iff ends used.first, fun f => ?_,
    fun w => overflow?_eq_some_iff ends used.first, unprobed_iff ends used.first, used,
    fun _ _ _ => made_iff ends used.first⟩
  rw [await, answer?_eq_error_iff ends used.first]
  constructor
  · rintro ⟨before, c, after, split, answer, decides⟩
    obtain ⟨still, earlier, failures, rfl, enough, failed⟩ := (decides_error_iff answer).mp decides
    exact ⟨earlier, failures, c, after, split, answer, enough, failed, still⟩
  · rintro ⟨earlier, failures, c, after, split, answer, enough, failed, still⟩
    exact ⟨earlier ++ failures, c, after, split, answer,
      (decides_error_iff answer).mpr ⟨still, earlier, failures, rfl, enough, failed⟩⟩

/-- With the longest grace there is, the sleep until a reset half a minute ahead is out of range, so the
wait breaks off in front of a window with searches left, although no probe has failed. -/
theorem await_breaks_off_with_longest_grace :
    let patience : Patience := { Patience.standard with grace := ⟨Span.limit.nanos - 1⟩ }
    let pace : Pace := { Pace.ofDeadline (.ofSeconds 10) with patience }
    let exhausted : Window := ⟨0, .ofSeconds 30⟩
    let free : Window := ⟨5, .ofSeconds 30⟩
    let probes := [Probe.giving (.ok exhausted), Probe.giving (.ok free)]
    let run := Run.start (.start ["Go"] 0) ⟨0⟩
    exhausted.isExhausted = true ∧ free.isExhausted = false
      ∧ patience.sleep? exhausted.resetsAt run.now = none
      ∧ (await pace probes run).overflow? = some exhausted
      ∧ (await pace probes run).answer? ≠ some (.ok free) := by
  intro patience pace exhausted free probes run
  have overflow : patience.sleep? exhausted.resetsAt run.now = none := by decide +kernel
  have broken : await pace probes run
      = .overflowed exhausted (run.probe (some 0)) [Probe.giving (.ok free)] :=
    awaitFrom_of_overflow rfl rfl overflow
  rw [broken]
  exact ⟨rfl, rfl, overflow, rfl, (Option.some_ne_none _).symm⟩

end Sweep
end Census
