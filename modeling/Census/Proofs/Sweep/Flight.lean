import Census.Sweep.Run
import Mathlib.Data.ENat.Lattice
import Mathlib.Data.List.OfFn
import Mathlib.Logic.Relation
import Mathlib.Order.CompletePartialOrder

/-!
# Batches in flight

The searches of a batch are out side by side. Each of them comes back with its answer once that is
due, or with a failure at the deadline, and time only passes while none can come back
(`Flight.Step`). This says nothing of a result for the batch; what a run enters for it, and by how
much its clock moves, is what every course of the flight comes to (`fetch_of_batch`).

One step keeps the results that are back and those to come together those of the batch, and keeps
the end of the flight where it was (`Aloft`).
-/

namespace Census
namespace Sweep

open Relation

variable {deadline : Span}

/-! ## One search -/

namespace Reply

variable {r : Reply} {o : Outcome} {now : Span}

/-- When the answer is due, if there ever is one. -/
def due (r : Reply) : ℕ∞ :=
  match r.outcome with
  | some _ => r.delay.nanos
  | none => ⊤

/-- What a search that has been out for some time can come back with. The deadline counts only as
long as the answer is not there. -/
inductive Ready (deadline now : Span) (r : Reply) : Outcome → Prop
  | answered {o : Outcome} (answer : r.outcome = some o) (arrived : r.delay ≤ now) :
      Ready deadline now r o
  | timedOut (missing : ∀ o, r.outcome = some o → now < r.delay) (expired : deadline ≤ now) :
      Ready deadline now r (.failed .other)

theorem waitedFor_eq_min (r : Reply) (deadline : Span) :
    ((r.waitedFor deadline).nanos : ℕ∞) = min r.due deadline.nanos := by
  rw [waitedFor, due]
  cases r.outcome with
  | none => exact (min_eq_right le_top).symm
  | some o => exact Nat.mono_cast.map_min

theorem waitedFor_le (r : Reply) (deadline : Span) : r.waitedFor deadline ≤ deadline := by
  rw [waitedFor]
  cases r.outcome with
  | none => exact Nat.le_refl deadline.nanos
  | some o => exact Nat.min_le_right r.delay.nanos deadline.nanos

theorem outcomeBy_of_answer (answer : r.outcome = some o) (arrived : r.delay ≤ deadline) :
    r.outcomeBy deadline = o := by
  simp only [outcomeBy, answer, if_pos arrived]

theorem outcomeBy_of_missing (missing : ∀ o, r.outcome = some o → deadline < r.delay) :
    r.outcomeBy deadline = .failed .other := by
  rw [outcomeBy]
  cases answer : r.outcome with
  | none => rfl
  | some o => exact if_neg (Nat.not_le_of_gt (missing o answer))

theorem waitedFor_of_answer (answer : r.outcome = some o) :
    (r.waitedFor deadline).nanos = min r.delay.nanos deadline.nanos := by
  simp only [waitedFor, answer, Span.nanos_shorter]

theorem exists_ready (waited : r.waitedFor deadline ≤ now) : ∃ o, Ready deadline now r o := by
  by_cases arrived : ∃ o, r.outcome = some o ∧ r.delay ≤ now
  · obtain ⟨o, answer, arrived⟩ := arrived
    exact ⟨o, .answered answer arrived⟩
  · have missing : ∀ o, r.outcome = some o → now < r.delay :=
      fun o answer => Nat.lt_of_not_le fun early => arrived ⟨o, answer, early⟩
    refine ⟨_, .timedOut missing ?_⟩
    cases answer : r.outcome with
    | none =>
      rw [waitedFor, answer] at waited
      exact waited
    | some o =>
      have later : now.nanos < r.delay.nanos := missing o answer
      have waited : (r.waitedFor deadline).nanos ≤ now.nanos := waited
      rw [waitedFor_of_answer answer] at waited
      show deadline.nanos ≤ now.nanos
      omega

theorem Ready.waited (h : Ready deadline now r o) : r.waitedFor deadline ≤ now := by
  cases h with
  | answered answer arrived =>
    show (r.waitedFor deadline).nanos ≤ now.nanos
    rw [waitedFor_of_answer answer]
    exact Nat.le_trans (Nat.min_le_left _ _) arrived
  | timedOut missing expired => exact Nat.le_trans (r.waitedFor_le deadline) expired

/-- A search that comes back as soon as it can comes back with the outcome at the deadline. -/
theorem Ready.eq_outcomeBy (h : Ready deadline now r o) (early : now ≤ r.waitedFor deadline) :
    o = r.outcomeBy deadline := by
  have in_time : now ≤ deadline := Nat.le_trans early (r.waitedFor_le deadline)
  cases h with
  | answered answer arrived =>
    exact (outcomeBy_of_answer answer (Nat.le_trans arrived in_time)).symm
  | timedOut missing expired =>
    exact (outcomeBy_of_missing fun o answer => Nat.lt_of_le_of_lt expired (missing o answer)).symm

end Reply

/-! ## The flight -/

/-- A batch that is out: for how long, the searches that are not back, and the results of those that
are, in the order in which they came. -/
structure Flight where
  clock : Span
  out : List (Term × Reply)
  back : Results

namespace Flight

/-- A search comes back, or time passes up to the next instant at which one can. -/
inductive Step (deadline : Span) : Flight → Flight → Prop
  | back {clock : Span} {l m : List (Term × Reply)} {back : Results} {t : Term} {r : Reply}
      {o : Outcome} (ready : r.Ready deadline clock o) :
      Step deadline ⟨clock, l ++ (t, r) :: m, back⟩ ⟨clock, l ++ m, back ++ [(t, o)]⟩
  | wait {clock : Span} {out : List (Term × Reply)} {back : Results} (d : Span)
      (passes : 0 < d.nanos) (busy : out ≠ [])
      (none_ready : ∀ x ∈ out, ∀ now < clock + d, ∀ o, ¬ x.2.Ready deadline now o) :
      Step deadline ⟨clock, out, back⟩ ⟨clock + d, out, back⟩

/-- The result of a search. -/
def judged (deadline : Span) (x : Term × Reply) : Term × Outcome := (x.1, x.2.outcomeBy deadline)

/-- The batch `all` is on its way, to be back when it has been out for `d`. -/
structure Aloft (deadline : Span) (all : List (Term × Reply)) (d : Span) (s : Flight) : Prop where
  results : (s.back ++ s.out.map (judged deadline)).Perm (all.map (judged deadline))
  early : ∀ x ∈ s.out, s.clock ≤ x.2.waitedFor deadline
  within : ∀ x ∈ s.out, x.2.waitedFor deadline ≤ d
  behind : s.clock ≤ d
  last : s.clock = d ∨ ∃ x ∈ s.out, x.2.waitedFor deadline = d

variable {all : List (Term × Reply)} {d : Span} {s s' : Flight}

theorem lt_waitedFor_of_none_ready {r : Reply} {clock d : Span}
    (none_ready : ∀ now < clock + d, ∀ o, ¬ r.Ready deadline now o) :
    clock + d ≤ r.waitedFor deadline := by
  apply Nat.le_of_not_lt
  intro sooner
  obtain ⟨o, ready⟩ := Reply.exists_ready (Nat.le_refl (r.waitedFor deadline).nanos)
  exact none_ready _ sooner o ready

theorem Aloft.step (h : Aloft deadline all d s) (step : Step deadline s s') :
    Aloft deadline all d s' := by
  cases step with
  | @back clock l m back t r o ready =>
    have here : (t, r) ∈ l ++ (t, r) :: m := by simp
    have others : ∀ x ∈ l ++ m, x ∈ l ++ (t, r) :: m := by
      intro x hx
      rw [List.mem_append, List.mem_cons]
      rcases List.mem_append.mp hx with hx | hx
      · exact Or.inl hx
      · exact Or.inr (Or.inr hx)
    have outcome : judged deadline (t, r) = (t, o) := by
      rw [judged, ready.eq_outcomeBy (h.early _ here)]
    refine ⟨?_, fun x hx => h.early x (others x hx), fun x hx => h.within x (others x hx),
      h.behind, ?_⟩
    · refine List.Perm.trans ?_ h.results
      rw [List.append_assoc, List.map_append, List.map_append, List.map_cons, outcome]
      show (back ++ (t, o) :: (l.map (judged deadline) ++ m.map (judged deadline))).Perm
        (back ++ (l.map (judged deadline) ++ (t, o) :: m.map (judged deadline)))
      exact List.perm_middle.symm.append_left back
    · rcases h.last with reached | ⟨x, hx, last⟩
      · exact Or.inl reached
      · -- The search that is back may have been the last one; then the end has been reached.
        rcases List.mem_append.mp hx with hl | hm
        · exact Or.inr ⟨x, List.mem_append_left m hl, last⟩
        · rcases List.mem_cons.mp hm with rfl | hm
          · have waited : (r.waitedFor deadline).nanos ≤ clock.nanos := ready.waited
            have behind : clock.nanos ≤ d.nanos := h.behind
            have nanos : (r.waitedFor deadline).nanos = d.nanos := congrArg Span.nanos last
            exact Or.inl (congrArg Span.mk (show clock.nanos = d.nanos by omega))
          · exact Or.inr ⟨x, List.mem_append_right l hm, last⟩
  | @wait clock out back e passes busy none_ready =>
    have early : ∀ x ∈ out, clock + e ≤ x.2.waitedFor deadline :=
      fun x hx => lt_waitedFor_of_none_ready (none_ready x hx)
    obtain ⟨y, hy⟩ := List.exists_mem_of_ne_nil out busy
    have behind : clock + e ≤ d := Nat.le_trans (early y hy) (h.within y hy)
    refine ⟨h.results, early, h.within, behind, ?_⟩
    refine Or.inr (h.last.resolve_left fun reached => ?_)
    have nanos : clock.nanos = d.nanos := congrArg Span.nanos reached
    have behind : clock.nanos + e.nanos ≤ d.nanos := behind
    omega

theorem Aloft.run (h : Aloft deadline all d s) (steps : ReflTransGen (Step deadline) s s') :
    Aloft deadline all d s' := by
  induction steps with
  | refl => exact h
  | tail _ step ih => exact ih.step step

theorem Aloft.of_out_eq_nil (h : Aloft deadline all d s) (none_out : s.out = []) :
    s.back.Perm (all.map (judged deadline)) ∧ s.clock = d := by
  constructor
  · have results := h.results
    rw [none_out, List.map_nil, List.append_nil] at results
    exact results
  · refine h.last.resolve_right ?_
    rintro ⟨x, hx, -⟩
    rw [none_out] at hx
    cases hx

/-! ## Landing -/

/-- Every step brings a search back or the deadline nearer. -/
theorem Step.decreases (step : Step deadline s s') :
    s'.out.length + (deadline.nanos - s'.clock.nanos)
      < s.out.length + (deadline.nanos - s.clock.nanos) := by
  cases step with
  | back ready =>
    simp only [List.length_append, List.length_cons]
    omega
  | @wait clock out back d passes busy none_ready =>
    obtain ⟨x, hx⟩ := List.exists_mem_of_ne_nil out busy
    have in_time : clock + d ≤ deadline :=
      Nat.le_trans (lt_waitedFor_of_none_ready (none_ready x hx)) (x.2.waitedFor_le deadline)
    have in_time : clock.nanos + d.nanos ≤ deadline.nanos := in_time
    show out.length + (deadline.nanos - (clock.nanos + d.nanos))
      < out.length + (deadline.nanos - clock.nanos)
    omega

theorem wellFounded_step (deadline : Span) : WellFounded fun s' s => Step deadline s s' :=
  Subrelation.wf (fun step => step.decreases)
    (measure fun s : Flight => s.out.length + (deadline.nanos - s.clock.nanos)).wf

/-- A flight with searches out goes on. -/
theorem exists_step (busy : s.out ≠ []) : ∃ s', Step deadline s s' := by
  obtain ⟨clock, out, back⟩ := s
  by_cases ready : ∃ x ∈ out, x.2.waitedFor deadline ≤ clock
  · obtain ⟨⟨t, r⟩, hx, waited⟩ := ready
    obtain ⟨o, ready⟩ := Reply.exists_ready waited
    obtain ⟨l, m, rfl⟩ := List.append_of_mem hx
    exact ⟨_, Step.back ready⟩
  · refine ⟨_, Step.wait ⟨1⟩ Nat.one_pos busy fun x hx now sooner o can => ready ⟨x, hx, ?_⟩⟩
    exact Nat.le_trans can.waited (Nat.le_of_lt_succ sooner)

theorem exists_landed (s : Flight) :
    ∃ landed, ReflTransGen (Step deadline) s landed ∧ landed.out = [] := by
  induction s using (wellFounded_step deadline).induction with
  | h s ih =>
    by_cases none_out : s.out = []
    · exact ⟨s, .refl, none_out⟩
    · obtain ⟨s', step⟩ := exists_step none_out
      obtain ⟨landed, steps, none_out⟩ := ih s' step
      exact ⟨landed, .head step steps, none_out⟩

/-! ## Taking off -/

theorem foldl_longer (deadline : Span) (l : List (Term × Reply)) (d : Span) :
    d ≤ l.foldl (fun d x => d.longer (x.2.waitedFor deadline)) d
      ∧ (∀ x ∈ l, x.2.waitedFor deadline
        ≤ l.foldl (fun d x => d.longer (x.2.waitedFor deadline)) d)
      ∧ (d = l.foldl (fun d x => d.longer (x.2.waitedFor deadline)) d
        ∨ ∃ x ∈ l, x.2.waitedFor deadline
          = l.foldl (fun d x => d.longer (x.2.waitedFor deadline)) d) := by
  induction l generalizing d with
  | nil => exact ⟨Nat.le_refl d.nanos, fun x hx => absurd hx List.not_mem_nil, Or.inl rfl⟩
  | cons x l ih =>
    rw [List.foldl_cons]
    obtain ⟨from_here, within, last⟩ := ih (d.longer (x.2.waitedFor deadline))
    refine ⟨Nat.le_trans (Nat.le_max_left _ _) from_here, ?_, ?_⟩
    · intro y hy
      rcases List.mem_cons.mp hy with rfl | hy
      · exact Nat.le_trans (Nat.le_max_right _ _) from_here
      · exact within y hy
    · rcases last with same | ⟨y, hy, last⟩
      · rw [← same]
        rcases Nat.le_total (x.2.waitedFor deadline).nanos d.nanos with shorter | longer
        · exact Or.inl (congrArg Span.mk (Nat.max_eq_left shorter).symm)
        · exact Or.inr ⟨x, List.mem_cons_self, congrArg Span.mk (Nat.max_eq_right longer).symm⟩
      · exact Or.inr ⟨y, List.mem_cons_of_mem x hy, last⟩

theorem aloft_start (deadline : Span) (all : List (Term × Reply)) :
    Aloft deadline all (all.foldl (fun d x => d.longer (x.2.waitedFor deadline)) .zero)
      ⟨.zero, all, []⟩ := by
  obtain ⟨-, within, last⟩ := foldl_longer deadline all .zero
  exact ⟨List.Perm.refl _, fun _ _ => Nat.zero_le _, within, Nat.zero_le _, last⟩

end Flight

/-! ## A batch of a run -/

namespace Service

/-- The reply to the search at a place of the batch. Of the other searches only the earlier ones for
the same term make a difference to it. -/
def replyAt (s : Service) (asked : Term → Nat) (batch : List Term) (i : Fin batch.length) : Reply :=
  s.reply batch[i] (asked batch[i] + (batch.take i).count batch[i])

variable (s : Service) (asked : Term → Nat) (batch : List Term)

theorem replies_eq_ofFn :
    s.replies asked batch = List.ofFn fun i => (batch[i], s.replyAt asked batch i) := by
  induction batch generalizing asked with
  | nil => rfl
  | cons t rest ih =>
    have tail (i : Fin rest.length) :
        s.replyAt (fun u => if u = t then asked u + 1 else asked u) rest i
          = s.replyAt asked (t :: rest) i.succ := by
      show s.reply rest[i] ((if rest[i] = t then asked rest[i] + 1 else asked rest[i])
          + (rest.take i).count rest[i])
        = s.reply rest[i] (asked rest[i] + (t :: rest.take i).count rest[i])
      rw [List.count_cons]
      by_cases same : rest[i] = t
      · rw [if_pos same, if_pos (beq_iff_eq.mpr same.symm)]
        congr 1
        omega
      · rw [if_neg same, if_neg (by rw [beq_iff_eq]; exact Ne.symm same), Nat.add_zero]
    rw [replies, ih]
    refine Eq.trans ?_ (List.ofFn_succ).symm
    refine congrArg₂ List.cons rfl (congrArg List.ofFn (funext fun i => ?_))
    rw [tail]
    rfl

theorem duration_eq_iSup (deadline : Span) :
    ((s.duration deadline asked batch).nanos : ℕ∞)
      = ⨆ i, min (s.replyAt asked batch i).due deadline.nanos := by
  obtain ⟨-, within, last⟩ := Flight.foldl_longer deadline (s.replies asked batch) .zero
  have member (x : Term × Reply) :
      x ∈ s.replies asked batch ↔ ∃ i, (batch[i], s.replyAt asked batch i) = x := by
    rw [replies_eq_ofFn, List.mem_ofFn]
  apply le_antisymm
  · rcases last with zero | ⟨x, hx, last⟩
    · rw [duration, ← zero]
      exact bot_le
    · obtain ⟨i, rfl⟩ := (member x).mp hx
      rw [duration, ← last, Reply.waitedFor_eq_min]
      exact le_iSup (fun i => min (s.replyAt asked batch i).due deadline.nanos) i
  · apply iSup_le
    intro i
    rw [← Reply.waitedFor_eq_min]
    exact Nat.cast_le.mpr (within _ ((member _).mpr ⟨i, rfl⟩))

theorem duration_le (deadline : Span) : s.duration deadline asked batch ≤ deadline := by
  have bound : ((s.duration deadline asked batch).nanos : ℕ∞) ≤ deadline.nanos := by
    rw [duration_eq_iSup]
    exact iSup_le fun i => min_le_right _ _
  exact Nat.cast_le.mp bound

end Service

/-- A batch loses nothing. Each of its searches gives one result, which is the answer to that very
search if it is due by the deadline and a failure if it is not; the clock moves on until the last one
has been answered or given up. Just this is what the flight of the batch comes to, in whatever order
the searches come back, and it always lands. -/
theorem fetch_of_batch (pace : Pace) (service : Service) (batch : List Term) (run : Run) :
    let reply := service.replyAt run.asked batch
    let start : Flight := ⟨.zero, List.ofFn fun i => (batch[i], reply i), []⟩
    ∃ (outcome : Fin batch.length → Outcome) (results : Results) (d : Span),
      (∀ i o, (reply i).outcome = some o → (reply i).delay ≤ pace.deadline → outcome i = o)
      ∧ (∀ i, (∀ o, (reply i).outcome = some o → pace.deadline < (reply i).delay) →
        outcome i = .failed .other)
      ∧ results.Perm (List.ofFn fun i => (batch[i], outcome i))
      ∧ (d.nanos : ℕ∞) = ⨆ i, min (reply i).due pace.deadline.nanos
      ∧ d ≤ pace.deadline
      ∧ (run.fetch pace service batch).ledger = run.ledger.merge results
      ∧ (run.fetch pace service batch).elapsed = run.elapsed + d
      ∧ Acc (fun s' s => Flight.Step pace.deadline s s') start
      ∧ ∀ s, ReflTransGen (Flight.Step pace.deadline) start s →
        (s.out = [] → s.back.Perm results ∧ s.clock = d)
        ∧ ∃ landed, ReflTransGen (Flight.Step pace.deadline) s landed ∧ landed.out = [] := by
  intro reply start
  have judged : service.results pace.deadline run.asked batch
      = List.ofFn fun i => (batch[i], (reply i).outcomeBy pace.deadline) := by
    rw [Service.results, Service.replies_eq_ofFn, List.map_ofFn]
    rfl
  have arrived := service.arrival_perm run.ledger.attempts
    (service.results pace.deadline run.asked batch)
  refine ⟨fun i => (reply i).outcomeBy pace.deadline, _, _,
    fun i o answer in_time => Reply.outcomeBy_of_answer answer in_time,
    fun i missing => Reply.outcomeBy_of_missing missing,
    arrived.trans (judged ▸ List.Perm.refl _),
    service.duration_eq_iSup run.asked batch pace.deadline,
    service.duration_le run.asked batch pace.deadline, rfl, rfl,
    (Flight.wellFounded_step pace.deadline).apply start, fun s steps => ?_⟩
  have aloft := Flight.aloft_start pace.deadline (service.replies run.asked batch)
  rw [Service.replies_eq_ofFn] at aloft
  refine ⟨fun none_out => ?_, s.exists_landed⟩
  obtain ⟨back, clock⟩ := (aloft.run steps).of_out_eq_nil none_out
  rw [← Service.replies_eq_ofFn] at back clock
  exact ⟨back.trans arrived.symm, clock⟩

end Sweep
end Census
