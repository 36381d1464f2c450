import Census.Quota.Patience
import Mathlib.Algebra.Order.Archimedean.Basic
import Mathlib.Algebra.Order.Floor.Semiring
import Mathlib.Data.Rat.Floor

/-!
# Sleeping until a reset

A single sleep is the time until the reset with the grace on top, or the least sleep when the reset
has passed, and never more than the longest sleep. It is out of range just when that sum is, however
short the longest sleep (`sleep?_eq_none_iff`). Sleeps in a row are all longest sleeps but the last,
which covers what is left: `n` longest sleeps do not reach an instant more than `n` of them ahead
(`wake?_before`), and one sleep more does reach it when it is at most one more of them ahead
(`wake?_reaching`). So the reset is reached after as many sleeps as longest sleeps cover the time
until it, and is overslept by the grace at most.
-/

namespace Census
namespace Quota
namespace Patience

variable {p : Patience} {resetsAt now : Instant} {n : Nat}

/-- The instant after a number of sleeps, each chosen when it begins, if every sleep can be
computed. -/
def wake? (p : Patience) (resetsAt : Instant) : Nat → Instant → Option Instant
  | 0, now => some now
  | n + 1, now => (p.sleep? resetsAt now).bind fun d => wake? p resetsAt n (now.plus d)

/-! ## One sleep -/

theorem sleep?_of_past (passed : resetsAt.nanos ≤ now.nanos) :
    p.sleep? resetsAt now = some (p.least.shorter p.most) := by
  have past : ¬ 0 < now.nanosUntil resetsAt := by
    show ¬ 0 < resetsAt.nanos - now.nanos
    omega
  simp only [sleep?, if_neg past, Option.map_some]

/-- The sleep until a reset ahead is the sum of the time until it and the grace, if there is one. -/
theorem sleep?_of_ahead (ahead : now.nanos < resetsAt.nanos) :
    p.sleep? resetsAt now
      = (Span.add? ⟨(resetsAt.nanos - now.nanos).toNat⟩ p.grace).map fun d => d.shorter p.most := by
  have positive : 0 < now.nanosUntil resetsAt := by
    show 0 < resetsAt.nanos - now.nanos
    omega
  simp only [sleep?, if_pos positive]
  rfl

theorem sleep?_of_future (ahead : now.nanos < resetsAt.nanos)
    (fits : (resetsAt.nanos - now.nanos).toNat + p.grace.nanos < Span.limit.nanos) :
    p.sleep? resetsAt now
      = some ⟨min ((resetsAt.nanos - now.nanos).toNat + p.grace.nanos) p.most.nanos⟩ := by
  have sum : Span.add? ⟨(resetsAt.nanos - now.nanos).toNat⟩ p.grace = some ⟨_⟩ :=
    Span.add?_of_lt fits
  rw [sleep?_of_ahead ahead, sum]
  rfl

/-- A sleep is out of range just when the time until the reset and the grace are. -/
theorem sleep?_eq_none_iff :
    p.sleep? resetsAt now = none ↔ now.nanos < resetsAt.nanos
      ∧ Span.limit.nanos ≤ (resetsAt.nanos - now.nanos).toNat + p.grace.nanos := by
  by_cases ahead : now.nanos < resetsAt.nanos
  · rw [sleep?_of_ahead ahead, Option.map_eq_none_iff, Span.add?_eq_none_iff, and_iff_right ahead]
  · rw [sleep?_of_past (Int.not_lt.mp ahead)]
    exact iff_of_false (Option.some_ne_none _) fun h => ahead h.1

/-! ## Sleeps in a row -/

theorem wake?_last (p : Patience) (resetsAt : Instant) (n : Nat) (now : Instant) :
    p.wake? resetsAt (n + 1) now
      = (p.wake? resetsAt n now).bind fun i => (p.sleep? resetsAt i).map i.plus := by
  induction n generalizing now with
  | zero =>
    rw [wake?, wake?, Option.bind_some, Option.map_eq_bind]
    rfl
  | succ n ih =>
    rw [wake?, wake?, Option.bind_assoc]
    exact Option.bind_congr fun d _ => ih (now.plus d)

/-- The sleep after `n` longest sleeps, when the reset is still ahead. -/
theorem sleep?_after (before : (n * p.most.nanos : Int) < resetsAt.nanos - now.nanos)
    (fits : (resetsAt.nanos - now.nanos).toNat + p.grace.nanos < Span.limit.nanos) :
    p.sleep? resetsAt ⟨now.nanos + n * p.most.nanos⟩
      = some ⟨min ((resetsAt.nanos - now.nanos - n * p.most.nanos).toNat + p.grace.nanos)
        p.most.nanos⟩ := by
  have others : (0 : Int) ≤ n * p.most.nanos := by positivity
  rw [Int.sub_sub]
  refine sleep?_of_future ?_ ?_
  · show now.nanos + n * p.most.nanos < resetsAt.nanos
    omega
  · show (resetsAt.nanos - (now.nanos + n * p.most.nanos)).toNat + _ < _
    omega

/-- As long as the reset is further ahead than the longest sleeps so far, each of them was a
longest sleep. -/
theorem wake?_before (before : (n * p.most.nanos : Int) < resetsAt.nanos - now.nanos)
    (fits : (resetsAt.nanos - now.nanos).toNat + p.grace.nanos < Span.limit.nanos) :
    p.wake? resetsAt n now = some ⟨now.nanos + n * p.most.nanos⟩ := by
  induction n with
  | zero =>
    rw [wake?]
    simp
  | succ n ih =>
    rw [Nat.cast_succ, add_one_mul] at before ⊢
    have so_far : (n * p.most.nanos : Int) < resetsAt.nanos - now.nanos := by omega
    have longest : min ((resetsAt.nanos - now.nanos - n * p.most.nanos).toNat + p.grace.nanos)
        p.most.nanos = p.most.nanos := by omega
    rw [wake?_last, ih so_far, Option.bind_some, sleep?_after so_far fits, longest,
      Option.map_some, ← Int.add_assoc]
    rfl

/-- The sleep after `n` longest sleeps reaches a reset that is at most one more of them ahead. -/
theorem wake?_reaching (before : (n * p.most.nanos : Int) < resetsAt.nanos - now.nanos)
    (within : resetsAt.nanos - now.nanos ≤ ((n + 1 : Nat) * p.most.nanos : Int))
    (fits : (resetsAt.nanos - now.nanos).toNat + p.grace.nanos < Span.limit.nanos) :
    ∃ i, p.wake? resetsAt (n + 1) now = some i ∧ resetsAt.nanos ≤ i.nanos
      ∧ i.nanos ≤ resetsAt.nanos + p.grace.nanos := by
  rw [Nat.cast_succ, add_one_mul] at within
  rw [wake?_last, wake?_before before fits, Option.bind_some, sleep?_after before fits]
  refine ⟨_, rfl, ?_, ?_⟩
  · show resetsAt.nanos ≤ now.nanos + n * p.most.nanos + (min _ _ : Nat)
    omega
  · show now.nanos + n * p.most.nanos + (min _ _ : Nat) ≤ _
    omega

/-- How many of the longest sleeps cover the time until a reset. -/
def sleepsUntil (p : Patience) (resetsAt now : Instant) : Nat :=
  ⌈(now.nanosUntil resetsAt : ℚ) / p.most.nanos⌉₊

/-- A number is below that of the sleeps just when that many longest sleeps fall short. -/
theorem lt_sleepsUntil_iff (some_sleep : 0 < p.most.nanos) :
    n < p.sleepsUntil resetsAt now ↔ (n * p.most.nanos : Int) < resetsAt.nanos - now.nanos := by
  have most : (0 : ℚ) < p.most.nanos := by exact_mod_cast some_sleep
  rw [sleepsUntil, Nat.lt_ceil, lt_div_iff₀ most]
  exact_mod_cast Iff.rfl

/-- A sleep lasts until the reset and the grace after it, within the longest sleep; and sleeping in
this way again and again reaches the reset with just the number of sleeps that cover the time until
it, the grace being all that is overslept. -/
theorem sleeps_reach_reset (p : Patience) (resetsAt now : Instant)
    (fits : 0 < now.nanosUntil resetsAt →
      now.nanosUntil resetsAt + p.grace.nanos < Span.limit.nanos) :
    (∃ d, p.sleep? resetsAt now = some d ∧ d ≤ p.most
      ∧ (now.nanosUntil resetsAt ≤ 0 → d.nanos = min p.least.nanos p.most.nanos)
      ∧ (0 < now.nanosUntil resetsAt →
        (d.nanos : Int) = min (now.nanosUntil resetsAt + p.grace.nanos) p.most.nanos))
    ∧ (0 < p.most.nanos → 0 < now.nanosUntil resetsAt →
      (∀ n < p.sleepsUntil resetsAt now,
        ∃ i, p.wake? resetsAt n now = some i ∧ i.nanos < resetsAt.nanos)
      ∧ ∃ i, p.wake? resetsAt (p.sleepsUntil resetsAt now) now = some i
        ∧ resetsAt.nanos ≤ i.nanos ∧ i.nanos ≤ resetsAt.nanos + p.grace.nanos) := by
  have ahead : now.nanosUntil resetsAt = resetsAt.nanos - now.nanos := rfl
  rw [ahead] at fits ⊢
  constructor
  · by_cases future : now.nanos < resetsAt.nanos
    · refine ⟨_, sleep?_of_future future (by omega), Nat.min_le_right _ _, fun past => ?_,
        fun _ => ?_⟩
      · omega
      · show ((min _ _ : Nat) : Int) = _
        omega
    · refine ⟨_, sleep?_of_past (by omega), Nat.min_le_right _ _, fun _ => rfl, fun later => ?_⟩
      omega
  · intro some_sleep future
    have fits : (resetsAt.nanos - now.nanos).toNat + p.grace.nanos < Span.limit.nanos := by omega
    constructor
    · intro n few
      have before := (lt_sleepsUntil_iff some_sleep).mp few
      refine ⟨_, wake?_before before fits, ?_⟩
      show now.nanos + _ < _
      omega
    · have some_needed : 0 < p.sleepsUntil resetsAt now :=
        (lt_sleepsUntil_iff some_sleep).mpr (by simpa using future)
      obtain ⟨n, sleeps⟩ : ∃ n, p.sleepsUntil resetsAt now = n + 1 :=
        ⟨p.sleepsUntil resetsAt now - 1, by omega⟩
      have before : (n * p.most.nanos : Int) < resetsAt.nanos - now.nanos :=
        (lt_sleepsUntil_iff some_sleep).mp (by omega)
      have within : ¬ ((n + 1 : Nat) * p.most.nanos : Int) < resetsAt.nanos - now.nanos := by
        rw [← lt_sleepsUntil_iff some_sleep]
        omega
      rw [sleeps]
      exact wake?_reaching before (by omega) fits

/-- Two hours and a half of sleeping in hours: the last sleep is the half hour and the grace. -/
theorem sleeps_reach_reset_after_three :
    let p := Patience.standard
    let now : Instant := ⟨-5400000000000⟩
    let resetsAt : Instant := ⟨3600000000000⟩
    (p.wake? resetsAt 2 now = some ⟨1800000000000⟩ ∧ p.wake? resetsAt 3 now = some ⟨3601000000000⟩)
      ∧ (∃ d, p.sleep? resetsAt now = some d ∧ d ≤ p.most
        ∧ (now.nanosUntil resetsAt ≤ 0 → d.nanos = min p.least.nanos p.most.nanos)
        ∧ (0 < now.nanosUntil resetsAt →
          (d.nanos : Int) = min (now.nanosUntil resetsAt + p.grace.nanos) p.most.nanos))
      ∧ (0 < p.most.nanos → 0 < now.nanosUntil resetsAt →
        (∀ n < p.sleepsUntil resetsAt now,
          ∃ i, p.wake? resetsAt n now = some i ∧ i.nanos < resetsAt.nanos)
        ∧ ∃ i, p.wake? resetsAt (p.sleepsUntil resetsAt now) now = some i
          ∧ resetsAt.nanos ≤ i.nanos ∧ i.nanos ≤ resetsAt.nanos + p.grace.nanos) := by
  intro p now resetsAt
  exact ⟨by decide +kernel, sleeps_reach_reset p resetsAt now fun _ => by decide +kernel⟩

end Patience
end Quota
end Census
