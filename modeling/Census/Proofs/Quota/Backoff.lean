import Census.Quota.Backoff
import Mathlib.Algebra.Order.Ring.Nat
import Mathlib.Data.List.Basic
import Mathlib.Data.List.Chain
import Mathlib.Data.List.Pairwise
import Mathlib.Data.List.Range

/-!
# The delays of a backoff

Taking the delays one by one takes them in the order in which they are listed, and ends when the list
does.

The delays double until they reach the cap, and stay there (`delays_double_up_to_cap`). The power that
is kept is the true one only up to there: once its product with the unit has passed the cap it is left
as it is, and being saturated it could not double for ever. What carries the induction is that a power
that was left behind is still large enough for the cap to hide it (`Doubled`).

The first delay is twice a unit that is half of what the delays were told to start at. That is what they
were told when it is even, and the unit is never nothing (`delays_start_as_told`).
-/

namespace Census
namespace Quota
namespace Backoff

variable {b later : Backoff} {d : Span}

theorem length_take (b : Backoff) (n : Nat) : (b.take n).length = n := by
  induction n generalizing b with
  | zero => rfl
  | succ n ih => rw [take, List.length_cons, ih]

theorem length_delays (b : Backoff) : b.delays.length = b.left := b.length_take b.left

theorem next?_eq_none_iff : b.next? = none ↔ b.delays = [] := by
  rw [← List.length_eq_zero_iff, length_delays, next?]
  by_cases none_left : b.left = 0
  · exact iff_of_true (if_pos none_left) none_left
  · rw [if_neg none_left]
    exact iff_of_false (Option.some_ne_none _) none_left

theorem delays_of_next? (h : b.next? = some (d, later)) : b.delays = d :: later.delays := by
  rw [next?] at h
  split at h
  case isTrue => cases h
  next some_left =>
  cases h
  obtain ⟨n, left⟩ : ∃ n, b.left = n + 1 := ⟨b.left - 1, by omega⟩
  have rest_left : b.rest.left = n := by
    show b.left - 1 = n
    omega
  rw [delays, delays, left, rest_left]
  rfl

/-! ## How long the delays are -/

variable {n : Nat}

theorem min_cap_saturated (n : Nat) : min cap (saturated n) = min cap n := by
  have room : cap < Numeral.most64 := by decide
  rw [saturated]
  omega

theorem cap_lt_saturated_iff : cap < saturated n ↔ cap < n := by
  have room : cap < Numeral.most64 := by decide
  rw [saturated]
  omega

/-- The power stands for `2 ^ (n + 1)`: it is that number, or it was left behind beyond the cap. -/
structure Doubled (b : Backoff) (n : Nat) : Prop where
  unit_pos : 0 < b.unit
  power : b.power = 2 ^ (n + 1) ∨ b.power ≤ 2 ^ (n + 1) ∧ cap < b.power * b.unit

theorem Doubled.power_le (h : Doubled b n) : b.power ≤ 2 ^ (n + 1) := by
  rcases h.power with same | ⟨behind, -⟩
  · exact Nat.le_of_eq same
  · exact behind

theorem Doubled.millis_eq (h : Doubled b n) : b.millis = min cap (b.unit * 2 ^ (n + 1)) := by
  have below : b.unit * b.power ≤ b.unit * 2 ^ (n + 1) := Nat.mul_le_mul_left b.unit h.power_le
  rw [millis, min_cap_saturated, Nat.mul_comm b.power]
  rcases h.power with same | ⟨-, capped⟩
  · rw [same]
  · rw [Nat.mul_comm] at capped
    omega

theorem Doubled.rest (h : Doubled b n) : Doubled b.rest (n + 1) := by
  refine ⟨h.unit_pos, ?_⟩
  have next_power : 2 ^ (n + 1 + 1) = 2 ^ (n + 1) * 2 := pow_succ 2 (n + 1)
  by_cases capped : cap < b.power * b.unit
  · have stays : b.rest.power = b.power := if_pos (cap_lt_saturated_iff.mpr capped)
    have below := h.power_le
    right
    rw [stays]
    exact ⟨by omega, capped⟩
  · have exact_power := h.power.resolve_right fun behind => capped behind.2
    have doubles : b.rest.power = saturated (b.power * growth) :=
      if_neg (cap_lt_saturated_iff.not.mpr capped)
    have small : b.power ≤ cap :=
      Nat.le_trans (Nat.le_mul_of_pos_right b.power h.unit_pos) (Nat.not_lt.mp capped)
    -- Below the cap the next power is far from the largest number of 64 bits.
    have room : cap * 2 ≤ Numeral.most64 := by decide
    have two : b.power * growth = b.power * 2 := rfl
    left
    rw [doubles, saturated, two, next_power, ← exact_power]
    omega

theorem Doubled.take_eq (h : Doubled b n) (count : Nat) :
    b.take count
      = (List.range count).map fun i => .ofMillis (min cap (b.unit * 2 ^ (n + i + 1))) := by
  induction count generalizing b n with
  | zero => rfl
  | succ count ih =>
    have unit : b.rest.unit = b.unit := rfl
    rw [take, h.millis_eq, ih h.rest, List.range_succ_eq_map, List.map_cons, List.map_map, unit]
    refine congrArg _ (List.map_congr_left fun i _ => ?_)
    show Span.ofMillis (min cap (b.unit * 2 ^ (n + 1 + i + 1)))
      = .ofMillis (min cap (b.unit * 2 ^ (n + (i + 1) + 1)))
    rw [Nat.add_assoc n 1 i, Nat.add_comm 1 i]

theorem doubled_start (initial count : Nat) : Doubled (start initial count) 0 :=
  ⟨Nat.lt_of_lt_of_le Nat.zero_lt_one (Nat.le_max_left 1 _), .inl rfl⟩

/-- The delay that `i` others come before, in milliseconds: the unit doubled that often and once more,
up to the cap. -/
def doubling (initial i : Nat) : Nat := min 10000 (max 1 (initial / 2) * 2 ^ (i + 1))

theorem delays_start (initial count : Nat) :
    (start initial count).delays
      = (List.range count).map fun i => .ofMillis (doubling initial i) := by
  have all := (doubled_start initial count).take_eq count
  simp only [Nat.zero_add] at all
  exact all

theorem getElem?_delays_start {initial count i : Nat} (h : i < count) :
    (start initial count).delays[i]? = some (.ofMillis (doubling initial i)) := by
  rw [delays_start, List.getElem?_map, List.getElem?_range h]
  rfl

theorem doubling_mono (initial : Nat) {i j : Nat} (h : i ≤ j) :
    doubling initial i ≤ doubling initial j := by
  have powers : 2 ^ (i + 1) ≤ 2 ^ (j + 1) := Nat.pow_le_pow_right Nat.zero_lt_two (by omega)
  exact min_le_min_left 10000 (Nat.mul_le_mul_left _ powers)

theorem two_le_doubling (initial i : Nat) : 2 ≤ doubling initial i := by
  have power : 2 ≤ 2 ^ (i + 1) := Nat.le_self_pow (Nat.succ_ne_zero i) 2
  have product : 1 * 2 ≤ max 1 (initial / 2) * 2 ^ (i + 1) :=
    Nat.mul_le_mul (Nat.le_max_left 1 _) power
  exact Nat.le_min.mpr ⟨by decide, product⟩

theorem ofMillis_le_ofMillis {m n : Nat} (h : m ≤ n) : Span.ofMillis m ≤ Span.ofMillis n :=
  Nat.mul_le_mul_right 1000000 h

/-- There are as many delays as asked for. They double from the unit on, exactly, until they come to
the cap, so they never become shorter, and lie between two milliseconds and ten seconds. -/
theorem delays_double_up_to_cap (initial count : Nat) :
    (start initial count).delays.length = count ∧
    (∀ i < count, (start initial count).delays[i]?
      = some (.ofMillis (min 10000 (max 1 (initial / 2) * 2 ^ (i + 1))))) ∧
    (start initial count).delays.Pairwise (· ≤ ·) ∧
    (∀ d ∈ (start initial count).delays, Span.ofMillis 2 ≤ d ∧ d ≤ Span.ofSeconds 10) ∧
    ∀ i j, i ≤ j → j < count → (start initial count).delays[i]? = some (Span.ofSeconds 10) →
      (start initial count).delays[j]? = some (Span.ofSeconds 10) := by
  have longest : ∀ i, doubling initial i ≤ 10000 := fun i => Nat.min_le_left 10000 _
  have ten_seconds : Span.ofMillis 10000 = Span.ofSeconds 10 := rfl
  refine ⟨length_delays _, fun i h => getElem?_delays_start h, ?_, ?_, ?_⟩
  · rw [delays_start, List.pairwise_map]
    exact List.pairwise_lt_range.imp fun h => ofMillis_le_ofMillis (doubling_mono initial h.le)
  · intro d hd
    rw [delays_start] at hd
    obtain ⟨i, -, rfl⟩ := List.mem_map.mp hd
    rw [← ten_seconds]
    exact ⟨ofMillis_le_ofMillis (two_le_doubling initial i), ofMillis_le_ofMillis (longest i)⟩
  · intro i j le small capped
    rw [getElem?_delays_start (Nat.lt_of_le_of_lt le small), ← ten_seconds] at capped
    have there : doubling initial i * 1000000 = 10000 * 1000000 :=
      congrArg Span.nanos (Option.some.inj capped)
    have still := doubling_mono initial le
    have stays : doubling initial j = 10000 := by
      have most := longest j
      omega
    rw [getElem?_delays_start small, stays, ten_seconds]

/-- From the largest first delay of 64 bits the cap is there at once, whatever saturates; a first delay
of a second comes to it with the fifth delay. -/
theorem delays_double_up_to_cap_of_largest :
    (start Numeral.most64 3).delays[2]? = some (Span.ofSeconds 10) ∧
    (start 1000 6).delays[1]? = some (Span.ofMillis 2000) ∧
    (start 1000 6).delays[4]? = some (Span.ofSeconds 10) ∧
    (start 1000 6).delays[5]? = some (Span.ofSeconds 10) ∧
    Span.ofMillis 2 ≤ Span.ofMillis 1000 := by
  have large := delays_double_up_to_cap Numeral.most64 3
  have small := delays_double_up_to_cap 1000 6
  have fifth : (start 1000 6).delays[4]? = some (Span.ofSeconds 10) := small.2.1 4 (by decide)
  have first : Span.ofMillis 1000 ∈ (start 1000 6).delays :=
    List.mem_of_getElem? (small.2.1 0 (by decide))
  exact ⟨large.2.1 2 (by decide), small.2.1 1 (by decide), fifth,
    small.2.2.2.2 4 5 (by decide) (by decide) fifth, (small.2.2.2.1 _ first).1⟩

/-! ## Where the delays start -/

theorem doubling_succ (initial i : Nat) :
    doubling initial (i + 1) = min 10000 (2 * doubling initial i) := by
  have next : max 1 (initial / 2) * 2 ^ (i + 1 + 1) = 2 * (max 1 (initial / 2) * 2 ^ (i + 1)) := by
    rw [pow_succ, ← Nat.mul_assoc, Nat.mul_comm]
  rw [doubling, doubling, next]
  omega

theorem ofMillis_doubling_succ (initial i : Nat) :
    Span.ofMillis (doubling initial (i + 1))
      = (Span.ofMillis (doubling initial i) + Span.ofMillis (doubling initial i)).shorter
          (Span.ofMillis 10000) := by
  refine congrArg Span.mk ?_
  show doubling initial (i + 1) * 1000000
    = min (doubling initial i * 1000000 + doubling initial i * 1000000) (10000 * 1000000)
  rw [doubling_succ]
  omega

/-- Half of an even number is doubled back to it. Of nothing and of one millisecond the half is
nothing, for which the unit is one instead. -/
theorem doubling_zero {initial : Nat} (told : Even initial ∨ initial = 1 ∨ 10000 ≤ initial) :
    doubling initial 0 = min (max initial 2) 10000 := by
  rw [doubling, Nat.zero_add, pow_one]
  rcases told with ⟨half, rfl⟩ | rfl | large
  · omega
  · rfl
  · omega

/-- Every delay but the first is twice the one before it, up to the cap. The first one is what the
delays were told to start at, but never less than two milliseconds; of an odd number of milliseconds
between one and the cap nothing is said. -/
theorem delays_start_as_told (initial count : Nat) (some_delay : 0 < count) :
    (Even initial ∨ initial = 1 ∨ 10000 ≤ initial →
      (start initial count).delays.head? = some (.ofMillis (min (max initial 2) 10000))) ∧
    (start initial count).delays.IsChain fun d e => e = (d + d).shorter (.ofMillis 10000) := by
  constructor
  · intro told
    rw [List.head?_eq_getElem?, getElem?_delays_start some_delay, doubling_zero told]
  · rw [delays_start, List.isChain_map, List.isChain_range]
    exact fun i _ => ofMillis_doubling_succ initial i

/-- The delays of a census start at half a second. -/
theorem delays_start_as_told_of_half_second :
    0 < 4 ∧ (start 500 4).delays.head? = some (.ofMillis 500) ∧
    (start 500 4).delays.IsChain fun d e => e = (d + d).shorter (.ofMillis 10000) := by
  have facts := delays_start_as_told 500 4 (by decide)
  exact ⟨by decide, facts.1 (.inl (by decide)), facts.2⟩

/-- Told to start at nothing, the delays start at two milliseconds, and told to start at five they
start at four. -/
theorem delays_start_off_zero_and_odd :
    (start 0 3).delays = [.ofMillis 2, .ofMillis 4, .ofMillis 8] ∧
    (start 0 3).delays.head? ≠ some (.ofMillis (min 0 10000)) ∧
    (start 5 3).delays = [.ofMillis 4, .ofMillis 8, .ofMillis 16] ∧
    (start 5 3).delays.head? ≠ some (.ofMillis (min 5 10000)) := by
  decide +kernel

end Backoff
end Quota
end Census
