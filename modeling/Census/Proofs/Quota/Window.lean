import Census.Proofs.Quota.Limit
import Census.Proofs.Quota.Patience
import Census.Proofs.Text.Numeral
import Census.Quota.Window

/-!
# Waiting after a limited response

The headers of a response that says the quota is used up may hold anything. Whatever they hold, the
window that is made of them resets at an instant that can be named, and from there the wait is
bounded on both sides: `sleep?_of_inRange` takes any two instants that can be named, and
`wait_of_limit` adds which header it is that the wait comes from.
-/

namespace Census
namespace Quota

open Http

/-! ## Numbers in headers -/

/-- A whole number of 64 bits, with or without a sign, among spaces and tabs. -/
def IsNumber (v : List UInt8) (n : Int) : Prop :=
  ∃ l w r, (∀ c ∈ l ++ r, c = ' ' ∨ c = '\t') ∧ v = (l ++ w ++ r).map code
    ∧ Numeral.Literal w n ∧ -9223372036854775808 ≤ n ∧ n ≤ 9223372036854775807

/-- The first value under a name is a whole number. -/
def Says (headers : Headers) (name : String) (n : Int) : Prop :=
  ∃ v, First headers name v ∧ IsNumber v n

theorem printable_of_literal {w : List Char} {n : Int} (literal : Numeral.Literal w n) :
    ∀ c ∈ w, Printable c ∧ Text.isBlank c = false := by
  intro c hc
  have high : 0x21 ≤ c.toNat ∧ c.toNat ≤ 0x7E := by
    rcases literal.mem hc with rfl | rfl | digit
    · decide
    · decide
    · simp only [Char.isDigit, Bool.and_eq_true, decide_eq_true_eq, ge_iff_le,
        UInt32.le_iff_toNat_le] at digit
      have bounds : 48 ≤ c.toNat ∧ c.toNat ≤ 57 := digit
      omega
  have printable : Printable c := Or.inr ⟨by omega, high.2⟩
  refine ⟨printable, ?_⟩
  rw [← Bool.not_eq_true, isBlank_iff_of_printable printable]
  rintro (rfl | rfl)
  · exact absurd high.1 (by decide)
  · exact absurd high.1 (by decide)

theorem isNumber_iff {v : List UInt8} {n : Int} :
    (∃ text, valueText? v = some text ∧ Numeral.int64? (Text.trimmed text) = some n)
      ↔ IsNumber v n := by
  constructor
  · rintro ⟨text, read, number⟩
    obtain ⟨literal, fits⟩ := Numeral.int64?_eq_some_iff.mp number
    obtain ⟨l, r, gap, split⟩ :=
      (trimmed_valueText?_iff (printable_of_literal literal)).mp ⟨text, read, rfl⟩
    exact ⟨l, Text.trimmed text, r, gap, split, literal, fits⟩
  · rintro ⟨l, w, r, gap, split, literal, fits⟩
    obtain ⟨text, read, rfl⟩ :=
      (trimmed_valueText?_iff (printable_of_literal literal)).mpr ⟨l, r, gap, split⟩
    exact ⟨text, read, Numeral.int64?_eq_some_iff.mpr ⟨literal, fits⟩⟩

theorem number?_eq_some_iff {headers : Headers} {name : String}
    (folded : foldCase name = name.toList) {n : Int} :
    Window.number? headers name = some n ↔ Says headers name n := by
  rw [Window.number?, Headers.text?, Option.bind_assoc, Option.bind_eq_some_iff]
  refine exists_congr fun v => ?_
  rw [value?_eq_some_iff folded, Option.bind_eq_some_iff, isNumber_iff]

/-! ## The reset -/

variable {headers : Headers} {now resetsAt : Instant} {n z : Int}

/-- The response asks for a delay of `n` seconds that ends at an instant that can be named. -/
def Delays (headers : Headers) (now : Instant) (n : Int) : Prop :=
  Says headers "retry-after" n ∧ Instant.InRange ⟨now.nanos + n * 1000000000⟩

/-- The response gives a timestamp that can be named. -/
def Stamps (headers : Headers) (z : Int) : Prop :=
  Says headers "x-ratelimit-reset" z ∧ -8334601228800 ≤ z ∧ z ≤ 8210266876799

theorem delay_eq_some_iff :
    (Window.number? headers retryAfter).bind now.later? = some resetsAt
      ↔ ∃ n, Delays headers now n ∧ resetsAt = ⟨now.nanos + n * 1000000000⟩ := by
  have folded : foldCase retryAfter = retryAfter.toList := by decide
  rw [Option.bind_eq_some_iff]
  refine exists_congr fun n => ?_
  rw [number?_eq_some_iff folded, Delays, and_assoc]
  refine and_congr_right fun _ => ?_
  simp only [Instant.later?, Option.ite_none_right_eq_some, Option.some.injEq]
  rw [eq_comm]

theorem stamp_eq_some_iff :
    (Window.number? headers limitReset).bind Instant.ofSeconds? = some resetsAt
      ↔ ∃ z, Stamps headers z ∧ resetsAt = .ofSeconds z := by
  have folded : foldCase limitReset = limitReset.toList := by decide
  rw [Option.bind_eq_some_iff]
  refine exists_congr fun z => ?_
  rw [number?_eq_some_iff folded, Stamps, and_assoc]
  refine and_congr_right fun _ => ?_
  simp only [Instant.ofSeconds?, Option.ite_none_right_eq_some, Option.some.injEq]
  rw [eq_comm]
  rfl

theorem resetsAt_of_delays (delays : Delays headers now n) :
    (Window.ofLimit headers now).resetsAt = ⟨now.nanos + n * 1000000000⟩ := by
  have delay := delay_eq_some_iff.mpr ⟨n, delays, rfl⟩
  rw [Window.ofLimit]
  simp only [delay, Option.some_or, Option.getD_some]

theorem no_delay (none_delays : ∀ n, ¬ Delays headers now n) :
    (Window.number? headers retryAfter).bind now.later? = none := by
  rw [Option.eq_none_iff_forall_ne_some]
  intro resetsAt delay
  obtain ⟨n, delays, -⟩ := delay_eq_some_iff.mp delay
  exact none_delays n delays

theorem resetsAt_of_stamps (none_delays : ∀ n, ¬ Delays headers now n)
    (stamps : Stamps headers z) : (Window.ofLimit headers now).resetsAt = .ofSeconds z := by
  have stamp := stamp_eq_some_iff.mpr ⟨z, stamps, rfl⟩
  rw [Window.ofLimit]
  simp only [no_delay none_delays, stamp, Option.none_or, Option.getD_some]

theorem resetsAt_of_neither (none_delays : ∀ n, ¬ Delays headers now n)
    (none_stamps : ∀ z, ¬ Stamps headers z) : (Window.ofLimit headers now).resetsAt = now := by
  have no_stamp : (Window.number? headers limitReset).bind Instant.ofSeconds? = none := by
    rw [Option.eq_none_iff_forall_ne_some]
    intro resetsAt stamp
    obtain ⟨z, stamps, -⟩ := stamp_eq_some_iff.mp stamp
    exact none_stamps z stamps
  rw [Window.ofLimit]
  simp only [no_delay none_delays, no_stamp, Option.none_or, Option.getD_none]

theorem inRange_of_stamps (stamps : Stamps headers z) : (Instant.ofSeconds z).InRange := by
  obtain ⟨-, low, high⟩ := stamps
  show -8334601228800 * 1000000000 ≤ z * 1000000000
    ∧ z * 1000000000 < (8210266876799 + 1) * 1000000000
  omega

theorem resetsAt_inRange (headers : Headers) (named : now.InRange) :
    (Window.ofLimit headers now).resetsAt.InRange := by
  by_cases delays : ∃ n, Delays headers now n
  · obtain ⟨n, delays⟩ := delays
    rw [resetsAt_of_delays delays]
    exact delays.2
  · have none_delays : ∀ n, ¬ Delays headers now n := not_exists.mp delays
    by_cases stamps : ∃ z, Stamps headers z
    · obtain ⟨z, stamps⟩ := stamps
      rw [resetsAt_of_stamps none_delays stamps]
      exact inRange_of_stamps stamps
    · rw [resetsAt_of_neither none_delays (not_exists.mp stamps)]
      exact named

/-! ## The wait -/

/-- Between instants that can be named the wait is computed, is longer than the grace alone and no
longer than an hour. -/
theorem sleep?_of_inRange (named : now.InRange) (reset : resetsAt.InRange) :
    ∃ d, Patience.standard.sleep? resetsAt now = some d
      ∧ .ofSeconds 1 < d ∧ d ≤ .ofSeconds 3600
      ∧ (resetsAt.nanos ≤ now.nanos → d = .ofSeconds 2)
      ∧ (now.nanos < resetsAt.nanos →
        (d.nanos : Int) = min (resetsAt.nanos - now.nanos + 1000000000) 3600000000000) := by
  have lower : -8334601228800 * 1000000000 ≤ now.nanos := named.1
  have upper : resetsAt.nanos < (8210266876799 + 1) * 1000000000 := reset.2
  by_cases ahead : now.nanos < resetsAt.nanos
  · have fits : (resetsAt.nanos - now.nanos).toNat + 1000000000 < 2 ^ 64 * 1000000000 := by omega
    refine ⟨_, Patience.sleep?_of_future ahead fits, ?_, ?_, fun past => ?_, fun _ => ?_⟩
    · show 1000000000 < min ((resetsAt.nanos - now.nanos).toNat + 1000000000) 3600000000000
      omega
    · show min ((resetsAt.nanos - now.nanos).toNat + 1000000000) 3600000000000 ≤ 3600000000000
      omega
    · omega
    · show ((min ((resetsAt.nanos - now.nanos).toNat + 1000000000) 3600000000000 : Nat) : Int) = _
      omega
  · refine ⟨_, Patience.sleep?_of_past (by omega), by decide, by decide, fun _ => rfl, fun h => ?_⟩
    omega

/-- Whatever the headers hold, the window of a limited response is exhausted, and the wait for it is
computed and lies above one second and within one hour. A delay that ends at an instant that can be
named decides on its own; without one the timestamp does, and without either the wait is the least
one. -/
theorem wait_of_limit (headers : Headers) (now : Instant) (named : now.InRange) :
    (Window.ofLimit headers now).isExhausted = true
      ∧ (Window.ofLimit headers now).resetsAt.InRange
      ∧ ∃ d, Patience.standard.sleep? (Window.ofLimit headers now).resetsAt now = some d
        ∧ .ofSeconds 1 < d ∧ d ≤ .ofSeconds 3600
        ∧ (∀ n, Delays headers now n →
          (1 ≤ n ∧ n ≤ 3598 → d = .ofSeconds (n + 1).toNat)
          ∧ (3599 ≤ n → d = .ofSeconds 3600)
          ∧ (n ≤ 0 → d = .ofSeconds 2))
        ∧ ((∀ n, ¬ Delays headers now n) →
          (∀ z, Stamps headers z → (Window.ofLimit headers now).resetsAt = .ofSeconds z)
          ∧ ((∀ z, ¬ Stamps headers z) →
            (Window.ofLimit headers now).resetsAt = now ∧ d = .ofSeconds 2)) := by
  have reset := resetsAt_inRange headers named
  obtain ⟨d, computed, above, within, of_past, of_future⟩ := sleep?_of_inRange named reset
  refine ⟨rfl, reset, d, computed, above, within, fun n delays => ?_, fun none_delays => ?_⟩
  · rw [resetsAt_of_delays delays] at of_past of_future
    simp only at of_past of_future
    refine ⟨fun bounds => ?_, fun long => ?_, fun back => of_past (by omega)⟩
    · have nanos := of_future (by omega)
      have seconds : d.nanos = (n + 1).toNat * 1000000000 := by omega
      exact congrArg Span.mk seconds
    · have nanos := of_future (by omega)
      have seconds : d.nanos = 3600 * 1000000000 := by omega
      exact congrArg Span.mk seconds
  · refine ⟨fun z stamps => resetsAt_of_stamps none_delays stamps, fun none_stamps => ?_⟩
    have same := resetsAt_of_neither none_delays none_stamps
    rw [same] at of_past
    exact ⟨same, of_past (Int.le_refl _)⟩

/-- A minute in a value with a sign, zeros and gaps counts, and neither a timestamp that no number of
64 bits can hold nor a later value does. -/
theorem wait_of_limit_of_minute :
    let now : Instant := ⟨1700000000500000000⟩
    let headers : Headers :=
      [⟨"X-RateLimit-Reset", Text.bytes "99999999999999999999"⟩,
        ⟨"Retry-After", Text.bytes "\t+0060 "⟩, ⟨"retry-after", Text.bytes "5"⟩]
    now.InRange ∧ Delays headers now 60
      ∧ Patience.standard.sleep? (Window.ofLimit headers now).resetsAt now
        = some (.ofSeconds 61) := by
  intro now headers
  have named : now.InRange := by decide
  have delays : Delays headers now 60 :=
    ⟨(number?_eq_some_iff (by decide)).mp (by decide +kernel), by decide⟩
  obtain ⟨-, -, d, computed, -, -, delayed, -⟩ := wait_of_limit headers now named
  refine ⟨named, delays, ?_⟩
  rw [computed, (delayed 60 delays).1 (by decide)]
  rfl

end Quota
end Census
