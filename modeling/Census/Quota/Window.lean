import Census.Quota.Limit
import Census.Time.Instant

/-!
# Quota windows

A window says how many searches are left and when the count starts again. It is asked for right
before each batch, since other users of the same credential use it up as well.
-/

namespace Census
namespace Quota

structure Window where
  remaining : Nat
  resetsAt : Instant
deriving DecidableEq

namespace Window

def isExhausted (w : Window) : Bool := w.remaining = 0

/-- The largest batch that the window allows. -/
def batchLimit (w : Window) : Nat := w.remaining

/-- A window that resets at a timestamp in seconds, if that can be named. -/
def ofSeconds? (remaining : Nat) (reset : Int) : Option Window :=
  (Instant.ofSeconds? reset).map fun i => ⟨remaining, i⟩

/-- The whole number in the first value under a name. -/
def number? (headers : Http.Headers) (name : String) : Option Int :=
  (headers.text? name).bind fun v => Numeral.int64? (Text.trimmed v)

/-- The window of a response that says the quota is used up. It resets after the delay that the
response asks for, or else at the timestamp that it gives, or else right away. -/
def ofLimit (headers : Http.Headers) (now : Instant) : Window where
  remaining := 0
  resetsAt :=
    let delayed := (number? headers retryAfter).bind now.later?
    let reset := (number? headers limitReset).bind Instant.ofSeconds?
    (delayed.or reset).getD now

@[simp] theorem isExhausted_ofLimit (headers : Http.Headers) (now : Instant) :
    (ofLimit headers now).isExhausted = true := rfl

end Window
end Quota
end Census
