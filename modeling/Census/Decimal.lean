import Census.Text.Numeral

/-!
# Decimal text of binary fractions

A binary fraction is written with a fixed number of decimal places. The value is taken exactly as
`m * 2 ^ q`, scaled and rounded once, so no digit comes from an intermediate rounding.
-/

namespace Census
namespace Decimal

/-- The nearest whole number to `n / d`; a half goes to the even neighbour. -/
def roundQuotient (n d : Nat) : Nat :=
  let q := n / d
  let r := n % d
  if 2 * r < d then q
  else if 2 * r > d then q + 1
  else if q % 2 = 0 then q else q + 1

/-- The nearest whole number to `m * 2 ^ q * 10 ^ places`. -/
def scaled (m : Nat) (q : Int) (places : Nat) : Nat :=
  if 0 ≤ q then m * Nat.pow 2 q.toNat * Nat.pow 10 places
  else roundQuotient (m * Nat.pow 10 places) (Nat.pow 2 (-q).toNat)

/-- A number of units of `10 ^ -places`, written with a point before the last `places` digits. -/
def pointed (places n : Nat) : String :=
  if places = 0 then toString n
  else toString (n / Nat.pow 10 places) ++ "." ++ Numeral.padded places (n % Nat.pow 10 places)

/-- A binary fraction with `places` decimal places. Its sign is kept even when all digits are 0. -/
def fixed (places : Nat) (x : Float) : String :=
  let bits := x.toBits.toNat
  let sign := if bits / Nat.pow 2 63 = 1 then "-" else ""
  let exponent := bits / Nat.pow 2 52 % Nat.pow 2 11
  let fraction := bits % Nat.pow 2 52
  if exponent = 2047 then
    if fraction = 0 then sign ++ "inf" else "NaN"
  else
    let m := if exponent = 0 then fraction else fraction + Nat.pow 2 52
    let q : Int := (if exponent = 0 then 1 else exponent : Nat) - 1075
    sign ++ pointed places (scaled m q places)

example : pointed 1 (scaled 1 (-2) 1) = "0.2" := by decide +kernel
example : pointed 1 (scaled 3 (-2) 1) = "0.8" := by decide +kernel

end Decimal
end Census
