import EcmaLex.Number.Decimal

/-!
# The fewest digits that read back

A finite double stands for the interval of reals that round to it. `shortest` gives the decimal
with the fewest digits in that interval, of those the nearest to the double, and the one with an
even last digit where two are equally near.

If any decimal of a given number of digits lies in the interval, then so does one of the double's
two neighbours among those decimals: only the neighbours are tried.
-/

namespace EcmaLex

namespace Decimal

/-- The number of decimal digits of a natural number, one for zero. -/
def digitCount (n : Nat) : Nat := (Nat.toDigits 10 n).length

/-- The `k` with `10 ^ (k - 1) ≤ num / den < 10 ^ k`, both positive. -/
def magnitude (num den : Nat) : Int :=
  if den ≤ num then digitCount (num / den)
  else
    let l := digitCount (den / num)
    if den ≤ num * Nat.pow 10 (l - 1) then 2 - (l : Int) else 1 - (l : Int)

/-- The same number without trailing zeros in its coefficient. -/
def trimZeros (d : Decimal) : Decimal :=
  if d.coefficient ≠ 0 ∧ d.coefficient % 10 = 0 then
    trimZeros { coefficient := d.coefficient / 10, exponent := d.exponent + 1 }
  else d
termination_by d.coefficient
decreasing_by omega

end Decimal

namespace Binary64

/-- The reals that round to a double, as quotients over one denominator. The ends belong to the
interval if `closed`. -/
structure Interval where
  low : Nat
  value : Nat
  high : Nat
  den : Nat
  closed : Bool

/-- The interval of the double `significand * 2 ^ exponent`. The gap below the least significand
of a binade is half the gap above it. -/
def Interval.of (significand : Nat) (exponent : Int) : Interval :=
  let below := if significand = Nat.pow 2 52 ∧ -1074 < exponent then 1 else 2
  let scale := Nat.pow 2 (exponent - 2).toNat
  { low := (4 * significand - below) * scale
    value := 4 * significand * scale
    high := (4 * significand + 2) * scale
    den := Nat.pow 2 (2 - exponent).toNat
    closed := significand % 2 = 0 }

/-- Whether `num / den` lies in the interval. -/
def Interval.contains (i : Interval) (num den : Nat) : Bool :=
  let l := i.low * den
  let h := i.high * den
  let x := num * i.den
  if i.closed then l ≤ x && x ≤ h else l < x && x < h

/-- The quotient that a decimal is. -/
def ratioOf (d : Decimal) : Nat × Nat :=
  match d.exponent with
  | .ofNat e => (d.coefficient * Nat.pow 10 e, 1)
  | .negSucc k => (d.coefficient, Nat.pow 10 (k + 1))

/-- The best decimal with its last digit at `10 ^ exponent` that rounds to the interval's value:
the nearer of the two neighbours, the even one at equal distance. -/
def Interval.onGrid? (i : Interval) (exponent : Int) : Option Decimal :=
  let unit := ratioOf ⟨1, exponent⟩
  let num := i.value * unit.2
  let den := i.den * unit.1
  let down : Decimal := ⟨num / den, exponent⟩
  let up : Decimal := ⟨num / den + 1, exponent⟩
  let inside (d : Decimal) : Bool := i.contains (ratioOf d).1 (ratioOf d).2
  if inside down then
    if inside up then some (if roundDiv num den = num / den then down else up) else some down
  else if inside up then some up
  else none

/-- The decimal of fewest digits that reads back as `significand * 2 ^ exponent`; seventeen
digits always do. -/
def shortest (significand : Nat) (exponent : Int) : Decimal :=
  let i := Interval.of significand exponent
  let k := Decimal.magnitude i.value i.den
  let found := (List.range 17).findSome? fun (n : Nat) => i.onGrid? (k - (n + 1))
  (found.getD ⟨i.value / i.den, 0⟩).trimZeros

end Binary64

end EcmaLex
