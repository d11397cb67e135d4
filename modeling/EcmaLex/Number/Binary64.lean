/-!
# Double-precision numbers

A number is its sixty-four bits. `parts` reads them as a sign and an exact dyadic value, `ofRatio`
is the other direction: the double nearest to a quotient of natural numbers, the one with an even
significand where two are equally near. Everything is computed in exact integer arithmetic, so a
value is rounded once and only here.
-/

namespace EcmaLex

/-- A double-precision number, by its bits. -/
structure Binary64 where
  bits : UInt64
  deriving DecidableEq, Repr

namespace Binary64

/-- What the bits of a double stand for. -/
inductive Parts where
  | nan
  | infinite (negative : Bool)
  /-- The number `significand * 2 ^ exponent`, negated if `negative`. -/
  | finite (negative : Bool) (significand : Nat) (exponent : Int)
  deriving DecidableEq, Repr

/-- The fields of a double: the sign, the exponent of the last place, and the significand with
its leading bit, which only numbers with the least exponent lack. -/
def parts (x : Binary64) : Parts :=
  let n := x.bits.toNat
  let negative := Nat.pow 2 63 ≤ n
  let biased : Nat := n / Nat.pow 2 52 % Nat.pow 2 11
  let fraction := n % Nat.pow 2 52
  if biased = 0x7FF then
    if fraction = 0 then .infinite negative else .nan
  else if biased = 0 then
    .finite negative fraction (-1074)
  else
    .finite negative (Nat.pow 2 52 + fraction) ((biased : Int) - 1075)

/-- Positive zero. -/
def zero : Binary64 := ⟨0⟩

/-- Positive infinity. -/
def infinity : Binary64 := ⟨UInt64.ofNat (0x7FF * Nat.pow 2 52)⟩

/-- The quotient `a / b` rounded to a natural number, a half to the even neighbour. -/
def roundDiv (a b : Nat) : Nat :=
  let q := a / b
  let r := a % b
  if 2 * r < b then q
  else if b < 2 * r then q + 1
  else q + q % 2

/-- The exponent of the largest power of two that is at most `num / den`, both positive. -/
def floorLog2 (num den : Nat) : Int :=
  let k : Int := (num.log2 : Int) - den.log2
  let reached := if 0 ≤ k then den * Nat.pow 2 k.toNat ≤ num else den ≤ num * Nat.pow 2 (-k).toNat
  if reached then k else k - 1

/-- The exponent of the last place of the double nearest to `num / den`. -/
def lastPlace (num den : Nat) : Int := max (-1074) (floorLog2 num den - 52)

/-- The double nearest to `num / den`, where `den` is positive; of two equally near the one with
an even significand.

The significand is added to the exponent field rather than stored beside it: its leading bit, and
a carry out of rounding, then raise the exponent by themselves. -/
def ofRatio (num den : Nat) : Binary64 :=
  if num = 0 then zero
  else
    let e := lastPlace num den
    let m :=
      if 0 ≤ e then roundDiv num (den * Nat.pow 2 e.toNat)
      else roundDiv (num * Nat.pow 2 (-e).toNat) den
    ⟨UInt64.ofNat (min ((e + 1074).toNat * Nat.pow 2 52 + m) (0x7FF * Nat.pow 2 52))⟩

/-- The double nearest to a natural number. -/
def ofNat (n : Nat) : Binary64 := ofRatio n 1

/-- The same number with the other sign. -/
def neg (x : Binary64) : Binary64 := ⟨x.bits ^^^ UInt64.ofNat (Nat.pow 2 63)⟩

/-- The exact quotient that a finite double's magnitude is; infinities and NaN have none. -/
def toRatio? (x : Binary64) : Option (Nat × Nat) :=
  match x.parts with
  | .finite _ m e => some (if 0 ≤ e then (m * Nat.pow 2 e.toNat, 1) else (m, Nat.pow 2 (-e).toNat))
  | _ => none

/-- The product of two magnitudes, rounded; infinite if either is not finite. -/
def mul (x y : Binary64) : Binary64 :=
  match x.toRatio?, y.toRatio? with
  | some (a, b), some (c, d) => ofRatio (a * c) (b * d)
  | _, _ => infinity

/-- The sum of two magnitudes, rounded; infinite if either is not finite. -/
def add (x y : Binary64) : Binary64 :=
  match x.toRatio?, y.toRatio? with
  | some (a, b), some (c, d) => ofRatio (a * d + c * b) (b * d)
  | _, _ => infinity

/-- The quotient of two magnitudes, rounded; infinite if either is not finite or the second is
zero. -/
def div (x y : Binary64) : Binary64 :=
  match x.toRatio?, y.toRatio? with
  | some (a, b), some (c, d) => if c = 0 then infinity else ofRatio (a * d) (b * c)
  | _, _ => infinity

end Binary64

end EcmaLex
