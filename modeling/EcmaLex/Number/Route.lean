import EcmaLex.Number.Decimal

/-!
# From digits to doubles

A short run of digits becomes a double digit by digit, in double precision throughout. Longer runs
could lose digits on the way, so they become a decimal numeral first, which is read and rounded
once: the literal's own text, or the numeral of the integer where the digits are not decimal ones.
-/

namespace EcmaLex

namespace Radix

/-- The number of bits that a digit stands for, where the base is a power of two. -/
def digitBits? : Radix → Option Nat
  | binary => some 1
  | octal => some 3
  | decimal => none
  | hexadecimal => some 4

/-- The number that digits denote, in double precision: each digit multiplies what the digits before
it gave by the base and adds its own value, and both operations round. -/
def accumulate (r : Radix) (digits : List CodeUnit) : Binary64 :=
  digits.foldl (fun x u => (x.mul (.ofNat r.base)).add (.ofNat ((r.digit? u).getD 0))) .zero

/-- Whether a run of so many digits is taken up digit by digit: it has at most fifteen decimal
digits, or fits the fifty-three bits of a significand. The bits are counted in a word of thirty-two
bits. -/
def accumulates (r : Radix) (count : Nat) : Bool :=
  match r.digitBits? with
  | some bits => UInt32.ofNat count * UInt32.ofNat bits ≤ 53
  | none => count ≤ 15

end Radix

/-- How the number of a literal is found. -/
inductive Route where
  /-- Digit by digit. -/
  | accumulated (radix : Radix) (digits : List CodeUnit)
  /-- By reading the numeral of the integer that the digits denote. -/
  | converted (radix : Radix) (digits : List CodeUnit)
  /-- By reading a numeral. -/
  | numeral (text : List CodeUnit)
  deriving DecidableEq, Repr

namespace Route

/-- The route for an integer, by its digits. -/
def ofInteger (radix : Radix) (digits : List CodeUnit) : Route :=
  if radix.accumulates digits.length then accumulated radix digits else converted radix digits

/-- A numeral that is an integer without leading zeros. -/
def isPlain (text : List CodeUnit) : Bool :=
  text.all CodeUnit.isDecimalDigit && (text.length == 1 || text.head? != some CodeUnit.zero)

/-- The route for a decimal numeral. -/
def ofNumeral (text : List CodeUnit) : Route :=
  if isPlain text && Radix.decimal.accumulates text.length then accumulated .decimal text
  else numeral text

/-- The double that a text denotes as a decimal numeral. -/
def read? (text : List CodeUnit) : Option Binary64 := (Decimal.ofText? text).map Decimal.toBinary64

/-- The number at the end of the route. -/
def number? : Route → Option Binary64
  | accumulated radix digits => some (radix.accumulate digits)
  | converted radix digits =>
    some ((read? (Decimal.textOfNat (radix.valueOf digits))).getD (radix.accumulate digits))
  | numeral text => read? text

end Route

end EcmaLex
