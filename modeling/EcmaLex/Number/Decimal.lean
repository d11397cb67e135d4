import EcmaLex.Number.Binary64
import EcmaLex.Text.CodeUnit

/-!
# Decimal numerals

A decimal is a natural number times a power of ten. `ofText?` reads the numeral forms of the
grammar, with at least one digit beside the point, and `toBinary64` rounds to the nearest double.
-/

namespace EcmaLex

/-- The number `coefficient * 10 ^ exponent`. -/
structure Decimal where
  coefficient : Nat
  exponent : Int
  deriving DecidableEq, Repr

namespace Decimal

/-- The exponent part of a numeral after its `e`: an optional sign and at least one digit, up to
the end of the text. -/
def exponentOfText? (text : List CodeUnit) : Option Int :=
  let (negative, digits) :=
    match text with
    | u :: rest =>
      if u = CodeUnit.minus then (true, rest)
      else if u = CodeUnit.plus then (false, rest)
      else (false, text)
    | [] => (false, [])
  if digits.isEmpty || !digits.all CodeUnit.isDecimalDigit then none
  else
    let n := Radix.decimal.valueOf digits
    some (if negative then -(n : Int) else n)

/-- Reads a numeral: digits with at most one point, at least one digit, and an optional exponent
after `e` or `E`. -/
def ofText? (text : List CodeUnit) : Option Decimal :=
  let whole := text.takeWhile CodeUnit.isDecimalDigit
  let afterWhole := text.dropWhile CodeUnit.isDecimalDigit
  let (fraction, afterFraction) :=
    match afterWhole with
    | u :: rest =>
      if u = CodeUnit.period then
        (rest.takeWhile CodeUnit.isDecimalDigit, rest.dropWhile CodeUnit.isDecimalDigit)
      else ([], afterWhole)
    | [] => ([], [])
  if whole.isEmpty && fraction.isEmpty then none
  else
    let exponent? :=
      match afterFraction with
      | [] => some 0
      | u :: rest =>
        if u = CodeUnit.ofChar 'e' || u = CodeUnit.ofChar 'E' then exponentOfText? rest else none
    exponent?.map fun e =>
      { coefficient := Radix.decimal.valueOf (whole ++ fraction)
        exponent := e - fraction.length }

/-- The numeral of a natural number, without a point or an exponent. -/
def textOfNat (n : Nat) : List CodeUnit := (Nat.toDigits 10 n).map CodeUnit.ofChar

/-- The nearest double. Exponents far outside the range of doubles are answered without computing
the power of ten: from `10 ^ 342` on every number rounds to infinity, and a number below
`2 ^ (-1076)` rounds to zero. -/
def toBinary64 (d : Decimal) : Binary64 :=
  if d.coefficient = 0 then .zero
  else
    match d.exponent with
    | .ofNat e => if 342 ≤ e then .infinity else .ofRatio (d.coefficient * Nat.pow 10 e) 1
    | .negSucc k =>
      if d.coefficient.log2 + 1077 ≤ 3 * (k + 1) then .zero
      else .ofRatio d.coefficient (Nat.pow 10 (k + 1))

end Decimal

end EcmaLex
