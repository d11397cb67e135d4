import EcmaLex.Number.Shortest

/-!
# Numbers as text

A numeral style says how the shortest digits of a double are laid out: for which sizes the number
is written positionally, whether a fraction is always shown, and how zero and the values that are
no numbers are written. The language's own number text and the number text of JSON documents are
two styles.
-/

namespace EcmaLex

/-- The layout of numbers in a text. Sizes are given by the position of the decimal point: a
number with point position `p` lies between `10 ^ (p - 1)` and `10 ^ p`. -/
structure NumeralStyle where
  /-- Numbers with a point position of at most this value are written with an exponent. -/
  tooSmall : Int
  /-- Numbers with a point position above this value are written with an exponent. -/
  largest : Int
  /-- Whether positional numbers without a fraction end in `.0`. -/
  pointZero : Bool
  zero : String
  negativeZero : String
  nan : String
  infinity : String
  negativeInfinity : String

namespace NumeralStyle

/-- Number text of the language: positional for sizes from `1e-7` up to `1e21`, no fraction on
integers, zero without its sign. -/
def script : NumeralStyle where
  tooSmall := -6
  largest := 21
  pointZero := false
  zero := "0"
  negativeZero := "0"
  nan := "NaN"
  infinity := "Infinity"
  negativeInfinity := "-Infinity"

/-- Number text of JSON documents: positional for sizes from `1e-5` up to `1e16`, always with a
fraction, and no text for values that are no numbers. -/
def document : NumeralStyle where
  tooSmall := -5
  largest := 16
  pointZero := true
  zero := "0.0"
  negativeZero := "-0.0"
  nan := "null"
  infinity := "null"
  negativeInfinity := "null"

/-- A number with its point somewhere among, before or after its digits. `point` is the number of
digits before the point, negative where zeros stand between the point and the digits. -/
def positional (s : NumeralStyle) (digits : List Char) (point : Int) : List Char :=
  let n : Int := digits.length
  if n ≤ point then
    digits ++ List.replicate (point - n).toNat '0' ++ if s.pointZero then ['.', '0'] else []
  else if 0 < point then
    digits.take point.toNat ++ '.' :: digits.drop point.toNat
  else
    ['0', '.'] ++ List.replicate (-point).toNat '0' ++ digits

/-- A number as one digit, the others after a point, and a signed exponent. -/
def scientific (digits : List Char) (point : Int) : List Char :=
  let fraction := digits.drop 1
  let e := point - 1
  digits.take 1 ++ (if fraction.isEmpty then [] else '.' :: fraction) ++
    ['e', if 0 ≤ e then '+' else '-'] ++ Nat.toDigits 10 e.natAbs

/-- The text of a double: the fewest digits that read back, in the style's layout. -/
def render (s : NumeralStyle) (x : Binary64) : String :=
  match x.parts with
  | .nan => s.nan
  | .infinite negative => if negative then s.negativeInfinity else s.infinity
  | .finite negative 0 _ => if negative then s.negativeZero else s.zero
  | .finite negative m e =>
    let d := Binary64.shortest m e
    let digits := Nat.toDigits 10 d.coefficient
    let point : Int := digits.length + d.exponent
    let body :=
      if s.tooSmall < point ∧ point ≤ s.largest then s.positional digits point
      else scientific digits point
    String.ofList (if negative then '-' :: body else body)

end NumeralStyle

end EcmaLex
