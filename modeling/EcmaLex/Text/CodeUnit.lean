/-!
# Code units

Source text is a list of UTF-16 code units. This module names the units the grammar mentions and
sorts units into the classes the lexical grammar is written in: line terminators, blanks, digits
of a radix, quotes, surrogates.

A class that only holds ASCII characters says so in its name or its comment; nothing here depends
on a Unicode property table.
-/

namespace EcmaLex

/-- A UTF-16 code unit. -/
abbrev CodeUnit := UInt16

namespace CodeUnit

/-- The unit of a character of the Basic Multilingual Plane, written as the character. -/
abbrev ofChar (c : Char) : CodeUnit := UInt16.ofNat c.toNat

/-! ## Units the grammar names -/

abbrev lineFeed : CodeUnit := 0x0A
abbrev carriageReturn : CodeUnit := 0x0D
abbrev lineSeparator : CodeUnit := 0x2028
abbrev paragraphSeparator : CodeUnit := 0x2029
abbrev doubleQuote : CodeUnit := 0x22
abbrev hash : CodeUnit := 0x23
abbrev dollar : CodeUnit := 0x24
abbrev singleQuote : CodeUnit := 0x27
abbrev star : CodeUnit := 0x2A
abbrev plus : CodeUnit := 0x2B
abbrev minus : CodeUnit := 0x2D
abbrev period : CodeUnit := 0x2E
abbrev slash : CodeUnit := 0x2F
abbrev zero : CodeUnit := 0x30
abbrev lessThan : CodeUnit := 0x3C
abbrev leftBracket : CodeUnit := 0x5B
abbrev backslash : CodeUnit := 0x5C
abbrev rightBracket : CodeUnit := 0x5D
abbrev underscore : CodeUnit := 0x5F
abbrev backtick : CodeUnit := 0x60
abbrev leftBrace : CodeUnit := 0x7B
abbrev rightBrace : CodeUnit := 0x7D

/-! ## Classes -/

/-- Line feed, carriage return, line separator and paragraph separator end a line. -/
def isLineTerminator (u : CodeUnit) : Bool :=
  u == lineFeed || u == carriageReturn || u == lineSeparator || u == paragraphSeparator

/-- White space that does not end a line: tab, vertical tab, form feed, the space separators and
the byte order mark. -/
def isBlank (u : CodeUnit) : Bool :=
  u == 0x09 || u == 0x0B || u == 0x0C || u == 0x20 || u == 0xA0 || u == 0x1680 ||
    (0x2000 ≤ u && u ≤ 0x200A) || u == 0x202F || u == 0x205F || u == 0x3000 || u == 0xFEFF

/-- The units of the Basic Latin block. -/
def isAscii (u : CodeUnit) : Bool := u < 0x80

/-- The decimal digits `0` to `9`. -/
def isDecimalDigit (u : CodeUnit) : Bool := 0x30 ≤ u && u ≤ 0x39

/-- The octal digits `0` to `7`. -/
def isOctalDigit (u : CodeUnit) : Bool := 0x30 ≤ u && u ≤ 0x37

/-- An octal digit is a decimal digit. -/
theorem isDecimalDigit_of_isOctalDigit {u : CodeUnit} (h : u.isOctalDigit = true) :
    u.isDecimalDigit = true := by
  simp only [isOctalDigit, isDecimalDigit, Bool.and_eq_true, decide_eq_true_eq,
    UInt16.le_iff_toNat_le, UInt16.reduceToNat] at h ⊢
  omega

/-- The quotes that delimit string literals and attribute values. -/
def isQuote (u : CodeUnit) : Bool := u == doubleQuote || u == singleQuote

/-- The first half of a surrogate pair. -/
def isLead (u : CodeUnit) : Bool := 0xD800 ≤ u && u ≤ 0xDBFF

/-- The second half of a surrogate pair. -/
def isTrail (u : CodeUnit) : Bool := 0xDC00 ≤ u && u ≤ 0xDFFF

/-! ## Digits -/

/-- The value of a hexadecimal digit, of either letter case. -/
def hexDigit? (u : CodeUnit) : Option Nat :=
  if 0x30 ≤ u && u ≤ 0x39 then some (u.toNat - 0x30)
  else if 0x61 ≤ u && u ≤ 0x66 then some (u.toNat - 0x61 + 10)
  else if 0x41 ≤ u && u ≤ 0x46 then some (u.toNat - 0x41 + 10)
  else none

end CodeUnit

/-- The radices in which the grammar writes digits. -/
inductive Radix where
  | binary
  | octal
  | decimal
  | hexadecimal
  deriving DecidableEq, Repr

namespace Radix

/-- The number of digits of a radix. -/
def base : Radix → Nat
  | binary => 2
  | octal => 8
  | decimal => 10
  | hexadecimal => 16

/-- The value of a unit as a digit of the radix. -/
def digit? (r : Radix) (u : CodeUnit) : Option Nat :=
  (CodeUnit.hexDigit? u).filter (· < r.base)

/-- Whether a unit is a digit of the radix. -/
def isDigit (r : Radix) (u : CodeUnit) : Bool := (r.digit? u).isSome

/-- The number a list of digits denotes, most significant digit first. Units that are no digits
of the radix count as zero. -/
def valueOf (r : Radix) (digits : List CodeUnit) : Nat :=
  digits.foldl (fun n u => n * r.base + (r.digit? u).getD 0) 0

end Radix

end EcmaLex
