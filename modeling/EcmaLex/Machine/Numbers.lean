import EcmaLex.Lexeme.Numeric
import EcmaLex.Machine.Basic

/-!
# Numbers on machine words

The digits of a number are counted and added up in double precision while they are passed. Whether
the sum is the number, or the text has to be read again, is decided at the end.
-/

namespace EcmaLex

/-- The number of zero bits that the number of digits of a radix ends with. -/
def Radix.trailingZeros (r : Radix) : Nat := r.digitBits?.getD 1

/-- The integer of arbitrary size that digits denote. There have to be digits, and nothing else. -/
def Radix.parse? (r : Radix) (digits : List CodeUnit) : Option Nat :=
  if digits.isEmpty || !digits.all r.isDigit then none else some (r.valueOf digits)

namespace Routine

/-- Digits that have been passed, separators left out. -/
structure DigitRun where
  count : Nat := 0
  value : Binary64 := .zero

namespace DigitRun

/-- One more digit. -/
def push (run : DigitRun) (base digit : Nat) : DigitRun :=
  ⟨run.count + 1, (run.value.mul (.ofNat base)).add (.ofNat digit)⟩

end DigitRun

/-! ## Digits -/

/-- A run of digits as far as it has been passed. -/
structure DigitsSoFar where
  run : DigitRun := {}
  afterSeparator : Bool := false

/-- One more digit, or a separator. -/
def digitStep (separators : Bool) (radix : Radix) (s : DigitsSoFar) :
    Routine LexError (Step DigitsSoFar DigitsSoFar) := do
  let m ← state
  match m.current.digit? radix with
  | some digit => do
    advance
    return .again ⟨s.run.push radix.base digit.toNat, false⟩
  | none =>
    if separators && m.is CodeUnit.underscore then
      if s.run.count = 0 then failHere .invalidNumericSeparator
      else if s.afterSeparator then failHere .doubleNumericSeparator
      else do
        update (·.note { numericSeparator := true })
        advance
        return .again { s with afterSeparator := true }
    else return .done s

/-- The digits at the cursor, of which there may be none. -/
def digits (separators : Bool) (radix : Radix) : Routine LexError DigitRun := do
  let s ← loop (digitStep separators radix) {}
  if s.afterSeparator then do
    -- the error is at the separator, which is one unit back
    let m ← state
    let column ← require (m.build.sub m.column 1)
    let offset ← require (minus? m.index 1)
    failAt .trailingNumericSeparator ⟨m.line.toNat, column.toNat, offset⟩
  else return s.run

/-! ## Parts of literals -/

/-- What follows a number must neither continue it nor begin a name. -/
def checkNumericEnd : Routine LexError Unit := do
  let (c, _) ← currentCodePoint
  if c.isUnit CodeUnit.isDecimalDigit || c == CodeUnit.backslash.toNat || c.isIdentifierStart then
    failHere .identifierAfterNumber
  else return ()

/-- Whether the suffix of a BigInt stands at the cursor. -/
def hasSuffix (c : Context) (m : Machine) : Bool := m.is (CodeUnit.ofChar 'n') && c.next

/-- An optional fraction, and whether there is one. -/
def fraction (c : Context) : Routine LexError Bool := do
  let point ← eat CodeUnit.period
  if point then do
    let _ ← digits c.next .decimal
    return true
  else return false

/-- An optional exponent, and whether there is one. -/
def exponent (c : Context) : Routine LexError Bool := do
  let m ← state
  if !m.current.isUnit Numeric.isExponentMark then return false
  else do
    advance
    let marked ← state
    if marked.current.isUnit Numeric.isSign then advance else pure ()
    let run ← digits c.next .decimal
    if run.count = 0 then failHere .missingExponent else return true

/-! ## Values -/

/-- The suffix and the value of a BigInt, whose digits stand from `digitsStart` on. -/
def finishBigInt (start digitsStart : Nat) (radix : Radix) : Routine LexError Lexeme := do
  let text ← sliceFrom digitsStart
  match radix.parse? (Numeric.dropSeparators text) with
  | none => failHere .invalidBigInt
  | some n => do
    advance
    checkNumericEnd
    let literal ← sliceFrom start
    return ⟨.numericLiteral, .bigInt n (Utf16.lossy literal)⟩

/-- The value of digits whose base is a power of two, from `digitsStart` up to the cursor. -/
def radixValue (digitsStart : Nat) (radix : Radix) (run : DigitRun) :
    Routine LexError Binary64 := do
  let m ← state
  -- of very many digits this is the number of bits in a word only
  let bits ← require
    (m.build.mul (UInt32.ofNat run.count) (UInt32.ofNat radix.trailingZeros))
  if bits ≤ 53 then return run.value
  else do
    let text ← sliceFrom digitsStart
    let parsed := (radix.parse? (Numeric.dropSeparators text)).bind fun n =>
      Route.read? (Decimal.textOfNat n)
    return parsed.getD run.value

/-- The value of the text from `start` up to the cursor. -/
def parseDecimalSlice (start : Nat) : Routine LexError Binary64 := do
  let text ← sliceFrom start
  match Route.read? (Numeric.dropSeparators text) with
  | some x => return x
  | none => do
    let m ← state
    failAt .invalidNumericLiteral m.tokenLocation

/-- The end of a decimal literal. The sum of its digits counts where there are only digits, and no
more than fifteen. -/
def finishDecimal (c : Context) (start : Nat) (isInteger : Bool) (integer : DigitRun) :
    Routine LexError Lexeme := do
  let m ← state
  if hasSuffix c m then failHere .invalidBigInt
  else do
    checkNumericEnd
    if isInteger && integer.count ≤ 15 then return ⟨.numericLiteral, .number integer.value⟩
    else do
      let x ← parseDecimalSlice start
      return ⟨.numericLiteral, .number x⟩

/-! ## Literals -/

/-- A decimal literal. -/
def decimalNumber (c : Context) : Routine LexError Lexeme := do
  let m ← state
  let integer ← digits c.next .decimal
  let stopped ← state
  if hasSuffix c stopped then finishBigInt m.index m.index .decimal
  else do
    let point ← fraction c
    let scaled ← exponent c
    finishDecimal c m.index (!point && !scaled) integer

/-- A literal with a prefix of two units. -/
def radixNumber (c : Context) (radix : Radix) : Routine LexError Lexeme := do
  let m ← state
  advanceBy 2
  let run ← digits c.next radix
  if run.count = 0 then failHere (.missingDigits radix)
  else do
    let stopped ← state
    if hasSuffix c stopped then finishBigInt m.index (m.index + 2) radix
    else do
      checkNumericEnd
      let x ← radixValue (m.index + 2) radix run
      return ⟨.numericLiteral, .number x⟩

/-- Digits behind a leading zero, as far as they have been passed. -/
structure LegacyDigits where
  run : DigitRun := {}
  octal : Bool := true

/-- One more digit behind a leading zero. It is added up as an octal one. -/
def legacyStep (s : LegacyDigits) : Routine LexError (Step LegacyDigits LegacyDigits) := do
  let m ← state
  if m.current.isUnit CodeUnit.isDecimalDigit then do
    let digit ← require (minus? m.current CodeUnit.zero.toNat)
    advance
    return .again ⟨s.run.push 8 digit, s.octal && m.current.isUnit CodeUnit.isOctalDigit⟩
  else return .done s

/-- A zero and more digits. -/
def legacyNumber (c : Context) : Routine LexError Lexeme := do
  let m ← state
  let s ← loop legacyStep {}
  if s.octal then
    if c.isStrict then failAt .strictOctalLiteral m.location
    else do
      update (·.note { legacyOctal := true })
      let stopped ← state
      if hasSuffix c stopped then failHere .invalidBigInt
      else do
        checkNumericEnd
        let x ← radixValue m.index .octal s.run
        return ⟨.numericLiteral, .number x⟩
  else if c.isStrict then failAt .strictLeadingZero m.location
  else do
    -- an 8 or a 9: the sum in base eight is of no use, the text is read again as a decimal
    update (·.note { legacyOctal := true })
    let _ ← fraction c
    let _ ← exponent c
    finishDecimal c m.index false {}

/-- A numeric literal, from a digit or from a point before a digit. -/
def number (c : Context) : Routine LexError Lexeme := do
  let m ← state
  if m.is CodeUnit.zero then
    match m.peek.unit?.bind Numeric.radixOf? with
    | some radix => radixNumber c radix
    | none =>
      if m.peek.isUnit CodeUnit.isDecimalDigit then legacyNumber c
      -- no separator stands behind a leading zero
      else if m.peekIs 1 CodeUnit.underscore && c.next then do
        advance
        failHere .invalidNumericSeparator
      else decimalNumber c
  else decimalNumber c

end Routine

end EcmaLex
