import EcmaLex.Location

/-!
# Lexical errors

An error is a cause and the location it points at. The wording of each cause is in `message` and
nowhere else.
-/

namespace EcmaLex

/-- Why an escape sequence could not be decoded. -/
inductive EscapeError where
  | strictOctal
  | templateOctal
  | eightOrNine
  | invalidHex
  | invalidUnicode
  | outOfRange
  deriving DecidableEq, Repr

/-- The wording of an escape error. -/
def EscapeError.message : EscapeError → String
  | strictOctal => "Octal escape sequences are not allowed in strict mode"
  | templateOctal => "Octal escape sequences are not allowed in template strings"
  | eightOrNine => "\\8 and \\9 are not allowed in escape sequences"
  | invalidHex => "Invalid hexadecimal escape sequence"
  | invalidUnicode => "Invalid Unicode escape sequence"
  | outOfRange => "Undefined Unicode code-point"

/-- Why a text is no token. -/
inductive LexError.Cause where
  | unterminatedString
  | unterminatedTemplate
  | unterminatedComment
  | unterminatedRegExp
  | invalidEscape (error : EscapeError)
  | invalidIdentifierEscape
  | strictOctalLiteral
  | strictLeadingZero
  | illegalCharacter (c : Char)
  | identifierAfterNumber
  | missingDigits (radix : Radix)
  | missingExponent
  | invalidNumericSeparator
  | doubleNumericSeparator
  | trailingNumericSeparator
  | invalidNumericLiteral
  | invalidBigInt
  | invalidRegExpFlag (c : Char)
  | duplicateRegExpFlag (c : Char)
  | conflictingRegExpFlags
  deriving DecidableEq, Repr

/-- The wording of a cause. -/
def LexError.Cause.message : LexError.Cause → String
  | unterminatedString => "Unterminated string literal"
  | unterminatedTemplate => "Unterminated template literal"
  | unterminatedComment => "Unterminated comment"
  | unterminatedRegExp => "Unterminated regular expression"
  | invalidEscape e => e.message
  | invalidIdentifierEscape => "Invalid Unicode escape sequence in identifier"
  | strictOctalLiteral => "Octal literals are not allowed in strict mode"
  | strictLeadingZero => "Decimals with leading zeros are not allowed in strict mode"
  | illegalCharacter c => "Invalid or unexpected token '" ++ c.toString ++ "'"
  | identifierAfterNumber => "Identifier starts immediately after numeric literal"
  | missingDigits r => "Expected digits after the radix-" ++ toString r.base ++ " prefix"
  | missingExponent => "Missing digits in exponent"
  | invalidNumericSeparator => "Numeric separators are not allowed here"
  | doubleNumericSeparator => "Only one underscore is allowed as numeric separator"
  | trailingNumericSeparator =>
    "Numeric separators are not allowed at the end of numeric literals"
  | invalidNumericLiteral => "Invalid numeric literal"
  | invalidBigInt => "Invalid BigInt syntax"
  | invalidRegExpFlag c => "Invalid regular expression flag '" ++ c.toString ++ "'"
  | duplicateRegExpFlag c => "Duplicate regular expression flag '" ++ c.toString ++ "'"
  | conflictingRegExpFlags => "Regular expression flags 'u' and 'v' cannot be combined"

/-- A lexical error. -/
structure LexError where
  cause : LexError.Cause
  location : Location
  deriving DecidableEq, Repr

namespace LexError

/-- The wording of an error, without its place. -/
def message (e : LexError) : String := e.cause.message

/-- The error with its line and column in front. -/
def display (e : LexError) : String :=
  toString e.location.line ++ ":" ++ toString e.location.column ++ ": " ++ e.message

end LexError

end EcmaLex
