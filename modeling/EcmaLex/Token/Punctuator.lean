import EcmaLex.Text.CodeUnit

/-!
# Punctuators

Every punctuator has one spelling. `all` lists them by falling length of the spelling, so the first
one that a text begins with is the longest.
-/

namespace EcmaLex

/-- The punctuators of the language, those of JSX tags included. -/
inductive Punctuator where
  | leftBrace
  | rightBrace
  | leftParen
  | rightParen
  | leftBracket
  | rightBracket
  | period
  | ellipsis
  | semicolon
  | comma
  | lessThan
  | greaterThan
  | lessThanEqual
  | greaterThanEqual
  | equal
  | notEqual
  | strictEqual
  | strictNotEqual
  | plus
  | minus
  | star
  | percent
  | exponent
  | increment
  | decrement
  | leftShift
  | rightShift
  | unsignedRightShift
  | ampersand
  | pipe
  | caret
  | bang
  | tilde
  | logicalAnd
  | logicalOr
  | nullishCoalescing
  | question
  | optionalChain
  | colon
  | assign
  | plusAssign
  | minusAssign
  | starAssign
  | percentAssign
  | exponentAssign
  | leftShiftAssign
  | rightShiftAssign
  | unsignedRightShiftAssign
  | ampersandAssign
  | pipeAssign
  | caretAssign
  | logicalAndAssign
  | logicalOrAssign
  | nullishAssign
  | arrow
  | slash
  | slashAssign
  | jsxClosingTagStart
  | jsxSelfClosing
  deriving DecidableEq, Repr

namespace Punctuator

/-- The name under which a punctuator is reported. -/
def name : Punctuator → String
  | leftBrace => "LeftBrace"
  | rightBrace => "RightBrace"
  | leftParen => "LeftParen"
  | rightParen => "RightParen"
  | leftBracket => "LeftBracket"
  | rightBracket => "RightBracket"
  | period => "Period"
  | ellipsis => "Ellipsis"
  | semicolon => "Semicolon"
  | comma => "Comma"
  | lessThan => "LessThan"
  | greaterThan => "GreaterThan"
  | lessThanEqual => "LessThanEqual"
  | greaterThanEqual => "GreaterThanEqual"
  | equal => "Equal"
  | notEqual => "NotEqual"
  | strictEqual => "StrictEqual"
  | strictNotEqual => "StrictNotEqual"
  | plus => "Plus"
  | minus => "Minus"
  | star => "Star"
  | percent => "Percent"
  | exponent => "Exponent"
  | increment => "Increment"
  | decrement => "Decrement"
  | leftShift => "LeftShift"
  | rightShift => "RightShift"
  | unsignedRightShift => "UnsignedRightShift"
  | ampersand => "Ampersand"
  | pipe => "Pipe"
  | caret => "Caret"
  | bang => "Bang"
  | tilde => "Tilde"
  | logicalAnd => "LogicalAnd"
  | logicalOr => "LogicalOr"
  | nullishCoalescing => "NullishCoalescing"
  | question => "Question"
  | optionalChain => "OptionalChain"
  | colon => "Colon"
  | assign => "Assign"
  | plusAssign => "PlusAssign"
  | minusAssign => "MinusAssign"
  | starAssign => "StarAssign"
  | percentAssign => "PercentAssign"
  | exponentAssign => "ExponentAssign"
  | leftShiftAssign => "LeftShiftAssign"
  | rightShiftAssign => "RightShiftAssign"
  | unsignedRightShiftAssign => "UnsignedRightShiftAssign"
  | ampersandAssign => "AmpersandAssign"
  | pipeAssign => "PipeAssign"
  | caretAssign => "CaretAssign"
  | logicalAndAssign => "LogicalAndAssign"
  | logicalOrAssign => "LogicalOrAssign"
  | nullishAssign => "NullishAssign"
  | arrow => "Arrow"
  | slash => "Slash"
  | slashAssign => "SlashAssign"
  | jsxClosingTagStart => "JsxClosingTagStart"
  | jsxSelfClosing => "JsxSelfClosing"

/-- How a punctuator is written. -/
def spelling : Punctuator → List Char
  | leftBrace => ['\x7b']
  | rightBrace => ['\x7d']
  | leftParen => ['(']
  | rightParen => [')']
  | leftBracket => ['[']
  | rightBracket => [']']
  | period => ['.']
  | ellipsis => ['.', '.', '.']
  | semicolon => [';']
  | comma => [',']
  | lessThan => ['<']
  | greaterThan => ['>']
  | lessThanEqual => ['<', '=']
  | greaterThanEqual => ['>', '=']
  | equal => ['=', '=']
  | notEqual => ['!', '=']
  | strictEqual => ['=', '=', '=']
  | strictNotEqual => ['!', '=', '=']
  | plus => ['+']
  | minus => ['-']
  | star => ['*']
  | percent => ['%']
  | exponent => ['*', '*']
  | increment => ['+', '+']
  | decrement => ['-', '-']
  | leftShift => ['<', '<']
  | rightShift => ['>', '>']
  | unsignedRightShift => ['>', '>', '>']
  | ampersand => ['&']
  | pipe => ['|']
  | caret => ['^']
  | bang => ['!']
  | tilde => ['~']
  | logicalAnd => ['&', '&']
  | logicalOr => ['|', '|']
  | nullishCoalescing => ['?', '?']
  | question => ['?']
  | optionalChain => ['?', '.']
  | colon => [':']
  | assign => ['=']
  | plusAssign => ['+', '=']
  | minusAssign => ['-', '=']
  | starAssign => ['*', '=']
  | percentAssign => ['%', '=']
  | exponentAssign => ['*', '*', '=']
  | leftShiftAssign => ['<', '<', '=']
  | rightShiftAssign => ['>', '>', '=']
  | unsignedRightShiftAssign => ['>', '>', '>', '=']
  | ampersandAssign => ['&', '=']
  | pipeAssign => ['|', '=']
  | caretAssign => ['^', '=']
  | logicalAndAssign => ['&', '&', '=']
  | logicalOrAssign => ['|', '|', '=']
  | nullishAssign => ['?', '?', '=']
  | arrow => ['=', '>']
  | slash => ['/']
  | slashAssign => ['/', '=']
  | jsxClosingTagStart => ['<', '/']
  | jsxSelfClosing => ['/', '>']

/-- The units of a punctuator's spelling. -/
def units (p : Punctuator) : List CodeUnit := p.spelling.map CodeUnit.ofChar

/-- All punctuators, those with longer spellings first. -/
def all : List Punctuator :=
  [
    unsignedRightShiftAssign, ellipsis, strictEqual, strictNotEqual,
    unsignedRightShift, exponentAssign, leftShiftAssign, rightShiftAssign, logicalAndAssign,
    logicalOrAssign, nullishAssign, lessThanEqual, greaterThanEqual, equal, notEqual, exponent,
    increment, decrement, leftShift, rightShift, logicalAnd, logicalOr, nullishCoalescing,
    optionalChain, plusAssign, minusAssign, starAssign, percentAssign, ampersandAssign,
    pipeAssign, caretAssign, arrow, slashAssign, jsxClosingTagStart, jsxSelfClosing, leftBrace,
    rightBrace, leftParen, rightParen, leftBracket, rightBracket, period, semicolon, comma,
    lessThan, greaterThan, plus, minus, star, percent, ampersand, pipe, caret, bang, tilde,
    question, colon, assign, slash]

/-- Whether a punctuator may be read where `after` follows its spelling. The tag punctuators belong
to JSX. A question mark and a point before a digit are a conditional and a number, and `</` does not
take the slash that opens a comment. -/
def allowedBefore (jsx : Bool) (after : List CodeUnit) : Punctuator → Bool
  | optionalChain => !after.head?.any CodeUnit.isDecimalDigit
  | jsxClosingTagStart =>
    jsx && !after.head?.any fun u => u == CodeUnit.slash || u == CodeUnit.star
  | jsxSelfClosing => jsx
  | _ => true

/-- Whether a punctuator may be read at the beginning of a text. -/
def matchesAt (jsx : Bool) (text : List CodeUnit) (p : Punctuator) : Bool :=
  p.units.isPrefixOf text && allowedBefore jsx (text.drop p.units.length) p

/-- The punctuator at the beginning of a text, the longest if there are several. -/
def ofText? (jsx : Bool) (text : List CodeUnit) : Option Punctuator :=
  all.find? (matchesAt jsx text)

end Punctuator

end EcmaLex
