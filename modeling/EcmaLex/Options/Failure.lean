import EcmaLex.Number.Numeral
import EcmaLex.Options.Basic
import EcmaLex.Text.Quoted

/-!
# Errors in configurations

Why a configuration text was refused: it ends too early, it is no JSON, or it says something that is
no option. The wording of each cause is in `message` and nowhere else.
-/

namespace EcmaLex.Options

/-- A value that stands where another kind of value is wanted. -/
inductive Found where
  | null
  | boolean (b : Bool)
  | integer (n : Int)
  | float (x : Binary64)
  | string (s : String)
  | sequence
  | map
  deriving DecidableEq, Repr

/-- How a misplaced value is described. -/
def Found.describe : Found → String
  | null => "null"
  | boolean b => "boolean `" ++ toString b ++ "`"
  | integer n => "integer `" ++ toString n ++ "`"
  | float x => "floating point `" ++ NumeralStyle.document.render x ++ "`"
  | string s => "string " ++ Quoted.quote s
  | sequence => "sequence"
  | map => "map"

/-- What is wanted where a value stands. -/
inductive Wanted where
  | options
  | boolean
  deriving DecidableEq, Repr

/-- How a wanted value is described. -/
def Wanted.describe : Wanted → String
  | options => "struct ScanOptions"
  | boolean => "a boolean"

/-- What kind of error a configuration has. -/
inductive Failure.Kind where
  /-- The text is no JSON. -/
  | malformed
  /-- The text is JSON so far but no configuration. -/
  | unfitting
  /-- The text ends too early. -/
  | cutShort
  deriving DecidableEq, Repr

/-- Why a configuration is refused. -/
inductive Failure.Cause where
  | endInValue
  | endInObject
  | endInList
  | endInString
  | expectedValue
  | expectedWord
  | expectedColon
  | expectedMemberEnd
  | expectedElementEnd
  | keyMustBeString
  | trailingComma
  | trailingCharacters
  | invalidEscape
  | controlCharacter
  | loneSurrogate
  | endOfHexEscape
  | invalidNumber
  | numberOutOfRange
  | invalidType (found : Found) (wanted : Wanted)
  | duplicateField (f : Field)
  | unknownField (name : String)
  deriving DecidableEq, Repr

namespace Failure.Cause

/-- The kind of a cause. -/
def kind : Cause → Kind
  | endInValue | endInObject | endInList | endInString => .cutShort
  | invalidType .. | duplicateField _ | unknownField _ => .unfitting
  | _ => .malformed

/-- The wording of a cause. -/
def message : Cause → String
  | endInValue => "EOF while parsing a value"
  | endInObject => "EOF while parsing an object"
  | endInList => "EOF while parsing a list"
  | endInString => "EOF while parsing a string"
  | expectedValue => "expected value"
  | expectedWord => "expected ident"
  | expectedColon => "expected `:`"
  | expectedMemberEnd => "expected `,` or `\x7d`"
  | expectedElementEnd => "expected `,` or `]`"
  | keyMustBeString => "key must be a string"
  | trailingComma => "trailing comma"
  | trailingCharacters => "trailing characters"
  | invalidEscape => "invalid escape"
  | controlCharacter => "control character (\\u0000-\\u001F) found while parsing a string"
  | loneSurrogate => "lone leading surrogate in hex escape"
  | endOfHexEscape => "unexpected end of hex escape"
  | invalidNumber => "invalid number"
  | numberOutOfRange => "number out of range"
  | invalidType found wanted =>
    "invalid type: " ++ found.describe ++ ", expected " ++ wanted.describe
  | duplicateField f => "duplicate field `" ++ f.name ++ "`"
  | unknownField name =>
    "unknown field `" ++ name ++ "`, expected one of " ++
      ", ".intercalate (Field.all.map fun f => "`" ++ f.name ++ "`")

end Failure.Cause

/-- A point in a configuration text. Lines count from one; columns are bytes from the start of the
line. -/
structure Position where
  line : Nat
  column : Nat
  deriving DecidableEq, Repr

/-- Why and where a configuration is refused. -/
structure Failure where
  cause : Failure.Cause
  position : Position
  deriving DecidableEq, Repr

namespace Failure

/-- The wording of a failure, without its place. -/
def message (f : Failure) : String := f.cause.message

/-- The failure with its line and column at the end. -/
def display (f : Failure) : String :=
  f.message ++ " at line " ++ toString f.position.line ++ " column " ++ toString f.position.column

end Failure

end EcmaLex.Options
