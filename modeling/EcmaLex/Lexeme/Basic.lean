import EcmaLex.Lexeme.Reader
import EcmaLex.Text.Utf16
import EcmaLex.Token.Basic

/-!
# Lexemes

What a reader for a token gives: the kind and the value of the token. Its place is added by the
scanner.
-/

namespace EcmaLex

/-- The kind and the value of a token. -/
structure Lexeme where
  kind : Token.Kind
  value : Token.Value := .none
  deriving DecidableEq, Repr

namespace Lexeme

/-- The character an error shows for the beginning of a text: its first code point, the replacement
character for a lone surrogate and at the end. -/
def offender (text : List CodeUnit) : Char :=
  match Utf16.head? text with
  | some (c, _) => CodePoint.toChar c
  | none => '\uFFFD'

/-- Fails at a character that begins no token. -/
def illegal : Reader Lexeme := fun text => .failHere (.illegalCharacter (offender text))

end Lexeme

end EcmaLex
