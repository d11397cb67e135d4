import EcmaLex.Lexeme.Basic
import EcmaLex.Text.IdentifierChar

/-!
# Regular expression literals

The pattern is only delimited, never parsed: it ends at the first slash that is neither escaped nor
in a class, and may not contain a line terminator, not even after a backslash. The flags are
distinct letters of a fixed set.
-/

namespace EcmaLex.RegExp

/-- The length of the pattern at the beginning of a text, up to the slash that ends it, or the
position at which it turns out not to end. `inClass` tells whether a bracket is open. -/
def pattern (inClass : Bool) : List CodeUnit → Except Nat Nat
  | [] => .error 0
  | u :: rest =>
    if u.isLineTerminator then .error 0
    else if u = CodeUnit.backslash then
      match rest with
      | [] => .error 1
      | v :: rest =>
        if v.isLineTerminator then .error 1
        else
          match pattern inClass rest with
          | .ok n => .ok (n + 2)
          | .error n => .error (n + 2)
    else if u = CodeUnit.slash ∧ inClass = false then .ok 0
    else
      let inClass := u == CodeUnit.leftBracket || (inClass && u != CodeUnit.rightBracket)
      match pattern inClass rest with
      | .ok n => .ok (n + 1)
      | .error n => .error (n + 1)

/-- The letters that are flags. -/
def isFlag (c : Char) : Bool := ['d', 'g', 'i', 'm', 's', 'u', 'v', 'y'].contains c

/-- The flags at the beginning of a text, in order; `seen` came before. They end where no identifier
part follows. -/
def flags (seen : List Char) (text : List CodeUnit) : Outcome (List Char) :=
  match text with
  | [] => .ok ⟨[], 0, ∅⟩
  | u :: rest =>
    if u = CodeUnit.backslash then .failHere (.invalidRegExpFlag '\\')
    else if !(Utf16.head? text).any (fun (c, _) => c.isIdentifierPart) then .ok ⟨[], 0, ∅⟩
    else
      let c := Lexeme.offender text
      if !isFlag c then .failHere (.invalidRegExpFlag c)
      else if seen.contains c then .failHere (.duplicateRegExpFlag c)
      else ((flags (seen ++ [c]) rest).shift 1 ∅).mapValue (c :: ·)

/-- A delimited literal: its pattern and its flags. -/
structure Literal where
  pattern : List CodeUnit
  flags : List Char
  deriving DecidableEq, Repr

/-- What follows the opening slash: the pattern, the closing slash and the flags. -/
def body : Reader Literal := fun text =>
  match pattern false text with
  | .error n => .error ⟨.unterminatedRegExp, n, n, ∅⟩
  | .ok n => ((flags [] (text.drop (n + 1))).shift (n + 1) ∅).mapValue (⟨text.take n, ·⟩)

/-- The token of a literal. The flags `u` and `v` exclude each other. -/
def Literal.toLexeme (l : Literal) : Except LexError.Cause Lexeme :=
  if l.flags.contains 'u' && l.flags.contains 'v' then .error .conflictingRegExpFlags
  else .ok ⟨.regExpLiteral, .regExp (Utf16.lossy l.pattern) (String.ofList l.flags)⟩

/-- A regular expression literal, from its opening slash on. The first unit is taken for the slash
without a look. -/
def read : Reader Lexeme :=
  Reader.interpret (fun text => (body (text.drop 1)).shift 1 ∅) fun x _ => x.value.toLexeme

end EcmaLex.RegExp
