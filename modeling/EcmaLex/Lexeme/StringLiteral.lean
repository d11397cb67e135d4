import EcmaLex.Lexeme.Basic
import EcmaLex.Lexeme.Escape

/-!
# String literals

Between the quotes every unit denotes itself, except that a backslash begins an escape and that a
line feed or a carriage return ends the literal too early. Line and paragraph separators are
allowed.
-/

namespace EcmaLex.StringLiteral

/-- The units that a code point, or the nothing of a line continuation, adds to a string. -/
def contribution (c : Option CodePoint) : List CodeUnit := c.elim [] CodePoint.encode

/-- The rest of a literal after its opening quote, closing quote included, and the units it
denotes. -/
def body (strict : Bool) (quote : CodeUnit) (text : List CodeUnit) : Outcome (List CodeUnit) :=
  match text with
  | [] => .failHere .unterminatedString
  | u :: rest =>
    if u = quote then .ok ⟨[], 1, ∅⟩
    else if u = CodeUnit.lineFeed ∨ u = CodeUnit.carriageReturn then
      .failHere .unterminatedString
    else if u = CodeUnit.backslash then
      if rest = [] then .error ⟨.unterminatedString, 1, 1, ∅⟩
      else
        match Escape.body (if strict then some .strictOctal else none) rest with
        | .error f => .error ⟨f.cause, 0, 1 + f.stop, ∅⟩
        | .ok e =>
          ((body strict quote (rest.drop e.length)).shift (1 + e.length) e.flags).mapValue
            (contribution e.value ++ ·)
    else ((body strict quote rest).shift 1 ∅).mapValue (u :: ·)
termination_by text.length

/-- A string literal, from its opening quote on. -/
def read (strict : Bool) : Reader Lexeme
  | [] => .failHere .unterminatedString
  | quote :: rest =>
    ((body strict quote rest).shift 1 ∅).mapValue fun units => ⟨.stringLiteral, .string units⟩

end EcmaLex.StringLiteral
