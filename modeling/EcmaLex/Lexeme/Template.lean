import EcmaLex.Lexeme.Basic
import EcmaLex.Lexeme.Escape

/-!
# Templates

A template comes in spans: from the opening backtick, or from the brace that closes a substitution,
up to the closing backtick or the next opening of a substitution. A span has a raw text, with line
ends normalised to line feeds, and a cooked value with its escapes decoded.

An invalid escape is an error, except in a tagged template: there it only takes the cooked value
away, and reading goes on at the unit that did not fit.
-/

namespace EcmaLex.Template

/-- A text with each carriage return, and the line feed after it if there is one, as one line
feed. -/
def normalize : List CodeUnit → List CodeUnit
  | [] => []
  | [u] => [if u = CodeUnit.carriageReturn then CodeUnit.lineFeed else u]
  | u :: v :: rest =>
    if u = CodeUnit.carriageReturn then
      if v = CodeUnit.lineFeed then CodeUnit.lineFeed :: normalize rest
      else CodeUnit.lineFeed :: normalize (v :: rest)
    else u :: normalize (v :: rest)

/-- A span of a template. -/
structure Span where
  cooked : Option (List CodeUnit)
  raw : List CodeUnit
  /-- Whether the span ends the template. -/
  last : Bool
  deriving DecidableEq, Repr

namespace Span

/-- The span with more before it; `none` stands for an invalid escape. -/
def prepend (cooked : Option (List CodeUnit)) (raw : List CodeUnit) (s : Span) : Span where
  cooked := match cooked, s.cooked with
    | some a, some b => some (a ++ b)
    | _, _ => none
  raw := raw ++ s.raw
  last := s.last

end Span

/-- The span that begins with the text, its closing delimiter included in the length. -/
def span (tagged : Bool) (text : List CodeUnit) : Outcome Span :=
  match text with
  | [] => .failHere .unterminatedTemplate
  | u :: rest =>
    if u = CodeUnit.backtick then .ok ⟨⟨some [], [], true⟩, 1, ∅⟩
    else if u = CodeUnit.dollar ∧ rest.head? = some CodeUnit.leftBrace then
      .ok ⟨⟨some [], [], false⟩, 2, ∅⟩
    else if u = CodeUnit.backslash then
      if rest = [] then .error ⟨.unterminatedTemplate, 1, 1, ∅⟩
      else
        match Escape.body (some .templateOctal) rest with
        | .ok e =>
          ((span tagged (rest.drop e.length)).shift (1 + e.length) ∅).mapValue
            (·.prepend (some (e.value.elim [] CodePoint.encode))
              (normalize (u :: rest.take e.length)))
        | .error f =>
          if tagged then
            ((span tagged (rest.drop f.stop)).shift (1 + f.stop) ∅).mapValue
              (·.prepend none (normalize (u :: rest.take f.stop)))
          else .error ⟨f.cause, 0, 1 + f.stop, ∅⟩
    else if u = CodeUnit.carriageReturn then
      let n := if rest.head? = some CodeUnit.lineFeed then 1 else 0
      ((span tagged (rest.drop n)).shift (1 + n) ∅).mapValue
        (·.prepend (some [CodeUnit.lineFeed]) [CodeUnit.lineFeed])
    else ((span tagged rest).shift 1 ∅).mapValue (·.prepend (some [u]) [u])
termination_by text.length

/-- The token of a span, by its place in the template. -/
def lexeme (first : Bool) (s : Span) : Lexeme :=
  let kind : Token.Kind :=
    match first, s.last with
    | true, true => .noSubstitutionTemplate
    | true, false => .templateHead
    | false, false => .templateMiddle
    | false, true => .templateTail
  ⟨kind, .template s.cooked s.raw⟩

/-- A span with its opening delimiter of one unit, a backtick for the first span of a template and a
closing brace for the others. -/
def read (tagged first : Bool) : Reader Lexeme := fun text =>
  ((span tagged (text.drop 1)).shift 1 ∅).mapValue (lexeme first)

/-- The span after a substitution, which begins with a closing brace. -/
def readContinuation (tagged : Bool) : Reader Lexeme := fun text =>
  if text.head? = some CodeUnit.rightBrace then read tagged false text
  else .failHere .unterminatedTemplate

end EcmaLex.Template
