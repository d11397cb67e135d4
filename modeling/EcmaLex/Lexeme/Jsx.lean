import EcmaLex.Lexeme.Basic
import EcmaLex.Text.IdentifierChar

/-!
# JSX

Between tags everything up to the next `<` or brace is text, blanks and line ends included.
Attribute values in quotes run to the same quote again and know no escapes. Names may contain
hyphens.
-/

namespace EcmaLex.Jsx

/-- Whether a unit belongs to text between tags. -/
def isText (u : CodeUnit) : Bool := u != CodeUnit.lessThan && u != CodeUnit.leftBrace

/-- The next token between tags: the end, a tag's opening, a brace, or text. -/
def child : Reader Lexeme
  | [] => .ok ⟨⟨.eof, .none⟩, 0, ∅⟩
  | u :: rest =>
    if u = CodeUnit.lessThan then
      if rest.head? = some CodeUnit.slash then
        .ok ⟨⟨.punctuator .jsxClosingTagStart, .none⟩, 2, ∅⟩
      else .ok ⟨⟨.punctuator .lessThan, .none⟩, 1, ∅⟩
    else if u = CodeUnit.leftBrace then .ok ⟨⟨.punctuator .leftBrace, .none⟩, 1, ∅⟩
    else
      let text := u :: rest.takeWhile isText
      .ok ⟨⟨.jsxText, .string text⟩, text.length, ∅⟩

/-- A quoted attribute value, from its opening quote on. -/
def attributeValue : Reader Lexeme
  | [] => .failHere .unterminatedString
  | quote :: rest =>
    let text := rest.takeWhile (· != quote)
    if text.length < rest.length then
      .ok ⟨⟨.stringLiteral, .string text⟩, text.length + 2, ∅⟩
    else
      .error ⟨.unterminatedString, text.length + 1, text.length + 1, ∅⟩

/-- The number of units in the longest run of hyphens and identifier parts. -/
def nameLength (text : List CodeUnit) : Nat :=
  match text with
  | [] => 0
  | [u] => if u = CodeUnit.minus ∨ CodePoint.isIdentifierPart u.toNat then 1 else 0
  | u :: v :: rest =>
    if u.isLead ∧ v.isTrail then
      if CodePoint.isIdentifierPart (CodePoint.ofPair u v) then 2 + nameLength rest else 0
    else if u = CodeUnit.minus ∨ CodePoint.isIdentifierPart u.toNat then
      1 + nameLength (v :: rest)
    else 0

/-- A name in a tag: an identifier start, then hyphens and identifier parts. -/
def name : Reader Lexeme := fun text =>
  if (Utf16.head? text).any fun (c, _) => c.isIdentifierStart then
    let n := nameLength text
    .ok ⟨⟨.identifier, .name (Utf16.lossy (text.take n))⟩, n, ∅⟩
  else Lexeme.illegal text

end EcmaLex.Jsx
