import EcmaLex.Location
import EcmaLex.Text.Utf16

/-!
# Comments

The kinds of comments, their delimiters, and comments as they are collected from a source.
-/

namespace EcmaLex

/-- The kinds of comments. -/
inductive Comment.Kind where
  /-- From `//` to the end of the line. -/
  | singleLine
  /-- Between `/*` and `*/`. -/
  | multiLine
  /-- From `<!--` to the end of the line. -/
  | htmlOpen
  /-- From `-->` at the start of a line to its end. -/
  | htmlClose
  /-- From `#!` at the start of a source to the end of the line. -/
  | hashbang
  deriving DecidableEq, Repr

namespace Comment.Kind

/-- The name under which a kind is reported. -/
def name : Kind → String
  | singleLine => "SingleLine"
  | multiLine => "MultiLine"
  | htmlOpen => "HtmlOpen"
  | htmlClose => "HtmlClose"
  | hashbang => "Hashbang"

/-- What a comment of the kind begins with. -/
def opener : Kind → List CodeUnit
  | singleLine => [CodeUnit.slash, CodeUnit.slash]
  | multiLine => [CodeUnit.slash, CodeUnit.star]
  | htmlOpen => [CodeUnit.lessThan, CodeUnit.ofChar '!', CodeUnit.minus, CodeUnit.minus]
  | htmlClose => [CodeUnit.minus, CodeUnit.minus, CodeUnit.ofChar '>']
  | hashbang => [CodeUnit.hash, CodeUnit.ofChar '!']

/-- What a comment of the kind ends with; the others run up to the end of their line. -/
def closer : Kind → List CodeUnit
  | multiLine => [CodeUnit.star, CodeUnit.slash]
  | _ => []

end Comment.Kind

/-- A collected comment. -/
structure Comment where
  kind : Comment.Kind
  /-- The text between the delimiters. -/
  text : String
  start : Location
  stop : Location
  deriving DecidableEq, Repr

end EcmaLex
