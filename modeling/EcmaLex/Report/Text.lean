import EcmaLex.Number.Numeral
import EcmaLex.Scanner.Basic
import EcmaLex.Text.Quoted

/-!
# Token listings

One line per token and per comment, in the order of the source. A line gives the place, the kind and
the value; strings are quoted, so no line is broken by the text it shows. How a number is written is
left open: a listing takes any writing of numbers.
-/

namespace EcmaLex.Report

/-- A line and a column. -/
def place (l : Location) : String := toString l.line ++ ":" ++ toString l.column

/-- A string value in quotes. -/
def quoted (units : List CodeUnit) : String := Quoted.quote (Utf16.lossy units)

section Listing

/-! ## With any writing of numbers -/

variable (numberText : Binary64 → String)

/-- The value of a token, if its kind does not say it all. -/
def valueText? : Token.Value → Option String
  | .none => none
  | .name s => some s
  | .string units => some (quoted units)
  | .number x => some (numberText x)
  | .bigInt n _ => some (toString n ++ "n")
  | .template (some cooked) _ => some (quoted cooked)
  | .template none raw => some ("(invalid) raw " ++ quoted raw)
  | .regExp pattern flags => some ("/" ++ pattern ++ "/" ++ flags)

/-- The line of a token: place, kind, value, and the source text where the token carries it. -/
def lineOf (t : Token) : String :=
  place t.start ++ " " ++ t.kind.name ++
    (match valueText? numberText t.value with
      | some v => " " ++ v
      | none => "") ++
    (match t.raw with
      | some r => " raw=" ++ Quoted.quote r
      | none => "")

/-- The line of a comment: place, kind and text. -/
def commentLine (c : Comment) : String :=
  place c.start ++ " Comment(" ++ c.kind.name ++ ") " ++ Quoted.quote c.text

/-- The lines of tokens and comments, each comment before the first token that starts after it. -/
def lines (tokens : List Token) (comments : List Comment) : List String :=
  match tokens with
  | [] => comments.map commentLine
  | t :: ts =>
    (comments.takeWhile fun c => c.start.offset < t.start.offset).map commentLine ++
      lineOf numberText t ::
        lines ts (comments.dropWhile fun c => c.start.offset < t.start.offset)

/-- Tokens and comments in the order of the source, one per line. -/
def listing (tokens : List Token) (comments : List Comment) : String :=
  String.join ((lines numberText tokens comments).map (· ++ "\n"))

end Listing

/-! ## With numbers as scripts write them -/

/-- The line of a token. -/
def tokenLine (t : Token) : String := lineOf NumeralStyle.script.render t

/-- The listing of tokens and comments. -/
def text (tokens : List Token) (comments : List Comment) : String :=
  listing NumeralStyle.script.render tokens comments

end EcmaLex.Report
