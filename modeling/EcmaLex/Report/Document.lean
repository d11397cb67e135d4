import EcmaLex.Json.Value
import EcmaLex.Scanner.Basic

/-!
# Token documents

Tokens and comments as a JSON document. Source text, ranges and line positions are members of a
token where the context asks for them.
-/

namespace EcmaLex.Report

/-- A string value, lone surrogates replaced. -/
def stringJson (units : List CodeUnit) : Json := .string (Utf16.lossy units)

/-- The value of a token. -/
def valueJson : Token.Value → Json
  | .none => .null
  | .name s => .string s
  | .string units => stringJson units
  | .number x => .number x
  | .bigInt n _ => .string (toString n)
  | .template cooked raw =>
    .ofMembers [("cooked", (cooked.map stringJson).getD .null), ("raw", stringJson raw)]
  | .regExp _ _ => .null

/-- The members that only some values have. -/
def valueMembers : Token.Value → List (String × Json)
  | .bigInt _ literal => [("bigint", .string literal)]
  | .regExp pattern flags =>
    [("regex", .ofMembers [("pattern", .string pattern), ("flags", .string flags)])]
  | _ => []

/-- A line and a column. -/
def positionJson (l : Location) : Json :=
  .ofMembers [("line", .natural l.line), ("column", .natural l.column)]

/-- The offsets of the first unit and of the unit after the last, and both together where the
context asks for ranges. -/
def spanMembers (c : Context) (start stop : Nat) : List (String × Json) :=
  [("start", .natural start), ("end", .natural stop)] ++
    if c.ranges then [("range", .array [.natural start, .natural stop])] else []

/-- The positions of the first unit and of the unit after the last. -/
def locMember (start stop : Location) : String × Json :=
  ("loc", .ofMembers [("start", positionJson start), ("end", positionJson stop)])

/-- A token. -/
def tokenJson (c : Context) (t : Token) : Json :=
  .ofMembers <|
    [("type", .string t.kind.name), ("value", valueJson t.value)] ++ valueMembers t.value ++
      (t.raw.map fun r => ("raw", Json.string r)).toList ++ spanMembers c t.start.offset t.stop ++
      (t.endLocation.map (locMember t.start)).toList

/-- A comment. -/
def commentJson (c : Context) (comment : Comment) : Json :=
  .ofMembers <|
    [("type", .string comment.kind.name), ("value", .string comment.text)] ++
      spanMembers c comment.start.offset comment.stop.offset ++
      if c.locations then [locMember comment.start comment.stop] else []

/-- Tokens and comments in one document. -/
def document (c : Context) (tokens : List Token) (comments : List Comment) : Json :=
  .ofMembers
    [("tokens", .array (tokens.map (tokenJson c))),
      ("comments", .array (comments.map (commentJson c)))]

end EcmaLex.Report
