import EcmaLex.Number.Numeral

/-!
# JSON documents

Values and their text. Members of an object stand in the order of their names. The text is either
compact, without any blanks, or on lines of its own for every element and member, indented by two
spaces.
-/

namespace EcmaLex

/-- A JSON value. -/
inductive Json where
  | null
  | string (s : String)
  | natural (n : Nat)
  | number (x : Binary64)
  | array (elements : List Json)
  | object (members : List (String × Json))

namespace Json

/-- The object with these members, put in order. -/
def ofMembers (members : List (String × Json)) : Json :=
  .object (members.mergeSort fun a b => decide (a.1 ≤ b.1))

/-- One character as it is written between the quotes of a JSON string. -/
def escape (c : Char) : List Char :=
  if c = '\x22' then ['\\', '\x22']
  else if c = '\\' then ['\\', '\\']
  else if c = '\x08' then ['\\', 'b']
  else if c = '\x0c' then ['\\', 'f']
  else if c = '\n' then ['\\', 'n']
  else if c = '\r' then ['\\', 'r']
  else if c = '\t' then ['\\', 't']
  else if c.toNat < 0x20 then
    ['\\', 'u', '0', '0', Nat.digitChar (c.toNat / 16), Nat.digitChar (c.toNat % 16)]
  else [c]

/-- A JSON string. -/
def quote (s : String) : String :=
  String.ofList ('\x22' :: s.toList.flatMap escape ++ ['\x22'])

/-- How a document is laid out. -/
inductive Layout where
  | compact
  /-- Elements and members on lines of their own, at a depth. -/
  | lines (depth : Nat)

namespace Layout

/-- The layout inside a container. -/
def inner : Layout → Layout
  | compact => compact
  | lines d => lines (d + 1)

/-- What stands before an element, a member or a closing bracket. -/
def lineBreak : Layout → String
  | compact => ""
  | lines d => "\n" ++ String.ofList (List.replicate (2 * d) ' ')

/-- What stands between the name of a member and its value. -/
def colon : Layout → String
  | compact => ":"
  | lines _ => ": "

end Layout

mutual

/-- The text of a value. -/
def render (l : Layout) : Json → String
  | null => "null"
  | string s => quote s
  | natural n => toString n
  | number x => NumeralStyle.document.render x
  | array [] => "[]"
  | array (e :: es) =>
    "[" ++ l.inner.lineBreak ++ render l.inner e ++ renderElements l.inner es ++ l.lineBreak ++ "]"
  | object [] => "\x7b\x7d"
  | object ((k, v) :: ms) =>
    "\x7b" ++ l.inner.lineBreak ++ quote k ++ l.colon ++ render l.inner v ++
      renderMembers l.inner ms ++ l.lineBreak ++ "\x7d"

/-- The elements after the first. -/
def renderElements (l : Layout) : List Json → String
  | [] => ""
  | e :: es => "," ++ l.lineBreak ++ render l e ++ renderElements l es

/-- The members after the first. -/
def renderMembers (l : Layout) : List (String × Json) → String
  | [] => ""
  | (k, v) :: ms => "," ++ l.lineBreak ++ quote k ++ l.colon ++ render l v ++ renderMembers l ms

end

/-- The text without blanks. -/
def compact (v : Json) : String := v.render .compact

/-- The text on indented lines. -/
def pretty (v : Json) : String := v.render (.lines 0)

end Json

end EcmaLex
