import EcmaLex.Location
import EcmaLex.Number.Binary64
import EcmaLex.Token.Flags
import EcmaLex.Token.Keyword
import EcmaLex.Token.Punctuator

/-!
# Tokens

A token is a kind, the value its text stands for, and its place in the source.
-/

namespace EcmaLex

/-- The kinds of tokens. -/
inductive Token.Kind where
  | identifier
  | keyword (k : Keyword)
  /-- A keyword spelled with escapes; whether it may stand as an identifier is left to the
  parser. -/
  | escapedKeyword (k : Keyword)
  | privateName
  | numericLiteral
  | stringLiteral
  | regExpLiteral
  | noSubstitutionTemplate
  | templateHead
  | templateMiddle
  | templateTail
  | punctuator (p : Punctuator)
  | jsxText
  | eof
  deriving DecidableEq, Repr

namespace Token.Kind

/-- The name under which a kind is reported; which keyword it is does not show. -/
def name : Kind → String
  | identifier => "Identifier"
  | keyword _ => "Keyword"
  | escapedKeyword _ => "EscapedKeyword"
  | privateName => "PrivateName"
  | numericLiteral => "NumericLiteral"
  | stringLiteral => "StringLiteral"
  | regExpLiteral => "RegExpLiteral"
  | noSubstitutionTemplate => "NoSubstitutionTemplate"
  | templateHead => "TemplateHead"
  | templateMiddle => "TemplateMiddle"
  | templateTail => "TemplateTail"
  | punctuator p => p.name
  | jsxText => "JsxText"
  | eof => "Eof"

/-- A keyword spelled without escapes. -/
def isKeyword : Kind → Bool
  | keyword _ => true
  | _ => false

/-- The keyword a token spells, with escapes or without. -/
def keyword? : Kind → Option Keyword
  | keyword k | escapedKeyword k => some k
  | _ => none

/-- What may stand where the grammar wants a name. -/
def isIdentifierName : Kind → Bool
  | identifier | keyword _ | escapedKeyword _ => true
  | _ => false

/-- The pieces of templates. -/
def isTemplate : Kind → Bool
  | noSubstitutionTemplate | templateHead | templateMiddle | templateTail => true
  | _ => false

end Token.Kind

/-- What the text of a token stands for. -/
inductive Token.Value where
  | none
  /-- Identifiers, keywords, private names without their `#`, JSX names. -/
  | name (s : String)
  | string (units : List CodeUnit)
  | number (x : Binary64)
  /-- A BigInt and its source text, the suffix `n` included. -/
  | bigInt (n : Nat) (literal : String)
  /-- The cooked value is absent when a tagged template holds an invalid escape. -/
  | template (cooked : Option (List CodeUnit)) (raw : List CodeUnit)
  | regExp (pattern flags : String)
  deriving DecidableEq, Repr

namespace Token.Value

/-- The name a value holds, if it holds one. -/
def name? : Value → Option String
  | name s => some s
  | _ => Option.none

/-- The string a value holds, if it holds one. -/
def string? : Value → Option (List CodeUnit)
  | string us => some us
  | _ => Option.none

/-- The number a value holds, if it holds one. -/
def number? : Value → Option Binary64
  | number x => some x
  | _ => Option.none

end Token.Value

/-- A token. -/
structure Token where
  kind : Token.Kind
  value : Token.Value
  /-- The source text, where the context asked for it. -/
  raw : Option String
  start : Location
  /-- The offset of the unit after the token. -/
  stop : Nat
  /-- The location after the token, where the context asked for it. -/
  endLocation : Option Location
  flags : TokenFlags
  deriving DecidableEq, Repr

end EcmaLex
