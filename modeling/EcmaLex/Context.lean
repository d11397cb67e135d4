/-!
# Contexts

What a caller tells the scanner with every call: the mode of the code, the goal at this point of
the grammar, the language level, and which extras a token should carry.
-/

namespace EcmaLex

/-- The circumstances of one scan call. -/
structure Context where
  strict : Bool := false
  /-- Module goal. Implies strict mode and has no HTML-like comments. -/
  moduleGoal : Bool := false
  jsx : Bool := false
  /-- An expression may start here, so that `/` begins a regular expression. -/
  allowRegExp : Bool := false
  /-- The next template belongs to a tagged template expression. -/
  taggedTemplate : Bool := false
  /-- Numeric separators and BigInt literals. -/
  next : Bool := false
  /-- Tokens carry their source text. -/
  raw : Bool := false
  /-- Reports carry `[start, end]` ranges. -/
  ranges : Bool := false
  /-- Tokens carry their end location. -/
  locations : Bool := false
  collectComments : Bool := false
  /-- HTML-like comments in scripts. -/
  webCompat : Bool := false
  deriving DecidableEq, Repr

namespace Context

/-- Strict mode, chosen or implied by the module goal. -/
def isStrict (c : Context) : Bool := c.strict || c.moduleGoal

/-- HTML-like comments exist in scripts only. -/
def allowsHtmlComments (c : Context) : Bool := c.webCompat && !c.moduleGoal

/-- The context that a number stands for, one bit per field in order; higher bits are ignored. -/
def ofBits (n : Nat) : Context where
  strict := n.testBit 0
  moduleGoal := n.testBit 1
  jsx := n.testBit 2
  allowRegExp := n.testBit 3
  taggedTemplate := n.testBit 4
  next := n.testBit 5
  raw := n.testBit 6
  ranges := n.testBit 7
  locations := n.testBit 8
  collectComments := n.testBit 9
  webCompat := n.testBit 10

/-- The fields in order. -/
def toList (c : Context) : List Bool :=
  [c.strict, c.moduleGoal, c.jsx, c.allowRegExp, c.taggedTemplate, c.next, c.raw, c.ranges,
    c.locations, c.collectComments, c.webCompat]

/-- The number whose bits are the fields in order, the first field being the lowest bit. -/
def toBits (c : Context) : Nat := c.toList.foldr (fun b n => b.toNat + 2 * n) 0

end Context

end EcmaLex
