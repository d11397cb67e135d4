import EcmaLex.Context

/-!
# Scan options

What a user can set for a scan, in a configuration file or on the command line, and the context that
follows from it.
-/

namespace EcmaLex

/-- User-facing scan options. -/
structure Options where
  /-- Module goal; implies strict mode. -/
  moduleGoal : Bool := false
  impliedStrict : Bool := false
  jsx : Bool := false
  /-- Numeric separators and BigInt literals. -/
  next : Bool := false
  raw : Bool := false
  ranges : Bool := false
  loc : Bool := false
  comments : Bool := false
  /-- HTML-like comments in scripts. -/
  webcompat : Bool := true
  deriving DecidableEq, Repr

namespace Options

/-- The names of the options, in order. -/
inductive Field where
  | moduleGoal
  | impliedStrict
  | jsx
  | next
  | raw
  | ranges
  | loc
  | comments
  | webcompat
  deriving DecidableEq, Repr

namespace Field

/-- How an option is named in a configuration. -/
def name : Field → String
  | moduleGoal => "module"
  | impliedStrict => "impliedStrict"
  | jsx => "jsx"
  | next => "next"
  | raw => "raw"
  | ranges => "ranges"
  | loc => "loc"
  | comments => "comments"
  | webcompat => "webcompat"

/-- All options in order. -/
def all : List Field :=
  [moduleGoal, impliedStrict, jsx, next, raw, ranges, loc, comments, webcompat]

/-- The option with a name. -/
def ofName? (name : String) : Option Field := all.find? (·.name == name)

end Field

/-- The value of an option. -/
def get (o : Options) : Field → Bool
  | .moduleGoal => o.moduleGoal
  | .impliedStrict => o.impliedStrict
  | .jsx => o.jsx
  | .next => o.next
  | .raw => o.raw
  | .ranges => o.ranges
  | .loc => o.loc
  | .comments => o.comments
  | .webcompat => o.webcompat

/-- The options with one of them set. -/
def set (o : Options) (f : Field) (b : Bool) : Options :=
  match f with
  | .moduleGoal => { o with moduleGoal := b }
  | .impliedStrict => { o with impliedStrict := b }
  | .jsx => { o with jsx := b }
  | .next => { o with next := b }
  | .raw => { o with raw := b }
  | .ranges => { o with ranges := b }
  | .loc => { o with loc := b }
  | .comments => { o with comments := b }
  | .webcompat => { o with webcompat := b }

/-- The context for a scan with these options. -/
def context (o : Options) : Context where
  strict := o.impliedStrict || o.moduleGoal
  moduleGoal := o.moduleGoal
  jsx := o.jsx
  next := o.next
  raw := o.raw
  ranges := o.ranges
  locations := o.loc
  collectComments := o.comments
  webCompat := o.webcompat

end Options

end EcmaLex
