/-!
# Token flags

Facts about one token that its kind and value do not tell: how it was spelled, and whether a line
ended before it.
-/

namespace EcmaLex

/-- Facts about a single token. -/
structure TokenFlags where
  /-- A line terminator was crossed in the trivia before the token. -/
  newLineBefore : Bool := false
  /-- A number with a leading zero: `017`, `08`. -/
  legacyOctal : Bool := false
  /-- A string with an octal escape. -/
  octalEscape : Bool := false
  /-- A name spelled with `\u` escapes. -/
  unicodeEscape : Bool := false
  /-- A number with `_` between digits. -/
  numericSeparator : Bool := false
  deriving DecidableEq, Repr

namespace TokenFlags

/-- The facts of both. -/
def union (a b : TokenFlags) : TokenFlags where
  newLineBefore := a.newLineBefore || b.newLineBefore
  legacyOctal := a.legacyOctal || b.legacyOctal
  octalEscape := a.octalEscape || b.octalEscape
  unicodeEscape := a.unicodeEscape || b.unicodeEscape
  numericSeparator := a.numericSeparator || b.numericSeparator

instance : EmptyCollection TokenFlags := ⟨{}⟩

instance : Union TokenFlags := ⟨union⟩

/-- Whether a later `"use strict"` directive must reject the token. -/
def containsLegacyOctal (f : TokenFlags) : Bool := f.legacyOctal || f.octalEscape

end TokenFlags

end EcmaLex
