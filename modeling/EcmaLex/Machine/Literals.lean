import EcmaLex.Lexeme.Escape
import EcmaLex.Machine.Basic

/-!
# Strings, templates and escapes on machine words

Plain text of a literal is not copied unit by unit: the loops remember where a run of it began and
copy the run when something else comes. After every escape a new run begins.
-/

namespace EcmaLex.Routine

open CodePoint (endOfSource)

/-! ## Escapes -/

/-- Where an escape stands. Templates refuse every octal form. -/
inductive EscapeMode where
  | string
  | template
  deriving DecidableEq, Repr

/-- Takes one hexadecimal digit, or fails with `e` on it. -/
def expectHexDigit (e : EscapeError) : Routine EscapeError UInt32 := do
  let m ← state
  match m.current.digit? .hexadecimal with
  | some digit => do
    advance
    return digit
  | none => fail e

/-- The digits of a code point in braces, as far as they have been read. -/
structure BracedDigits where
  value : UInt32 := 0
  count : Int32 := 0

/-- One more digit, unless it takes the value beyond the last code point. -/
def bracedDigit (s : BracedDigits) : Routine EscapeError (Step BracedDigits BracedDigits) := do
  let m ← state
  match m.current.digit? .hexadecimal with
  | some digit => do
    let scaled ← require (m.build.mul s.value 16)
    let value ← require (m.build.add scaled digit)
    -- asked for every digit, so that the next product fits its word; nothing bounds the counter
    if CodePoint.max < value.toNat then fail .outOfRange
    else do
      let count ← require (m.build.succ s.count)
      advance
      return .again ⟨value, count⟩
  | none => return .done s

/-- The closing brace behind digits, of which there have to be any. -/
def closeBraces (s : BracedDigits) : Routine EscapeError UInt32 :=
  if s.count = 0 then fail .invalidUnicode
  else do
    let closed ← eat CodeUnit.rightBrace
    if closed then return s.value else fail .invalidUnicode

/-- One more of the four digits. -/
def quadDigit (value : UInt32) : Routine EscapeError UInt32 := do
  let m ← state
  match m.current.digit? .hexadecimal with
  | some digit => do
    let scaled ← require (m.build.mul value 16)
    let value ← require (m.build.add scaled digit)
    advance
    return value
  | none => fail .invalidUnicode

/-- The value of a Unicode escape, after its `\u`. -/
def unicodeEscapeValue : Routine EscapeError UInt32 := do
  let opened ← eat CodeUnit.leftBrace
  if opened then do
    let s ← loop bracedDigit {}
    closeBraces s
  else do
    let value ← quadDigit 0
    let value ← quadDigit value
    let value ← quadDigit value
    quadDigit value

/-- The digits of an octal escape, as far as they have been read. -/
structure OctalDigits where
  value : UInt32
  count : Nat

/-- One more octal digit, of at most `most`. -/
def octalDigit (most : Nat) (s : OctalDigits) : Routine EscapeError (Step OctalDigits UInt32) := do
  let m ← state
  if s.count < most && m.current.isUnit CodeUnit.isOctalDigit then do
    let digit ← require (minus? m.current CodeUnit.zero.toNat)
    let scaled ← require (m.build.mul s.value 8)
    let value ← require (m.build.add scaled (UInt32.ofNat digit))
    advance
    return .again ⟨value, s.count + 1⟩
  else return .done s.value

/-- An octal escape: three digits if the first is at most 3, otherwise two. -/
def legacyOctalEscape (strict : Bool) (mode : EscapeMode) : Routine EscapeError UInt32 := do
  let m ← state
  if mode = .template then fail .templateOctal
  else if strict then fail .strictOctal
  else do
    let first ← require (minus? m.current CodeUnit.zero.toNat)
    let most := if first ≤ 3 then 3 else 2
    advance
    let value ← loop (octalDigit most) ⟨UInt32.ofNat first, 1⟩
    update (·.note { octalEscape := true })
    return value

/-- The escape behind a backslash that was taken, where the source goes on. A line continuation has
no value. On failure nothing is taken from the unit on that does not fit. -/
def escape (strict : Bool) (mode : EscapeMode) : Routine EscapeError (Option CodePoint) := do
  let m ← state
  if m.current.isUnit CodeUnit.isLineTerminator then do
    consumeLineTerminator
    return none
  else match m.current.unit?.bind Escape.control? with
  | some c => do
    advance
    return some c
  | none =>
    if m.is (CodeUnit.ofChar 'x') then do
      advance
      let high ← expectHexDigit .invalidHex
      let low ← expectHexDigit .invalidHex
      return some ((high <<< 4) ||| low).toNat
    else if m.is (CodeUnit.ofChar 'u') then do
      advance
      let value ← unicodeEscapeValue
      return some value.toNat
    -- a zero before 8 or 9 is an octal escape of its own
    else if m.is CodeUnit.zero && !m.peek.isUnit CodeUnit.isDecimalDigit then do
      advance
      return some 0
    else if m.current.isUnit CodeUnit.isOctalDigit then do
      let value ← legacyOctalEscape strict mode
      return some value.toNat
    else if m.is (CodeUnit.ofChar '8') || m.is (CodeUnit.ofChar '9') then fail .eightOrNine
    else do
      let (c, width) ← currentCodePoint
      advanceBy width
      return some c

/-! ## Strings -/

/-- A text that is copied in runs: what has been copied, and where the run begins that has not. -/
structure Copied where
  units : List CodeUnit
  runStart : Nat

/-- One unit or one escape of a string. -/
def stringStep (strict : Bool) (quote : CodePoint) (s : Copied) :
    Routine LexError (Step Copied (List CodeUnit)) := do
  let m ← state
  if m.current = quote then do
    let run ← sliceFrom s.runStart
    advance
    return .done (s.units ++ run)
  else if m.isAtEnd || m.is CodeUnit.lineFeed || m.is CodeUnit.carriageReturn then
    failHere .unterminatedString
  else if m.is CodeUnit.backslash then do
    let run ← sliceFrom s.runStart
    advance
    let opened ← state
    if opened.isAtEnd then failHere .unterminatedString
    else do
      let value ← attempt (escape strict .string)
      match value with
      -- the error is at the backslash, the cursor on what does not fit
      | .error e => failAt (.invalidEscape e) m.location
      | .ok c => do
        let resumed ← state
        return .again ⟨s.units ++ run ++ c.elim [] CodePoint.encode, resumed.index⟩
  else if m.is CodeUnit.lineSeparator || m.is CodeUnit.paragraphSeparator then do
    consumeLineTerminator
    return .again s
  else do
    advance
    return .again s

/-- A string literal, from its opening quote on. -/
def string (strict : Bool) : Routine LexError Lexeme := do
  let m ← state
  advance
  let opened ← state
  let units ← loop (stringStep strict m.current) ⟨[], opened.index⟩
  return ⟨.stringLiteral, .string units⟩

/-! ## Templates -/

/-- A span of a template as far as it has been copied. -/
structure CopiedSpan where
  cooked : Option (List CodeUnit)
  raw : List CodeUnit
  runStart : Nat

namespace CopiedSpan

/-- Copies a run of plain text. -/
def flush (s : CopiedSpan) (run : List CodeUnit) : CopiedSpan :=
  { s with cooked := s.cooked.map (· ++ run), raw := s.raw ++ run }

/-- Adds units to the cooked value, if there still is one. -/
def cook (s : CopiedSpan) (units : List CodeUnit) : CopiedSpan :=
  { s with cooked := s.cooked.map (· ++ units) }

/-- The span whose raw text is `raw`, and a new run begins at `runStart`. -/
def resume (s : CopiedSpan) (raw : List CodeUnit) (runStart : Nat) : CopiedSpan :=
  { s with raw, runStart }

end CopiedSpan

/-- Copies units with each carriage return, and the line feed behind it if there is one, turned into
a line feed. -/
def pushNormalized (raw : List CodeUnit) : List CodeUnit → List CodeUnit
  | [] => raw
  | [u] => raw ++ [if u = CodeUnit.carriageReturn then CodeUnit.lineFeed else u]
  | u :: v :: rest =>
    if u = CodeUnit.carriageReturn then
      if v = CodeUnit.lineFeed then pushNormalized (raw ++ [CodeUnit.lineFeed]) rest
      else pushNormalized (raw ++ [CodeUnit.lineFeed]) (v :: rest)
    else pushNormalized (raw ++ [u]) (v :: rest)

/-- Goes on behind an escape, which began at `start`. -/
def resumeSpan (s : CopiedSpan) (start : Nat) :
    Routine LexError (Step CopiedSpan (CopiedSpan × Bool)) := do
  let text ← sliceFrom start
  let m ← state
  return .again (s.resume (pushNormalized s.raw text) m.index)

/-- One unit, one escape or one line end of a template, or its end: whether it is the last span. -/
def templateStep (c : Context) (s : CopiedSpan) :
    Routine LexError (Step CopiedSpan (CopiedSpan × Bool)) := do
  let m ← state
  if m.isAtEnd then failHere .unterminatedTemplate
  else if m.is CodeUnit.backtick then do
    let run ← sliceFrom s.runStart
    advance
    return .done (s.flush run, true)
  else if m.is CodeUnit.dollar && m.peekIs 1 CodeUnit.leftBrace then do
    let run ← sliceFrom s.runStart
    advanceBy 2
    return .done (s.flush run, false)
  else if m.is CodeUnit.backslash then do
    let run ← sliceFrom s.runStart
    let s := s.flush run
    advance
    let opened ← state
    if opened.isAtEnd then failHere .unterminatedTemplate
    else do
      let value ← attempt (escape c.isStrict .template)
      match value with
      | .ok p => resumeSpan (s.cook (p.elim [] CodePoint.encode)) m.index
      | .error e =>
        -- a tagged template goes on without a cooked value
        if c.taggedTemplate then resumeSpan { s with cooked := none } m.index
        else failAt (.invalidEscape e) m.location
  else if m.is CodeUnit.carriageReturn then do
    -- the one line end that is not copied as it stands
    let run ← sliceFrom s.runStart
    consumeLineTerminator
    let resumed ← state
    let s := s.flush run
    return .again ((s.cook [CodeUnit.lineFeed]).resume (s.raw ++ [CodeUnit.lineFeed])
      resumed.index)
  else if m.is CodeUnit.lineFeed || m.is CodeUnit.lineSeparator ||
      m.is CodeUnit.paragraphSeparator then do
    consumeLineTerminator
    return .again s
  else do
    advance
    return .again s

/-- A span of a template, behind its opening backtick (`first`) or brace. -/
def templateSpan (c : Context) (first : Bool) : Routine LexError Lexeme := do
  let m ← state
  let (s, last) ← loop (templateStep c) ⟨some [], [], m.index⟩
  let kind : Token.Kind :=
    match first, last with
    | true, true => .noSubstitutionTemplate
    | true, false => .templateHead
    | false, false => .templateMiddle
    | false, true => .templateTail
  return ⟨kind, .template s.cooked s.raw⟩

end EcmaLex.Routine
