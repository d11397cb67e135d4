import EcmaLex.Machine.Basic

/-!
# Trivia on machine words

Blanks, line breaks and comments are passed by one loop. Line breaks are noted in the flags of the
token that follows, also those inside of block comments.
-/

namespace EcmaLex.Routine

variable {ε : Type}

/-- Past a line terminator between tokens. -/
def skipLineTerminator : Routine ε Unit := do
  consumeLineTerminator
  update fun m => { m.note { newLineBefore := true } with lineStart := true }

/-- Collects a comment that began in the state `start` and ends at the cursor, with the text from
`textStart` up to `textStop` between its delimiters. -/
def recordComment (c : Context) (kind : Comment.Kind) (start : Machine) (textStart textStop : Nat) :
    Routine ε Unit := do
  if !c.collectComments then return ()
  else do
    let text ← slice textStart textStop
    update fun m =>
      { m with comments := m.comments.push ⟨kind, Utf16.lossy text, start.location, m.location⟩ }

/-- A comment up to the end of its line, which begins with `opener` units. -/
def skipSingleLineComment (c : Context) (kind : Comment.Kind) (opener : Nat) :
    Routine ε Unit := do
  let start ← state
  advanceBy opener
  let opened ← state
  advanceWhile fun u => u != CodePoint.endOfSource && !u.isUnit CodeUnit.isLineTerminator
  let stop ← state
  recordComment c kind start opened.index stop.index

/-- One unit of a block comment, or its end: the offset of its closing delimiter. -/
def blockStep (_ : Unit) : Routine LexError (Step Unit Nat) := do
  let m ← state
  if m.isAtEnd then failHere .unterminatedComment
  else if m.is CodeUnit.star && m.peekIs 1 CodeUnit.slash then do
    advanceBy 2
    return .done m.index
  else do
    if m.current.isUnit CodeUnit.isLineTerminator then skipLineTerminator else advance
    return .again ()

/-- A block comment. -/
def skipMultiLineComment (c : Context) : Routine LexError Unit := do
  let start ← state
  advanceBy 2
  let opened ← state
  let textStop ← loop blockStep ()
  recordComment c .multiLine start opened.index textStop

/-- Past the piece of trivia at the cursor, and whether there is one. -/
def skipPiece (c : Context) : Routine LexError Bool := do
  let m ← state
  if m.current.isUnit CodeUnit.isBlank then do
    advance
    return true
  else if m.current.isUnit CodeUnit.isLineTerminator then do
    skipLineTerminator
    return true
  else if m.is CodeUnit.slash && m.peekIs 1 CodeUnit.slash then do
    skipSingleLineComment c .singleLine 2
    return true
  else if m.is CodeUnit.slash && m.peekIs 1 CodeUnit.star then do
    skipMultiLineComment c
    return true
  else if m.is CodeUnit.lessThan && c.allowsHtmlComments && m.peekIs 1 (CodeUnit.ofChar '!') &&
      m.peekIs 2 CodeUnit.minus && m.peekIs 3 CodeUnit.minus then do
    skipSingleLineComment c .htmlOpen 4
    return true
  -- only trivia, if anything, stands on its line before the closing delimiter of HTML
  else if m.is CodeUnit.minus && c.allowsHtmlComments && m.lineStart &&
      m.peekIs 1 CodeUnit.minus && m.peekIs 2 (CodeUnit.ofChar '>') then do
    skipSingleLineComment c .htmlClose 3
    return true
  else if m.is CodeUnit.hash && m.index == 0 && m.peekIs 1 (CodeUnit.ofChar '!') then do
    skipSingleLineComment c .hashbang 2
    return true
  else return false

/-- Past all trivia at the cursor. -/
def skipTrivia (c : Context) : Routine LexError Unit :=
  loop (fun _ => do
    let more ← skipPiece c
    return if more then .again () else .done ()) ()

end EcmaLex.Routine
