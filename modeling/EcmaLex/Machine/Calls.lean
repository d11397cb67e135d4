import EcmaLex.Machine.Tokens
import EcmaLex.Machine.Trivia
import EcmaLex.Session

/-!
# Calls on machine words

What a caller can ask of a scanner: tokens, the last token in another goal, checkpoints and the
comments. A `Machine.Session` answers the same commands as a `Session`, until a command gets stuck.
-/

namespace EcmaLex

namespace Routine

/-- The token from its start up to the cursor. -/
def finish (c : Context) (x : Lexeme) : Routine LexError Token := do
  let m ← state
  let raw ← if c.raw then (do
      let text ← slice m.tokenStart m.index
      pure (some (Utf16.lossy text)))
    else pure none
  -- behind a token nothing is at the start of its line any more
  update fun m => { m with lineStart := m.lineStart && x.kind == .eof }
  return {
    kind := x.kind
    value := x.value
    raw
    start := m.tokenLocation
    stop := m.index
    endLocation := if c.locations then some m.location else none
    flags := m.flags }

/-- The next token. -/
def nextToken (c : Context) : Routine LexError Token := do
  update fun m => { m with flags := ∅ }
  skipTrivia c
  let x ← token c
  finish c x

/-- Tokens up to and including the end token. -/
def tokenizeAll (c : Context) : Routine LexError (List Token) :=
  loop (fun tokens => do
    let t ← nextToken c
    let tokens := tokens ++ [t]
    return if t.kind = .eof then .done tokens else .again tokens) []

/-- The last token again, as a regular expression. -/
def scanRegExp (c : Context) : Routine LexError Token := do
  update Machine.rewindToTokenStart
  let x ← regExp
  finish c x

/-- The last token, a closing brace, again as the continuation of a template. -/
def scanTemplateContinuation (c : Context) : Routine LexError Token := do
  update Machine.rewindToTokenStart
  -- the flags of the brace are dropped but for the line end before it
  update fun m => { m with flags := { newLineBefore := m.flags.newLineBefore } }
  let m ← state
  if !m.is CodeUnit.rightBrace then failHere .unterminatedTemplate
  else do
    advance
    let x ← templateSpan c false
    finish c x

/-- The next token between JSX tags. -/
def scanJsxChild (c : Context) : Routine LexError Token := do
  update fun m => { m with flags := ∅ }
  update Machine.markTokenStart
  let x ← jsxChild
  finish c x

/-- The last token again, as a JSX name. -/
def rescanJsxIdentifier (c : Context) : Routine LexError Token := do
  update Machine.rewindToTokenStart
  let x ← jsxName
  finish c x

/-- The next token after the equals sign of a JSX attribute. -/
def scanJsxAttributeValue (c : Context) : Routine LexError Token := do
  update fun m => { m with flags := ∅ }
  skipTrivia c
  let m ← state
  let x ← if m.is CodeUnit.doubleQuote || m.is CodeUnit.singleQuote then (do
      update Machine.markTokenStart
      jsxString)
    else token c
  finish c x

end Routine

namespace Machine

/-- A machine at the beginning of a scan. An offset beyond the end means the end. -/
def startingAt (b : Build) (source : List CodeUnit) (line column : UInt32) (offset : Nat) :
    Machine :=
  let index := min offset source.length
  { build := b, source, index, line, column
    current := (source[index]?.map UInt16.toNat).getD CodePoint.endOfSource
    tokenStart := index, tokenLine := line, tokenColumn := column }

/-! ## Checkpoints -/

/-- A remembered state. -/
structure Checkpoint where
  index : Nat
  line : UInt32
  column : UInt32
  tokenStart : Nat
  tokenLine : UInt32
  tokenColumn : UInt32
  flags : TokenFlags
  lineStart : Bool
  commentCount : Nat
  deriving DecidableEq, Repr

/-- The state as it is now. -/
def checkpoint (m : Machine) : Checkpoint :=
  ⟨m.index, m.line, m.column, m.tokenStart, m.tokenLine, m.tokenColumn, m.flags, m.lineStart,
    m.comments.size⟩

/-- Back to a checkpoint. Comments collected since are dropped. -/
def restore (m : Machine) (k : Checkpoint) : Machine :=
  { m with
    index := k.index
    line := k.line
    column := k.column
    current := m.charAt k.index
    tokenStart := k.tokenStart
    tokenLine := k.tokenLine
    tokenColumn := k.tokenColumn
    flags := k.flags
    lineStart := k.lineStart
    comments := m.comments.take k.commentCount }

/-! ## Sessions -/

/-- A machine and its checkpoints. -/
structure Session where
  machine : Machine
  saved : Array Checkpoint := #[]

namespace Session

/-- Replies with what a routine gives and goes on from the state it leaves. -/
def call {α : Type} (s : Session) (r : Routine LexError α) (reply : Except LexError α → Reply) :
    Option (Reply × Session) :=
  (r.run s.machine).map fun (x, machine) => (reply x, { s with machine })

/-- Performs one command. -/
def perform (s : Session) : Command → Option (Reply × Session)
  | .next c => s.call (Routine.nextToken c) .token
  | .regExp c => s.call (Routine.scanRegExp c) .token
  | .template c => s.call (Routine.scanTemplateContinuation c) .token
  | .jsxChild c => s.call (Routine.scanJsxChild c) .token
  | .jsxName c => s.call (Routine.rescanJsxIdentifier c) .token
  | .jsxAttribute c => s.call (Routine.scanJsxAttributeValue c) .token
  | .all c => s.call (Routine.tokenizeAll c) .tokens
  | .save =>
    some (.saved s.saved.size, { s with saved := s.saved.push s.machine.checkpoint })
  | .restore slot =>
    match s.saved[slot]? with
    | none => some (.noSuchSlot, s)
    | some k =>
      let machine := s.machine.restore k
      some (.restored (machine.checkpoint == k), { s with machine })
  | .comments => some (.comments s.machine.comments, s)
  | .takeComments =>
    some (.comments s.machine.comments, { s with machine := { s.machine with comments := #[] } })

/-- Performs commands in order; each reply comes with the machine it leaves. Nothing comes of them
if one gets stuck. -/
def performAll (s : Session) : List Command → Option (List (Reply × Machine))
  | [] => some []
  | cmd :: rest => do
    let (reply, s) ← s.perform cmd
    let replies ← s.performAll rest
    return (reply, s.machine) :: replies

end Session

end Machine

end EcmaLex
