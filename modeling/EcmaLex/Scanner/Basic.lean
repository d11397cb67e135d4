import EcmaLex.Lexeme.Jsx
import EcmaLex.Lexeme.Read
import EcmaLex.Trivia

/-!
# The scanner

A scanner walks over a source, one token per call. Readers find what stands at a place; the scanner
keeps the place itself, the start of the last token, the flags gathered for it, and the comments
passed on the way.

A call that fails leaves the scanner where reading stopped, and scanning may go on from there. The
calls other than `next` read in goals that only a parser can choose: three of them go back to the
start of the last token and read it as something else.
-/

namespace EcmaLex

/-- The state of a scan. -/
structure Scanner where
  cursor : Cursor
  /-- Where the last token, or the last attempt at one, started. -/
  tokenStart : Cursor
  flags : TokenFlags := ∅
  /-- Only trivia since the last line terminator, or since the start. -/
  lineStart : Bool := true
  comments : Array Comment := #[]
  deriving DecidableEq, Repr

namespace Scanner

/-- A scanner for the part of a source that begins at a location. An offset beyond the end means
the end. -/
def startingAt (source : List CodeUnit) (l : Location) : Scanner :=
  let start : Cursor := ⟨{ l with offset := min l.offset source.length }, source.drop l.offset⟩
  { cursor := start, tokenStart := start }

/-- A scanner for a whole source. -/
def ofSource (source : List CodeUnit) : Scanner := startingAt source .start

/-- Nothing of the source is left. -/
def isAtEnd (s : Scanner) : Bool := s.cursor.rest.isEmpty

/-! ## Trivia -/

/-- Passes a piece of trivia at the cursor. -/
def pass (collect : Bool) (s : Scanner) (t : Trivia) : Scanner :=
  let stop := s.cursor.advance t.length
  { s with
    cursor := stop
    flags := s.flags ∪ { newLineBefore := t.endsLine }
    lineStart := s.lineStart || t.endsLine
    comments :=
      match t with
      | .comment kind text =>
        if collect then
          s.comments.push ⟨kind, Utf16.lossy text, s.cursor.location, stop.location⟩
        else s.comments
      | _ => s.comments }

/-- The trivia ahead. -/
def trivia (c : Context) (s : Scanner) : List Trivia :=
  Trivia.read ⟨c.allowsHtmlComments, s.lineStart, s.cursor.location.offset == 0⟩ s.cursor.rest

/-- Passes the trivia ahead. A block comment that is not closed takes all that is left and is an
error there. -/
def skipTrivia (c : Context) (s : Scanner) : Except LexError Unit × Scanner :=
  let pieces := s.trivia c
  let s := pieces.foldl (pass c.collectComments) s
  (if pieces.any Trivia.isUnclosed then .error ⟨.unterminatedComment, s.cursor.location⟩
    else .ok (), s)

/-! ## Tokens -/

/-- Makes a token, or an error, of what was read at `start`. `seek n` is the place `n` units
further. -/
def settle (c : Context) (start : Cursor) (seek : Nat → Cursor) (o : Outcome Lexeme)
    (s : Scanner) : Except LexError Token × Scanner :=
  match o with
  | .ok x =>
    let stop := seek x.length
    let flags := s.flags ∪ x.flags
    let token : Token :=
      { kind := x.value.kind
        value := x.value.value
        raw := if c.raw then some (Utf16.lossy (start.rest.take x.length)) else none
        start := start.location
        stop := stop.location.offset
        endLocation := if c.locations then some stop.location else none
        flags }
    (.ok token,
      { s with
        cursor := stop
        tokenStart := start
        flags
        lineStart := s.lineStart && token.kind == .eof })
  | .error f =>
    (.error ⟨f.cause, (seek f.place).location⟩,
      { s with cursor := seek f.stop, tokenStart := start, flags := s.flags ∪ f.flags })

/-- Reads a token at the cursor. -/
def readHere (c : Context) (r : Reader Lexeme) (s : Scanner) : Except LexError Token × Scanner :=
  s.settle c s.cursor s.cursor.advance (r s.cursor.rest)

/-- Reads the last token again, as something else. -/
def readAgain (c : Context) (r : Reader Lexeme) (s : Scanner) : Except LexError Token × Scanner :=
  s.settle c s.tokenStart s.tokenStart.advance (r s.tokenStart.rest)

/-- Reads a token after trivia, with the reader that `choose` takes for the text there. -/
def readAfterTrivia (c : Context) (choose : List CodeUnit → Reader Lexeme) (s : Scanner) :
    Except LexError Token × Scanner :=
  match ({ s with flags := ∅ } : Scanner).skipTrivia c with
  | (.error e, s) => (.error e, s)
  | (.ok (), s) => s.readHere c (choose s.cursor.rest)

/-- The next token. At the end of the source this gives the end token over and over. -/
def next (c : Context) (s : Scanner) : Except LexError Token × Scanner :=
  s.readAfterTrivia c fun _ => Lexeme.read c

/-- The last token again, as a regular expression. What stands there is taken for the opening
slash. -/
def rescanRegExp (c : Context) (s : Scanner) : Except LexError Token × Scanner :=
  s.settle c s.tokenStart s.tokenStart.advancePastOpener (RegExp.read s.tokenStart.rest)

/-- The last token, a closing brace, again as the continuation of a template. Of the flags only the
one on the line break before the brace stays. -/
def continueTemplate (c : Context) (s : Scanner) : Except LexError Token × Scanner :=
  ({ s with flags := { newLineBefore := s.flags.newLineBefore } } : Scanner).readAgain c
    (Template.readContinuation c.taggedTemplate)

/-- The next token between JSX tags, where blanks are text. -/
def nextJsxChild (c : Context) (s : Scanner) : Except LexError Token × Scanner :=
  ({ s with flags := ∅ } : Scanner).readHere c Jsx.child

/-- The last token again, as a JSX name. -/
def rescanJsxName (c : Context) (s : Scanner) : Except LexError Token × Scanner :=
  s.readAgain c Jsx.name

/-- The next token after the equals sign of a JSX attribute. -/
def nextJsxAttribute (c : Context) (s : Scanner) : Except LexError Token × Scanner :=
  s.readAfterTrivia c fun text =>
    if text.head?.any CodeUnit.isQuote then Jsx.attributeValue else Lexeme.read c

end Scanner

end EcmaLex
