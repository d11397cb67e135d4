import EcmaLex.Comment

/-!
# Trivia

What stands between tokens: blanks, line breaks and comments. `Trivia.read` splits the beginning of
a text into such pieces. It knows nothing of positions in the source; what it has to be told is
whether the line, and whether the source, begins here.

Main statement: every piece takes at least one unit (`Trivia.length_pos`).
-/

namespace EcmaLex

/-- A piece of trivia. -/
inductive Trivia where
  | blank
  /-- A line terminator; `crlf` if it is a carriage return with a line feed. -/
  | lineBreak (crlf : Bool)
  | comment (kind : Comment.Kind) (text : List CodeUnit)
  /-- A block comment that the text does not close. -/
  | unclosed (text : List CodeUnit)
  deriving DecidableEq, Repr

namespace Trivia

/-- The number of units of a piece. -/
def length : Trivia → Nat
  | blank => 1
  | lineBreak crlf => if crlf then 2 else 1
  | comment kind text => kind.opener.length + text.length + kind.closer.length
  | unclosed text => Comment.Kind.multiLine.opener.length + text.length

/-- Whether a line ends within a piece. -/
def endsLine : Trivia → Bool
  | blank => false
  | lineBreak _ => true
  | comment _ text => text.any CodeUnit.isLineTerminator
  | unclosed text => text.any CodeUnit.isLineTerminator

/-- Whether a piece is a block comment that the text does not close. -/
def isUnclosed : Trivia → Bool
  | unclosed _ => true
  | _ => false

/-- The circumstances that trivia depend on. -/
structure Mode where
  /-- HTML-like comments exist. -/
  html : Bool
  /-- Only trivia stands before this point on its line. -/
  lineStart : Bool
  /-- The source begins here. -/
  sourceStart : Bool
  deriving DecidableEq, Repr

/-- The circumstances after a piece. -/
def Mode.after (m : Mode) (t : Trivia) : Mode :=
  ⟨m.html, m.lineStart || t.endsLine, false⟩

/-- The kind of comment that a text begins with. -/
def opening? (m : Mode) (text : List CodeUnit) : Option Comment.Kind :=
  if Comment.Kind.singleLine.opener.isPrefixOf text then some .singleLine
  else if Comment.Kind.multiLine.opener.isPrefixOf text then some .multiLine
  else if m.html && Comment.Kind.htmlOpen.opener.isPrefixOf text then some .htmlOpen
  else if m.html && m.lineStart && Comment.Kind.htmlClose.opener.isPrefixOf text then
    some .htmlClose
  else if m.sourceStart && Comment.Kind.hashbang.opener.isPrefixOf text then some .hashbang
  else none

/-- The text of a block comment up to the first closing delimiter. -/
def blockText? : List CodeUnit → Option (List CodeUnit)
  | u :: v :: rest =>
    if u = CodeUnit.star ∧ v = CodeUnit.slash then some []
    else (blockText? (v :: rest)).map (u :: ·)
  | _ => none

/-- The comment of a kind that a text begins with. -/
def commentOf (kind : Comment.Kind) (text : List CodeUnit) : Trivia :=
  let inner := text.drop kind.opener.length
  match kind with
  | .multiLine =>
    match blockText? inner with
    | some t => .comment .multiLine t
    | none => .unclosed inner
  | _ => .comment kind (inner.takeWhile fun u => !u.isLineTerminator)

/-- The piece of trivia that a text begins with. -/
def first? (m : Mode) (text : List CodeUnit) : Option Trivia :=
  match text with
  | [] => none
  | u :: rest =>
    if u.isBlank then some .blank
    else if u.isLineTerminator then
      some (.lineBreak (u == CodeUnit.carriageReturn && rest.head? == some CodeUnit.lineFeed))
    else (opening? m text).map (commentOf · text)

/-- A piece takes at least one unit. -/
theorem length_pos (t : Trivia) : 0 < t.length := by
  cases t with
  | blank => decide
  | lineBreak crlf => cases crlf <;> decide
  | comment kind text =>
    have : 0 < kind.opener.length := by cases kind <;> decide
    show 0 < kind.opener.length + text.length + kind.closer.length
    omega
  | unclosed text =>
    show 0 < 2 + text.length
    omega

/-- A piece stands at the beginning of a text that is not empty. -/
theorem ne_nil_of_first? {m : Mode} {text : List CodeUnit} {t : Trivia}
    (h : first? m text = some t) : text ≠ [] := by
  rintro rfl
  simp [first?] at h

/-- The trivia at the beginning of a text, piece by piece. -/
def read (m : Mode) (text : List CodeUnit) : List Trivia :=
  match _h : first? m text with
  | none => []
  | some t => t :: read (m.after t) (text.drop t.length)
termination_by text.length
decreasing_by
  have := t.length_pos
  have := List.length_pos_iff.mpr (ne_nil_of_first? _h)
  simp only [List.length_drop]; omega

end Trivia

end EcmaLex
