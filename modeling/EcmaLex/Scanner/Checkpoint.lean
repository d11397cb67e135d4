import EcmaLex.Scanner.Basic

/-!
# Checkpoints

A checkpoint remembers a scanner for a later return, except that of the comments only the number is
kept: comments are only ever added at the end, so the first ones are still there.
-/

namespace EcmaLex

/-- A remembered state of a scan. -/
structure Checkpoint where
  cursor : Cursor
  tokenStart : Cursor
  flags : TokenFlags
  lineStart : Bool
  commentCount : Nat
  deriving DecidableEq, Repr

namespace Scanner

/-- The state as it is now. -/
def checkpoint (s : Scanner) : Checkpoint :=
  ⟨s.cursor, s.tokenStart, s.flags, s.lineStart, s.comments.size⟩

/-- Back to a checkpoint. Comments collected since are dropped. -/
def restore (s : Scanner) (k : Checkpoint) : Scanner where
  cursor := k.cursor
  tokenStart := k.tokenStart
  flags := k.flags
  lineStart := k.lineStart
  comments := s.comments.take k.commentCount

/-- The comments collected so far, and the scanner without them. -/
def takeComments (s : Scanner) : Array Comment × Scanner := (s.comments, { s with comments := #[] })

end Scanner

end EcmaLex
