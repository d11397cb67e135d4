import EcmaLex.Scanner.Checkpoint
import EcmaLex.Scanner.Run

/-!
# Sessions

Everything a caller can do with one scanner, as data: a command, what it answers, and a session that
performs commands one after the other. An error is an answer like any other and does not end the
session.
-/

namespace EcmaLex

/-- What can be asked of a scanner. -/
inductive Command where
  | next (c : Context)
  | regExp (c : Context)
  | template (c : Context)
  | jsxChild (c : Context)
  | jsxName (c : Context)
  | jsxAttribute (c : Context)
  | all (c : Context)
  /-- Remembers the state in the next slot. -/
  | save
  /-- Goes back to the state in a slot. -/
  | restore (slot : Nat)
  | comments
  | takeComments
  deriving DecidableEq, Repr

/-- What a command answers. -/
inductive Reply where
  | token (r : Except LexError Token)
  | tokens (r : Except LexError (List Token))
  /-- The slot of a saved state. -/
  | saved (slot : Nat)
  /-- Whether a checkpoint taken right after going back equals the one gone back to. -/
  | restored (same : Bool)
  /-- There is nothing in the slot. -/
  | noSuchSlot
  | comments (cs : Array Comment)

/-- A scanner and its checkpoints. -/
structure Session where
  scanner : Scanner
  saved : Array Checkpoint := #[]

namespace Session

/-- Replies with a token and goes on from the scanner left behind. -/
def withToken (s : Session) (r : Except LexError Token × Scanner) : Reply × Session :=
  (.token r.1, { s with scanner := r.2 })

/-- Performs one command. -/
def perform (s : Session) : Command → Reply × Session
  | .next c => s.withToken (s.scanner.next c)
  | .regExp c => s.withToken (s.scanner.rescanRegExp c)
  | .template c => s.withToken (s.scanner.continueTemplate c)
  | .jsxChild c => s.withToken (s.scanner.nextJsxChild c)
  | .jsxName c => s.withToken (s.scanner.rescanJsxName c)
  | .jsxAttribute c => s.withToken (s.scanner.nextJsxAttribute c)
  | .all c =>
    let r := s.scanner.tokenizeAll c
    (.tokens r.1, { s with scanner := r.2 })
  | .save => (.saved s.saved.size, { s with saved := s.saved.push s.scanner.checkpoint })
  | .restore slot =>
    match s.saved[slot]? with
    | none => (.noSuchSlot, s)
    | some k =>
      let scanner := s.scanner.restore k
      (.restored (scanner.checkpoint == k), { s with scanner })
  | .comments => (.comments s.scanner.comments, s)
  | .takeComments =>
    let r := s.scanner.takeComments
    (.comments r.1, { s with scanner := r.2 })

/-- Performs commands in order; each reply comes with the scanner it leaves. -/
def performAll (s : Session) : List Command → List (Reply × Scanner)
  | [] => []
  | cmd :: rest =>
    let (reply, s) := s.perform cmd
    (reply, s.scanner) :: s.performAll rest

end Session

end EcmaLex
