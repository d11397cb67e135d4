import EcmaLex.Text.CodeUnit

/-!
# Locations

A location is a line, a column and an offset, columns and offsets in code units. `after` is the
only way a location moves over text: each line terminator sequence (line feed, carriage return,
both together, line separator, paragraph separator) begins a new line, and every other unit is one
column.
-/

namespace EcmaLex

/-- A point in the source. Lines count from one, columns and offsets from zero. -/
structure Location where
  line : Nat
  column : Nat
  offset : Nat
  deriving DecidableEq, Repr

namespace Location

/-- The beginning of a source. -/
def start : Location := ⟨1, 0, 0⟩

/-- The location one unit further on the same line. -/
def step (l : Location) : Location := ⟨l.line, l.column + 1, l.offset + 1⟩

/-- The beginning of the next line, after a line terminator of `units` units. -/
def newLine (l : Location) (units : Nat) : Location := ⟨l.line + 1, 0, l.offset + units⟩

/-- The location after a text that begins at `l`. -/
def after (l : Location) : List CodeUnit → Location
  | [] => l
  | [u] => if u.isLineTerminator then l.newLine 1 else l.step
  | u :: v :: rest =>
    if u = CodeUnit.carriageReturn ∧ v = CodeUnit.lineFeed then (l.newLine 2).after rest
    else if u.isLineTerminator then (l.newLine 1).after (v :: rest)
    else l.step.after (v :: rest)

end Location

/-- A place in a source: its location and the text from there on. -/
structure Cursor where
  location : Location
  rest : List CodeUnit
  deriving DecidableEq, Repr

namespace Cursor

/-- The cursor `n` units further, or at the end if fewer are left. -/
def advance (c : Cursor) (n : Nat) : Cursor :=
  ⟨c.location.after (c.rest.take n), c.rest.drop n⟩

/-- The cursor one unit further on the same line, whatever the unit; at the end it stays. -/
def stepInLine (c : Cursor) : Cursor :=
  match c.rest with
  | [] => c
  | _ :: rest => ⟨c.location.step, rest⟩

/-- The cursor `n` units further where the first unit is taken for a delimiter and so belongs to
its line. -/
def advancePastOpener (c : Cursor) : Nat → Cursor
  | 0 => c
  | n + 1 => c.stepInLine.advance n

end Cursor

end EcmaLex
