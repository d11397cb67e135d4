import EcmaLex.Comment
import EcmaLex.Context
import EcmaLex.Lexeme.Basic

/-!
# A scanner on machine words

The scanner once more, as a program that changes a state: an index into the source, lines and
columns in words of thirty-two bits, and the unit at the index kept beside it. Every loop moves the
index by itself and chooses by itself whether it moves along a line or onto the next one.

A `Routine` is a piece of this program. It gives a value or an error and a new state, or it gets
stuck (`none`): on a slice that is not within the source, on a difference of indices below zero, on
a sum that does not fit its word where a `Build` checks sums, or in a loop that never ends.
-/

namespace EcmaLex

/-! ## Words -/

/-- What happens where the result of an operation on words does not fit. -/
inductive Build where
  /-- The program stops. -/
  | checked
  /-- The program goes on with the low bits of the result. -/
  | wrapping
  deriving DecidableEq, Repr

namespace Build

/-- The result of an operation, where `fits` tells whether it is exact. -/
def settle {α : Type} (b : Build) (fits : Bool) (x : α) : Option α :=
  match b with
  | checked => if fits then some x else none
  | wrapping => some x

def add (b : Build) (x y : UInt32) : Option UInt32 :=
  b.settle (x.toNat + y.toNat < UInt32.size) (x + y)

def sub (b : Build) (x y : UInt32) : Option UInt32 := b.settle (y.toNat ≤ x.toNat) (x - y)

def mul (b : Build) (x y : UInt32) : Option UInt32 :=
  b.settle (x.toNat * y.toNat < UInt32.size) (x * y)

/-- The next number of a signed counter. -/
def succ (b : Build) (n : Int32) : Option Int32 := b.settle (n != Int32.maxValue) (n + 1)

end Build

/-- The difference of two indices. There is no index below zero. -/
def minus? (a b : Nat) : Option Nat := if b ≤ a then some (a - b) else none

namespace CodePoint

/-- What stands for the unit behind the last one. No unit has this value. -/
def endOfSource : CodePoint := 0x110000

/-- The unit that a value stands for, if it is one. -/
def unit? (c : CodePoint) : Option CodeUnit :=
  if c < UInt16.size then some (UInt16.ofNat c) else none

/-- Whether a value is a unit with the property `p`. -/
def isUnit (p : CodeUnit → Bool) (c : CodePoint) : Bool := c.unit?.any p

/-- The value of a unit as a digit. -/
def digit? (r : Radix) (c : CodePoint) : Option UInt32 :=
  (c.unit?.bind r.digit?).map UInt32.ofNat

end CodePoint

/-! ## The state -/

/-- The state of the scanner. -/
structure Machine where
  build : Build
  source : List CodeUnit
  index : Nat
  line : UInt32
  column : UInt32
  /-- The unit at `index`, or what stands for the end. -/
  current : CodePoint
  tokenStart : Nat
  tokenLine : UInt32
  tokenColumn : UInt32
  flags : TokenFlags := ∅
  /-- Only trivia since the last line terminator, or since the start. -/
  lineStart : Bool := true
  comments : Array Comment := #[]

namespace Machine

/-- The unit at an index of the source. -/
def charAt (m : Machine) (i : Nat) : CodePoint :=
  (m.source[i]?.map UInt16.toNat).getD CodePoint.endOfSource

/-- The unit after the one at the cursor. -/
def peek (m : Machine) : CodePoint := m.charAt (m.index + 1)

def peekIs (m : Machine) (ahead : Nat) (u : CodeUnit) : Bool :=
  m.charAt (m.index + ahead) == u.toNat

def is (m : Machine) (u : CodeUnit) : Bool := m.current == u.toNat

def isAtEnd (m : Machine) : Bool := m.current == CodePoint.endOfSource

def location (m : Machine) : Location := ⟨m.line.toNat, m.column.toNat, m.index⟩

/-- Where the last token starts. -/
def tokenLocation (m : Machine) : Location :=
  ⟨m.tokenLine.toNat, m.tokenColumn.toNat, m.tokenStart⟩

/-- The cursor is the start of a token. -/
def markTokenStart (m : Machine) : Machine :=
  { m with tokenStart := m.index, tokenLine := m.line, tokenColumn := m.column }

/-- Back to the start of the last token. -/
def rewindToTokenStart (m : Machine) : Machine :=
  { m with
    index := m.tokenStart
    line := m.tokenLine
    column := m.tokenColumn
    current := m.charAt m.tokenStart }

/-- Adds flags to those of the token. -/
def note (m : Machine) (flags : TokenFlags) : Machine := { m with flags := m.flags ∪ flags }

end Machine

/-! ## Routines -/

/-- A piece of the program. -/
structure Routine (ε α : Type) where
  run : Machine → Option (Except ε α × Machine)

/-- What one round of a loop says: go on from a state of the loop, or the loop is done. -/
inductive Step (σ α : Type) where
  | again (s : σ)
  | done (a : α)

/-- What becomes of a machine when `body` runs again and again from the state `s` of a loop. -/
def Machine.loopFrom {ε α σ : Type} (body : σ → Routine ε (Step σ α)) (s : σ) (m : Machine) :
    Option (Except ε α × Machine) := do
  match ← (body s).run m with
  | (.error e, m) => some (.error e, m)
  | (.ok (.done a), m) => some (.ok a, m)
  | (.ok (.again s), m) => m |>.loopFrom body s
-- a loop that never ends is stuck: `none` is the least result
partial_fixpoint

namespace Routine

variable {ε ε' α β σ : Type}

protected def pure (a : α) : Routine ε α := ⟨fun m => some (.ok a, m)⟩

protected def bind (r : Routine ε α) (next : α → Routine ε β) : Routine ε β where
  run m :=
    match r.run m with
    | none => none
    | some (.error e, m) => some (.error e, m)
    | some (.ok a, m) => (next a).run m

instance : Monad (Routine ε) where
  pure := Routine.pure
  bind := Routine.bind

/-- The state as it is now. -/
def state : Routine ε Machine := ⟨fun m => some (.ok m, m)⟩

/-- Changes the state. -/
def update (f : Machine → Machine) : Routine ε Unit := ⟨fun m => some (.ok (), f m)⟩

/-- Ends with an error. -/
def fail (e : ε) : Routine ε α := ⟨fun m => some (.error e, m)⟩

/-- Goes on with a value, or gets stuck where there is none. -/
def require (x : Option α) : Routine ε α := ⟨fun m => x.map fun a => (.ok a, m)⟩

/-- Runs a routine and gives its error as a value. -/
def attempt (r : Routine ε α) : Routine ε' (Except ε α) where
  run m := (r.run m).map fun (x, m) => (.ok x, m)

/-- Runs `body` until it is done. -/
def loop (body : σ → Routine ε (Step σ α)) (s : σ) : Routine ε α := ⟨Machine.loopFrom body s⟩

/-! ### Moving -/

/-- One unit further on the same line. At the end there is nowhere to go. -/
def advance : Routine ε Unit := do
  let m ← state
  if m.index < m.source.length then do
    let column ← require (m.build.add m.column 1)
    update fun m =>
      { m with index := m.index + 1, column, current := m.charAt (m.index + 1) }
  else return ()

/-- So many units further on the same line, or to the end. -/
def advanceBy (units : Nat) : Routine ε Unit := do
  let m ← state
  let target := min (m.index + units) m.source.length
  let moved ← require (minus? target m.index)
  let column ← require (m.build.add m.column (UInt32.ofNat moved))
  update fun m => { m with index := target, column, current := m.charAt target }

/-- Takes the unit `u` if it stands at the cursor. -/
def eat (u : CodeUnit) : Routine ε Bool := do
  let m ← state
  if m.is u then do
    advance
    return true
  else return false

/-- Past the line terminator at the cursor, onto the next line. A carriage return takes the line
feed behind it along. -/
def consumeLineTerminator : Routine ε Unit := do
  let m ← state
  let units :=
    if m.current == CodeUnit.carriageReturn.toNat && m.peek == CodeUnit.lineFeed.toNat then 2
    else 1
  let line ← require (m.build.add m.line 1)
  update fun m =>
    { m with index := m.index + units, line, column := 0, current := m.charAt (m.index + units) }

/-- Past the unit at the cursor, on its line or onto the next one. -/
def cross : Routine ε Unit := do
  let m ← state
  if m.current.isUnit CodeUnit.isLineTerminator then consumeLineTerminator else advance

/-- Along the line while the unit at the cursor has the property `p`. -/
def advanceWhile (p : CodePoint → Bool) : Routine ε Unit :=
  loop (fun _ => do
    let m ← state
    if p m.current then do
      advance
      return .again ()
    else return .done ()) ()

/-! ### Looking -/

/-- The code point of two surrogates. -/
def combineSurrogates? (lead trail : CodePoint) : Option CodePoint := do
  let high ← minus? lead 0xD800
  let low ← minus? trail 0xDC00
  return 0x10000 + high * 0x400 + low

/-- The code point at the cursor and the number of its units. A surrogate without its partner
stands for itself. -/
def currentCodePoint : Routine ε (CodePoint × Nat) := do
  let m ← state
  -- what stands for the end has no units, so nothing can move past it
  if m.isAtEnd then return (m.current, 0)
  else if m.current.isUnit CodeUnit.isLead && m.peek.isUnit CodeUnit.isTrail then do
    let c ← require (combineSurrogates? m.current m.peek)
    return (c, 2)
  else return (m.current, 1)

/-- The units of the source from `start` up to `stop`. -/
def slice (start stop : Nat) : Routine ε (List CodeUnit) := do
  let m ← state
  require (if start ≤ stop ∧ stop ≤ m.source.length then some (m.source.extract start stop)
    else none)

/-- The units of the source from `start` up to the cursor. -/
def sliceFrom (start : Nat) : Routine ε (List CodeUnit) := do
  let m ← state
  slice start m.index

/-! ### Errors -/

/-- Ends with an error at a location. -/
def failAt (cause : LexError.Cause) (l : Location) : Routine LexError α := fail ⟨cause, l⟩

/-- Ends with an error at the cursor. -/
def failHere (cause : LexError.Cause) : Routine LexError α := do
  let m ← state
  failAt cause m.location

/-- Ends with the error that a character begins no token. -/
def illegalCharacter (c : CodePoint) : Routine LexError α :=
  failHere (.illegalCharacter c.toChar)

end Routine

end EcmaLex
