import EcmaLex.Lexeme.Identifier
import EcmaLex.Machine.Literals

/-!
# Names on machine words

A name is taken up to its first unit that is no ASCII identifier part, and that is mostly all of it.
Only where a backslash or a unit outside ASCII follows does the name go on item by item.
-/

namespace EcmaLex.Routine

/-- A name as far as it has been read. -/
structure NameSoFar where
  chars : List Char
  escaped : Bool := false

namespace NameSoFar

def push (s : NameSoFar) (c : Char) : NameSoFar := { s with chars := s.chars ++ [c] }

end NameSoFar

/-- Whether a name may go on where the fast loop stops. -/
def goesOn (m : Machine) : Bool :=
  m.is CodeUnit.backslash || (0x80 ≤ m.current && !m.isAtEnd)

/-- An escape in a name, from its backslash on. -/
def escapedChar (s : NameSoFar) : Routine LexError NameSoFar := do
  let m ← state
  if !m.peekIs 1 (CodeUnit.ofChar 'u') then
    if s.chars.isEmpty then illegalCharacter CodeUnit.backslash.toNat
    else failAt .invalidIdentifierEscape m.location
  else do
    advanceBy 2
    let value ← attempt unicodeEscapeValue
    match value with
    | .error _ => failAt .invalidIdentifierEscape m.location
    | .ok value =>
      match Identifier.nameChar? s.chars.isEmpty value.toNat with
      | some c => do
        update (·.note { unicodeEscape := true })
        return { s.push c with escaped := true }
      | none => failAt .invalidIdentifierEscape m.location

/-- One more item of a name. -/
def nameStep (s : NameSoFar) : Routine LexError (Step NameSoFar NameSoFar) := do
  let m ← state
  if m.current.isAsciiIdentifierPart then do
    advance
    return .again (s.push m.current.toChar)
  else if m.is CodeUnit.backslash then do
    let s ← escapedChar s
    return .again s
  else if 0x80 ≤ m.current && !m.isAtEnd then do
    -- a name that is still empty asks for an identifier start
    let (c, width) ← currentCodePoint
    match Identifier.nameChar? s.chars.isEmpty c with
    | some c => do
      advanceBy width
      return .again (s.push c)
    | none => return .done s
  else return .done s

/-- An identifier or a keyword. -/
def identifier : Routine LexError Lexeme := do
  let m ← state
  advanceWhile CodePoint.isAsciiIdentifierPart
  let run ← sliceFrom m.index
  let stopped ← state
  let s : NameSoFar := ⟨run.map fun u => CodePoint.toChar u.toNat, false⟩
  -- a name may have begun, or begin only now
  if goesOn stopped then do
    let s ← loop nameStep s
    return Identifier.classify (String.ofList s.chars) s.escaped
  else return Identifier.classify (String.ofList s.chars) s.escaped

/-- A private name, from its `#` on. -/
def privateName : Routine LexError Lexeme := do
  let m ← state
  advance
  let (c, _) ← currentCodePoint
  if !c.isIdentifierStart && c != CodeUnit.backslash.toNat then
    failAt (.illegalCharacter '#') m.location
  else do
    let x ← identifier
    return ⟨.privateName, x.value⟩

end EcmaLex.Routine
