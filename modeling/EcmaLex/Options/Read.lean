import EcmaLex.Options.ByteReader

/-!
# Reading options from a configuration

A configuration is a JSON object with a boolean for some of the options, each at most once, or a
JSON array of booleans for the first of them in order. Reading stops at the first error.
-/

namespace EcmaLex.Options

open ByteReader

/-- Refuses the value ahead, which is not of the wanted kind. Simple values are read to the end
first and may turn out to be malformed. -/
def misplaced {α : Type} (wanted : Wanted) : ByteReader α := do
  match ← peek with
  | none => failAhead .expectedValue
  | some b =>
    if b = byte 'n' then
      skip 1
      word ['u', 'l', 'l']
      fail (.invalidType .null wanted)
    else if b = byte 't' then
      skip 1
      word ['r', 'u', 'e']
      fail (.invalidType (.boolean true) wanted)
    else if b = byte 'f' then
      skip 1
      word ['a', 'l', 's', 'e']
      fail (.invalidType (.boolean false) wanted)
    else if b = byte '-' then
      skip 1
      let found ← number false
      fail (.invalidType found wanted)
    else if isDigit b then
      let found ← number true
      fail (.invalidType found wanted)
    else if b = byte '\x22' then
      skip 1
      let s ← string
      fail (.invalidType (.string s) wanted)
    else if b = byte '[' then fail (.invalidType .sequence wanted)
    else if b = byte '\x7b' then fail (.invalidType .map wanted)
    else failAhead .expectedValue

/-- A boolean. -/
def boolean : ByteReader Bool := do
  blanks
  match ← peek with
  | none => failAhead .endInValue
  | some b =>
    if b = byte 't' then
      skip 1
      word ['r', 'u', 'e']
      return true
    else if b = byte 'f' then
      skip 1
      word ['a', 'l', 's', 'e']
      return false
    else misplaced .boolean

/-! ## Objects -/

/-- Whether another member comes, up to its opening quote; otherwise the closing brace is ahead. -/
def hasMember (first : Bool) : ByteReader Bool := do
  blanks
  match ← peek with
  | none => failAhead .endInObject
  | some b =>
    if b = byte '\x7d' then return false
    else if first then
      if b = byte '\x22' then return true else failAhead .keyMustBeString
    else if b = byte ',' then
      skip 1
      blanks
      match ← peek with
      | none => failAhead .endInValue
      | some b =>
        if b = byte '\x22' then return true
        else if b = byte '\x7d' then failAhead .trailingComma
        else failAhead .keyMustBeString
    else failAhead .expectedMemberEnd

/-- The colon between a key and its value. -/
def colon : ByteReader Unit := do
  blanks
  match ← peek with
  | none => failAhead .endInObject
  | some b => if b = byte ':' then skip 1 else failAhead .expectedColon

/-- Refuses a key. White space after it, and a closing brace after that, are taken before. -/
def refuseKey {α : Type} (cause : Failure.Cause) : ByteReader α := do
  blanks
  if ← ahead (· == byte '\x7d') then skip 1
  fail cause

/-- The members of an object up to its closing brace. Every option may be given once, so no more
than `left` members can follow. -/
def members (left : Nat) (first : Bool) (seen : List Field) (o : Options) : ByteReader Options := do
  if ← hasMember first then
    skip 1
    let key ← string
    match Field.ofName? key with
    | none => refuseKey (.unknownField key)
    | some f =>
      if seen.contains f then refuseKey (.duplicateField f)
      else
        match left with
        | 0 => refuseKey (.duplicateField f)
        | left + 1 =>
          colon
          let b ← boolean
          members left false (f :: seen) (o.set f b)
  else
    skip 1
    return o

/-! ## Arrays -/

/-- Whether another element comes; otherwise the closing bracket is ahead. -/
def hasElement (first : Bool) : ByteReader Bool := do
  blanks
  match ← peek with
  | none => failAhead .endInList
  | some b =>
    if b = byte ']' then return false
    else if first then return true
    else if b = byte ',' then
      skip 1
      blanks
      match ← peek with
      | none => failAhead .endInValue
      | some b => if b = byte ']' then failAhead .trailingComma else return true
    else failAhead .expectedElementEnd

/-- The end of an array after as many elements as there are options. -/
def arrayEnd : ByteReader Unit := do
  blanks
  match ← peek with
  | none => failAhead .endInList
  | some b =>
    if b = byte ']' then skip 1
    else if b = byte ',' then
      skip 1
      blanks
      if ← ahead (· == byte ']') then failAhead .trailingComma else failAhead .trailingCharacters
    else failAhead .trailingCharacters

/-- The elements of an array up to its closing bracket, for the options in order. -/
def elements (first : Bool) (o : Options) : List Field → ByteReader Options
  | [] => do
    arrayEnd
    return o
  | f :: fs => do
    if ← hasElement first then
      let b ← boolean
      elements false (o.set f b) fs
    else
      skip 1
      return o

/-! ## Configurations -/

/-- An object or an array of options. -/
def container : ByteReader Options := do
  blanks
  match ← peek with
  | none => failAhead .endInValue
  | some b =>
    if b = byte '[' then
      skip 1
      elements true {} Field.all
    else if b = byte '\x7b' then
      skip 1
      members Field.all.length true [] {}
    else misplaced .options

/-- A whole configuration, with nothing after it. -/
def document : ByteReader Options := do
  let o ← container
  blanks
  match ← peek with
  | none => return o
  | some _ => failAhead .trailingCharacters

/-- The position after a text that begins at a position. -/
def Position.after (p : Position) (bytes : List UInt8) : Position :=
  bytes.foldl (fun p b => if b = byte '\n' then ⟨p.line + 1, 0⟩ else ⟨p.line, p.column + 1⟩) p

/-- Reads the options of a configuration. -/
def ofJson (text : String) : Except Failure Options :=
  let bytes := text.toUTF8.toList
  match document bytes with
  | .ok (o, _) => .ok o
  | .error r => .error ⟨r.cause, Position.after ⟨1, 0⟩ (bytes.take r.offset)⟩

end EcmaLex.Options
