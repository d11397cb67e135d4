import EcmaLex.Options.Failure

/-!
# Readers over configuration text

A configuration is read byte by byte from left to right and refused at the first byte that does not
fit. Readers count their offsets from where they stand; the line and the column of a refusal are
worked out at the very end, from its offset in the whole text.
-/

namespace EcmaLex.Options

/-- Why a reader refused its text, and after how many bytes. -/
structure Refusal where
  cause : Failure.Cause
  offset : Nat
  deriving DecidableEq, Repr

/-- A way to read the beginning of a text: a value and the number of bytes taken. -/
def ByteReader (α : Type) := List UInt8 → Except Refusal (α × Nat)

namespace ByteReader

variable {α β : Type}

/-- The same result seen from `n` bytes earlier. -/
def shift (n : Nat) : Except Refusal (α × Nat) → Except Refusal (α × Nat)
  | .ok (a, k) => .ok (a, n + k)
  | .error r => .error { r with offset := n + r.offset }

/-- Takes nothing. -/
def done (a : α) : ByteReader α := fun _ => .ok (a, 0)

/-- Reads with `r`, then the rest with the reader that its value chooses. -/
def andThen (r : ByteReader α) (next : α → ByteReader β) : ByteReader β := fun bytes =>
  match r bytes with
  | .error e => .error e
  | .ok (a, n) => shift n (next a (bytes.drop n))

instance : Monad ByteReader where
  pure := done
  bind := andThen

/-- Refuses the text, pointing at what has been taken so far. -/
def fail (cause : Failure.Cause) : ByteReader α := fun _ => .error ⟨cause, 0⟩

/-- Refuses the text, pointing at the byte ahead. -/
def failAhead (cause : Failure.Cause) : ByteReader α := fun _ => .error ⟨cause, 1⟩

/-- The byte ahead. -/
def peek : ByteReader (Option UInt8) := fun bytes => .ok (bytes.head?, 0)

/-- Whether the byte ahead has the property `p`. -/
def ahead (p : UInt8 → Bool) : ByteReader Bool := fun bytes => .ok (bytes.head?.any p, 0)

/-- Takes `n` bytes, or all that are left. -/
def skip (n : Nat) : ByteReader Unit := fun bytes => .ok ((), min n bytes.length)

/-- Takes the longest run of bytes with the property `p`, and tells how many there were. -/
def skipWhile (p : UInt8 → Bool) : ByteReader Nat := fun bytes =>
  .ok ((bytes.takeWhile p).length, (bytes.takeWhile p).length)

/-- The byte of an ASCII character. -/
abbrev byte (c : Char) : UInt8 := c.toUInt8

/-- The white space of JSON. -/
def isBlank (b : UInt8) : Bool :=
  b == byte ' ' || b == byte '\n' || b == byte '\t' || b == byte '\r'

/-- The decimal digits. -/
def isDigit (b : UInt8) : Bool := byte '0' ≤ b && b ≤ byte '9'

/-- Takes white space. -/
def blanks : ByteReader Unit := do
  let _ ← skipWhile isBlank
  return ()

/-- Takes the rest of a literal word. -/
def word : List Char → ByteReader Unit
  | [], _ => .ok ((), 0)
  | _ :: _, [] => .error ⟨.endInValue, 0⟩
  | c :: cs, b :: bs => if b = byte c then shift 1 (word cs bs) else .error ⟨.expectedWord, 1⟩

/-! ## Strings -/

/-- The value of a hexadecimal digit, of either letter case. -/
def hexDigit? (b : UInt8) : Option Nat :=
  if byte '0' ≤ b && b ≤ byte '9' then some (b.toNat - 0x30)
  else if byte 'a' ≤ b && b ≤ byte 'f' then some (b.toNat - 0x61 + 10)
  else if byte 'A' ≤ b && b ≤ byte 'F' then some (b.toNat - 0x41 + 10)
  else none

/-- The four digits of a Unicode escape, which are taken before they are looked at. -/
def hexQuad : ByteReader Nat
  | a :: b :: c :: d :: _ =>
    match [a, b, c, d].mapM hexDigit? with
    | some ds => .ok (ds.foldl (fun n d => 16 * n + d) 0, 4)
    | none => .error ⟨.invalidEscape, 4⟩
  | bytes => .error ⟨.endInString, bytes.length⟩

/-- Takes one particular byte in the middle of a string; any other is taken and refused. -/
def expect (c : Char) : ByteReader Unit
  | [] => .error ⟨.endInString, 0⟩
  | b :: _ => if b = byte c then .ok ((), 1) else .error ⟨.endOfHexEscape, 1⟩

/-- The second half of a surrogate pair in escapes, and the character of the pair. -/
def trailEscape (lead : Nat) : ByteReader Char := do
  expect '\\'
  expect 'u'
  let trail ← hexQuad
  if 0xDC00 ≤ trail ∧ trail ≤ 0xDFFF then
    return Char.ofNat (0x10000 + (lead - 0xD800) * 0x400 + (trail - 0xDC00))
  else fail .loneSurrogate

/-- What follows `\u`. Surrogates have to come in pairs. -/
def unicodeEscape : ByteReader Char := do
  let n ← hexQuad
  if 0xDC00 ≤ n ∧ n ≤ 0xDFFF then fail .loneSurrogate
  else if 0xD800 ≤ n ∧ n ≤ 0xDBFF then trailEscape n
  else return Char.ofNat n

/-- The escapes of one character. -/
def simpleEscape? (b : UInt8) : Option Char :=
  [('\x22', '\x22'), ('\\', '\\'), ('/', '/'), ('b', '\x08'), ('f', '\x0c'), ('n', '\n'),
    ('r', '\r'), ('t', '\t')].lookup (Char.ofUInt8 b)

/-- What follows a backslash. -/
def escape : ByteReader Char
  | [] => .error ⟨.endInString, 0⟩
  | b :: rest =>
    match simpleEscape? b with
    | some c => .ok (c, 1)
    | none => if b = byte 'u' then shift 1 (unicodeEscape rest) else .error ⟨.invalidEscape, 1⟩

/-- The rest of a string after its opening quote, closing quote included, and the bytes it
denotes. -/
def stringBytes (bytes : List UInt8) : Except Refusal (List UInt8 × Nat) :=
  match bytes with
  | [] => .error ⟨.endInString, 0⟩
  | b :: rest =>
    if b = byte '\x22' then .ok ([], 1)
    else if b = byte '\\' then
      match escape rest with
      | .error r => .error ⟨r.cause, 1 + r.offset⟩
      | .ok (c, n) =>
        match stringBytes (rest.drop n) with
        | .error r => .error ⟨r.cause, 1 + n + r.offset⟩
        | .ok (bs, k) => .ok (String.utf8EncodeChar c ++ bs, 1 + n + k)
    else if b < 0x20 then .error ⟨.controlCharacter, 1⟩
    else
      match stringBytes rest with
      | .error r => .error ⟨r.cause, 1 + r.offset⟩
      | .ok (bs, k) => .ok (b :: bs, 1 + k)
termination_by bytes.length

/-- A string after its opening quote. -/
def string : ByteReader String := fun bytes =>
  match stringBytes bytes with
  | .error r => .error r
  | .ok (bs, n) => .ok ((String.fromUTF8? ⟨bs.toArray⟩).getD "", n)

/-! ## Numbers -/

/-- Digits as long as the number they make stays within `limit`: the number and how many were
taken. -/
def digitsWithin (limit value : Nat) : List UInt8 → Nat × Nat
  | [] => (value, 0)
  | b :: rest =>
    let value' := 10 * value + (b.toNat - 0x30)
    if isDigit b ∧ value' ≤ limit then
      let (v, n) := digitsWithin limit value' rest
      (v, n + 1)
    else (value, 0)

/-- Takes digits as long as the number they make stays within `limit`: the number and how many were
taken. -/
def boundedDigits (limit value : Nat) : ByteReader (Nat × Nat) := fun bytes =>
  let (v, n) := digitsWithin limit value bytes
  .ok ((v, n), n)

/-- The largest significand that is kept; digits that would exceed it only count. -/
def maxSignificand : Nat := Nat.pow 2 64 - 1

/-- The largest exponent that is kept. -/
def maxExponent : Nat := Nat.pow 2 31 - 1

/-- A double times a power of ten, each step rounded to a double; nothing if it is too large. Powers
beyond the range of doubles are divided by in steps of `10 ^ 308`, after two of which nothing is
left of any significand. -/
def scale (steps : Nat) (x : Binary64) (exponent : Int) : Option Binary64 :=
  let power (e : Nat) : Binary64 := .ofNat (Nat.pow 10 e)
  if exponent.natAbs ≤ 308 then
    if 0 ≤ exponent then
      let y := x.mul (power exponent.natAbs)
      if y = .infinity then none else some y
    else some (x.div (power exponent.natAbs))
  else if x = .zero then some x
  else if 0 ≤ exponent then none
  else
    match steps with
    | 0 => some .zero
    | steps + 1 => scale steps (x.div (power 308)) (exponent + 308)

/-- A double with a sign. -/
def signed (positive : Bool) (x : Binary64) : Found := .float (if positive then x else x.neg)

/-- The number `significand * 10 ^ exponent`. -/
def scaled (positive : Bool) (significand : Nat) (exponent : Int) : ByteReader Found :=
  match scale 3 (.ofNat significand) exponent with
  | some x => done (signed positive x)
  | none => fail .numberOutOfRange

/-- An exponent from its letter on, for a number that has `start` as its exponent so far. -/
def exponentPart (positive : Bool) (significand : Nat) (start : Int) : ByteReader Found := do
  skip 1
  let negative ← ahead (· == byte '-')
  if ← ahead fun b => b == byte '+' || b == byte '-' then skip 1
  match ← peek with
  | none => fail .endInValue
  | some b =>
    if !isDigit b then
      skip 1
      fail .invalidNumber
    else
      let (e, _) ← boundedDigits maxExponent 0
      if ← ahead isDigit then
        if significand ≠ 0 ∧ !negative then failAhead .numberOutOfRange
        else
          let _ ← skipWhile isDigit
          return signed positive .zero
      else
        let exponent := if negative then start - e else start + e
        scaled positive significand
          (max (-(maxExponent : Int) - 1) (min (maxExponent : Int) exponent))

/-- What may follow the digits of a number: an exponent. -/
def afterDigits (positive : Bool) (significand : Nat) (exponent : Int) : ByteReader Found := do
  if ← ahead fun b => b == byte 'e' || b == byte 'E' then
    exponentPart positive significand exponent
  else scaled positive significand exponent

/-- A fraction from its point on; it needs a digit. Digits beyond the largest significand are taken
and dropped. -/
def fractionPart (positive : Bool) (significand : Nat) (exponent : Int) : ByteReader Found := do
  skip 1
  let (value, n) ← boundedDigits maxSignificand significand
  let dropped ← skipWhile isDigit
  if n = 0 ∧ dropped = 0 then
    match ← peek with
    | some _ => failAhead .invalidNumber
    | none => failAhead .endInValue
  else afterDigits positive value (exponent - n)

/-- An integer as it is described: one that fits no machine integer is a double, and so is negative
zero. -/
def integer (positive : Bool) (n : Nat) : Found :=
  if positive then .integer n
  else if 0 < n ∧ n ≤ Nat.pow 2 63 then .integer (-(n : Int))
  else signed false (.ofNat n)

/-- What may follow the digits before the point. -/
def afterInteger (positive : Bool) (significand : Nat) : ByteReader Found := do
  if ← ahead (· == byte '.') then fractionPart positive significand 0
  else if ← ahead fun b => b == byte 'e' || b == byte 'E' then exponentPart positive significand 0
  else return integer positive significand

/-- A number after its sign. -/
def number (positive : Bool) : ByteReader Found := do
  match ← peek with
  | none => fail .endInValue
  | some b =>
    if b = byte '0' then
      skip 1
      if ← ahead isDigit then failAhead .invalidNumber else afterInteger positive 0
    else if isDigit b then
      let (significand, _) ← boundedDigits maxSignificand 0
      let dropped ← skipWhile isDigit
      if dropped = 0 then afterInteger positive significand
      else if ← ahead (· == byte '.') then fractionPart positive significand dropped
      else afterDigits positive significand dropped
    else
      skip 1
      fail .invalidNumber

end ByteReader

end EcmaLex.Options
