import EcmaLex.Lexeme.Reader
import EcmaLex.Text.Utf16

/-!
# Escape sequences

What may follow a backslash in a string or a template. A failing reader stops on the first unit that
does not fit, so a template can go on from there.
-/

namespace EcmaLex.Escape

/-- Reads one hexadecimal digit, or fails with `error` on it. -/
def hexDigit (error : EscapeError) : Reader Nat
  | [] => .failHere (.invalidEscape error)
  | u :: _ =>
    match u.hexDigit? with
    | some d => .ok ⟨d, 1, ∅⟩
    | none => .failHere (.invalidEscape error)

/-- The two digits after `\x`. -/
def hexPair : Reader CodePoint := do
  let high ← hexDigit .invalidHex
  let low ← hexDigit .invalidHex
  return 16 * high + low

/-- The four digits after `\u`. -/
def hexQuad : Reader CodePoint := do
  let a ← hexDigit .invalidUnicode
  let b ← hexDigit .invalidUnicode
  let c ← hexDigit .invalidUnicode
  let d ← hexDigit .invalidUnicode
  return 16 * (16 * (16 * a + b) + c) + d

/-- The digits after an opening brace up to the closing one. `value` is the number read so far and
`count` the number of its digits, which is kept in thirty-two bits and must not be zero at the end.
The digit that takes the value beyond the last code point is not taken. -/
def bracedDigits (value : Nat) (count : Int32) : Reader CodePoint
  | [] => .failHere (.invalidEscape .invalidUnicode)
  | u :: rest =>
    match u.hexDigit? with
    | some d =>
      if CodePoint.max < 16 * value + d then .failHere (.invalidEscape .outOfRange)
      else (bracedDigits (16 * value + d) (count + 1) rest).shift 1 ∅
    | none =>
      if count != 0 && u == CodeUnit.rightBrace then .ok ⟨value, 1, ∅⟩
      else .failHere (.invalidEscape .invalidUnicode)

/-- The value of a Unicode escape, after its `\u`: four digits, or any number of digits in
braces. -/
def unicode : Reader CodePoint
  | u :: rest =>
    if u = CodeUnit.leftBrace then (bracedDigits 0 0 rest).shift 1 ∅ else hexQuad (u :: rest)
  | [] => hexQuad []

/-- The control characters that have an escape of one letter. -/
def control? (u : CodeUnit) : Option CodePoint :=
  if u = CodeUnit.ofChar 'b' then some 0x08
  else if u = CodeUnit.ofChar 't' then some 0x09
  else if u = CodeUnit.ofChar 'n' then some 0x0A
  else if u = CodeUnit.ofChar 'v' then some 0x0B
  else if u = CodeUnit.ofChar 'f' then some 0x0C
  else if u = CodeUnit.ofChar 'r' then some 0x0D
  else none

/-- The digits of the longest octal escape at the beginning of a text: three if the first is at
most 3, otherwise two. -/
def octalDigits (text : List CodeUnit) : List CodeUnit :=
  let most := if text.head?.any (· ≤ 0x33) then 3 else 2
  (text.take most).takeWhile CodeUnit.isOctalDigit

/-- An octal escape, unless these are refused. -/
def octal (refusal : Option EscapeError) : Reader CodePoint := fun text =>
  match refusal with
  | some e => .failHere (.invalidEscape e)
  | none =>
    let digits := octalDigits text
    .ok ⟨Radix.octal.valueOf digits, digits.length, { octalEscape := true }⟩

/-- The line terminator at the beginning of a text: its length, where a carriage return takes a
line feed after it along. -/
def lineTerminatorLength (text : List CodeUnit) : Nat :=
  match text with
  | u :: v :: _ => if u = CodeUnit.carriageReturn ∧ v = CodeUnit.lineFeed then 2 else 1
  | _ => 1

/-- What stands after a backslash, and the code point it denotes: a line continuation denotes none.
`refusal` is the error that octal escapes raise here, if they are refused. Where nothing follows the
backslash, its literal is unterminated: the readers of literals look for that first. -/
def body (refusal : Option EscapeError) : Reader (Option CodePoint) := fun text =>
  match text with
  | [] => .failHere (.invalidEscape .invalidUnicode)
  | u :: rest =>
    if u.isLineTerminator then .ok ⟨none, lineTerminatorLength text, ∅⟩
    else if let some c := control? u then .ok ⟨some c, 1, ∅⟩
    else if u = CodeUnit.ofChar 'x' then ((hexPair rest).shift 1 ∅).mapValue some
    else if u = CodeUnit.ofChar 'u' then ((unicode rest).shift 1 ∅).mapValue some
    else if u = CodeUnit.zero ∧ !rest.head?.any CodeUnit.isDecimalDigit then .ok ⟨some 0, 1, ∅⟩
    else if u.isOctalDigit then (octal refusal text).mapValue some
    else if u.isDecimalDigit then .failHere (.invalidEscape .eightOrNine)
    else
      match Utf16.head? text with
      | some (c, width) => .ok ⟨some c, width, ∅⟩
      | none => .failHere (.invalidEscape .invalidUnicode)

end EcmaLex.Escape
