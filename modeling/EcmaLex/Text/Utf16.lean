import EcmaLex.Text.CodeUnit

/-!
# Code points in UTF-16

Decoding pairs a lead surrogate with the trail surrogate right after it; any other surrogate
stands for itself. Encoding is the inverse on every list of units (`encodeAll (codePoints us)`
gives back `us`), which is what lets string values hold lone surrogates.

`lossy` is the one way from units to `String`: a lone surrogate has no character and becomes the
replacement character.
-/

namespace EcmaLex

/-- A code point, or a lone surrogate standing for itself. Values above `0x10FFFF` are not
excluded: encoding them is defined too. -/
abbrev CodePoint := Nat

namespace CodePoint

/-- The largest code point. -/
def max : CodePoint := 0x10FFFF

/-- The character of a code point; surrogates and values out of range have none. -/
def toChar? (c : CodePoint) : Option Char :=
  if h : c.isValidChar then some (Char.ofNatAux c h) else none

/-- The character of a code point, the replacement character where there is none. -/
def toChar (c : CodePoint) : Char := (toChar? c).getD '\uFFFD'

/-- The units that encode a code point: one up to `0xFFFF`, otherwise a surrogate pair. Each unit
keeps the low sixteen bits of its value, so values above `0x10FFFF` have an encoding as well. -/
def encode (c : CodePoint) : List CodeUnit :=
  if 0xFFFF < c then
    let n := c - 0x10000
    [UInt16.ofNat (0xD800 + n / 0x400), UInt16.ofNat (0xDC00 + n % 0x400)]
  else
    [UInt16.ofNat c]

/-- The code point of a surrogate pair. -/
def ofPair (lead trail : CodeUnit) : CodePoint :=
  0x10000 + (lead.toNat - 0xD800) * 0x400 + (trail.toNat - 0xDC00)

end CodePoint

namespace Utf16

/-- The first code point of a text and the number of units it takes. -/
def head? : List CodeUnit → Option (CodePoint × Nat)
  | [] => none
  | [u] => some (u.toNat, 1)
  | u :: v :: _ =>
    if u.isLead && v.isTrail then some (CodePoint.ofPair u v, 2) else some (u.toNat, 1)

/-- The code points of a text, lone surrogates standing for themselves. -/
def codePoints : List CodeUnit → List CodePoint
  | [] => []
  | [u] => [u.toNat]
  | u :: v :: rest =>
    if u.isLead && v.isTrail then CodePoint.ofPair u v :: codePoints rest
    else u.toNat :: codePoints (v :: rest)

/-- The units of a list of code points. -/
def encodeAll (cs : List CodePoint) : List CodeUnit := cs.flatMap CodePoint.encode

/-- The units of a string. -/
def ofString (s : String) : List CodeUnit := s.toList.flatMap (CodePoint.encode ·.toNat)

/-- The text as a string, each lone surrogate as the replacement character. -/
def lossy (us : List CodeUnit) : String :=
  String.ofList ((codePoints us).map CodePoint.toChar)

/-- No surrogate of the text stands alone. -/
def isWellFormed (us : List CodeUnit) : Bool :=
  (codePoints us).all fun c => (CodePoint.toChar? c).isSome

end Utf16

end EcmaLex
