import EcmaLex.Unicode.PrintRanges

/-!
# Quoted text

Text for display stands in double quotes. Tab, line feed, carriage return, NUL, the quote and the
backslash have two-character escapes; a character that has no visible form, or that would join the
one before it, is written as its code point in braces; everything else is itself.

A line feed is always escaped, so quoted text stays on one line.
-/

namespace EcmaLex.Quoted

/-- Whether a character stands for itself in quoted text. -/
def isPlain (c : Char) : Bool :=
  if c.toNat < 0x80 then 0x20 ≤ c.toNat && c.toNat < 0x7F
  else !(Unicode.graphemeExtend.contains c.toNat || Unicode.unprintable.contains c.toNat)

/-- One character as it is written between the quotes. -/
def escape (c : Char) : List Char :=
  if c = '\t' then ['\\', 't']
  else if c = '\r' then ['\\', 'r']
  else if c = '\n' then ['\\', 'n']
  else if c = '\x00' then ['\\', '0']
  else if c = '\x22' then ['\\', '\x22']
  else if c = '\\' then ['\\', '\\']
  else if isPlain c then [c]
  else ['\\', 'u', '\x7b'] ++ Nat.toDigits 16 c.toNat ++ ['\x7d']

/-- Text in double quotes, with escapes. -/
def quote (s : String) : String :=
  String.ofList ('\x22' :: s.toList.flatMap escape ++ ['\x22'])

end EcmaLex.Quoted
