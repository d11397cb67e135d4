import EcmaLex.Text.Utf16

/-!
# Sets of code points, one bit each

A set keeps one bit per code point in words of thirty-two bits, the bit of `c` being bit
`c % 32` of word `c / 32`. Building a set asks a predicate about every character outside ASCII once
and sets the bits one by one; asking whether a code point is in it is one look-up.

Values beyond the last word, and so everything above `0x10FFFF`, are in no set.
-/

namespace EcmaLex

/-- A set of code points as a bit per code point. -/
structure CodePointSet where
  words : Array UInt32

namespace CodePointSet

/-- The number of words that hold a bit for every code point. -/
def wordCount : Nat := CodePoint.max / 32 + 1

/-- The set without code points. -/
def empty : CodePointSet := ⟨Array.replicate wordCount 0⟩

/-- The word in which only the bit of a code point is set. -/
def mask (c : CodePoint) : UInt32 := 1 <<< UInt32.ofNat (c % 32)

/-- Whether the set holds a code point. -/
def contains (s : CodePointSet) (c : CodePoint) : Bool :=
  match s.words[c / 32]? with
  | some w => w &&& mask c != 0
  | none => false

/-- The set with one more code point; a value above `0x10FFFF` has no bit and changes nothing. -/
def insert (s : CodePointSet) (c : CodePoint) : CodePointSet :=
  ⟨s.words.modify (c / 32) (· ||| mask c)⟩

/-- The set with one more code point, if this is a character with the property `p`. -/
def insertIf (p : Char → Bool) (s : CodePointSet) (c : CodePoint) : CodePointSet :=
  if (CodePoint.toChar? c).any p then s.insert c else s

/-- The code points outside ASCII, surrogates among them. -/
def outsideAscii : List CodePoint := List.range' 0x80 (CodePoint.max + 1 - 0x80)

/-- The characters outside ASCII with the property `p`, and the code points of `extra`. -/
def build (p : Char → Bool) (extra : List CodePoint) : CodePointSet :=
  extra.foldl insert (outsideAscii.foldl (insertIf p) empty)

end CodePointSet

end EcmaLex
