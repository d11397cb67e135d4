import EcmaLex.Unicode.CodePointSet
import EcmaLex.Unicode.IdentifierRanges

/-!
# Identifier characters

Which code points may begin an identifier and which may continue it. ASCII is answered directly;
everything else by one bit of a set that is built when it is first asked for.

The grammar is written in the properties ID_Start and ID_Continue. The tables have their variants
XID_Start and XID_Continue, from which normalisation has removed some code points; these are listed
here and added again.
-/

namespace EcmaLex.CodePoint

/-- The code points that have ID_Start but not XID_Start. -/
def idStartNotXid : List CodePoint :=
  [0x037A, 0x0E33, 0x0EB3, 0x309B, 0x309C, 0xFC5E, 0xFC5F, 0xFC60, 0xFC61, 0xFC62, 0xFC63, 0xFDFA,
    0xFDFB, 0xFE70, 0xFE72, 0xFE74, 0xFE76, 0xFE78, 0xFE7A, 0xFE7C, 0xFE7E, 0xFF9E, 0xFF9F]

/-- The code points that have ID_Continue but not XID_Continue. -/
def idContinueNotXid : List CodePoint :=
  [0x037A, 0x309B, 0x309C, 0xFC5E, 0xFC5F, 0xFC60, 0xFC61, 0xFC62, 0xFC63, 0xFDFA, 0xFDFB, 0xFE70,
    0xFE72, 0xFE74, 0xFE76, 0xFE78, 0xFE7A, 0xFE7C, 0xFE7E]

/-- The characters outside ASCII with ID_Start, where `isXidStart` knows those with XID_Start. -/
def idStart (isXidStart : Char → Bool) : Thunk CodePointSet :=
  Thunk.mk fun _ => .build isXidStart idStartNotXid

/-- The characters outside ASCII with ID_Continue, where `isXidContinue` knows those with
XID_Continue. -/
def idContinue (isXidContinue : Char → Bool) : Thunk CodePointSet :=
  Thunk.mk fun _ => .build isXidContinue idContinueNotXid

/-- ASCII letters, `$` and `_`. -/
def isAsciiIdentifierStart (c : CodePoint) : Bool :=
  (0x61 ≤ c && c ≤ 0x7A) || (0x41 ≤ c && c ≤ 0x5A) || c == 0x24 || c == 0x5F

/-- ASCII letters and digits, `$` and `_`. -/
def isAsciiIdentifierPart (c : CodePoint) : Bool :=
  isAsciiIdentifierStart c || (0x30 ≤ c && c ≤ 0x39)

/-- Whether an identifier may begin with the code point, where `starts` are those outside ASCII that
may. -/
def isStartBy (starts : Thunk CodePointSet) (c : CodePoint) : Bool :=
  if c < 0x80 then isAsciiIdentifierStart c else starts.get.contains c

/-- Whether an identifier may go on with the code point, where `parts` are those outside ASCII that
may. The two joiners are no ID_Continue characters by right: the language adds them. -/
def isPartBy (parts : Thunk CodePointSet) (c : CodePoint) : Bool :=
  if c < 0x80 then isAsciiIdentifierPart c
  else c == 0x200C || c == 0x200D || parts.get.contains c

/-- The characters outside ASCII that begin identifiers. -/
def identifierStarts : Thunk CodePointSet := idStart Unicode.isXidStart

/-- The characters outside ASCII that continue identifiers. -/
def identifierParts : Thunk CodePointSet := idContinue Unicode.isXidContinue

/-- Whether an identifier may begin with the code point. -/
def isIdentifierStart (c : CodePoint) : Bool := isStartBy identifierStarts c

/-- Whether an identifier may go on with the code point. -/
def isIdentifierPart (c : CodePoint) : Bool := isPartBy identifierParts c

end EcmaLex.CodePoint
