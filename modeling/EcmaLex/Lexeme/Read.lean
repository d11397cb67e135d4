import EcmaLex.Context
import EcmaLex.Lexeme.Identifier
import EcmaLex.Lexeme.Numeric
import EcmaLex.Lexeme.RegExp
import EcmaLex.Lexeme.StringLiteral
import EcmaLex.Lexeme.Template

/-!
# The token at the beginning of a text

`read` chooses the reader by the first unit or two. Main statement: every token but the end takes at
least one unit (`length_pos_of_read`), which is why scanning a source comes to its end.
-/

namespace EcmaLex.Lexeme

/-- A punctuator. A character that begins none is illegal, and is taken. -/
def readPunctuator (jsx : Bool) : Reader Lexeme := fun text =>
  match Punctuator.ofText? jsx text with
  | some p => .ok ⟨⟨.punctuator p, .none⟩, p.units.length, ∅⟩
  | none => .error ⟨.illegalCharacter (offender text), 0, 1, ∅⟩

/-- Whether a name begins with the text. -/
def beginsName (text : List CodeUnit) : Bool :=
  text.head? == some CodeUnit.backslash || (Utf16.head? text).any fun (c, _) => c.isIdentifierStart

/-- Whether a number begins with the text. -/
def beginsNumber (text : List CodeUnit) : Bool :=
  text.head?.any CodeUnit.isDecimalDigit ||
    (text.head? == some CodeUnit.period && (text.drop 1).head?.any CodeUnit.isDecimalDigit)

/-- The token at the beginning of a text, where no trivia stands. -/
def read (c : Context) : Reader Lexeme := fun text =>
  match text with
  | [] => .ok ⟨⟨.eof, .none⟩, 0, ∅⟩
  | u :: _ =>
    if beginsName text then Identifier.read text
    else if beginsNumber text then Numeric.read ⟨c.isStrict, c.next⟩ text
    else if u.isQuote then StringLiteral.read c.isStrict text
    else if u = CodeUnit.backtick then Template.read c.taggedTemplate true text
    else if u = CodeUnit.hash then Identifier.readPrivate text
    else if u = CodeUnit.slash ∧ c.allowRegExp then RegExp.read text
    else if u.isAscii then readPunctuator c.jsx text
    else illegal text

/-- No spelling of a punctuator is empty. -/
theorem length_units_pos (p : Punctuator) : 0 < p.units.length := by
  cases p <;> decide

/-- A token at the beginning of a text that is not empty takes at least one unit. -/
theorem length_pos_of_read {c : Context} {u : CodeUnit} {rest : List CodeUnit}
    {x : Reading Lexeme} (h : read c (u :: rest) = .ok x) : 0 < x.length := by
  simp only [read] at h
  split at h
  · obtain ⟨z, hz, hx⟩ := Reader.exists_of_interpret h
    have := Identifier.length_pos_of_name hz
    omega
  split at h
  · next hn =>
    refine Numeric.length_pos_of_read ?_ h
    simp [beginsNumber] at hn
    rcases hn with hn | hn
    · exact .inl hn
    · exact .inr hn.1
  split at h
  · simp only [StringLiteral.read] at h
    obtain ⟨z, hz, hx⟩ := Outcome.exists_of_mapValue h
    have := Outcome.le_length_of_shift hz
    omega
  split at h
  · simp only [Template.read] at h
    obtain ⟨z, hz, hx⟩ := Outcome.exists_of_mapValue h
    have := Outcome.le_length_of_shift hz
    omega
  split at h
  · simp only [Identifier.readPrivate] at h
    split at h
    · obtain ⟨z, hz, hx⟩ := Outcome.exists_of_mapValue h
      have := Outcome.le_length_of_shift hz
      omega
    · simp at h
  split at h
  · obtain ⟨z, hz, hx⟩ := Reader.exists_of_interpret h
    have := Outcome.le_length_of_shift hz
    omega
  split at h
  · unfold readPunctuator at h
    split at h
    · next p _ =>
      simp at h
      subst h
      exact length_units_pos p
    · simp at h
  · simp [illegal, Outcome.failHere] at h

end EcmaLex.Lexeme
