import EcmaLex.Lexeme.Basic
import EcmaLex.Lexeme.Escape
import EcmaLex.Text.IdentifierChar

/-!
# Identifiers, keywords and private names

A name is a sequence of items, each a code point of the source or a Unicode escape that denotes one.
The first item must denote an identifier start, the others identifier parts, and the sequence is
taken as long as possible. A backslash after it that begins no such item is an error.
-/

namespace EcmaLex.Identifier

/-- Whether a code point may stand in a name, as its first or as a later item. -/
def accepts (first : Bool) (c : CodePoint) : Bool :=
  if first then c.isIdentifierStart else c.isIdentifierPart

/-- The character of a code point that may stand in a name. -/
def nameChar? (first : Bool) (c : CodePoint) : Option Char :=
  if accepts first c then c.toChar? else none

/-- Reads an escape from its backslash on, where the second unit is known to be `u`. -/
def escapedItem (first : Bool) (text : List CodeUnit) : Outcome Char :=
  match Escape.unicode (text.drop 2) with
  | .error f => .error ⟨.invalidIdentifierEscape, 0, 2 + f.stop, ∅⟩
  | .ok x =>
    match nameChar? first x.value with
    | some c => .ok ⟨c, 2 + x.length, { unicodeEscape := true }⟩
    | none => .error ⟨.invalidIdentifierEscape, 0, 2 + x.length, ∅⟩

/-- The item at the beginning of a text, if a name goes on there. A backslash that begins no escape
goes on a name, and is an error, but does not begin one. -/
def item? (first : Bool) (text : List CodeUnit) : Option (Outcome Char) :=
  if text.head? = some CodeUnit.backslash then
    if (text.drop 1).head? = some (CodeUnit.ofChar 'u') then some (escapedItem first text)
    else if first then none
    else some (.failHere .invalidIdentifierEscape)
  else
    match Utf16.head? text with
    | none => none
    | some (c, width) => (nameChar? first c).map fun ch => .ok ⟨ch, width, ∅⟩

/-- A code point takes at least one unit. -/
theorem width_pos {text : List CodeUnit} {c : CodePoint} {width : Nat}
    (h : Utf16.head? text = some (c, width)) : 0 < width := by
  unfold Utf16.head? at h
  split at h
  · simp at h
  · simp at h; omega
  · split at h <;> simp at h <;> omega

/-- An item takes at least one unit. -/
theorem item?_length_pos {first : Bool} {text : List CodeUnit} {x : Reading Char}
    (h : item? first text = some (.ok x)) : 0 < x.length := by
  unfold item? at h
  split at h
  · split at h
    · unfold escapedItem at h
      split at h
      · simp at h
      · next x' _ =>
        split at h
        · simp at h
          subst h
          show 0 < 2 + x'.length
          omega
        · simp at h
    · split at h
      · simp at h
      · simp [Outcome.failHere] at h
  · split at h
    · simp at h
    · next c width hw =>
      simp at h
      obtain ⟨ch, -, rfl⟩ := h
      exact width_pos hw

/-- An item stands at the beginning of a text that is not empty. -/
theorem ne_nil_of_item? {first : Bool} {text : List CodeUnit} {r : Outcome Char}
    (h : item? first text = some r) : text ≠ [] := by
  rintro rfl
  simp [item?, Utf16.head?] at h

/-- The items after the first, as many as there are. -/
def parts (text : List CodeUnit) : Outcome (List Char) :=
  match _h : item? false text with
  | none => .ok ⟨[], 0, ∅⟩
  | some (.error f) => .error f
  | some (.ok x) =>
    ((parts (text.drop x.length)).shift x.length x.flags).mapValue (x.value :: ·)
termination_by text.length
decreasing_by
  have := item?_length_pos _h
  have := List.length_pos_iff.mpr (ne_nil_of_item? _h)
  simp only [List.length_drop]; omega

/-- The first item of a name. -/
def start : Reader Char := fun text =>
  match item? true text with
  | none => .failHere (.illegalCharacter (Lexeme.offender text))
  | some r => r

/-- A whole name. -/
def name : Reader String := do
  let first ← start
  let rest ← parts
  return String.ofList (first :: rest)

/-- The token that a name is: a keyword if it spells one, marked as escaped if any escape was
used. -/
def classify (name : String) (escaped : Bool) : Lexeme :=
  let kind :=
    match Keyword.ofString? name with
    | some k => if escaped then .escapedKeyword k else .keyword k
    | none => .identifier
  ⟨kind, .name name⟩

/-- An identifier or keyword. -/
def read : Reader Lexeme :=
  name.interpret fun x _ => .ok (classify x.value x.flags.unicodeEscape)

/-- A name takes at least one unit. -/
theorem length_pos_of_name {text : List CodeUnit} {x : Reading String} (h : name text = .ok x) :
    0 < x.length := by
  unfold name at h
  obtain ⟨z, w, hz, -, hx⟩ := Reader.exists_of_bind h
  have : 0 < z.length := by
    unfold start at hz
    split at hz
    · simp [Outcome.failHere] at hz
    · next hr => subst hz; exact item?_length_pos hr
  omega

/-- A private name, from its `#` on. -/
def readPrivate : Reader Lexeme := fun text =>
  let afterHash := text.drop 1
  let begins := afterHash.head? = some CodeUnit.backslash ∨
    (Utf16.head? afterHash).any fun (c, _) => c.isIdentifierStart
  if begins then
    ((name afterHash).shift 1 ∅).mapValue fun s => ⟨.privateName, .name s⟩
  else
    .error ⟨.illegalCharacter '#', 0, 1, ∅⟩

end EcmaLex.Identifier
