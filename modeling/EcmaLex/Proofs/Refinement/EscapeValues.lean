import EcmaLex.Proofs.Refinement.Calls

/-!
# Values of Unicode escapes in words

The value of a Unicode escape is summed up in a word of thirty-two bits, and any number of digits
keeps within it: the digit with which the value denotes no code point any more is not taken.
`Escape.Reads` says with which result reading ends, and behind how many units, and
`Machine.unicodeEscapeValue_isExact` that this is what the routine does.

The digits are counted in a word, too, and there nothing stops at the end of the word. Where the low
bits of the count are those of no digit at all, the closing brace is not taken. That this happens is
shown for an escape by itself (`Machine.unicodeEscapeValue_miscounts`), in a string literal, in a
template and in a name.
-/

namespace EcmaLex

namespace Escape

/-- What stands behind the opening of a Unicode escape is read with this result, and so many of its
units are passed. -/
inductive Reads (text : List CodeUnit) : Except EscapeError UInt32 → Nat → Prop
  /-- A number is read, unless its digits are miscounted. -/
  | number {w rest : List CodeUnit} {v : UInt32} (htext : text = w ++ rest)
      (hnumber : CodePointNumber w v.toNat) (hcount : ¬Miscounted w) : Reads text (.ok v) w.length
  /-- The next digit of a number in braces would be too much. -/
  | exceeding {w rest : List CodeUnit} (htext : text = w ++ rest) (hexceeds : Exceeds w rest) :
      Reads text (.error .outOfRange) w.length
  /-- The next unit fits no number, or there is none. -/
  | unfit {w rest : List CodeUnit} (htext : text = w ++ rest) (hleaves : LeavesOff w rest)
      (hexceeds : ¬Exceeds w rest) : Reads text (.error .invalidUnicode) w.length
  /-- The closing brace of a number whose digits are miscounted. -/
  | miscounted {w rest : List CodeUnit} (htext : text = w ++ rest)
      (hcount : Miscounts w rest) : Reads text (.error .invalidUnicode) w.length

/-- The result of a reader as a routine gives it. -/
def wordResult : Outcome CodePoint → Except EscapeError UInt32
  | .ok x => .ok (.ofNat x.value)
  | .error f => .error f.cause.escapeError

variable {text : List CodeUnit}

/-- **What is read**, and where reading stops. -/
theorem reads_iff {result : Except EscapeError UInt32} {n : Nat} :
    Reads text result n ↔ result = wordResult (unicode text) ∧ n = (unicode text).stop := by
  constructor
  · intro h
    cases h with
    | @number w rest v htext hnumber hcount =>
      have hread := unicode_eq_ok_iff.mpr ⟨w, rest, _, htext, hnumber, hcount, rfl⟩
      rw [hread, wordResult, UInt32.ofNat_toNat]
      exact ⟨rfl, rfl⟩
    | exceeding htext hexceeds =>
      rw [htext, unicode_of_exceeds hexceeds]
      exact ⟨rfl, rfl⟩
    | unfit htext hleaves hexceeds =>
      rw [htext]
      rcases unicode_of_leavesOff hleaves with ⟨hexceeds', -⟩ | ⟨-, hread⟩
      · exact absurd hexceeds' hexceeds
      · rw [hread]
        exact ⟨rfl, rfl⟩
    | miscounted htext hcount =>
      rw [htext, unicode_of_miscounts hcount]
      exact ⟨rfl, rfl⟩
  · rintro ⟨rfl, rfl⟩
    cases hread : unicode text with
    | ok x =>
      have hvalue : (UInt32.ofNat x.value).toNat = x.value :=
        Routine.toNat_ofNat_of_unicode hread
      obtain ⟨w, rest, c, htext, hnumber, hcount, rfl⟩ := unicode_eq_ok_iff.mp hread
      exact .number htext (hvalue.symm ▸ hnumber) hcount
    | error f =>
      obtain ⟨w, rest, htext, ⟨-, hexceeds, rfl⟩ | ⟨⟨hleaves, hexceeds⟩ | hcount, rfl⟩⟩ :=
        unicode_eq_error_iff.mp hread
      · exact .exceeding htext hexceeds
      · exact .unfit htext hleaves hexceeds
      · exact .miscounted htext hcount

theorem escapeError_eq_outOfRange_iff {cause : LexError.Cause} :
    cause.escapeError = .outOfRange ↔ cause = .invalidEscape .outOfRange := by
  cases cause <;> simp [LexError.Cause.escapeError]

/-- **A value is out of range** exactly if that of some digits behind the brace is. -/
theorem wordResult_eq_outOfRange_iff :
    wordResult (unicode text) = .error .outOfRange ↔
      ∃ ds rest, text = CodeUnit.leftBrace :: (ds ++ rest) ∧
        (∀ u ∈ ds, Radix.hexadecimal.isDigit u = true) ∧
        CodePoint.max < Radix.hexadecimal.valueOf ds := by
  rw [← outOfRange_iff]
  cases unicode text with
  | ok x => simp [wordResult]
  | error f => simp [wordResult, escapeError_eq_outOfRange_iff]

/-! ### Miscounted digits -/

/-- The letter `a` in braces, with `k` zeros in front of its two digits. -/
def paddedLetter (k : Nat) : List CodeUnit :=
  CodeUnit.leftBrace :: (List.replicate k CodeUnit.zero ++ [0x36, 0x31] ++ [CodeUnit.rightBrace])

theorem isDigit_paddedLetter (k : Nat) :
    ∀ u ∈ List.replicate k CodeUnit.zero ++ [0x36, 0x31], Radix.hexadecimal.isDigit u = true :=
  Numeric.isDigit_zeros_append (List.all_eq_true.mp rfl) k

theorem valueOf_paddedLetter (k : Nat) :
    Radix.hexadecimal.valueOf (List.replicate k CodeUnit.zero ++ [0x36, 0x31]) = 0x61 := by
  rw [(Numeric.valueOf_zeros_append _ k _).1]
  rfl

/-- It is a number, with any number of zeros. -/
theorem codePointNumber_paddedLetter (k : Nat) : CodePointNumber (paddedLetter k) 0x61 := by
  have hmax : Radix.hexadecimal.valueOf (List.replicate k CodeUnit.zero ++ [0x36, 0x31]) ≤
      CodePoint.max := by
    rw [valueOf_paddedLetter]
    decide
  have hnumber := CodePointNumber.braced (isDigit_paddedLetter k)
    (List.append_ne_nil_of_right_ne_nil _ (List.cons_ne_nil _ _)) hmax
  rwa [valueOf_paddedLetter] at hnumber

/-- Where no digits are counted, it is not read. -/
theorem unicode_paddedLetter {k : Nat} (hcount : UInt32.size ∣ k + 2) (rest : List CodeUnit) :
    unicode (paddedLetter k ++ rest) = misfit .invalidUnicode (k + 3) := by
  have hlength : (List.replicate k CodeUnit.zero ++ [0x36, 0x31]).length = k + 2 := by
    rw [List.length_append, List.length_replicate]
    rfl
  have hmax : Radix.hexadecimal.valueOf (List.replicate k CodeUnit.zero ++ [0x36, 0x31]) ≤
      CodePoint.max := by
    rw [valueOf_paddedLetter]
    decide
  have hstop := unicode_of_miscounted (isDigit_paddedLetter k) hmax (hlength ▸ hcount) rest
  rw [hlength] at hstop
  rw [← hstop, paddedLetter, List.cons_append, List.append_assoc]
  rfl

/-- The same behind the `u` of an escape. -/
theorem body_paddedLetter {k : Nat} (hcount : UInt32.size ∣ k + 2) (refusal : Option EscapeError)
    (rest : List CodeUnit) :
    body refusal (CodeUnit.ofChar 'u' :: (paddedLetter k ++ rest)) =
      .error ⟨.invalidEscape .invalidUnicode, k + 4, k + 4, ∅⟩ := by
  have hescape : body refusal (CodeUnit.ofChar 'u' :: (paddedLetter k ++ rest)) =
      ((unicode (paddedLetter k ++ rest)).shift 1 ∅).mapValue some := rfl
  rw [hescape, unicode_paddedLetter hcount, shift_misfit, Nat.add_comm]
  rfl

/-- So many zeros that the count of a padded letter's digits is back at none. -/
def wordOfZeros : Nat := UInt32.size - 2

theorem dvd_wordOfZeros : UInt32.size ∣ wordOfZeros + 2 := by
  rw [wordOfZeros, Nat.sub_add_cancel (by decide)]

end Escape

namespace Machine

open Text

variable {m : Machine}

/-- The machine `n` units further on its line. -/
def alongLine (m : Machine) (n : Nat) : Machine :=
  { m with
    index := m.index + n
    column := m.column + .ofNat n
    current := m.charAt (m.index + n) }

/-- Past units of the line, the machine is along its line. -/
theorem atCursor_advance_of_inLine {w rest : List CodeUnit} (htext : m.rest = w ++ rest)
    (hline : ∀ u ∈ w, u.isLineTerminator = false) :
    m.atCursor (m.scanner.cursor.advance w.length) = m.alongLine w.length := by
  have htake : m.rest.take w.length = w := by
    rw [htext, List.take_left]
  have hlocation : m.location.after (m.rest.take w.length) =
      ⟨m.line.toNat, m.column.toNat + w.length, m.index + w.length⟩ := by
    rw [htake, Location.after_of_inLine hline]
    rfl
  have hcurrent : unitAt (m.rest.drop w.length) = m.charAt (m.index + w.length) := by
    rw [unitAt, List.head?_drop, Machine.rest, List.getElem?_drop]
    rfl
  have hcursor : m.scanner.cursor.advance w.length =
      ⟨m.location.after (m.rest.take w.length), m.rest.drop w.length⟩ := rfl
  rw [hcursor, hlocation]
  simp only [atCursor, alongLine, hcurrent, UInt32.ofNat_add, UInt32.ofNat_toNat]

/-- **The value of a Unicode escape** in words is the result of its reader, and the routine stops
where the reader does, on the same line. -/
theorem Ready.unicodeEscapeValue (h : m.Ready) :
    Routine.unicodeEscapeValue.run m =
      some (Escape.wordResult (Escape.unicode m.rest),
        m.alongLine (Escape.unicode m.rest).stop) := by
  have hrun := Routine.unicodeEscapeValue_atCursor h.admits_cursor
  rw [← image_eq_atCursor, h.stands.image_scanner] at hrun
  obtain ⟨w, rest, htext, hstop, hline⟩ := Escape.exists_passed m.rest
  have hplace := atCursor_advance_of_inLine htext hline
  rw [hrun, hstop, ← hplace, ← hstop]
  show m.carryOut _ ((Escape.unicode m.rest).mapValue _) = _
  cases hread : Escape.unicode m.rest with
  | ok x =>
    obtain ⟨_, _, _, -, -, -, rfl⟩ := Escape.unicode_eq_ok_iff.mp hread
    exact carryOut_plain _ _ _
  | error f =>
    have hflags : f.flags = ∅ := by
      obtain ⟨_, _, -, ⟨-, -, rfl⟩ | ⟨-, rfl⟩⟩ := Escape.unicode_eq_error_iff.mp hread
      · rfl
      · rfl
    rw [Outcome.mapValue, carryOut_error, hflags, note_empty]
    rfl

/-- **The value of a Unicode escape**, behind the backslash and the letter. The routine does not get
stuck while there is room in the words, so nothing overflows; its result is the one that the grammar
of numbers gives, and it stops behind as many units, on the same line. A value is out of range
exactly if that of some digits behind the brace is. -/
theorem unicodeEscapeValue_isExact (h : m.Ready) :
    (∃ result m', Routine.unicodeEscapeValue.run m = some (result, m')) ∧
    (∀ result m', Routine.unicodeEscapeValue.run m = some (result, m') ↔
      ∃ n, Escape.Reads m.rest result n ∧ m' = m.alongLine n) ∧
    ((∃ m', Routine.unicodeEscapeValue.run m = some (.error .outOfRange, m')) ↔
      ∃ ds rest, m.rest = CodeUnit.leftBrace :: (ds ++ rest) ∧
        (∀ u ∈ ds, Radix.hexadecimal.isDigit u = true) ∧
        CodePoint.max < Radix.hexadecimal.valueOf ds) := by
  rw [h.unicodeEscapeValue]
  refine ⟨⟨_, _, rfl⟩, ?_, ?_⟩
  · intro result m'
    constructor
    · intro heq
      obtain ⟨rfl, rfl⟩ := Prod.mk.inj (Option.some.inj heq)
      exact ⟨_, Escape.reads_iff.mpr ⟨rfl, rfl⟩, rfl⟩
    · rintro ⟨n, hreads, rfl⟩
      obtain ⟨rfl, rfl⟩ := Escape.reads_iff.mp hreads
      rfl
  · rw [← Escape.wordResult_eq_outOfRange_iff]
    constructor
    · rintro ⟨m', heq⟩
      exact (Prod.mk.inj (Option.some.inj heq)).1
    · intro hresult
      exact ⟨_, by rw [hresult]⟩

/-- Zeros in front of the digits, in a word that checks sums, and a number that exceeds the last
code point with its sixth digit. -/
theorem unicodeEscapeValue_isExact_digits :
    let zeros : List CodeUnit := [0x7B, 0x30, 0x30, 0x30, 0x30, 0x30, 0x30, 0x36, 0x31, 0x7D]
    let large : List CodeUnit := [0x7B, 0x31, 0x31, 0x30, 0x30, 0x30, 0x30, 0x7D]
    let m (text : List CodeUnit) := startingAt .checked text 1 2 0
    ((m zeros).Ready ∧ ∃ m', Routine.unicodeEscapeValue.run (m zeros) = some (.ok 0x61, m') ∧
      m'.location = ⟨1, 12, 10⟩) ∧
    (m large).Ready ∧
      ∃ m', Routine.unicodeEscapeValue.run (m large) = some (.error .outOfRange, m') ∧
        m'.location = ⟨1, 8, 6⟩ := by
  intro zeros large m
  have hready (text : List CodeUnit) (h : text.length < 100) : (m text).Ready := by
    have hsize : UInt32.size = 4294967296 := rfl
    have hline : (1 : UInt32).toNat = 1 := rfl
    have hcolumn : (2 : UInt32).toNat = 2 := rfl
    exact ready_startingAt 0 fun _ => ⟨by omega, by omega, by omega⟩
  constructor
  · have hzeros := hready zeros (by decide)
    have hnumber : Escape.CodePointNumber zeros (0x61 : UInt32).toNat :=
      Escape.codePointNumber_paddedLetter 6
    have hcount : ¬Escape.Miscounted zeros :=
      @Escape.not_miscounted_of_length_lt [0x30, 0x30, 0x30, 0x30, 0x30, 0x30, 0x36, 0x31]
        (by decide) (by decide)
    have hreads : Escape.Reads (m zeros).rest (.ok 0x61) 10 :=
      .number (List.append_nil zeros).symm hnumber hcount
    exact ⟨hzeros, _, ((unicodeEscapeValue_isExact hzeros).2.1 _ _).mpr ⟨10, hreads, rfl⟩, rfl⟩
  · have hlarge := hready large (by decide)
    have hexceeds : Escape.Exceeds (large.take 6) (large.drop 6) :=
      ⟨_, _, _, rfl, rfl, List.all_eq_true.mp rfl, by decide, by decide⟩
    have hreads : Escape.Reads (m large).rest (.error .outOfRange) 6 := .exceeding rfl hexceeds
    exact ⟨hlarge, _, ((unicodeEscapeValue_isExact hlarge).2.1 _ _).mpr ⟨6, hreads, rfl⟩, rfl⟩

open Escape in
/-- If the digits of a padded letter are miscounted, the closing brace behind them is an error. -/
theorem unicodeEscapeValue_of_miscounts {k : Nat} (hcount : UInt32.size ∣ k + 2) :
    let text := CodeUnit.backslash :: CodeUnit.ofChar 'u' :: paddedLetter k
    let m := startingAt .wrapping text 1 2 2
    m.Ready ∧ m.rest = paddedLetter k ∧ CodePointNumber (paddedLetter k) 0x61 ∧
      Routine.unicodeEscapeValue.run m = some (.error .invalidUnicode, m.alongLine (k + 3)) := by
  intro text m
  have hready : m.Ready := ready_startingAt 2 fun h => nomatch h
  have hrest : m.rest = paddedLetter k := by
    show text.drop (min 2 text.length) = _
    rw [Nat.min_eq_left (by simp [text])]
    rfl
  have hstop := unicode_paddedLetter hcount []
  rw [List.append_nil] at hstop
  refine ⟨hready, hrest, codePointNumber_paddedLetter k, ?_⟩
  rw [hready.unicodeEscapeValue, hrest, hstop]
  rfl

open Escape in
/-- **Digits that are miscounted.** The escape denotes the letter `a`, but its `2 ^ 32` digits are
counted as none, and its closing brace is an error. -/
theorem unicodeEscapeValue_miscounts :
    let text := CodeUnit.backslash :: CodeUnit.ofChar 'u' :: paddedLetter wordOfZeros
    let m := startingAt .wrapping text 1 2 2
    m.Ready ∧ m.rest = paddedLetter wordOfZeros ∧
      CodePointNumber (paddedLetter wordOfZeros) 0x61 ∧
      Routine.unicodeEscapeValue.run m =
        some (.error .invalidUnicode, m.alongLine (wordOfZeros + 3)) :=
  unicodeEscapeValue_of_miscounts dvd_wordOfZeros

end Machine

end EcmaLex
