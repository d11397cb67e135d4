import EcmaLex.Proofs.Calls
import EcmaLex.Proofs.NumberLiterals
import EcmaLex.Proofs.TriviaGrammar

/-!
# The longest number is taken

A scanner on a number either takes the longest literal that the text begins with, or fails; and it
fails exactly if the number goes on behind that literal. So an error that one routine finds in the
middle of a number is one that the longest literal has as well.

* `length_le_of_takes`: no longer literal stands where one was taken. The longer one would have been
  taken too, from a text that ends with it.
* `exists_interpret`: every literal has a value.
* `Scanner.next_longest_literal`: the next token where a number begins.
-/

namespace EcmaLex

/-- Every integer has a number. -/
theorem Route.exists_number?_ofInteger (radix : Radix) (digits : List CodeUnit) :
    ∃ x, (ofInteger radix digits).number? = some x := by
  unfold ofInteger
  split <;> exact ⟨_, rfl⟩

/-- Every numeral has a number. -/
theorem Route.exists_number?_ofNumeral {text : List CodeUnit} {d : Decimal}
    (h : Decimal.ofText? text = some d) : ∃ x, (ofNumeral text).number? = some x := by
  unfold ofNumeral
  split
  · exact ⟨_, rfl⟩
  · exact ⟨_, congrArg (Option.map Decimal.toBinary64) h⟩

namespace Numeric

variable {m : Mode} {f : Form} {w rest : List CodeUnit}

/-- The text is a numeric literal. -/
def IsLiteral (m : Mode) (w : List CodeUnit) : Prop := ∃ f, Literal m f w

/-! ## Units of literals -/

section Units

theorem DigitRun.lt {radix : Radix} {separators : Bool} (h : DigitRun radix separators w) :
    ∀ u ∈ w, u.toNat < 0x80 :=
  fun u hu => lt_of_continues (continues_of_inRun (h.inRun u hu))

theorem Fraction.lt (h : Fraction m w) : ∀ u ∈ w, u.toNat < 0x80 := by
  cases h with
  | absent => simp
  | point => exact List.forall_mem_singleton.mpr (by decide)
  | digits hw => exact List.forall_mem_cons.mpr ⟨by decide, hw.lt⟩

theorem Exponent.lt (h : Exponent m w) : ∀ u ∈ w, u.toNat < 0x80 := by
  have hsignLt {u : CodeUnit} (hu : isSign u = true) : u.toNat < 0x80 := by
    rw [isSign, Bool.or_eq_true, beq_iff_eq, beq_iff_eq] at hu
    rcases hu with rfl | rfl <;> decide
  cases h with
  | absent => simp
  | unsigned hmark hw =>
    exact List.forall_mem_cons.mpr ⟨lt_of_continues (continues_of_isExponentMark hmark), hw.lt⟩
  | signed hmark hsign hw =>
    exact List.forall_mem_cons.mpr ⟨lt_of_continues (continues_of_isExponentMark hmark),
      List.forall_mem_cons.mpr ⟨hsignLt hsign, hw.lt⟩⟩

/-- Literals are written in ASCII. -/
theorem Literal.lt (h : Literal m f w) : ∀ u ∈ w, u.toNat < 0x80 := by
  have hletterLt {u : CodeUnit} {radix : Radix} (hu : u ∈ radixLetters radix) :
      u.toNat < 0x80 :=
    lt_of_continues (plain_of_radixOf? (radixOf?_eq_some_iff.mpr hu) true).2.2.2
  have hsuffix : ∀ u ∈ [suffix], u.toNat < 0x80 := List.forall_mem_singleton.mpr (by decide)
  cases h with
  | radix hletter hds =>
    exact List.forall_mem_cons.mpr ⟨by decide, List.forall_mem_cons.mpr ⟨hletterLt hletter, hds.lt⟩⟩
  | radixBigInt _ hletter hds =>
    refine List.forall_mem_cons.mpr ⟨by decide, List.forall_mem_cons.mpr ⟨hletterLt hletter, ?_⟩⟩
    exact List.forall_mem_append.mpr ⟨hds.lt, hsuffix⟩
  | legacyOctal _ _ hds =>
    refine List.forall_mem_cons.mpr ⟨by decide, fun u hu => lt_of_continues ?_⟩
    exact continues_of_isDecimalDigit (CodeUnit.isDecimalDigit_of_isOctalDigit (hds u hu))
  | decimal hint hfraction hexponent =>
    refine List.forall_mem_append.mpr ⟨fun u hu => ?_, ?_⟩
    · exact lt_of_continues (continues_of_inRun (hint.inRun u hu))
    · exact List.forall_mem_append.mpr ⟨hfraction.lt, hexponent.lt⟩
  | point hds hexponent =>
    exact List.forall_mem_cons.mpr ⟨by decide, List.forall_mem_append.mpr ⟨hds.lt, hexponent.lt⟩⟩
  | bigInt _ hint => exact List.forall_mem_append.mpr ⟨hint.digitRun.lt, hsuffix⟩

/-- Whether a number goes on at a unit of ASCII does not depend on what follows. -/
theorem goesOn_cons_eq {u : CodeUnit} (hu : u.toNat < 0x80) (text text' : List CodeUnit) :
    goesOn (u :: text) = goesOn (u :: text') := by
  have hlead := isLead_eq_false hu
  simp only [goesOn, Lexeme.beginsName, Utf16.head?_cons_of_not_isLead hlead, List.head?_cons]

end Units

/-! ## The longest literal -/

/-- **No longer literal stands where one was taken.** -/
theorem length_le_of_takes {w' rest' : List CodeUnit} (hliteral : IsLiteral m w)
    (hrest : goesOn rest = false) (hpoint : rest.head? = some CodeUnit.period → ¬IntegerPart m w)
    (hliteral' : IsLiteral m w') (htext : w ++ rest = w' ++ rest') : w'.length ≤ w.length := by
  by_contra hlt
  -- the longer literal is `w` and a part of the rest, which is not empty
  obtain ⟨more, rfl⟩ : w <+: w' :=
    List.prefix_of_prefix_length_le ⟨rest, rfl⟩ ⟨rest', htext.symm⟩ (by omega)
  rw [List.append_assoc, List.append_cancel_left_eq] at htext
  subst htext
  cases more with
  | nil => simp at hlt
  | cons u more =>
    obtain ⟨f, hliteral⟩ := hliteral
    obtain ⟨f', hliteral'⟩ := hliteral'
    have hu : u.toNat < 0x80 := hliteral'.lt u (by simp)
    -- both are taken from the text that ends with the longer one
    have hshort : (form m).Takes w (u :: more) f := by
      apply takes_form_of_literal hliteral
      · rw [goesOn_cons_eq hu more (more ++ rest')]
        exact hrest
      · exact hpoint
    have hlong : (form m).Takes (w ++ u :: more) [] f' :=
      takes_form_of_literal hliteral' rfl (by simp)
    obtain ⟨heq, -⟩ := hshort.unique hlong (by simp)
    simp at heq

/-- A text that begins with a number begins with a literal. -/
theorem exists_literal_of_beginsNumber {text : List CodeUnit}
    (h : Lexeme.beginsNumber text = true) : ∃ w rest, text = w ++ rest ∧ IsLiteral m w := by
  rcases beginsNumber_cases h with hdigit | ⟨d, rest, rfl, hd⟩
  · obtain ⟨u, rest, rfl, hu⟩ := exists_cons_of_any_head? hdigit
    have hint : Integer m [u] := by
      by_cases hzero : u = CodeUnit.zero
      · subst hzero
        exact .zero
      · exact .run hzero (.single (isDigit_of_isDecimalDigit hu))
    exact ⟨[u], rest, rfl, .decimal, .decimal (.integer hint) .absent .absent⟩
  · exact ⟨[CodeUnit.period, d], rest, rfl, .decimal,
      .point (.single (isDigit_of_isDecimalDigit hd)) .absent⟩

/-- Of the literals that a text begins with, one is the longest. -/
theorem exists_longest {text : List CodeUnit} (h : ∃ w rest, text = w ++ rest ∧ IsLiteral m w) :
    ∃ w rest, text = w ++ rest ∧ IsLiteral m w ∧
      ∀ w' rest', text = w' ++ rest' → IsLiteral m w' → w'.length ≤ w.length := by
  obtain ⟨w, rest, rfl, hw⟩ := h
  exact Text.exists_longest (p := fun w _ => IsLiteral m w) hw

/-! ## Values -/

section Values
variable {whole ds exponent : List CodeUnit}

theorem isDecimalDigit_of_mem_dropSeparators {separators : Bool}
    (h : ∀ u ∈ w, inRun .decimal separators u = true) :
    ∀ u ∈ dropSeparators w, u.isDecimalDigit = true := by
  intro u hu
  obtain ⟨hmem, hne⟩ := List.mem_filter.mp hu
  exact isDecimalDigit_of_isDigit (isDigit_of_inRun (h u hmem) (by simpa using hne))

/-- The digits of an exponent, with a sign or without. -/
theorem exists_exponentOfText? (hne : ds ≠ []) (hds : ∀ u ∈ ds, u.isDecimalDigit = true) :
    (∃ e, Decimal.exponentOfText? ds = some e) ∧
      ∀ sign, isSign sign = true → ∃ e, Decimal.exponentOfText? (sign :: ds) = some e := by
  have hok : (ds.isEmpty || !ds.all CodeUnit.isDecimalDigit) = false := by
    simpa [hne] using hds
  constructor
  · obtain ⟨u, ds, rfl⟩ := List.exists_cons_of_ne_nil hne
    have hu := isSign_eq_false_of_isDigit (isDigit_of_isDecimalDigit (hds u List.mem_cons_self))
    rw [isSign, Bool.or_eq_false_iff, beq_eq_false_iff_ne, beq_eq_false_iff_ne] at hu
    unfold Decimal.exponentOfText?
    dsimp only
    rw [if_neg hu.2, if_neg hu.1]
    dsimp only
    rw [hok]
    exact ⟨_, rfl⟩
  · intro sign hsign
    rw [isSign, Bool.or_eq_true, beq_iff_eq, beq_iff_eq] at hsign
    have hplus : CodeUnit.plus ≠ CodeUnit.minus := by decide
    rcases hsign with rfl | rfl
    · simp only [Decimal.exponentOfText?, if_neg hplus, if_true, hok]
      exact ⟨_, rfl⟩
    · simp only [Decimal.exponentOfText?, if_true, hok]
      exact ⟨_, rfl⟩

/-- The text of a decimal number: digits, a point and digits or nothing, and an exponent or
nothing. -/
theorem exists_ofText? (hwhole : ∀ u ∈ whole, u.isDecimalDigit = true)
    (hds : ∀ u ∈ ds, u.isDecimalDigit = true)
    (hexponent : exponent = [] ∨ ∃ mark text e, exponent = mark :: text ∧
      isExponentMark mark = true ∧ Decimal.exponentOfText? text = some e) :
    (whole ≠ [] → ∃ d, Decimal.ofText? (whole ++ exponent) = some d) ∧
      (whole ≠ [] ∨ ds ≠ [] →
        ∃ d, Decimal.ofText? (whole ++ CodeUnit.period :: (ds ++ exponent)) = some d) := by
  have hpoint : (CodeUnit.period :: (ds ++ exponent)).head?.any CodeUnit.isDecimalDigit = false :=
    rfl
  have hempty (hne : whole ≠ [] ∨ ds ≠ []) : (whole.isEmpty && ds.isEmpty) = false := by
    rw [Bool.and_eq_false_iff]
    simpa using hne
  rcases hexponent with rfl | ⟨mark, text, e, rfl, hmark, he⟩
  · have hnil : ([] : List CodeUnit).head?.any CodeUnit.isDecimalDigit = false := rfl
    constructor
    · intro hne
      simp only [Decimal.ofText?, Text.span_append hwhole hnil]
      simp [hne]
    · intro hne
      simp only [Decimal.ofText?, Text.span_append hwhole hpoint, if_true,
        Text.span_append hds hnil, hempty hne]
      exact ⟨_, rfl⟩
  · have hhead : (mark :: text).head?.any CodeUnit.isDecimalDigit = false :=
      isDecimalDigit_of_isExponentMark hmark
    have hperiod := (plain_of_isExponentMark hmark true).1
    have hletter : (decide (mark = CodeUnit.ofChar 'e') || decide (mark = CodeUnit.ofChar 'E')) =
      true := hmark
    constructor
    · intro hne
      simp only [Decimal.ofText?, Text.span_append hwhole hhead, if_neg hperiod, hletter, he]
      simp [hne]
    · intro hne
      simp only [Decimal.ofText?, Text.span_append hwhole hpoint, if_true,
        Text.span_append hds hhead, hempty hne, hletter, he]
      exact ⟨_, rfl⟩

end Values

theorem dropSeparators_append (w w' : List CodeUnit) :
    dropSeparators (w ++ w') = dropSeparators w ++ dropSeparators w' :=
  List.filter_append w w'

theorem dropSeparators_cons {u : CodeUnit} (hu : u ≠ CodeUnit.underscore) (w : List CodeUnit) :
    dropSeparators (u :: w) = u :: dropSeparators w :=
  List.filter_cons_of_pos (by simpa using hu)

theorem dropSeparators_underscore (w : List CodeUnit) :
    dropSeparators (CodeUnit.underscore :: w) = dropSeparators w :=
  List.filter_cons_of_neg (by simp)

theorem DigitRun.isDecimalDigit_dropSeparators {separators : Bool}
    (h : DigitRun .decimal separators w) : ∀ u ∈ dropSeparators w, u.isDecimalDigit = true :=
  isDecimalDigit_of_mem_dropSeparators h.inRun

theorem Exponent.dropSeparators (h : Exponent m w) :
    dropSeparators w = [] ∨ ∃ mark text e, dropSeparators w = mark :: text ∧
      isExponentMark mark = true ∧ Decimal.exponentOfText? text = some e := by
  have hmarkNe {u : CodeUnit} (hu : isExponentMark u = true) : u ≠ CodeUnit.underscore := by
    rintro rfl
    exact absurd hu (by decide)
  have hsignNe {u : CodeUnit} (hu : isSign u = true) : u ≠ CodeUnit.underscore := by
    rintro rfl
    exact absurd hu (by decide)
  cases h with
  | absent => exact .inl rfl
  | unsigned hmark hds =>
    obtain ⟨⟨e, he⟩, -⟩ :=
      exists_exponentOfText? hds.dropSeparators_ne_nil hds.isDecimalDigit_dropSeparators
    exact .inr ⟨_, _, e, dropSeparators_cons (hmarkNe hmark) _, hmark, he⟩
  | signed hmark hsign hds =>
    obtain ⟨e, he⟩ := (exists_exponentOfText? hds.dropSeparators_ne_nil
      hds.isDecimalDigit_dropSeparators).2 _ hsign
    refine .inr ⟨_, _, e, ?_, hmark, he⟩
    rw [dropSeparators_cons (hmarkNe hmark), dropSeparators_cons (hsignNe hsign)]

theorem IntegerPart.dropSeparators_ne_nil (h : IntegerPart m w) : dropSeparators w ≠ [] := by
  cases h with
  | integer hw => exact hw.digitRun.dropSeparators_ne_nil
  | leadingZero _ _ _ =>
    rw [dropSeparators_cons (by decide)]
    exact List.cons_ne_nil _ _

/-- The text of a decimal literal is a numeral. -/
theorem exists_numeral (h : Literal m .decimal w) :
    ∃ d, Decimal.ofText? (dropSeparators w) = some d := by
  have hperiod : CodeUnit.period ≠ CodeUnit.underscore := by decide
  have hnil : ∀ u ∈ ([] : List CodeUnit), u.isDecimalDigit = true := by simp
  cases h with
  | @decimal int fraction exponent hint hfraction hexponent =>
    have hwhole := isDecimalDigit_of_mem_dropSeparators hint.inRun
    have hne := hint.dropSeparators_ne_nil
    rw [dropSeparators_append, dropSeparators_append]
    cases hfraction with
    | absent => exact (exists_ofText? hwhole hnil hexponent.dropSeparators).1 hne
    | point => exact (exists_ofText? hwhole hnil hexponent.dropSeparators).2 (.inl hne)
    | digits hds =>
      rw [dropSeparators_cons hperiod]
      exact (exists_ofText? hwhole hds.isDecimalDigit_dropSeparators hexponent.dropSeparators).2
        (.inl hne)
  | @point ds exponent hds hexponent =>
    rw [dropSeparators_cons hperiod, dropSeparators_append]
    exact (exists_ofText? hnil hds.isDecimalDigit_dropSeparators hexponent.dropSeparators).2
      (.inr hds.dropSeparators_ne_nil)

/-- **Every literal has a value.** -/
theorem exists_interpret (h : Literal m f w) : ∃ lexeme, f.interpret w = .ok lexeme := by
  have hnumber {x : Binary64} (hx : (f.route? w).bind Route.number? = some x) :
      ∃ lexeme, f.interpret w = .ok lexeme :=
    ⟨_, Form.interpret_eq_ok_iff.mpr (.inr ⟨x, hx, rfl⟩)⟩
  cases f with
  | bigInt n => exact ⟨_, rfl⟩
  | integer radix ds =>
    obtain ⟨x, hx⟩ := Route.exists_number?_ofInteger radix ds
    exact hnumber hx
  | decimal =>
    obtain ⟨d, hd⟩ := exists_numeral h
    obtain ⟨x, hx⟩ := Route.exists_number?_ofNumeral hd
    exact hnumber hx

/-! ## Tokens -/

/-- What is read is taken from the text. -/
theorem exists_takes_of_form {text : List CodeUnit} {x : Reading Form}
    (h : form m text = .ok x) :
    ∃ w rest, text = w ++ rest ∧ w.length = x.length ∧ (form m).Takes w rest x.value := by
  have hle : x.length ≤ text.length := by
    have hclean := clean_form m text
    rw [h] at hclean
    exact hclean.le
  have hlength : (text.take x.length).length = x.length := by
    rw [List.length_take, Nat.min_eq_left hle]
  refine ⟨text.take x.length, text.drop x.length, (List.take_append_drop _ _).symm, hlength,
    x.flags, ?_⟩
  rw [List.take_append_drop, hlength, h]

section Longest
variable (hliteral : IsLiteral m w)
  (hlongest : ∀ w' rest', w ++ rest = w' ++ rest' → IsLiteral m w' → w'.length ≤ w.length)
include hliteral hlongest

/-- The longest literal is read if the number does not go on behind it. -/
theorem exists_read_of_longest (hrest : goesOn rest = false) :
    ∃ x, read m (w ++ rest) = .ok x ∧ x.length = w.length := by
  obtain ⟨f, hliteral⟩ := hliteral
  have hpoint : rest.head? = some CodeUnit.period → ¬IntegerPart m w := by
    intro hhead hpart
    -- with the point it would be longer
    obtain ⟨rest, rfl⟩ := List.head?_eq_some_iff.mp hhead
    have hlonger : IsLiteral m (w ++ [CodeUnit.period]) := ⟨_, .decimal hpart .point .absent⟩
    have := hlongest _ rest (by simp) hlonger
    rw [List.length_append, List.length_singleton] at this
    omega
  obtain ⟨flags, hform⟩ := takes_form_of_literal hliteral hrest hpoint
  obtain ⟨lexeme, hlexeme⟩ := exists_interpret hliteral
  refine ⟨⟨lexeme, w.length, flags⟩, Reader.interpret_eq_ok_iff.mpr ⟨_, _, hform, ?_, rfl⟩, rfl⟩
  rw [List.take_left]
  exact hlexeme

/-- Nothing is read if the number goes on behind its longest literal. -/
theorem goesOn_eq_false_of_read {x : Reading Lexeme}
    (hbegins : Lexeme.beginsNumber (w ++ rest) = true) (h : read m (w ++ rest) = .ok x) :
    goesOn rest = false := by
  obtain ⟨z, -, hz, -, -⟩ := Reader.interpret_eq_ok_iff.mp h
  obtain ⟨w', rest', htext, -, htakes⟩ := exists_takes_of_form hz
  rw [htext] at hbegins
  obtain ⟨hliteral', hrest', hpoint'⟩ := literal_of_takes_form hbegins htakes
  have hle := length_le_of_takes ⟨_, hliteral'⟩ hrest' hpoint' hliteral htext.symm
  have hge := hlongest w' rest' htext ⟨_, hliteral'⟩
  obtain ⟨-, rfl⟩ := List.append_inj htext (by omega)
  exact hrest'

end Longest

/-- A number is read where one begins, and no trivia stands there. -/
theorem read_of_beginsNumber {text : List CodeUnit} (c : Context)
    (hbegins : Lexeme.beginsNumber text = true) :
    Lexeme.read c text = read ⟨c.isStrict, c.next⟩ text ∧
      ∀ mode, Trivia.first? mode text = none := by
  obtain ⟨u, rest, rfl, hu⟩ : ∃ u rest, text = u :: rest ∧ (u = 0x2E ∨ u = 0x30 ∨ u = 0x31 ∨
      u = 0x32 ∨ u = 0x33 ∨ u = 0x34 ∨ u = 0x35 ∨ u = 0x36 ∨ u = 0x37 ∨ u = 0x38 ∨ u = 0x39) := by
    rcases beginsNumber_cases hbegins with hdigit | ⟨d, rest, rfl, -⟩
    · obtain ⟨u, rest, rfl, hu⟩ := exists_cons_of_any_head? hdigit
      refine ⟨u, rest, rfl, ?_⟩
      simp only [CodeUnit.isDecimalDigit, Bool.and_eq_true, decide_eq_true_eq,
        UInt16.le_iff_toNat_le, UInt16.reduceToNat] at hu
      simp only [← UInt16.toNat_inj, UInt16.reduceToNat]
      omega
    · exact ⟨_, _, rfl, .inl rfl⟩
  have hplain : u.isLead = false ∧ u ≠ CodeUnit.backslash ∧
      CodePoint.isIdentifierStart u.toNat = false ∧ u.isBlank = false ∧
      u.isLineTerminator = false := by
    rcases hu with rfl | rfl | rfl | rfl | rfl | rfl | rfl | rfl | rfl | rfl | rfl <;> decide
  have hopener (kind : Comment.Kind) : kind.opener.head? ≠ some u := by
    rcases hu with rfl | rfl | rfl | rfl | rfl | rfl | rfl | rfl | rfl | rfl | rfl <;>
      cases kind <;> decide
  obtain ⟨hlead, hbackslash, hstart, hblank, hline⟩ := hplain
  have hname : Lexeme.beginsName (u :: rest) = false := by
    rw [Lexeme.beginsName, Utf16.head?_cons_of_not_isLead hlead]
    simpa [hstart] using hbackslash
  refine ⟨?_, fun mode => Trivia.first?_cons_eq_none hblank hline hopener⟩
  simp [Lexeme.read, hname, hbegins]

end Numeric

/-- Only numeric literals have numbers as values. -/
theorem Scanner.kind_of_number {s s' : Scanner} {c : Context} {t : Token}
    (h : s.next c = (.ok t, s'))
    (ht : (∃ x, t.value = .number x) ∨ ∃ n literal, t.value = .bigInt n literal) :
    t.kind = .numericLiteral := by
  obtain ⟨x, hread, -, -, -, -, hkind, hvalue, -⟩ := exists_read_of_next h
  rw [hvalue] at ht
  exact hkind.trans (Lexeme.kind_of_number hread ht)

/-- **Numeric tokens are literals.** The text of the token is a literal of the form that is read at
its start, and the form and the text give its value. -/
theorem Scanner.exists_literal_of_next {s s' : Scanner} {c : Context} {t : Token}
    (h : s.next c = (.ok t, s')) (ht : t.kind = .numericLiteral) :
    ∃ z, Numeric.form ⟨c.isStrict, c.next⟩ s'.tokenStart.rest = .ok z ∧
      s'.tokenText = s'.tokenStart.rest.take z.length ∧
      Numeric.Literal ⟨c.isStrict, c.next⟩ z.value s'.tokenText ∧
      ((∃ n, z.value = .bigInt n ∧ t.value = .bigInt n (Utf16.lossy s'.tokenText)) ∨
        ∃ x, (z.value.route? s'.tokenText).bind Route.number? = some x ∧ t.value = .number x) ∧
      ∃ newLineBefore, t.flags = { newLineBefore } ∪ z.flags := by
  obtain ⟨y, hread, htext, -, -, -, hkind, hvalue, hflags⟩ := exists_read_of_next h
  obtain ⟨hbegins, hnumeric⟩ := Lexeme.numeric_of_read hread (hkind.symm.trans ht)
  obtain ⟨z, lexeme, hz, hlexeme, rfl⟩ := Reader.interpret_eq_ok_iff.mp hnumeric
  obtain ⟨w, rest, hw, hlength, htakes⟩ := Numeric.exists_takes_of_form hz
  obtain ⟨hliteral, -, -⟩ := Numeric.literal_of_takes_form (hw ▸ hbegins) htakes
  have htake : s'.tokenText = w := by rw [htext, hw, ← hlength, List.take_left]
  rw [hw, ← hlength, List.take_left] at hlexeme
  refine ⟨z, hz, htext, htake ▸ hliteral, ?_, hflags⟩
  rw [htake, hvalue]
  refine (Numeric.Form.interpret_eq_ok_iff.mp hlexeme).imp ?_ ?_
  · rintro ⟨n, hform, rfl⟩
    exact ⟨n, hform, rfl⟩
  · rintro ⟨x, hx, rfl⟩
    exact ⟨x, hx, rfl⟩

/-- **Numbers.** Where a number begins, the next token is read exactly if the number does not go on
behind the longest literal there. It is then a numeric literal that ends with this one. -/
theorem Scanner.next_longest_literal {s : Scanner} (c : Context)
    (hbegins : Lexeme.beginsNumber s.cursor.rest = true) :
    ∃ w rest, s.cursor.rest = w ++ rest ∧ Numeric.IsLiteral ⟨c.isStrict, c.next⟩ w ∧
      (∀ w' rest', s.cursor.rest = w' ++ rest' → Numeric.IsLiteral ⟨c.isStrict, c.next⟩ w' →
        w'.length ≤ w.length) ∧
      ((∃ t s', s.next c = (.ok t, s')) ↔ Numeric.goesOn rest = false) ∧
      (Numeric.goesOn rest = false →
        ∃ t s', s.next c = (.ok t, s') ∧ t.kind = .numericLiteral ∧
          t.start = s.cursor.location ∧ t.stop = s.cursor.location.offset + w.length ∧
          s'.cursor = s.cursor.advance w.length) := by
  obtain ⟨hread, htrivia⟩ := Numeric.read_of_beginsNumber c hbegins
  obtain ⟨w, rest, htext, hw, hlongest⟩ :=
    Numeric.exists_longest (Numeric.exists_literal_of_beginsNumber hbegins)
  rw [htext] at hbegins hread hlongest
  have hcomplete : Numeric.goesOn rest = false →
      ∃ t s', s.next c = (.ok t, s') ∧ t.kind = .numericLiteral ∧
        t.start = s.cursor.location ∧ t.stop = s.cursor.location.offset + w.length ∧
        s'.cursor = s.cursor.advance w.length := by
    intro hrest
    obtain ⟨x, hx, hlength⟩ := Numeric.exists_read_of_longest hw hlongest hrest
    obtain ⟨t, s', hnext, hkind, -, hplace⟩ :=
      Scanner.exists_next_of_read (htrivia _) (by rw [htext, hread, hx])
        (by rw [htext, hlength]; simp)
    rw [hlength] at hplace
    exact ⟨t, s', hnext, hkind.trans (Lexeme.kind_of_numeric hx), hplace⟩
  refine ⟨w, rest, htext, hw, by rwa [htext], ⟨?_, ?_⟩, hcomplete⟩
  · rintro ⟨t, s', hnext⟩
    obtain ⟨x, hx, -, -⟩ := (Scanner.next_eq_ok_iff_of_first? (htrivia _)).mp hnext
    rw [htext, hread] at hx
    exact Numeric.goesOn_eq_false_of_read hw hlongest hbegins hx
  · intro hrest
    obtain ⟨t, s', hnext, -⟩ := hcomplete hrest
    exact ⟨t, s', hnext⟩

/-- Of `08.2_5e+1.x` everything up to the second point is a literal, and no more. -/
theorem Scanner.next_longest_literal_leadingZero :
    let s := Scanner.ofSource [0x30, 0x38, 0x2E, 0x32, 0x5F, 0x35, 0x65, 0x2B, 0x31, 0x2E, 0x78]
    Lexeme.beginsNumber s.cursor.rest = true ∧
      ∃ w rest, s.cursor.rest = w ++ rest ∧ Numeric.IsLiteral ⟨false, true⟩ w ∧
        (∀ w' rest', s.cursor.rest = w' ++ rest' → Numeric.IsLiteral ⟨false, true⟩ w' →
          w'.length ≤ w.length) ∧ w.length = 9 := by
  intro s
  have hbegins : Lexeme.beginsNumber s.cursor.rest = true := by decide
  obtain ⟨w, rest, htext, hw, hlongest, hiff, hplace⟩ :=
    Scanner.next_longest_literal { next := true } hbegins
  refine ⟨hbegins, w, rest, htext, hw, hlongest, ?_⟩
  have hstop : (s.next { next := true }).1.toOption.map Token.stop = some 9 := by decide +kernel
  have hnext : ∃ t s', s.next { next := true } = (.ok t, s') := by
    rcases hn : s.next { next := true } with ⟨r, s'⟩
    cases r with
    | error e => simp [hn, Except.toOption] at hstop
    | ok t => exact ⟨t, s', rfl⟩
  obtain ⟨t, s', hnext, -, -, ht, -⟩ := hplace (hiff.mp hnext)
  have ht' : t.stop = 9 := by simpa [hnext, Except.toOption] using hstop
  have hoffset : s.cursor.location.offset = 0 := rfl
  omega

end EcmaLex
