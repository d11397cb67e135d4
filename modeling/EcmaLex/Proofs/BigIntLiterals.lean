import EcmaLex.Proofs.CodePoints
import EcmaLex.Proofs.LongestNumbers
import EcmaLex.Proofs.NumeralValues

/-!
# BigInt literals and natural numbers

A natural number has many spellings as a BigInt literal: in four radices, with leading zeros in
three of them, with letters of either case, and with separators between digits. Each of them is read
as the number that it spells, and keeps its spelling; and there are no other BigInt tokens.

* `Numeric.Spells`: the spellings of a number, put together from its digits.
  `Numeric.exists_spells`: every number has one.
* `Numeric.spells_iff_literal`: they are the BigInt literals of the grammar.
* `Scanner.next_bigInt_iff_spells`: the tokens.
-/

namespace EcmaLex

namespace Numeric

/-! ## Spellings -/

/-- The second text is the first with single separators between some of its units. -/
inductive Separated : List CodeUnit → List CodeUnit → Prop
  | single (u : CodeUnit) : Separated [u] [u]
  | cons (u : CodeUnit) {ds w : List CodeUnit} (hw : Separated ds w) : Separated (u :: ds) (u :: w)
  | separated (u : CodeUnit) {ds w : List CodeUnit} (hw : Separated ds w) :
      Separated (u :: ds) (u :: CodeUnit.underscore :: w)

/-- The text is a BigInt literal that spells the number: decimal digits of which the first is no
zero unless it is the only one, or a zero, the letter of a radix and digits, and then the suffix. -/
inductive Spells (n : ℕ) : List CodeUnit → Prop
  | decimal {ds w : List CodeUnit} (hds : ∀ u ∈ ds, Radix.decimal.isDigit u = true)
      (hzero : ds.head? = some CodeUnit.zero → ds = [CodeUnit.zero])
      (hvalue : Radix.decimal.valueOf ds = n) (hw : Separated ds w) : Spells n (w ++ [suffix])
  | radix {radix : Radix} {letter : CodeUnit} {ds w : List CodeUnit}
      (hletter : letter ∈ radixLetters radix) (hds : ∀ u ∈ ds, radix.isDigit u = true)
      (hvalue : radix.valueOf ds = n) (hw : Separated ds w) :
      Spells n (CodeUnit.zero :: letter :: (w ++ [suffix]))

section Spelling
variable {m : Mode} {radix : Radix} {ds w : List CodeUnit} {n : ℕ}

theorem Separated.refl (hne : ds ≠ []) : Separated ds ds := by
  induction ds with
  | nil => exact absurd rfl hne
  | cons u ds ih =>
    cases ds with
    | nil => exact .single u
    | cons v ds => exact .cons u (ih (List.cons_ne_nil v ds))

/-- Separated digits are a run, and without separators they are the digits again. -/
theorem Separated.digitRun (h : Separated ds w) (hds : ∀ u ∈ ds, radix.isDigit u = true) :
    DigitRun radix true w ∧ dropSeparators w = ds := by
  have hne {u : CodeUnit} {rest : List CodeUnit} (hu : ∀ v ∈ u :: rest, radix.isDigit v = true) :=
    ne_underscore_of_isDigit (hu u List.mem_cons_self)
  induction h with
  | single u => exact ⟨.single (hds u List.mem_cons_self), dropSeparators_cons (hne hds) []⟩
  | cons u _ ih =>
    obtain ⟨hrun, hdrop⟩ := ih fun v hv => hds v (List.mem_cons_of_mem u hv)
    exact ⟨.cons (hds u List.mem_cons_self) hrun, by rw [dropSeparators_cons (hne hds), hdrop]⟩
  | separated u _ ih =>
    obtain ⟨hrun, hdrop⟩ := ih fun v hv => hds v (List.mem_cons_of_mem u hv)
    exact ⟨.separated rfl (hds u List.mem_cons_self) hrun, by
      rw [dropSeparators_cons (hne hds), dropSeparators_underscore, hdrop]⟩

/-- A run is made of digits and separators between them. -/
theorem DigitRun.separated_dropSeparators {separators : Bool} (h : DigitRun radix separators w) :
    Separated (dropSeparators w) w ∧ ∀ u ∈ dropSeparators w, radix.isDigit u = true := by
  induction h with
  | single hu =>
    rw [dropSeparators_cons (ne_underscore_of_isDigit hu)]
    exact ⟨.single _, by simpa [dropSeparators] using hu⟩
  | cons hu _ ih =>
    rw [dropSeparators_cons (ne_underscore_of_isDigit hu)]
    exact ⟨.cons _ ih.1, List.forall_mem_cons.mpr ⟨hu, ih.2⟩⟩
  | separated _ hu _ ih =>
    rw [dropSeparators_cons (ne_underscore_of_isDigit hu), dropSeparators_underscore]
    exact ⟨.separated _ ih.1, List.forall_mem_cons.mpr ⟨hu, ih.2⟩⟩

/-- A run without a leading zero is an integer, and so is a lone zero. -/
theorem integer_iff_of_digitRun (h : DigitRun .decimal m.next w) :
    Integer m w ↔
      ((dropSeparators w).head? = some CodeUnit.zero → dropSeparators w = [CodeUnit.zero]) := by
  constructor
  · intro hint hzero
    cases hint with
    | zero => rfl
    | run hu hds =>
      obtain ⟨v, rest, heq, hv⟩ := hds.exists_cons
      obtain ⟨rfl, rfl⟩ := List.cons.inj heq
      rw [dropSeparators_cons (ne_underscore_of_isDigit hv)] at hzero
      exact absurd (by simpa using hzero) hu
  · intro hzero
    cases h with
    | @single u hu =>
      by_cases hu' : u = CodeUnit.zero
      · subst hu'
        exact .zero
      · exact .run hu' (.single hu)
    | @cons u w hu hw =>
      refine .run ?_ (.cons hu hw)
      rintro rfl
      rw [dropSeparators_cons (by decide)] at hzero
      exact hw.dropSeparators_ne_nil (List.cons.inj (hzero rfl)).2
    | @separated u w hseparators hu hw =>
      refine .run ?_ (.separated hseparators hu hw)
      rintro rfl
      rw [dropSeparators_cons (by decide), dropSeparators_underscore] at hzero
      exact hw.dropSeparators_ne_nil (List.cons.inj (hzero rfl)).2

/-- **The spellings are the literals of the grammar.** -/
theorem spells_iff_literal (hnext : m.next = true) : Spells n w ↔ Literal m (.bigInt n) w := by
  constructor
  · rintro (@⟨ds, w, hds, hzero, rfl, hw⟩ | @⟨radix, letter, ds, w, hletter, hds, rfl, hw⟩)
    · obtain ⟨hrun, rfl⟩ := hw.digitRun hds
      rw [← hnext] at hrun
      exact .bigInt hnext ((integer_iff_of_digitRun hrun).mpr hzero)
    · obtain ⟨hrun, rfl⟩ := hw.digitRun hds
      exact .radixBigInt hnext hletter (hnext ▸ hrun)
  · intro h
    cases h with
    | radixBigInt _ hletter hds =>
      obtain ⟨hw, hdigits⟩ := hds.separated_dropSeparators
      exact .radix hletter hdigits rfl hw
    | bigInt _ hint =>
      obtain ⟨hw, hdigits⟩ := hint.digitRun.separated_dropSeparators
      exact .decimal hdigits ((integer_iff_of_digitRun hint.digitRun).mp hint) rfl hw

theorem Literal.next_eq_true (h : Literal m (.bigInt n) w) : m.next = true := by
  cases h with
  | radixBigInt hnext _ _ => exact hnext
  | bigInt hnext _ => exact hnext

/-- A spelling begins with a digit. -/
theorem Spells.exists_cons (h : Spells n w) :
    ∃ u more, w = u :: more ∧ u.isDecimalDigit = true := by
  cases h with
  | decimal hds _ _ hw =>
    obtain ⟨u, more, rfl, hu⟩ := (hw.digitRun hds).1.exists_cons
    exact ⟨u, more ++ [suffix], rfl, isDecimalDigit_of_isDigit hu⟩
  | radix _ _ _ _ => exact ⟨_, _, rfl, rfl⟩

/-- A spelling ends with the suffix, which no integer part has. -/
theorem Spells.not_integerPart (h : Spells n w) : ¬IntegerPart m w := by
  have hmem : suffix ∈ w := by
    cases h with
    | decimal _ _ _ _ => simp
    | radix _ _ _ _ => simp
  exact Numeric.not_integerPart hmem (inRun_suffix .decimal m.next)

/-- The numeral of a natural number has no leading zero. -/
theorem textOfNat_of_head? (h : (Decimal.textOfNat n).head? = some CodeUnit.zero) :
    Decimal.textOfNat n = [CodeUnit.zero] := by
  have hzero (ds : List CodeUnit) : Radix.decimal.valueOf (CodeUnit.zero :: ds) =
      Radix.decimal.valueOf ds := rfl
  induction n using Nat.strongRecOn with
  | ind n ih =>
    unfold Decimal.textOfNat at h ih ⊢
    by_cases hn : n < 10
    · rw [Nat.toDigits_of_lt_base hn] at h ⊢
      rw [List.map_singleton, List.head?_cons] at h
      rw [List.map_singleton, Option.some.inj h]
    · -- the digits before the last one begin with a zero as well, so they denote no number
      obtain ⟨hne, -, hvalue⟩ := Decimal.textOfNat_spec (n / 10)
      unfold Decimal.textOfNat at hne hvalue
      rw [Nat.toDigits_of_base_le (by decide) (by omega), List.map_append,
        List.head?_append_of_ne_nil _ hne] at h
      rw [ih (n / 10) (by omega) h, hzero, Radix.valueOf_nil] at hvalue
      omega

/-- **Every natural number has spellings**, in every radix. -/
theorem exists_spells (n : ℕ) :
    Spells n (Decimal.textOfNat n ++ [suffix]) ∧
      ∀ radix letter, letter ∈ radixLetters radix → Spells n (CodeUnit.zero :: letter ::
        ((Nat.toDigits radix.base n).map CodeUnit.ofChar ++ [suffix])) := by
  constructor
  · obtain ⟨hne, hds, hvalue⟩ := Radix.decimal.toDigits_spec n
    exact .decimal hds textOfNat_of_head? hvalue (.refl hne)
  · intro radix letter hletter
    obtain ⟨hne, hds, hvalue⟩ := radix.toDigits_spec n
    exact .radix hletter hds hvalue (.refl hne)

end Spelling

end Numeric

/-! ## Tokens -/

/-- Every code point of a text in ASCII is a character. -/
theorem Utf16.exists_toChar?_of_ascii {w : List CodeUnit} (h : ∀ u ∈ w, u.toNat < 0x80) :
    ∀ c ∈ codePoints w, ∃ ch, c.toChar? = some ch := by
  induction w with
  | nil => simp [codePoints]
  | cons u w ih =>
    obtain ⟨hu, hw⟩ := List.forall_mem_cons.mp h
    rw [codePoints_of_head? (head?_cons_of_not_isLead (Numeric.isLead_eq_false hu) w),
      List.forall_mem_cons]
    exact ⟨CodePoint.exists_toChar?_of_lt (Nat.lt_trans hu (by decide)), ih hw⟩

/-- Literals are kept as strings. -/
theorem Numeric.Literal.ofString_lossy {m : Mode} {f : Form} {w : List CodeUnit}
    (h : Literal m f w) : Utf16.ofString (Utf16.lossy w) = w :=
  Utf16.ofString_lossy (Utf16.exists_toChar?_of_ascii h.lt)

/-- **BigInt literals are natural numbers.** Where BigInt literals exist, each spelling of a number
that does not go on behind its end is a token with this number, which keeps the spelling; and every
BigInt token is one. -/
theorem Scanner.next_bigInt_iff_spells {c : Context} :
    (∀ {s : Scanner} {n : ℕ} {w rest : List CodeUnit}, c.next = true → Numeric.Spells n w →
      s.cursor.rest = w ++ rest → Numeric.goesOn rest = false →
      ∃ t s' literal, s.next c = (.ok t, s') ∧ t.kind = .numericLiteral ∧
        t.value = .bigInt n literal ∧ Utf16.ofString literal = w ∧
        t.start = s.cursor.location ∧ t.stop = s.cursor.location.offset + w.length ∧
        s'.cursor = s.cursor.advance w.length) ∧
    ∀ {s s' : Scanner} {t : Token} {n : ℕ} {literal : String}, s.next c = (.ok t, s') →
      t.value = .bigInt n literal →
      c.next = true ∧ t.kind = .numericLiteral ∧
        Numeric.Spells n s'.tokenText ∧ Utf16.ofString literal = s'.tokenText := by
  constructor
  · intro s n w rest hnext hw htext hrest
    have hliteral := (Numeric.spells_iff_literal (m := ⟨c.isStrict, c.next⟩) hnext).mp hw
    have hbegins : Lexeme.beginsNumber s.cursor.rest = true := by
      obtain ⟨u, more, rfl, hu⟩ := hw.exists_cons
      simp [htext, Lexeme.beginsNumber, hu]
    obtain ⟨flags, hform⟩ :=
      Numeric.takes_form_of_literal hliteral hrest fun _ => hw.not_integerPart
    obtain ⟨hread, htrivia⟩ := Numeric.read_of_beginsNumber c hbegins
    have hlexeme : Lexeme.read c s.cursor.rest =
        .ok ⟨⟨.numericLiteral, .bigInt n (Utf16.lossy w)⟩, w.length, flags⟩ := by
      rw [hread, htext]
      refine Reader.interpret_eq_ok_iff.mpr ⟨_, _, hform, ?_, rfl⟩
      rw [List.take_left]
      rfl
    obtain ⟨t, s', hnext, hkind, hvalue, hplace⟩ :=
      exists_next_of_read (htrivia _) hlexeme (by simp [htext])
    exact ⟨t, s', _, hnext, hkind, hvalue, hliteral.ofString_lossy, hplace⟩
  · intro s s' t n literal h ht
    have hkind := kind_of_number h (.inr ⟨n, literal, ht⟩)
    obtain ⟨z, -, -, hliteral, ⟨k, hform, hvalue⟩ | ⟨x, -, hvalue⟩, -⟩ :=
      exists_literal_of_next h hkind
    · obtain ⟨rfl, rfl⟩ : n = k ∧ literal = Utf16.lossy s'.tokenText := by
        simpa [ht] using hvalue
      rw [hform] at hliteral
      have hnext := hliteral.next_eq_true
      exact ⟨hnext, hkind, (Numeric.spells_iff_literal hnext).mpr hliteral,
        hliteral.ofString_lossy⟩
    · simp [ht] at hvalue

/-- `0X0_Ffn;` is a spelling of 255, and the token that is read there has no other number. -/
theorem Scanner.next_bigInt_iff_spells_hexadecimal :
    let w : List CodeUnit := [0x30, 0x58, 0x30, 0x5F, 0x46, 0x66, 0x6E]
    let rest : List CodeUnit := [0x3B]
    let c : Context := { next := true }
    Numeric.Spells 255 w ∧ Numeric.goesOn rest = false ∧
      ∃ t s' literal, (ofSource (w ++ rest)).next c = (.ok t, s') ∧
        t.value = .bigInt 255 literal ∧ Utf16.ofString literal = w ∧ t.stop = 7 ∧
        Numeric.Spells 255 s'.tokenText := by
  intro w rest c
  have hletter : 0x58 ∈ Numeric.radixLetters .hexadecimal := by decide
  have hdigits : ∀ u ∈ [0x30, 0x46, 0x66], Radix.hexadecimal.isDigit u = true :=
    List.all_eq_true.mp rfl
  have hspells : Numeric.Spells 255 w :=
    .radix hletter hdigits (by decide) (.separated _ (.cons _ (.single _)))
  have hrest : Numeric.goesOn rest = false := by decide +kernel
  obtain ⟨t, s', literal, hnext, -, hvalue, hliteral, -, hstop, -⟩ :=
    (next_bigInt_iff_spells (c := c)).1 (s := ofSource (w ++ rest)) rfl hspells rfl hrest
  obtain ⟨-, -, htext, -⟩ := next_bigInt_iff_spells.2 hnext hvalue
  exact ⟨hspells, hrest, t, s', literal, hnext, hvalue, hliteral, hstop, htext⟩

end EcmaLex
