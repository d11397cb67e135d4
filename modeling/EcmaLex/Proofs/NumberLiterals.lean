import EcmaLex.Proofs.NumberGrammar

/-!
# Numeric literals are read as written

Five routines read numbers, and each has checks of its own for separators, suffixes and strict code.
Together they read one grammar.

* `takes_prefixed_iff`, `takes_leadingZero_iff`, `takes_decimal_iff`: what each routine takes.
* `literal_of_takes_form` and `takes_form_of_literal`: where a number begins, exactly the literals
  of the grammar are taken, in front of a text where the number does not go on and no point would
  belong to it.
-/

namespace EcmaLex.Numeric

/-! ## What follows an integer part -/

theorem Exponent.eq_nil_or_cons {m : Mode} {w : List CodeUnit} (h : Exponent m w) :
    w = [] ∨ ∃ mark ds, w = mark :: ds ∧ isExponentMark mark = true := by
  cases h with
  | absent => exact .inl rfl
  | unsigned hmark _ => exact .inr ⟨_, _, rfl, hmark⟩
  | signed hmark _ _ => exact .inr ⟨_, _, rfl, hmark⟩

/-- What follows the integer part of a decimal literal: a fraction and an exponent, both
optional. -/
def Tail (m : Mode) (w : List CodeUnit) : Prop :=
  ∃ fraction exponent, w = fraction ++ exponent ∧ Fraction m fraction ∧ Exponent m exponent

/-- **The end of a decimal literal**: a fraction, an exponent, and nothing that goes on. -/
theorem takes_tail_iff {m : Mode} {form f : Form} {w rest : List CodeUnit} :
    (do
      fraction m
      exponent m
      numberEnd m
      return form : Reader Form).Takes w rest f ↔
      f = form ∧ goesOn rest = false ∧ (w = [] → rest.head? ≠ some CodeUnit.period) ∧
        Tail m w := by
  simp only [Reader.takes_bind_iff, Reader.takes_pure_iff]
  constructor
  · rintro ⟨w₁, _, ⟨⟩, rfl, hfraction, w₂, _, ⟨⟩, rfl, hexponent, w₃, _, ⟨⟩, rfl, hend, rfl, rfl⟩
    obtain ⟨rfl, hrest⟩ := takes_numberEnd_iff.mp hend
    obtain ⟨hfraction, hpoint, -⟩ := takes_fraction_iff.mp hfraction
    obtain ⟨hexponent, -, -⟩ := takes_exponent_iff.mp hexponent
    refine ⟨rfl, hrest, ?_, w₁, w₂, by simp, hfraction, hexponent⟩
    intro hnil
    simp only [List.append_nil, List.append_eq_nil_iff] at hnil
    obtain ⟨rfl, rfl⟩ := hnil
    exact hpoint rfl
  · rintro ⟨rfl, hrest, hpoint, fraction, exponent, rfl, hfraction, hexponent⟩
    have hdigit := inRun_head?_of_not_goesOn .decimal m.next hrest
    refine ⟨fraction, exponent, (), rfl, ?_, exponent, [], (), by simp, ?_,
      [], [], (), rfl, ?_, rfl, rfl⟩
    · apply takes_fraction_iff.mpr
      rcases hexponent.eq_nil_or_cons with rfl | ⟨mark, ds, rfl, hmark⟩
      · exact ⟨hfraction, fun h => hpoint (by simp [h]), fun _ => hdigit⟩
      · obtain ⟨hperiod, hrun⟩ := plain_of_isExponentMark hmark m.next
        exact ⟨hfraction, by simp [hperiod], by simp [hrun]⟩
    · apply takes_exponent_iff.mpr
      refine ⟨hexponent, fun _ => ?_, fun _ => hdigit⟩
      exact any_head?_of_not_goesOn (fun _ => continues_of_isExponentMark) hrest
    · exact takes_numberEnd_iff.mpr ⟨rfl, hrest⟩

/-- The end of an integer that may be a BigInt. -/
theorem takes_suffix_iff {m : Mode} {form f : Form} {other : Reader Form}
    {w rest : List CodeUnit} :
    (do
      let text ← Reader.ahead
      if hasSuffix m text then do
        bigIntEnd
        return form
      else other : Reader Form).Takes w rest f ↔
      (m.next = true ∧ w = [suffix] ∧ goesOn rest = false ∧ f = form) ∨
        hasSuffix m (w ++ rest) = false ∧ other.Takes w rest f := by
  rw [Reader.takes_ahead_bind_iff]
  cases hs : hasSuffix m (w ++ rest) with
  | false =>
    rw [if_neg (by simp)]
    constructor
    · intro h
      exact .inr ⟨rfl, h⟩
    · rintro (⟨hnext, rfl, -⟩ | ⟨-, h⟩)
      · simp [hasSuffix, hnext] at hs
      · exact h
  | true =>
    have hnext : m.next = true := by
      rw [hasSuffix, Bool.and_eq_true] at hs
      exact hs.1
    obtain ⟨text, htext⟩ := List.head?_eq_some_iff.mp (head?_of_hasSuffix hs)
    have hend : bigIntEnd ([suffix] ++ text) =
        ((checkEnd text).shift [suffix].length ∅).mapValue id := by
      rw [Outcome.mapValue_id]
      rfl
    rw [if_pos rfl, Reader.takes_bind_iff]
    simp only [Reader.takes_pure_iff]
    constructor
    · rintro ⟨w₁, _, ⟨⟩, rfl, hw₁, rfl, rfl⟩
      rw [List.append_nil] at htext
      obtain ⟨w', _, rfl, -, hw', -⟩ := (Reader.takes_iff_of_shift hend htext).mp hw₁
      obtain ⟨rfl, hrest⟩ := takes_checkEnd_iff.mp hw'
      exact .inl ⟨hnext, rfl, hrest, rfl⟩
    · rintro (⟨-, rfl, hrest, rfl⟩ | ⟨h, -⟩)
      · refine ⟨[suffix], [], (), rfl, ?_, rfl, rfl⟩
        obtain ⟨-, rfl⟩ := List.cons.inj htext
        apply (Reader.takes_iff_of_shift hend rfl).mpr
        exact ⟨[], (), rfl, rfl, takes_checkEnd_iff.mpr ⟨rfl, hrest⟩, rfl⟩
      · simp at h

/-- The end of an integer that is none. -/
theorem takes_integerEnd_iff {atEnd : Reader Unit} {form f : Form} {w rest : List CodeUnit}
    (hend : ∀ {w}, atEnd.Takes w rest () ↔ w = [] ∧ goesOn rest = false) :
    (do
      atEnd
      return form : Reader Form).Takes w rest f ↔ w = [] ∧ goesOn rest = false ∧ f = form := by
  simp only [Reader.takes_bind_iff, Reader.takes_pure_iff]
  constructor
  · rintro ⟨_, _, ⟨⟩, rfl, h, rfl, rfl⟩
    obtain ⟨rfl, hrest⟩ := hend.mp h
    exact ⟨rfl, hrest, rfl⟩
  · rintro ⟨rfl, hrest, rfl⟩
    exact ⟨[], [], (), rfl, hend.mpr ⟨rfl, hrest⟩, rfl, rfl⟩

/-- **Literals with a radix.** -/
theorem takes_prefixed_iff {m : Mode} {radix : Radix} {u letter : CodeUnit} {f : Form}
    {w rest text : List CodeUnit} (htext : w ++ rest = u :: letter :: text) :
    (prefixed m radix).Takes w rest f ↔
      goesOn rest = false ∧ ∃ ds, DigitRun radix m.next ds ∧
        (w = u :: letter :: ds ∧ f = .integer radix (dropSeparators ds) ∨
          m.next = true ∧ w = u :: letter :: (ds ++ [suffix]) ∧
            f = .bigInt (radix.valueOf (dropSeparators ds))) := by
  rw [prefixed, Reader.takes_bind_iff]
  constructor
  · rintro ⟨w₁, _, _, rfl, htake, h⟩
    rw [List.append_assoc] at htext
    obtain ⟨-, htwo⟩ := (Reader.takes_take_iff (by rw [htext]; simp)).mp htake
    obtain ⟨rfl, -⟩ : w₁ = [u, letter] ∧ _ = text := List.append_inj htext htwo
    obtain ⟨ds, w', _, rfl, hdigits, hend⟩ := Reader.takes_bind_iff.mp h
    obtain ⟨hds, rfl, -⟩ := takes_digits_iff.mp hdigits
    rcases hds with rfl | hds
    · exact absurd hend Reader.not_takes_fail
    rw [if_neg (by simpa using hds.dropSeparators_ne_nil), takes_suffix_iff] at hend
    rcases hend with ⟨hnext, rfl, hrest, rfl⟩ | ⟨-, hend⟩
    · exact ⟨hrest, ds, hds, .inr ⟨hnext, rfl, rfl⟩⟩
    · obtain ⟨rfl, hrest, rfl⟩ := (takes_integerEnd_iff takes_checkEnd_iff).mp hend
      exact ⟨hrest, ds, hds, .inl ⟨by simp, rfl⟩⟩
  · rintro ⟨hrest, ds, hds, h⟩
    have htake (w' : List CodeUnit) : (Reader.take 2).Takes [u, letter] w' [u, letter] :=
      (Reader.takes_take_iff (by simp)).mpr ⟨rfl, rfl⟩
    have hne : (dropSeparators ds).isEmpty ≠ true := by simpa using hds.dropSeparators_ne_nil
    rcases h with ⟨rfl, rfl⟩ | ⟨hnext, rfl, rfl⟩
    · refine ⟨[u, letter], ds, _, rfl, htake _, Reader.takes_bind_iff.mpr
        ⟨ds, [], _, by simp, takes_digits_iff.mpr ⟨.inr hds, rfl, ?_⟩, ?_⟩⟩
      · exact inRun_head?_of_not_goesOn radix m.next hrest
      · rw [if_neg hne, takes_suffix_iff]
        exact .inr ⟨hasSuffix_of_not_goesOn hrest,
          (takes_integerEnd_iff takes_checkEnd_iff).mpr ⟨rfl, hrest, rfl⟩⟩
    · refine ⟨[u, letter], ds ++ [suffix], _, rfl, htake _, Reader.takes_bind_iff.mpr
        ⟨ds, [suffix], _, rfl, takes_digits_iff.mpr ⟨.inr hds, rfl, ?_⟩, ?_⟩⟩
      · exact inRun_suffix radix m.next
      · rw [if_neg hne, takes_suffix_iff]
        exact .inl ⟨hnext, rfl, hrest, rfl⟩

/-- The digits of a literal with a leading zero, which strict code refuses. -/
theorem takes_leadingDigits_iff {m : Mode} {ds rest run : List CodeUnit} :
    ((Reader.takeWhile CodeUnit.isDecimalDigit).interpret fun x _ =>
      if !m.strict then .ok x.value
      else if x.value.all CodeUnit.isOctalDigit then .error .strictOctalLiteral
      else .error .strictLeadingZero).Takes ds rest run ↔
      m.strict = false ∧ run = ds ∧ (∀ u ∈ ds, u.isDecimalDigit = true) ∧
        rest.head?.any CodeUnit.isDecimalDigit = false := by
  rw [Reader.takes_interpret_iff, ← Reader.takes_takeWhile_iff]
  cases hstrict : m.strict with
  | true =>
    constructor
    · rintro ⟨x, -, -, hx⟩
      rw [if_neg (by simp)] at hx
      split at hx <;> simp at hx
    · simp
  | false =>
    constructor
    · rintro ⟨x, hx, hlength, hvalue⟩
      obtain rfl := Except.ok.inj hvalue
      exact ⟨rfl, x.flags, by rw [hx, ← hlength]⟩
    · rintro ⟨-, flags, hx⟩
      exact ⟨_, hx, rfl, rfl⟩

/-- What follows these digits depends on whether they are octal. -/
theorem takes_leadingEnd_iff {m : Mode} {f : Form} {run w rest : List CodeUnit} :
    (if run.all CodeUnit.isOctalDigit then do
      numberEnd m
      return .integer .octal run
    else do
      fraction m
      exponent m
      numberEnd m
      return .decimal : Reader Form).Takes w rest f ↔
      goesOn rest = false ∧
        (run.all CodeUnit.isOctalDigit = true ∧ w = [] ∧
            f = .integer .octal run ∨
          run.all CodeUnit.isOctalDigit = false ∧ f = .decimal ∧
            (w = [] → rest.head? ≠ some CodeUnit.period) ∧ Tail m w) := by
  cases run.all CodeUnit.isOctalDigit with
  | true =>
    rw [if_pos rfl, takes_integerEnd_iff takes_numberEnd_iff]
    constructor
    · rintro ⟨rfl, hrest, rfl⟩
      exact ⟨hrest, .inl ⟨rfl, rfl, rfl⟩⟩
    · rintro ⟨hrest, ⟨-, rfl, rfl⟩ | ⟨h, -⟩⟩
      · exact ⟨rfl, hrest, rfl⟩
      · simp at h
  | false =>
    rw [if_neg (by simp), takes_tail_iff]
    constructor
    · rintro ⟨rfl, hrest, hpoint, htail⟩
      exact ⟨hrest, .inr ⟨rfl, rfl, hpoint, htail⟩⟩
    · rintro ⟨hrest, ⟨h, -⟩ | ⟨-, rfl, hpoint, htail⟩⟩
      · simp at h
      · exact ⟨rfl, hrest, hpoint, htail⟩

/-- **Literals with a leading zero.** -/
theorem takes_leadingZero_iff {m : Mode} {f : Form} {w rest : List CodeUnit} :
    (leadingZero m).Takes w rest f ↔
      m.strict = false ∧ goesOn rest = false ∧ ∃ ds w', w = ds ++ w' ∧
        (∀ u ∈ ds, u.isDecimalDigit = true) ∧
        (w' ++ rest).head?.any CodeUnit.isDecimalDigit = false ∧
        (ds.all CodeUnit.isOctalDigit = true ∧ w' = [] ∧
            f = .integer .octal ds ∨
          ds.all CodeUnit.isOctalDigit = false ∧ f = .decimal ∧
            (w' = [] → rest.head? ≠ some CodeUnit.period) ∧ Tail m w') := by
  rw [leadingZero, Reader.takes_bind_iff]
  simp only [takes_leadingDigits_iff, Reader.takes_note_bind_iff, takes_leadingEnd_iff]
  constructor
  · rintro ⟨ds, w', _, rfl, ⟨hstrict, rfl, hds, hhead⟩, hrest, hend⟩
    exact ⟨hstrict, hrest, _, w', rfl, hds, hhead, hend⟩
  · rintro ⟨hstrict, hrest, ds, w', rfl, hds, hhead, hend⟩
    exact ⟨ds, w', ds, rfl, ⟨hstrict, rfl, hds, hhead⟩, hrest, hend⟩

/-- **Decimal literals**, of which all parts may be missing. -/
theorem takes_decimal_iff {m : Mode} {f : Form} {w rest : List CodeUnit} :
    (decimal m).Takes w rest f ↔
      goesOn rest = false ∧ ∃ run w', w = run ++ w' ∧
        (run = [] ∨ DigitRun .decimal m.next run) ∧
        (w' ++ rest).head?.any (inRun .decimal m.next) = false ∧
        (m.next = true ∧ w' = [suffix] ∧
            f = .bigInt (Radix.decimal.valueOf (dropSeparators run)) ∨
          hasSuffix m (w' ++ rest) = false ∧ f = .decimal ∧
            (w' = [] → rest.head? ≠ some CodeUnit.period) ∧
            Tail m w') := by
  rw [decimal, Reader.takes_bind_iff]
  simp only [takes_suffix_iff, takes_tail_iff, takes_digits_iff]
  constructor
  · rintro ⟨run, w', _, rfl, ⟨hrun, rfl, hhead⟩, ⟨hnext, rfl, hrest, rfl⟩ |
      ⟨hsuffix, rfl, hrest, hpoint, htail⟩⟩
    · exact ⟨hrest, run, _, rfl, hrun, hhead, .inl ⟨hnext, rfl, rfl⟩⟩
    · exact ⟨hrest, run, w', rfl, hrun, hhead, .inr ⟨hsuffix, rfl, hpoint, htail⟩⟩
  · rintro ⟨hrest, run, w', rfl, hrun, hhead, ⟨hnext, rfl, rfl⟩ | ⟨hsuffix, rfl, hpoint, htail⟩⟩
    · exact ⟨run, _, _, rfl, ⟨hrun, rfl, hhead⟩, .inl ⟨hnext, rfl, hrest, rfl⟩⟩
    · exact ⟨run, w', _, rfl, ⟨hrun, rfl, hhead⟩, .inr ⟨hsuffix, rfl, hrest, hpoint, htail⟩⟩

/-! ## The choice of a routine -/

theorem radixOf?_eq_some_iff {u : CodeUnit} {radix : Radix} :
    radixOf? u = some radix ↔ u ∈ radixLetters radix := by
  constructor
  · intro h
    unfold radixOf? at h
    split at h
    · next hu =>
      obtain rfl := Option.some.inj h
      simpa [radixLetters] using hu
    split at h
    · next hu =>
      obtain rfl := Option.some.inj h
      simpa [radixLetters] using hu
    split at h
    · next hu =>
      obtain rfl := Option.some.inj h
      simpa [radixLetters] using hu
    · simp at h
  · intro h
    cases radix <;> simp only [radixLetters, List.mem_cons, List.not_mem_nil, or_false] at h <;>
      rcases h with rfl | rfl <;> rfl

/-- The letter of a radix is no part of a decimal number. -/
theorem plain_of_radixOf? {u : CodeUnit} {radix : Radix} (h : radixOf? u = some radix)
    (separators : Bool) : u.isDecimalDigit = false ∧ inRun .decimal separators u = false ∧
      isExponentMark u = false ∧ continues u = true := by
  rw [radixOf?_eq_some_iff] at h
  cases radix <;> simp only [radixLetters, List.mem_cons, List.not_mem_nil, or_false] at h <;>
    rcases h with rfl | rfl <;> cases separators <;> decide

/-- A digit is the letter of no radix. -/
theorem radixOf?_of_isDecimalDigit {u : CodeUnit} (hu : u.isDecimalDigit = true) :
    radixOf? u = none := by
  rw [Option.eq_none_iff_forall_ne_some]
  intro radix hradix
  rw [(plain_of_radixOf? hradix true).1] at hu
  simp at hu

/-- The units that change what a zero before them is. -/
def afterZero (m : Mode) (u : CodeUnit) : Bool :=
  (radixOf? u).isSome || u.isDecimalDigit || (m.next && u == CodeUnit.underscore)

section Form
variable {m : Mode} {u : CodeUnit} {text : List CodeUnit}

theorem form_radix {radix : Radix} (h : u ∈ radixLetters radix) :
    form m (CodeUnit.zero :: u :: text) = prefixed m radix (CodeUnit.zero :: u :: text) := by
  rw [form, if_pos rfl, radixOf?_eq_some_iff.mpr h]

theorem form_leadingZero (h : u.isDecimalDigit = true) :
    form m (CodeUnit.zero :: u :: text) = leadingZero m (CodeUnit.zero :: u :: text) := by
  rw [form, if_pos rfl, radixOf?_of_isDecimalDigit h]
  exact if_pos h

theorem form_decimal (h : u = CodeUnit.zero → text.head?.any (afterZero m) = false) :
    form m (u :: text) = decimal m (u :: text) := by
  cases text with
  | nil => rfl
  | cons v text =>
    rw [form]
    split
    · next hu =>
      have hv : afterZero m v = false := by simpa using h hu
      simp only [afterZero, Bool.or_eq_false_iff, Option.isSome_eq_false_iff,
        Option.isNone_iff_eq_none] at hv
      rw [hv.1.1]
      dsimp only
      rw [if_neg (by simp [hv.1.2]), if_neg (by simp [hv.2])]
    · rfl

/-- A separator after a zero is an error. -/
theorem not_takes_form {w rest : List CodeUnit} {f : Form} (hnext : m.next = true)
    (htext : w ++ rest = CodeUnit.zero :: CodeUnit.underscore :: text) :
    ¬(form m).Takes w rest f := by
  rintro ⟨flags, h⟩
  rw [htext, form, if_pos rfl, show radixOf? CodeUnit.underscore = none from rfl] at h
  dsimp only at h
  rw [if_neg (by decide), if_pos (by simp [hnext])] at h
  simp at h

end Form

/-! ## Integer parts -/

theorem inRun_of_isDecimalDigit {u : CodeUnit} (h : u.isDecimalDigit = true) (separators : Bool) :
    inRun .decimal separators u = true := by
  rw [inRun, isDigit_of_isDecimalDigit h, Bool.true_or]

theorem isDecimalDigit_of_isExponentMark {u : CodeUnit} (h : isExponentMark u = true) :
    u.isDecimalDigit = false := by
  rw [← Bool.not_eq_true]
  intro hdigit
  have hrun := (plain_of_isExponentMark h true).2
  rw [inRun_of_isDecimalDigit hdigit] at hrun
  simp at hrun

theorem Integer.digitRun {m : Mode} {w : List CodeUnit} (h : Integer m w) :
    DigitRun .decimal m.next w := by
  cases h with
  | zero => exact .single rfl
  | run _ hw => exact hw

/-- An integer part is made of digits and separators. -/
theorem IntegerPart.inRun {m : Mode} {w : List CodeUnit} (h : IntegerPart m w) :
    ∀ u ∈ w, inRun .decimal m.next u = true := by
  cases h with
  | integer hw => exact hw.digitRun.inRun
  | leadingZero _ hds _ =>
    rw [List.forall_mem_cons]
    exact ⟨rfl, fun u hu => inRun_of_isDecimalDigit (hds u hu) _⟩

theorem not_integerPart {m : Mode} {u : CodeUnit} {w : List CodeUnit} (hmem : u ∈ w)
    (hu : inRun .decimal m.next u = false) : ¬IntegerPart m w := by
  intro h
  rw [h.inRun u hmem] at hu
  simp at hu

namespace Tail

variable {m : Mode} {w rest : List CodeUnit}

/-- What follows an integer part begins with a point or with the letter of an exponent. -/
theorem eq_nil_or_cons (h : Tail m w) :
    w = [] ∨ ∃ u w', w = u :: w' ∧ (u = CodeUnit.period ∨ isExponentMark u = true) := by
  obtain ⟨fraction, exponent, rfl, hfraction, hexponent⟩ := h
  cases hfraction with
  | absent =>
    rcases hexponent.eq_nil_or_cons with rfl | ⟨mark, ds, rfl, hmark⟩
    · exact .inl rfl
    · exact .inr ⟨mark, ds, rfl, .inr hmark⟩
  | point => exact .inr ⟨_, _, rfl, .inl rfl⟩
  | digits _ => exact .inr ⟨_, _, rfl, .inl rfl⟩

/-- What cannot follow an integer part does not. -/
theorem any_head? {p : CodeUnit → Bool} (h : Tail m w) (hrest : goesOn rest = false)
    (hp : ∀ u, p u = true → continues u = true)
    (hmark : ∀ u, isExponentMark u = true → p u = false) : (w ++ rest).head?.any p = false := by
  rcases h.eq_nil_or_cons with rfl | ⟨u, w', rfl, rfl | hu⟩
  · exact any_head?_of_not_goesOn hp hrest
  · rw [List.cons_append, List.head?_cons, Option.any_some, ← Bool.not_eq_true]
    intro h
    exact absurd (hp _ h) (by decide)
  · exact hmark u hu

theorem any_head?_inRun (h : Tail m w) (hrest : goesOn rest = false) (separators : Bool) :
    (w ++ rest).head?.any (inRun .decimal separators) = false :=
  h.any_head? hrest (fun _ => continues_of_inRun) fun _ hu =>
    (plain_of_isExponentMark hu separators).2

theorem hasSuffix_eq_false (h : Tail m w) (hrest : goesOn rest = false) :
    hasSuffix m (w ++ rest) = false := by
  have hhead : (w ++ rest).head?.any (· == suffix) = false := by
    apply h.any_head? hrest
    · intro u hu
      rw [beq_iff_eq.mp hu]
      rfl
    · intro u hu
      rw [← Bool.not_eq_true, beq_iff_eq]
      rintro rfl
      exact absurd hu (by decide)
  rw [← Bool.not_eq_true]
  intro hs
  rw [head?_of_hasSuffix hs] at hhead
  simp at hhead

/-- A point right behind a number belongs to it only if that is an integer part so far. -/
theorem not_integerPart_append (int : List CodeUnit) (h : Tail m w)
    (hpoint : w = [] → rest.head? ≠ some CodeUnit.period)
    (hrest : rest.head? = some CodeUnit.period) : ¬IntegerPart m (int ++ w) := by
  rcases h.eq_nil_or_cons with rfl | ⟨u, w', rfl, hu⟩
  · exact absurd hrest (hpoint rfl)
  · apply not_integerPart (List.mem_append_right _ List.mem_cons_self)
    rcases hu with rfl | hu
    · cases m.next <;> rfl
    · exact (plain_of_isExponentMark hu m.next).2

end Tail

/-! ## Literals -/

section Literals
variable {m : Mode} {f : Form} {w rest : List CodeUnit}

/-- A run that is taken where no other routine was chosen is an integer. -/
theorem integer_of_digitRun {run : List CodeUnit} (hrun : DigitRun .decimal m.next run)
    (hzero : ∀ text, run ++ rest = CodeUnit.zero :: text →
      text.head?.any (afterZero m) = false) : Integer m run := by
  obtain ⟨u, more, rfl, hu⟩ := hrun.exists_cons
  by_cases hu : u = CodeUnit.zero
  · subst hu
    cases more with
    | nil => exact .zero
    | cons v more =>
      -- a unit of the run would have changed what the zero is
      have hv := hrun.inRun v (by simp)
      have hafter : afterZero m v = false := by simpa using hzero _ rfl
      rw [afterZero, Bool.or_eq_false_iff, Bool.or_eq_false_iff] at hafter
      rw [inRun, hafter.2, Bool.or_false] at hv
      rw [isDecimalDigit_of_isDigit hv] at hafter
      simp at hafter
  · exact .run hu hrun

/-- A number begins with a digit, or with a point and a digit. -/
theorem beginsNumber_cases {text : List CodeUnit} (h : Lexeme.beginsNumber text = true) :
    text.head?.any CodeUnit.isDecimalDigit = true ∨
      ∃ d text', text = CodeUnit.period :: d :: text' ∧ d.isDecimalDigit = true := by
  rw [Lexeme.beginsNumber, Bool.or_eq_true, Bool.and_eq_true, beq_iff_eq] at h
  rcases h with h | ⟨hhead, hdigit⟩
  · exact .inl h
  · obtain ⟨text, rfl⟩ := List.head?_eq_some_iff.mp hhead
    obtain ⟨d, text', rfl, hd⟩ := exists_cons_of_any_head? hdigit
    exact .inr ⟨d, text', rfl, hd⟩

/-- A decimal literal without an integer part begins with a point and a digit. -/
theorem literal_of_tail {d : CodeUnit} {text : List CodeUnit}
    (htext : w ++ rest = CodeUnit.period :: d :: text) (hd : d.isDecimalDigit = true)
    (hrest : goesOn rest = false) (hpoint : w = [] → rest.head? ≠ some CodeUnit.period)
    (h : Tail m w) : Literal m .decimal w := by
  have hmark {mark : CodeUnit} (hmark : isExponentMark mark = true) : mark ≠ d := by
    rintro rfl
    rw [isDecimalDigit_of_isExponentMark hmark] at hd
    simp at hd
  obtain ⟨fraction, exponent, rfl, hfraction, hexponent⟩ := h
  cases hfraction with
  | digits hds => exact .point hds hexponent
  | absent =>
    rcases hexponent.eq_nil_or_cons with rfl | ⟨mark, ds, rfl, hm⟩
    · obtain rfl : rest = CodeUnit.period :: d :: text := htext
      exact absurd rfl (hpoint rfl)
    · obtain ⟨rfl, -⟩ := List.cons.inj htext
      exact absurd hm (by decide)
  | point =>
    rcases hexponent.eq_nil_or_cons with rfl | ⟨mark, ds, rfl, hm⟩
    · obtain rfl : rest = d :: text := (List.cons.inj htext).2
      rw [goesOn_cons (continues_of_isDecimalDigit hd)] at hrest
      simp at hrest
    · exact absurd (List.cons.inj (List.cons.inj htext).2).1 (hmark hm)

/-- **Decimal literals, as written.** -/
theorem literal_of_takes_decimal (hbegins : Lexeme.beginsNumber (w ++ rest) = true)
    (hzero : ∀ text, w ++ rest = CodeUnit.zero :: text → text.head?.any (afterZero m) = false)
    (h : (decimal m).Takes w rest f) :
    Literal m f w ∧ goesOn rest = false ∧
      (rest.head? = some CodeUnit.period → ¬IntegerPart m w) := by
  obtain ⟨hrest, run, w', rfl, hrun, hhead, hend⟩ := takes_decimal_iff.mp h
  rcases hrun with rfl | hrun
  · rw [List.nil_append] at hbegins ⊢
    rcases beginsNumber_cases hbegins with hdigit | ⟨d, text, htext, hd⟩
    · obtain ⟨u, text, htext, hu⟩ := exists_cons_of_any_head? hdigit
      simp [htext, inRun_of_isDecimalDigit hu] at hhead
    · rcases hend with ⟨-, rfl, -⟩ | ⟨-, rfl, hpoint, htail⟩
      · exact absurd (List.cons.inj htext).1 (by decide)
      · exact ⟨literal_of_tail htext hd hrest hpoint htail, hrest,
          htail.not_integerPart_append [] hpoint⟩
  · rw [List.append_assoc] at hzero
    have hint := integer_of_digitRun hrun hzero
    rcases hend with ⟨hnext, rfl, rfl⟩ | ⟨-, rfl, hpoint, htail⟩
    · exact ⟨.bigInt hnext hint, hrest, fun _ =>
        not_integerPart (List.mem_append_right _ List.mem_cons_self) (inRun_suffix _ _)⟩
    · refine ⟨?_, hrest, htail.not_integerPart_append _ hpoint⟩
      obtain ⟨fraction, exponent, rfl, hfraction, hexponent⟩ := htail
      exact .decimal (.integer hint) hfraction hexponent

/-- **Literals with a leading zero, as written.** -/
theorem literal_of_takes_leadingZero {v : CodeUnit} {text : List CodeUnit}
    (htext : w ++ rest = CodeUnit.zero :: v :: text) (hv : v.isDecimalDigit = true)
    (h : (leadingZero m).Takes w rest f) :
    Literal m f w ∧ goesOn rest = false ∧
      (rest.head? = some CodeUnit.period → ¬IntegerPart m w) := by
  obtain ⟨hstrict, hrest, ds, w', rfl, hds, hhead, hend⟩ := takes_leadingZero_iff.mp h
  rw [List.append_assoc] at htext
  -- both digits belong to the run, which goes on as long as digits do
  obtain ⟨ds, rfl⟩ : ∃ ds', ds = CodeUnit.zero :: v :: ds' := by
    match ds with
    | [] =>
      rw [show w' ++ rest = _ from htext] at hhead
      have hfalse : true = false := hhead
      exact absurd hfalse (by decide)
    | [u] =>
      rw [show w' ++ rest = _ from (List.cons.inj htext).2] at hhead
      simp [hv] at hhead
    | u :: u' :: ds =>
      obtain ⟨rfl, htail⟩ := List.cons.inj htext
      obtain ⟨rfl, -⟩ := List.cons.inj htail
      exact ⟨ds, rfl⟩
  rw [List.forall_mem_cons] at hds
  rcases hend with ⟨hoctal, rfl, rfl⟩ | ⟨hoctal, rfl, hpoint, htail⟩
  · rw [List.append_nil]
    rw [List.all_cons, Bool.and_eq_true, List.all_eq_true] at hoctal
    refine ⟨.legacyOctal hstrict (List.cons_ne_nil _ _) hoctal.2, hrest, fun _ hpart => ?_⟩
    cases hpart with
    | integer hint =>
      cases hint with
      | run hne _ => exact hne rfl
    | leadingZero _ _ hnot =>
      obtain ⟨u, hu, hnot⟩ := hnot
      rw [hoctal.2 u hu] at hnot
      simp at hnot
  · refine ⟨?_, hrest, htail.not_integerPart_append _ hpoint⟩
    have hnot : ∃ u ∈ v :: ds, u.isOctalDigit = false := by
      rw [List.all_cons, show CodeUnit.zero.isOctalDigit = true from rfl, Bool.true_and,
        List.all_eq_false] at hoctal
      simpa using hoctal
    obtain ⟨fraction, exponent, rfl, hfraction, hexponent⟩ := htail
    exact .decimal (.leadingZero hstrict hds.2 hnot) hfraction hexponent

/-- **What is taken is a literal.** -/
theorem literal_of_takes_form (hbegins : Lexeme.beginsNumber (w ++ rest) = true)
    (h : (form m).Takes w rest f) :
    Literal m f w ∧ goesOn rest = false ∧
      (rest.head? = some CodeUnit.period → ¬IntegerPart m w) := by
  cases htext : w ++ rest with
  | nil => simp [htext, Lexeme.beginsNumber] at hbegins
  | cons u text =>
    by_cases hdecimal : u = CodeUnit.zero → text.head?.any (afterZero m) = false
    · have heq : form m (w ++ rest) = decimal m (w ++ rest) := by
        rw [htext]
        exact form_decimal hdecimal
      refine literal_of_takes_decimal hbegins ?_ ((Reader.takes_congr heq).mp h)
      rw [htext]
      rintro _ htext
      obtain ⟨rfl, rfl⟩ := List.cons.inj htext
      exact hdecimal rfl
    · rw [Classical.not_imp, Bool.not_eq_false] at hdecimal
      obtain ⟨rfl, hafter⟩ := hdecimal
      obtain ⟨v, text, rfl, hv⟩ := exists_cons_of_any_head? hafter
      rw [afterZero, Bool.or_eq_true, Bool.or_eq_true, Bool.and_eq_true, beq_iff_eq,
        Option.isSome_iff_exists] at hv
      rcases hv with (⟨radix, hradix⟩ | hdigit) | ⟨hnext, rfl⟩
      · have heq : form m (w ++ rest) = prefixed m radix (w ++ rest) := by
          rw [htext]
          exact form_radix (radixOf?_eq_some_iff.mp hradix)
        obtain ⟨hrest, ds, hds, hend⟩ :=
          (takes_prefixed_iff htext).mp ((Reader.takes_congr heq).mp h)
        have hplain := (plain_of_radixOf? hradix m.next).2.1
        have hletter := radixOf?_eq_some_iff.mp hradix
        rcases hend with ⟨rfl, rfl⟩ | ⟨hnext, rfl, rfl⟩
        · exact ⟨.radix hletter hds, hrest, fun _ => not_integerPart (by simp) hplain⟩
        · exact ⟨.radixBigInt hnext hletter hds, hrest,
            fun _ => not_integerPart (by simp) hplain⟩
      · have heq : form m (w ++ rest) = leadingZero m (w ++ rest) := by
          rw [htext]
          exact form_leadingZero hdigit
        exact literal_of_takes_leadingZero htext hdigit ((Reader.takes_congr heq).mp h)
      · exact absurd h (not_takes_form hnext htext)

/-- Decimal literals are taken, after a run or without one. -/
theorem takes_decimal_of_tail {run : List CodeUnit}
    (hrun : run = [] ∨ DigitRun .decimal m.next run) (htail : Tail m w)
    (hrest : goesOn rest = false) (hpoint : w = [] → rest.head? ≠ some CodeUnit.period) :
    (decimal m).Takes (run ++ w) rest .decimal :=
  takes_decimal_iff.mpr ⟨hrest, run, w, rfl, hrun, htail.any_head?_inRun hrest _,
    .inr ⟨htail.hasSuffix_eq_false hrest, rfl, hpoint, htail⟩⟩

/-- Nothing that follows a lone zero in a decimal literal changes what the zero is. -/
theorem Tail.any_head?_afterZero (h : Tail m w) (hrest : goesOn rest = false) :
    (w ++ rest).head?.any (afterZero m) = false := by
  apply h.any_head? hrest
  · intro u hu
    rw [afterZero, Bool.or_eq_true, Bool.or_eq_true, Bool.and_eq_true, beq_iff_eq,
      Option.isSome_iff_exists] at hu
    rcases hu with (⟨radix, hradix⟩ | hdigit) | ⟨-, rfl⟩
    · exact (plain_of_radixOf? hradix true).2.2.2
    · exact continues_of_isDecimalDigit hdigit
    · rfl
  · intro u hu
    rw [isExponentMark, Bool.or_eq_true, beq_iff_eq, beq_iff_eq] at hu
    rw [afterZero]
    rcases hu with rfl | rfl <;> cases m.next <;> rfl

/-- The routine for decimal literals is chosen where a decimal integer stands. -/
theorem form_of_integer {int : List CodeUnit} (hint : Integer m int)
    (hafter : rest.head?.any (afterZero m) = false) :
    form m (int ++ rest) = decimal m (int ++ rest) := by
  cases hint with
  | zero => exact form_decimal fun _ => hafter
  | run hu _ => exact form_decimal fun h => absurd h hu

/-- **What is a literal is taken.** -/
theorem takes_form_of_literal (h : Literal m f w) (hrest : goesOn rest = false)
    (hpoint : rest.head? = some CodeUnit.period → ¬IntegerPart m w) :
    (form m).Takes w rest f := by
  cases h with
  | @radix radix letter ds hletter hds =>
    apply (Reader.takes_congr (form_radix hletter)).mpr
    exact (takes_prefixed_iff rfl).mpr ⟨hrest, ds, hds, .inl ⟨rfl, rfl⟩⟩
  | @radixBigInt radix letter ds hnext hletter hds =>
    apply (Reader.takes_congr (form_radix hletter)).mpr
    exact (takes_prefixed_iff rfl).mpr ⟨hrest, ds, hds, .inr ⟨hnext, rfl, rfl⟩⟩
  | @legacyOctal ds hstrict hne hds =>
    obtain ⟨v, ds, rfl⟩ := List.exists_cons_of_ne_nil hne
    have hdigits : ∀ u ∈ CodeUnit.zero :: v :: ds, u.isOctalDigit = true :=
      List.forall_mem_cons.mpr ⟨rfl, hds⟩
    have hv := CodeUnit.isDecimalDigit_of_isOctalDigit (hds v List.mem_cons_self)
    apply (Reader.takes_congr (form_leadingZero hv)).mpr
    refine takes_leadingZero_iff.mpr ⟨hstrict, hrest, _, [], (List.append_nil _).symm, ?_, ?_,
      .inl ⟨List.all_eq_true.mpr hdigits, rfl, rfl⟩⟩
    · intro u hu
      exact CodeUnit.isDecimalDigit_of_isOctalDigit (hdigits u hu)
    · exact any_head?_of_not_goesOn (fun _ => continues_of_isDecimalDigit) hrest
  | @decimal int fraction exponent hint hfraction hexponent =>
    have htail : Tail m (fraction ++ exponent) := ⟨fraction, exponent, rfl, hfraction, hexponent⟩
    have hpoint' : fraction ++ exponent = [] → rest.head? ≠ some CodeUnit.period := by
      intro hnil hperiod
      rw [hnil, List.append_nil] at hpoint
      exact hpoint hperiod hint
    cases hint with
    | integer hint =>
      have heq := form_of_integer hint (htail.any_head?_afterZero hrest)
      rw [← List.append_assoc] at heq
      apply (Reader.takes_congr heq).mpr
      exact takes_decimal_of_tail (.inr hint.digitRun) htail hrest hpoint'
    | @leadingZero ds hstrict hds hoctal =>
      obtain ⟨u, hu, hnot⟩ := hoctal
      obtain ⟨v, ds, rfl⟩ := List.exists_cons_of_ne_nil (List.ne_nil_of_mem hu)
      apply (Reader.takes_congr (form_leadingZero (hds v List.mem_cons_self))).mpr
      refine takes_leadingZero_iff.mpr ⟨hstrict, hrest, _, _, rfl, ?_, ?_,
        .inr ⟨?_, rfl, hpoint', htail⟩⟩
      · exact List.forall_mem_cons.mpr ⟨rfl, hds⟩
      · exact htail.any_head? hrest (fun _ => continues_of_isDecimalDigit) fun _ =>
          isDecimalDigit_of_isExponentMark
      · exact List.all_eq_false.mpr ⟨u, List.mem_cons_of_mem _ hu, by simp [hnot]⟩
  | @point ds exponent hds hexponent =>
    have heq : form m (CodeUnit.period :: (ds ++ exponent) ++ rest) = decimal m _ :=
      form_decimal fun h => absurd h (by decide)
    apply (Reader.takes_congr heq).mpr
    have htail : Tail m (CodeUnit.period :: (ds ++ exponent)) :=
      ⟨CodeUnit.period :: ds, exponent, rfl, .digits hds, hexponent⟩
    exact takes_decimal_of_tail (.inl rfl) htail hrest (by simp)
  | @bigInt int hnext hint =>
    have hafter : ([suffix] ++ rest).head?.any (afterZero m) = false := by
      rw [List.singleton_append, List.head?_cons, Option.any_some, afterZero]
      cases m.next <;> rfl
    have heq := form_of_integer hint hafter
    rw [← List.append_assoc] at heq
    apply (Reader.takes_congr heq).mpr
    exact takes_decimal_iff.mpr ⟨hrest, int, [suffix], rfl, .inr hint.digitRun,
      inRun_suffix _ _, .inl ⟨hnext, rfl, rfl⟩⟩

end Literals

end EcmaLex.Numeric
