import EcmaLex.Proofs.CleanStops
import EcmaLex.Proofs.Readings

/-!
# The grammar of numeric literals

`Numeric.form` reads a number and decides on the way which routine goes on. This module says what
numbers *are*, part by part: runs of digits with single separators between them, fractions,
exponents, integer parts, and `Literal m f w`: the text `w` is a literal of the form `f`.

The reader of a part takes exactly what the grammar of the part has, in front of a text that ends
it. For runs of digits that is a text without a further digit, and for whole numbers one where they
do not go on: `goesOn` says that a digit or a name follows.

* `takes_digits_iff`: runs of digits. The readers look for a misplaced separator in the longest run,
  which the grammar does not mention.
* `takes_fraction_iff` and `takes_exponent_iff`: what may follow an integer part.
* `takes_checkEnd_iff`: ends of numbers.
-/

namespace EcmaLex.Numeric

/-! ## Spellings -/

/-- Digits, one at least. Where separators exist, a single one may stand between two digits. -/
inductive DigitRun (radix : Radix) (separators : Bool) : List CodeUnit → Prop
  | single {u : CodeUnit} (hu : radix.isDigit u = true) : DigitRun radix separators [u]
  | cons {u : CodeUnit} {w : List CodeUnit} (hu : radix.isDigit u = true)
      (hw : DigitRun radix separators w) : DigitRun radix separators (u :: w)
  | separated {u : CodeUnit} {w : List CodeUnit} (hseparators : separators = true)
      (hu : radix.isDigit u = true) (hw : DigitRun radix separators w) :
      DigitRun radix separators (u :: CodeUnit.underscore :: w)

/-- An optional fraction: a point, and digits if there are any. -/
inductive Fraction (m : Mode) : List CodeUnit → Prop
  | absent : Fraction m []
  | point : Fraction m [CodeUnit.period]
  | digits {w : List CodeUnit} (hw : DigitRun .decimal m.next w) :
      Fraction m (CodeUnit.period :: w)

/-- An optional exponent: its letter, a sign if there is one, and digits. -/
inductive Exponent (m : Mode) : List CodeUnit → Prop
  | absent : Exponent m []
  | unsigned {mark : CodeUnit} {w : List CodeUnit} (hmark : isExponentMark mark = true)
      (hw : DigitRun .decimal m.next w) : Exponent m (mark :: w)
  | signed {mark sign : CodeUnit} {w : List CodeUnit} (hmark : isExponentMark mark = true)
      (hsign : isSign sign = true) (hw : DigitRun .decimal m.next w) :
      Exponent m (mark :: sign :: w)

/-- A decimal integer: zero, or digits of which the first is none. -/
inductive Integer (m : Mode) : List CodeUnit → Prop
  | zero : Integer m [CodeUnit.zero]
  | run {u : CodeUnit} {w : List CodeUnit} (hu : u ≠ CodeUnit.zero)
      (hw : DigitRun .decimal m.next (u :: w)) : Integer m (u :: w)

/-- What a fraction or an exponent may follow: a decimal integer or, outside strict code, a zero
and more digits that are not all octal. -/
inductive IntegerPart (m : Mode) : List CodeUnit → Prop
  | integer {w : List CodeUnit} (hw : Integer m w) : IntegerPart m w
  | leadingZero {ds : List CodeUnit} (hstrict : m.strict = false)
      (hds : ∀ u ∈ ds, u.isDecimalDigit = true) (hoctal : ∃ u ∈ ds, u.isOctalDigit = false) :
      IntegerPart m (CodeUnit.zero :: ds)

/-- The letters that announce a radix. -/
def radixLetters : Radix → List CodeUnit
  | .hexadecimal => [CodeUnit.ofChar 'x', CodeUnit.ofChar 'X']
  | .octal => [CodeUnit.ofChar 'o', CodeUnit.ofChar 'O']
  | .binary => [CodeUnit.ofChar 'b', CodeUnit.ofChar 'B']
  | .decimal => []

/-- The suffix of BigInt literals. -/
abbrev suffix : CodeUnit := CodeUnit.ofChar 'n'

/-- The text is a numeric literal of the form. -/
inductive Literal (m : Mode) : Form → List CodeUnit → Prop
  | radix {radix : Radix} {letter : CodeUnit} {ds : List CodeUnit}
      (hletter : letter ∈ radixLetters radix) (hds : DigitRun radix m.next ds) :
      Literal m (.integer radix (dropSeparators ds)) (CodeUnit.zero :: letter :: ds)
  | radixBigInt {radix : Radix} {letter : CodeUnit} {ds : List CodeUnit} (hnext : m.next = true)
      (hletter : letter ∈ radixLetters radix) (hds : DigitRun radix m.next ds) :
      Literal m (.bigInt (radix.valueOf (dropSeparators ds)))
        (CodeUnit.zero :: letter :: (ds ++ [suffix]))
  | legacyOctal {ds : List CodeUnit} (hstrict : m.strict = false) (hne : ds ≠ [])
      (hds : ∀ u ∈ ds, u.isOctalDigit = true) :
      Literal m (.integer .octal (CodeUnit.zero :: ds)) (CodeUnit.zero :: ds)
  | decimal {int fraction exponent : List CodeUnit} (hint : IntegerPart m int)
      (hfraction : Fraction m fraction) (hexponent : Exponent m exponent) :
      Literal m .decimal (int ++ (fraction ++ exponent))
  | point {ds exponent : List CodeUnit} (hds : DigitRun .decimal m.next ds)
      (hexponent : Exponent m exponent) :
      Literal m .decimal (CodeUnit.period :: (ds ++ exponent))
  | bigInt {int : List CodeUnit} (hnext : m.next = true) (hint : Integer m int) :
      Literal m (.bigInt (Radix.decimal.valueOf (dropSeparators int))) (int ++ [suffix])

/-- A number before the text would go on: a decimal digit follows, or what begins a name. -/
def goesOn (text : List CodeUnit) : Bool :=
  text.head?.any CodeUnit.isDecimalDigit || Lexeme.beginsName text

/-! ## Where a number goes on -/

/-- The units that a number goes on at, whatever follows: digits, letters and the underscore. -/
def continues (u : CodeUnit) : Bool :=
  u.isDecimalDigit || CodePoint.isAsciiIdentifierStart u.toNat

theorem continues_iff {u : CodeUnit} :
    continues u = true ↔ (0x30 ≤ u.toNat ∧ u.toNat ≤ 0x39) ∨ (0x61 ≤ u.toNat ∧ u.toNat ≤ 0x7A) ∨
      (0x41 ≤ u.toNat ∧ u.toNat ≤ 0x5A) ∨ u.toNat = 0x24 ∨ u.toNat = 0x5F := by
  simp [continues, CodeUnit.isDecimalDigit, CodePoint.isAsciiIdentifierStart,
    UInt16.le_iff_toNat_le, or_assoc]

theorem isLead_eq_false {u : CodeUnit} (hu : u.toNat < 0x80) : u.isLead = false := by
  simp only [CodeUnit.isLead, Bool.and_eq_false_iff, decide_eq_false_iff_not,
    UInt16.le_iff_toNat_le, UInt16.reduceToNat]
  omega

theorem lt_of_continues {u : CodeUnit} (hu : continues u = true) : u.toNat < 0x80 := by
  rw [continues_iff] at hu
  omega

theorem goesOn_cons {u : CodeUnit} (hu : continues u = true) (rest : List CodeUnit) :
    goesOn (u :: rest) = true := by
  have hlt := lt_of_continues hu
  rw [continues, Bool.or_eq_true] at hu
  rw [goesOn, Bool.or_eq_true]
  rcases hu with hdigit | hstart
  · left
    simpa using hdigit
  · right
    rw [Lexeme.beginsName, Utf16.head?_cons_of_not_isLead (isLead_eq_false hlt)]
    have hstart' : CodePoint.isIdentifierStart u.toNat = true := by
      rw [CodePoint.isIdentifierStart, CodePoint.isStartBy, if_pos hlt]
      exact hstart
    simp [hstart']

/-- What a number goes on at does not stand where it does not go on. -/
theorem any_head?_of_not_goesOn {p : CodeUnit → Bool} {rest : List CodeUnit}
    (hp : ∀ u, p u = true → continues u = true) (h : goesOn rest = false) :
    rest.head?.any p = false := by
  cases rest with
  | nil => rfl
  | cons u rest =>
    rw [← Bool.not_eq_true] at h ⊢
    intro hu
    exact h (goesOn_cons (hp u (by simpa using hu)) rest)

theorem continues_of_isDigit {radix : Radix} {u : CodeUnit} (hu : radix.isDigit u = true) :
    continues u = true := by
  rw [continues_iff]
  obtain ⟨d, hd⟩ := Option.isSome_iff_exists.mp hu
  have hd := (Option.filter_eq_some_iff.mp hd).1
  unfold CodeUnit.hexDigit? at hd
  simp only [Bool.and_eq_true, decide_eq_true_eq, UInt16.le_iff_toNat_le,
    UInt16.reduceToNat] at hd
  split at hd
  · omega
  split at hd
  · omega
  split at hd
  · omega
  · simp at hd

theorem isDecimalDigit_of_isDigit {u : CodeUnit} (hu : Radix.decimal.isDigit u = true) :
    u.isDecimalDigit = true := by
  obtain ⟨d, hd⟩ := Option.isSome_iff_exists.mp hu
  obtain ⟨hd, hlt⟩ := Option.filter_eq_some_iff.mp hd
  have hlt : d < 10 := of_decide_eq_true hlt
  unfold CodeUnit.hexDigit? at hd
  split at hd
  · next hu => exact hu
  split at hd
  · obtain rfl := Option.some.inj hd
    omega
  split at hd
  · obtain rfl := Option.some.inj hd
    omega
  · simp at hd

theorem continues_of_inRun {radix : Radix} {separators : Bool} {u : CodeUnit}
    (hu : inRun radix separators u = true) : continues u = true := by
  rw [inRun, Bool.or_eq_true, Bool.and_eq_true, beq_iff_eq] at hu
  rcases hu with hdigit | ⟨-, rfl⟩
  · exact continues_of_isDigit hdigit
  · rfl

theorem inRun_head?_of_not_goesOn (radix : Radix) (separators : Bool) {rest : List CodeUnit}
    (h : goesOn rest = false) : rest.head?.any (inRun radix separators) = false :=
  any_head?_of_not_goesOn (fun _ => continues_of_inRun) h

theorem continues_of_isExponentMark {u : CodeUnit} (hu : isExponentMark u = true) :
    continues u = true := by
  rw [isExponentMark, Bool.or_eq_true, beq_iff_eq, beq_iff_eq] at hu
  rcases hu with rfl | rfl <;> rfl

theorem continues_of_isDecimalDigit {u : CodeUnit} (hu : u.isDecimalDigit = true) :
    continues u = true := by
  rw [continues, hu, Bool.true_or]

theorem inRun_suffix (radix : Radix) (separators : Bool) :
    inRun radix separators suffix = false := by
  cases radix <;> cases separators <;> rfl

theorem hasSuffix_of_not_goesOn {m : Mode} {rest : List CodeUnit} (h : goesOn rest = false) :
    hasSuffix m rest = false := by
  rw [← Bool.not_eq_true] at h ⊢
  intro hs
  obtain ⟨text, rfl⟩ := List.head?_eq_some_iff.mp (head?_of_hasSuffix hs)
  exact h (goesOn_cons rfl text)

/-! ## Digits -/

theorem ne_underscore_of_isDigit {radix : Radix} {u : CodeUnit} (hu : radix.isDigit u = true) :
    u ≠ CodeUnit.underscore := by
  rintro rfl
  cases radix <;> exact absurd hu (by decide)

namespace DigitRun

variable {radix : Radix} {separators : Bool} {w : List CodeUnit}

theorem inRun (h : DigitRun radix separators w) : ∀ u ∈ w, inRun radix separators u = true := by
  induction h with
  | single hu => simp [Numeric.inRun, hu]
  | cons hu _ ih => simpa [Numeric.inRun, hu] using ih
  | separated hs hu _ ih => simpa [Numeric.inRun, hu, hs] using ih

/-- A run begins with a digit. -/
theorem exists_cons (h : DigitRun radix separators w) :
    ∃ u rest, w = u :: rest ∧ radix.isDigit u = true := by
  cases h with
  | single hu => exact ⟨_, _, rfl, hu⟩
  | cons hu _ => exact ⟨_, _, rfl, hu⟩
  | separated _ hu _ => exact ⟨_, _, rfl, hu⟩

theorem doubled?_eq_none (h : DigitRun radix separators w) : doubled? w = none := by
  induction h with
  | single _ => rfl
  | @cons u w hu hw ih =>
    obtain ⟨v, rest, rfl, -⟩ := hw.exists_cons
    rw [doubled?, if_neg (fun h => ne_underscore_of_isDigit hu h.1), ih]
    rfl
  | @separated u w _ hu hw ih =>
    obtain ⟨v, rest, rfl, hv⟩ := hw.exists_cons
    rw [doubled?, if_neg (fun h => ne_underscore_of_isDigit hu h.1), doubled?,
      if_neg (fun h => ne_underscore_of_isDigit hv h.2), ih]
    rfl

/-- A run ends with a digit. -/
theorem getLast?_ne (h : DigitRun radix separators w) :
    w.getLast? ≠ some CodeUnit.underscore := by
  induction h with
  | single hu => simpa using ne_underscore_of_isDigit hu
  | cons _ hw ih =>
    obtain ⟨v, rest, rfl, -⟩ := hw.exists_cons
    simpa using ih
  | separated _ _ hw ih =>
    obtain ⟨v, rest, rfl, -⟩ := hw.exists_cons
    simpa using ih

/-- Without its separators a run still has a digit. -/
theorem dropSeparators_ne_nil (h : DigitRun radix separators w) : dropSeparators w ≠ [] := by
  obtain ⟨u, rest, rfl, hu⟩ := h.exists_cons
  simp [dropSeparators, ne_underscore_of_isDigit hu]

end DigitRun

theorem isDigit_of_inRun {radix : Radix} {separators : Bool} {u : CodeUnit}
    (h : inRun radix separators u = true) (hu : u ≠ CodeUnit.underscore) :
    radix.isDigit u = true := by
  simpa [inRun, hu] using h

theorem doubled?_cons_eq_none_iff {u v : CodeUnit} {w : List CodeUnit} :
    doubled? (u :: v :: w) = none ↔
      ¬(u = CodeUnit.underscore ∧ v = CodeUnit.underscore) ∧ doubled? (v :: w) = none := by
  rw [doubled?]
  split
  · next h => simp [h]
  · next h => simp only [Option.map_eq_none_iff, h, not_false_eq_true, true_and]

/-- A run with its separators between digits. The step is over a digit, or over a digit and the
separator after it. -/
theorem digitRun_of_doubled? {radix : Radix} {separators : Bool} :
    ∀ {u : CodeUnit} {w : List CodeUnit}, radix.isDigit u = true →
      (∀ v ∈ w, inRun radix separators v = true) → doubled? (u :: w) = none →
      (u :: w).getLast? ≠ some CodeUnit.underscore → DigitRun radix separators (u :: w)
  | _, [], hu, _, _, _ => .single hu
  | u, v :: w, hu, hall, hdoubled, hlast => by
    obtain ⟨hv, hw⟩ := List.forall_mem_cons.mp hall
    obtain ⟨-, hdoubled'⟩ := doubled?_cons_eq_none_iff.mp hdoubled
    by_cases hsep : v = CodeUnit.underscore
    · subst hsep
      have hseparators : separators = true := by
        have hnot : radix.isDigit CodeUnit.underscore = false := by cases radix <;> rfl
        simpa [inRun, hnot] using hv
      cases w with
      | nil => exact absurd rfl hlast
      | cons t w =>
        obtain ⟨hne, hdoubled''⟩ := doubled?_cons_eq_none_iff.mp hdoubled'
        obtain ⟨ht, hw'⟩ := List.forall_mem_cons.mp hw
        have htdigit := isDigit_of_inRun ht fun h => hne ⟨rfl, h⟩
        exact .separated hseparators hu
          (digitRun_of_doubled? htdigit hw' hdoubled'' (by simpa using hlast))
    · have hvdigit := isDigit_of_inRun hv hsep
      exact .cons hu (digitRun_of_doubled? hvdigit hw hdoubled' (by simpa using hlast))

/-- A run has no misplaced separator exactly if it is empty or made of digits with single
separators between them. -/
theorem separatorFault?_eq_none_iff {radix : Radix} {separators : Bool} {w : List CodeUnit}
    (hall : ∀ u ∈ w, inRun radix separators u = true) :
    separatorFault? w = none ↔ w = [] ∨ DigitRun radix separators w := by
  constructor
  · intro h
    cases w with
    | nil => exact .inl rfl
    | cons u w =>
      right
      unfold separatorFault? at h
      split at h
      · simp at h
      next hhead =>
      split at h
      · simp at h
      next hdoubled =>
      split at h
      · simp at h
      next hlast =>
      obtain ⟨hu, hw⟩ := List.forall_mem_cons.mp hall
      exact digitRun_of_doubled? (isDigit_of_inRun hu (by simpa using hhead)) hw hdoubled hlast
  · rintro (rfl | h)
    · rfl
    · obtain ⟨u, rest, heq, hu⟩ := h.exists_cons
      have hhead : w.head? ≠ some CodeUnit.underscore := by
        simpa [heq] using ne_underscore_of_isDigit hu
      rw [separatorFault?, if_neg hhead, h.doubled?_eq_none]
      exact if_neg h.getLast?_ne

/-- **Digits.** The longest run is taken, if its separators stand between digits. -/
theorem takes_digits_iff {radix : Radix} {separators : Bool} {w rest v : List CodeUnit} :
    (digits radix separators).Takes w rest v ↔
      (w = [] ∨ DigitRun radix separators w) ∧ v = dropSeparators w ∧
        rest.head?.any (inRun radix separators) = false := by
  constructor
  · rintro ⟨flags, h⟩
    unfold digits at h
    dsimp only at h
    split at h
    · simp at h
    next hfault =>
    obtain ⟨rfl, hlength, -⟩ := (Reading.mk.injEq ..).mp (Except.ok.inj h)
    have hrun := Text.takeWhile_append_eq_left hlength
    obtain ⟨hall, hrest⟩ := Text.takeWhile_append_eq_left_iff.mp hrun
    rw [hrun] at hfault ⊢
    exact ⟨(separatorFault?_eq_none_iff hall).mp hfault, rfl, hrest⟩
  · rintro ⟨hw, rfl, hrest⟩
    have hall : ∀ u ∈ w, inRun radix separators u = true := by
      rcases hw with rfl | hw
      · simp
      · exact hw.inRun
    have hrun := Text.takeWhile_append_eq_left_iff.mpr ⟨hall, hrest⟩
    refine ⟨{ numericSeparator := w.contains CodeUnit.underscore }, ?_⟩
    unfold digits
    dsimp only
    rw [hrun, (separatorFault?_eq_none_iff hall).mpr hw]

/-! ## Ends -/

/-- The first code point is the first unit, or both are far beyond ASCII. -/
theorem eq_toNat_or_of_head? {u : CodeUnit} {rest : List CodeUnit} {c n : Nat}
    (h : Utf16.head? (u :: rest) = some (c, n)) : c = u.toNat ∨ 0x80 ≤ c ∧ 0x80 ≤ u.toNat := by
  cases rest with
  | nil => exact .inl (Prod.mk.inj (Option.some.inj h)).1.symm
  | cons v rest =>
    rw [Utf16.head?] at h
    split at h
    · next hpair =>
      right
      obtain ⟨rfl, -⟩ := Prod.mk.inj (Option.some.inj h)
      simp only [CodeUnit.isLead, Bool.and_eq_true, decide_eq_true_eq, UInt16.le_iff_toNat_le,
        UInt16.reduceToNat] at hpair
      refine ⟨?_, by omega⟩
      show 0x80 ≤ 0x10000 + (u.toNat - 0xD800) * 0x400 + (v.toNat - 0xDC00)
      omega
    · exact .inl (Prod.mk.inj (Option.some.inj h)).1.symm

theorem checkEnd_eq (text : List CodeUnit) :
    checkEnd text =
      if goesOn text then .failHere .identifierAfterNumber else .ok ⟨(), 0, ∅⟩ := by
  cases text with
  | nil => rfl
  | cons u rest =>
    obtain ⟨c, n, hc⟩ : ∃ c n : Nat, Utf16.head? (u :: rest) = some (c, n) := by
      cases rest with
      | nil => exact ⟨_, _, rfl⟩
      | cons v rest => rw [Utf16.head?]; split <;> exact ⟨_, _, rfl⟩
    have hunit := eq_toNat_or_of_head? hc
    have hdigit : (decide (0x30 ≤ c) && decide (c ≤ 0x39)) = u.isDecimalDigit := by
      rw [Bool.eq_iff_iff]
      simp only [CodeUnit.isDecimalDigit, Bool.and_eq_true, decide_eq_true_eq,
        UInt16.le_iff_toNat_le, UInt16.reduceToNat]
      omega
    have hbackslash : (c == 0x5C) = (u == CodeUnit.backslash) := by
      rw [Bool.eq_iff_iff]
      have hnat : CodeUnit.backslash.toNat = 0x5C := rfl
      simp only [beq_iff_eq, ← UInt16.toNat_inj, hnat]
      omega
    unfold checkEnd
    rw [hc]
    dsimp only
    rw [hdigit, hbackslash]
    simp [goesOn, Lexeme.beginsName, hc, Bool.or_assoc]

/-- A number may end exactly where it does not go on. -/
theorem takes_checkEnd_iff {w rest : List CodeUnit} :
    checkEnd.Takes w rest () ↔ w = [] ∧ goesOn rest = false := by
  unfold Reader.Takes
  rw [checkEnd_eq]
  constructor
  · rintro ⟨flags, h⟩
    split at h
    · simp at h
    · next hend =>
      obtain ⟨-, hlength, -⟩ := (Reading.mk.injEq ..).mp (Except.ok.inj h)
      obtain rfl := List.length_eq_zero_iff.mp hlength.symm
      exact ⟨rfl, by simpa using hend⟩
  · rintro ⟨rfl, hend⟩
    exact ⟨∅, if_neg (by simp [hend])⟩

theorem takes_numberEnd_iff {m : Mode} {w rest : List CodeUnit} :
    (numberEnd m).Takes w rest () ↔ w = [] ∧ goesOn rest = false := by
  rw [← takes_checkEnd_iff]
  constructor
  · rintro ⟨flags, h⟩
    rw [numberEnd] at h
    split at h
    · simp at h
    · exact ⟨flags, h⟩
  · intro h
    obtain ⟨rfl, hend⟩ := takes_checkEnd_iff.mp h
    obtain ⟨flags, h⟩ := h
    refine ⟨flags, ?_⟩
    rw [numberEnd, List.nil_append, hasSuffix_of_not_goesOn hend, if_neg (by simp)]
    exact h

/-! ## Fractions and exponents -/

/-- **Fractions.** A point is taken wherever one stands, and all digits after it. -/
theorem takes_fraction_iff {m : Mode} {w rest : List CodeUnit} :
    (fraction m).Takes w rest () ↔
      Fraction m w ∧ (w = [] → rest.head? ≠ some CodeUnit.period) ∧
        (w ≠ [] → rest.head?.any (inRun .decimal m.next) = false) := by
  by_cases hhead : (w ++ rest).head? = some CodeUnit.period
  · obtain ⟨text, htext⟩ := List.head?_eq_some_iff.mp hhead
    have hr : fraction m ([CodeUnit.period] ++ text) =
        ((digits .decimal m.next text).shift [CodeUnit.period].length ∅).mapValue fun _ => () :=
      if_pos rfl
    rw [Reader.takes_iff_of_shift hr htext]
    simp only [takes_digits_iff]
    constructor
    · rintro ⟨ds, v, rfl, rfl, ⟨hds, rfl, hrest⟩, -⟩
      refine ⟨?_, by simp, fun _ => hrest⟩
      rcases hds with rfl | hds
      · exact .point
      · exact .digits hds
    · rintro ⟨hw, hpoint, hrest⟩
      cases hw with
      | absent => exact absurd hhead (hpoint rfl)
      | point =>
        obtain ⟨-, rfl⟩ := List.cons.inj htext
        exact ⟨[], _, rfl, rfl, ⟨.inl rfl, rfl, hrest (by simp)⟩, trivial⟩
      | digits hds =>
        obtain ⟨-, rfl⟩ := List.cons.inj htext
        exact ⟨_, _, rfl, rfl, ⟨.inr hds, rfl, hrest (by simp)⟩, trivial⟩
  · rw [Reader.takes_iff_of_done (if_neg hhead)]
    constructor
    · rintro ⟨rfl, -⟩
      exact ⟨.absent, fun _ => hhead, by simp⟩
    · rintro ⟨hw, -⟩
      cases hw with
      | absent => exact ⟨rfl, rfl⟩
      | point => exact absurd rfl hhead
      | digits _ => exact absurd rfl hhead

theorem takes_exponentDigits_iff {m : Mode} {w rest : List CodeUnit} :
    (exponentDigits m).Takes w rest () ↔
      DigitRun .decimal m.next w ∧ rest.head?.any (inRun .decimal m.next) = false := by
  rw [exponentDigits, Reader.takes_bind_iff]
  constructor
  · rintro ⟨w₁, w₂, run, rfl, hdigits, hend⟩
    obtain ⟨hrun, rfl, hrest⟩ := takes_digits_iff.mp hdigits
    rcases hrun with rfl | hrun
    · exact absurd hend Reader.not_takes_fail
    · rw [if_neg (by simpa using hrun.dropSeparators_ne_nil)] at hend
      obtain ⟨rfl, -⟩ := Reader.takes_pure_iff.mp hend
      rw [List.append_nil]
      exact ⟨hrun, hrest⟩
  · rintro ⟨hrun, hrest⟩
    refine ⟨w, [], _, (List.append_nil w).symm, takes_digits_iff.mpr ⟨.inr hrun, rfl, hrest⟩, ?_⟩
    rw [if_neg (by simpa using hrun.dropSeparators_ne_nil)]
    exact Reader.takes_pure_iff.mpr ⟨rfl, rfl⟩

/-- No digit is a sign. -/
theorem isSign_eq_false_of_isDigit {radix : Radix} {u : CodeUnit} (hu : radix.isDigit u = true) :
    isSign u = false := by
  rw [← Bool.not_eq_true]
  intro hsign
  rw [isSign, Bool.or_eq_true, beq_iff_eq, beq_iff_eq] at hsign
  rcases hsign with rfl | rfl <;> cases radix <;> exact absurd hu (by decide)

theorem exists_cons_of_any_head? {p : CodeUnit → Bool} {text : List CodeUnit}
    (h : text.head?.any p = true) : ∃ u rest, text = u :: rest ∧ p u = true := by
  cases text with
  | nil => simp at h
  | cons u rest => exact ⟨u, rest, rfl, by simpa using h⟩

section
variable {m : Mode} {mark sign : CodeUnit} {text : List CodeUnit}

theorem exponent_signed (hmark : isExponentMark mark = true) (hsign : isSign sign = true) :
    exponent m ([mark, sign] ++ text) =
      ((exponentDigits m text).shift [mark, sign].length ∅).mapValue id := by
  rw [Outcome.mapValue_id]
  show exponent m (mark :: sign :: text) = _
  simp [exponent, hmark, hsign]

theorem exponent_unsigned (hmark : isExponentMark mark = true)
    (hsign : text.head?.any isSign = false) :
    exponent m ([mark] ++ text) =
      ((exponentDigits m text).shift [mark].length ∅).mapValue id := by
  rw [Outcome.mapValue_id]
  show exponent m (mark :: text) = _
  simp [exponent, hmark, hsign]

theorem exponent_absent (h : text.head?.any isExponentMark = false) :
    exponent m text = .ok ⟨(), 0, ∅⟩ := by
  cases text with
  | nil => rfl
  | cons u text => rw [exponent, if_neg (by simpa using h)]

end

/-- The letter of an exponent is neither a point nor a digit. -/
theorem plain_of_isExponentMark {u : CodeUnit} (hu : isExponentMark u = true) (separators : Bool) :
    u ≠ CodeUnit.period ∧ inRun .decimal separators u = false := by
  rw [isExponentMark, Bool.or_eq_true, beq_iff_eq, beq_iff_eq] at hu
  rcases hu with rfl | rfl <;> cases separators <;> decide

/-- **Exponents.** The letter of one is taken wherever it stands, so digits have to follow. -/
theorem takes_exponent_iff {m : Mode} {w rest : List CodeUnit} :
    (exponent m).Takes w rest () ↔
      Exponent m w ∧ (w = [] → rest.head?.any isExponentMark = false) ∧
        (w ≠ [] → rest.head?.any (inRun .decimal m.next) = false) := by
  constructor
  · intro h
    cases hany : (w ++ rest).head?.any isExponentMark with
    | false =>
      obtain ⟨rfl, -⟩ := (Reader.takes_iff_of_done (exponent_absent hany)).mp h
      exact ⟨.absent, fun _ => hany, by simp⟩
    | true =>
      obtain ⟨mark, text, htext, hmark⟩ := exists_cons_of_any_head? hany
      cases hsign : text.head?.any isSign with
      | false =>
        obtain ⟨ds, _, rfl, rfl, hds, -⟩ :=
          (Reader.takes_iff_of_shift (exponent_unsigned hmark hsign) htext).mp h
        obtain ⟨hds, hrest⟩ := takes_exponentDigits_iff.mp hds
        exact ⟨.unsigned hmark hds, by simp, fun _ => hrest⟩
      | true =>
        obtain ⟨sign, text, rfl, hsign⟩ := exists_cons_of_any_head? hsign
        obtain ⟨ds, _, rfl, rfl, hds, -⟩ :=
          (Reader.takes_iff_of_shift (exponent_signed hmark hsign) htext).mp h
        obtain ⟨hds, hrest⟩ := takes_exponentDigits_iff.mp hds
        exact ⟨.signed hmark hsign hds, by simp, fun _ => hrest⟩
  · rintro ⟨hw, habsent, hrest⟩
    cases hw with
    | absent =>
      have hdone : exponent m ([] ++ rest) = _ := exponent_absent (habsent rfl)
      exact (Reader.takes_iff_of_done hdone).mpr ⟨rfl, rfl⟩
    | @unsigned mark ds hmark hds =>
      have hsign : (ds ++ rest).head?.any isSign = false := by
        obtain ⟨u, more, rfl, hu⟩ := hds.exists_cons
        simpa using isSign_eq_false_of_isDigit hu
      have htext : mark :: ds ++ rest = [mark] ++ (ds ++ rest) := rfl
      apply (Reader.takes_iff_of_shift (exponent_unsigned hmark hsign) htext).mpr
      exact ⟨ds, (), rfl, rfl, takes_exponentDigits_iff.mpr ⟨hds, hrest (by simp)⟩, rfl⟩
    | @signed mark sign ds hmark hsign hds =>
      have htext : mark :: sign :: ds ++ rest = [mark, sign] ++ (ds ++ rest) := rfl
      apply (Reader.takes_iff_of_shift (exponent_signed hmark hsign) htext).mpr
      exact ⟨ds, (), rfl, rfl, takes_exponentDigits_iff.mpr ⟨hds, hrest (by simp)⟩, rfl⟩

end EcmaLex.Numeric
