import EcmaLex.Proofs.CodePoints

/-!
# Sets hold what they were built from

A set packs a bit for each code point into words of thirty-two bits. Building one goes over more
than a million code points and sets a bit for each that belongs to it, and asking it looks one bit
up. This module says that nothing is lost on the way: no two code points share a bit, and what has
no bit is in no set. What the sets behind identifiers say of a value that is no character does not
depend on the tables they were built from.

The main result is `CodePointSet.contains_build_iff`.
-/

namespace EcmaLex

/-! ## Characters among the code points -/

namespace CodePoint

variable {c : CodePoint} {p : Char → Bool}

/-- The characters are the code points that are no surrogates. -/
theorem isSome_toChar?_iff {c : Nat} :
    (toChar? c).isSome = true ↔ c ≤ max ∧ ¬(0xD800 ≤ c ∧ c ≤ 0xDFFF) := by
  unfold toChar? max
  by_cases hvalid : c.isValidChar
  · rw [dif_pos hvalid]
    unfold Nat.isValidChar at hvalid
    exact iff_of_true rfl (by omega)
  · rw [dif_neg hvalid]
    unfold Nat.isValidChar at hvalid
    exact iff_of_false nofun (by omega)

theorem any_toChar?_iff : c.toChar?.any p = true ↔ ∃ ch, ch.toNat = c ∧ p ch = true := by
  rw [Option.any_eq_true]
  constructor
  · rintro ⟨ch, hch, hp⟩
    exact ⟨ch, toNat_of_toChar? hch, hp⟩
  · rintro ⟨ch, rfl, hp⟩
    have hvalid : ch.toNat.isValidChar := ch.valid
    refine ⟨ch, ?_, hp⟩
    rw [toChar?, dif_pos hvalid]
    rfl

/-- What is no code point, or a surrogate, is no character. -/
theorem toChar?_eq_none_of (h : max < c ∨ 0xD800 ≤ c ∧ c ≤ 0xDFFF) : c.toChar? = none := by
  rw [← Option.not_isSome_iff_eq_none, isSome_toChar?_iff, not_and_or, not_not, Nat.not_le]
  exact h

end CodePoint

namespace CodePointSet

variable {p : Char → Bool} {s : CodePointSet} {c : CodePoint}

theorem isOutsideAsciiWith_iff :
    isOutsideAsciiWith p c = true ↔ 0x80 ≤ c ∧ c ≤ CodePoint.max ∧ ¬(0xD800 ≤ c ∧ c ≤ 0xDFFF) ∧
      ∃ ch, ch.toNat = c ∧ p ch = true := by
  rw [isOutsideAsciiWith, Bool.and_eq_true, decide_eq_true_eq, ← CodePoint.any_toChar?_iff]
  refine and_congr_right fun _ => ?_
  rw [← and_assoc, ← CodePoint.isSome_toChar?_iff]
  -- a property can only hold of a character that is there
  cases c.toChar? <;> simp

/-! ## Main result -/

/-- **A set holds what it was built from** and nothing else: the code points it was given, and the
characters outside ASCII with its property. No value beyond the last code point is in a set. So
neither such a value nor a surrogate begins a name or goes on one, whichever properties `p` and `q`
the sets of identifier characters were built from, those of the tables among them. -/
theorem contains_build_iff (p : Char → Bool) {extra : List CodePoint}
    (hextra : ∀ d ∈ extra, d ≤ CodePoint.max) :
    (∀ c, (build p extra).contains c = true ↔
      c ∈ extra ∨ 0x80 ≤ c ∧ c ≤ CodePoint.max ∧ ¬(0xD800 ≤ c ∧ c ≤ 0xDFFF) ∧
        ∃ ch, ch.toNat = c ∧ p ch = true) ∧
    (∀ c, CodePoint.max < c → (build p extra).contains c = false) ∧
    ∀ c, CodePoint.max < c ∨ 0xD800 ≤ c ∧ c ≤ 0xDFFF →
      (∀ p q : Char → Bool, CodePoint.isStartBy (CodePoint.idStart p) c = false ∧
        CodePoint.isPartBy (CodePoint.idContinue q) c = false) ∧
      CodePoint.isIdentifierStart c = false ∧ CodePoint.isIdentifierPart c = false := by
  have hcontains (c : CodePoint) : (build p extra).contains c = true ↔
      c ∈ extra ∨ isOutsideAsciiWith p c = true := by
    rw [contains_build p hextra, Bool.or_eq_true, List.contains_eq_mem, decide_eq_true_eq]
  refine ⟨?_, ?_, ?_⟩
  · intro c
    rw [hcontains, isOutsideAsciiWith_iff]
  · intro c hc
    rw [← Bool.not_eq_true, hcontains, isOutsideAsciiWith_iff]
    rintro (hmem | ⟨-, hle, -⟩)
    · exact absurd (hextra c hmem) (Nat.not_le.mpr hc)
    · exact absurd hle (Nat.not_le.mpr hc)
  · intro c hc
    have hnone := CodePoint.toChar?_eq_none_of hc
    exact ⟨CodePoint.not_by_of_toChar?_eq_none hnone,
      CodePoint.not_identifier_of_toChar?_eq_none hnone⟩

/-- The letters of a set that is given a surrogate, a letter in ASCII and the last code point. -/
theorem contains_build_iff_letters :
    let extra : List CodePoint := [0xD800, 0x41, 0x10FFFF]
    let s := build Char.isAlpha extra
    (∀ d ∈ extra, d ≤ CodePoint.max) ∧ s.contains 0xD800 = true ∧ s.contains 0x41 = true ∧
      s.contains 0x42 = false ∧ s.contains 0xDC00 = false ∧ s.contains 0x10FFFF = true ∧
      s.contains 0x110000 = false ∧ CodePoint.isIdentifierStart 0x110000 = false ∧
      CodePoint.isIdentifierPart 0xDC00 = false := by
  intro extra s
  have hextra : ∀ d ∈ extra, d ≤ CodePoint.max := by decide
  obtain ⟨hcontains, hbeyond, hnames⟩ := contains_build_iff Char.isAlpha hextra
  refine ⟨hextra, (hcontains _).mpr (.inl (by decide)), (hcontains _).mpr (.inl (by decide)), ?_,
    ?_, (hcontains _).mpr (.inl (by decide)), hbeyond _ (by decide), (hnames _ (by decide)).2.1,
    (hnames _ (by decide)).2.2⟩
  · rw [← Bool.not_eq_true, hcontains]
    rintro (hmem | ⟨hle, -⟩)
    · exact absurd hmem (by decide)
    · exact absurd hle (by decide)
  · rw [← Bool.not_eq_true, hcontains]
    rintro (hmem | ⟨-, -, hsurrogate, -⟩)
    · exact absurd hmem (by decide)
    · exact hsurrogate (by decide)

end CodePointSet

end EcmaLex
