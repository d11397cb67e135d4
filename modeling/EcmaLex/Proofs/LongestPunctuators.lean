import EcmaLex.Proofs.Calls
import EcmaLex.Proofs.StableTokens
import EcmaLex.Proofs.TriviaGrammar
import Mathlib.Data.List.Nodup
import Mathlib.Tactic.MkIffOfInductiveProp

/-!
# The longest punctuator

The punctuators are listed by falling length, and the first one that matches is read. Here this is
the longest spelling that stands in the text. Which spellings count is said without the list:
`Punctuator.Fits` gives the three that depend on what follows them, or on JSX, a clause each.

* `Punctuator.ofText?_eq_some_iff`: what is found is the longest one that fits.
* `Punctuator.ofText?_eq_none_iff`: nothing is found exactly where none fits.
* `Lexeme.read_of_beginsNoOther`: where no other token begins, a punctuator is looked for.
* `Scanner.next_isLongest`: the call there. It gives the longest punctuator, or says that the unit
  is illegal.
-/

namespace EcmaLex

/-! ## What may be read -/

namespace Punctuator

variable {jsx : Bool} {text : List CodeUnit} {p q : Punctuator}

/-- The text begins with the spelling of a punctuator that may be read there. -/
structure Fits (jsx : Bool) (text : List CodeUnit) (p : Punctuator) : Prop where
  spelled : p.units <+: text
  /-- A question mark, a point and a digit are a conditional and a number. -/
  noDigit : p = .optionalChain → ∀ u ∈ text[2]?, u.isDecimalDigit = false
  /-- The slash of a closing tag opens no comment. -/
  closesTag : p = .jsxClosingTagStart →
    jsx = true ∧ text[2]? ≠ some CodeUnit.slash ∧ text[2]? ≠ some CodeUnit.star
  selfCloses : p = .jsxSelfClosing → jsx = true

/-- Of all the punctuators that fit, the one with the longest spelling. -/
structure IsLongest (jsx : Bool) (text : List CodeUnit) (p : Punctuator) : Prop where
  fits : Fits jsx text p
  longest : ∀ q, Fits jsx text q → q.units.length ≤ p.units.length

theorem mem_all (p : Punctuator) : p ∈ all := by
  cases p <;> decide

/-- The text behind a spelling of two units. -/
theorem head?_drop_units (h : p.units.length = 2) :
    (text.drop p.units.length).head? = text[2]? := by
  rw [List.head?_drop, h]

theorem matchesAt_iff_fits : matchesAt jsx text p = true ↔ Fits jsx text p := by
  rw [matchesAt, Bool.and_eq_true, List.isPrefixOf_iff_prefix]
  constructor
  · rintro ⟨hpre, hallowed⟩
    refine ⟨hpre, ?_, ?_, ?_⟩
    · rintro rfl u hu
      rw [allowedBefore, head?_drop_units rfl, Option.mem_def.mp hu] at hallowed
      simpa using hallowed
    · rintro rfl
      rw [allowedBefore, head?_drop_units rfl, Bool.and_eq_true] at hallowed
      refine ⟨hallowed.1, ?_, ?_⟩ <;>
      · intro hu
        rw [hu] at hallowed
        exact absurd hallowed.2 (by decide)
    · rintro rfl
      exact hallowed
  · rintro ⟨hpre, hdigit, hcloses, hself⟩
    refine ⟨hpre, ?_⟩
    cases p with
    | optionalChain =>
      rw [allowedBefore, head?_drop_units rfl]
      cases hu : text[2]? with
      | none => rfl
      | some u =>
        rw [Option.any_some, hdigit rfl u hu]
        rfl
    | jsxClosingTagStart =>
      obtain ⟨hjsx, hslash, hstar⟩ := hcloses rfl
      rw [allowedBefore, head?_drop_units rfl, hjsx]
      cases hu : text[2]? with
      | none => rfl
      | some u =>
        rw [hu, ne_eq, Option.some.injEq] at hslash hstar
        simp [hslash, hstar]
    | jsxSelfClosing => exact hself rfl
    | _ => rfl

instance : Decidable (Fits jsx text p) := decidable_of_iff _ matchesAt_iff_fits

/-! ## What is found -/

/-- Of two spellings in one place, the one that is listed first is the longer one. -/
theorem length_lt_of_listed {before after : List Punctuator} (hall : all = before ++ p :: after)
    (hq : q ∈ after) (hp : p.units <+: text) (hqt : q.units <+: text) :
    q.units.length < p.units.length := by
  have hpair := pairwise_all
  rw [hall] at hpair
  have hnot := List.rel_of_pairwise_cons (List.pairwise_append.mp hpair).2.1 hq
  by_contra hle
  exact hnot (List.prefix_of_prefix_length_le hp hqt (by omega))

theorem isLongest_of_ofText? (h : ofText? jsx text = some p) : IsLongest jsx text p := by
  obtain ⟨hmatch, before, after, hall, hbefore⟩ := List.find?_eq_some_iff_append.mp h
  have hp := matchesAt_iff_fits.mp hmatch
  refine ⟨hp, fun q hq => ?_⟩
  have hmem := mem_all q
  rw [hall, List.mem_append, List.mem_cons] at hmem
  rcases hmem with hmem | rfl | hmem
  · -- nothing that is listed before `p` matches
    have hnot := hbefore q hmem
    rw [matchesAt_iff_fits.mpr hq] at hnot
    exact absurd hnot (by decide)
  · exact Nat.le_refl _
  · exact Nat.le_of_lt (length_lt_of_listed hall hmem hp.spelled hq.spelled)

/-- **Nothing is found exactly where none fits.** -/
theorem ofText?_eq_none_iff : ofText? jsx text = none ↔ ∀ p, ¬Fits jsx text p := by
  rw [ofText?, List.find?_eq_none]
  constructor
  · intro h p hp
    exact h p (mem_all p) (matchesAt_iff_fits.mpr hp)
  · intro h p _ hp
    exact h p (matchesAt_iff_fits.mp hp)

theorem units_injective : Function.Injective units := by
  intro p q h
  have hnodup : (all.map units).Nodup := by
    refine List.pairwise_map.mpr (pairwise_all.imp fun hnot heq => hnot ?_)
    exact heq ▸ List.prefix_rfl
  exact List.inj_on_of_nodup_map hnodup (mem_all p) (mem_all q) h

/-- There is one longest punctuator at most. -/
theorem IsLongest.unique (hp : IsLongest jsx text p) (hq : IsLongest jsx text q) : p = q := by
  have hlength := Nat.le_antisymm (hq.longest p hp.fits) (hp.longest q hq.fits)
  apply units_injective
  rw [List.prefix_iff_eq_take.mp hp.fits.spelled, List.prefix_iff_eq_take.mp hq.fits.spelled,
    hlength]

/-- **What is found is the longest punctuator that fits.** -/
theorem ofText?_eq_some_iff : ofText? jsx text = some p ↔ IsLongest jsx text p := by
  constructor
  · exact isLongest_of_ofText?
  · intro hp
    cases hfound : ofText? jsx text with
    | none => exact absurd hp.fits (ofText?_eq_none_iff.mp hfound p)
    | some q => rw [(isLongest_of_ofText? hfound).unique hp]

instance : Decidable (IsLongest jsx text p) := decidable_of_iff _ ofText?_eq_some_iff

end Punctuator

/-! ## Where punctuators are read -/

namespace Lexeme

/-- The unit `u` in front of `rest` is ASCII and begins no name, number, string or template. -/
@[mk_iff]
structure BeginsNoOther (u : CodeUnit) (rest : List CodeUnit) : Prop where
  isAscii : u.isAscii = true
  notStart : CodePoint.isIdentifierStart u.toNat = false
  notDigit : u.isDecimalDigit = false
  notQuote : u.isQuote = false
  ne_backtick : u ≠ CodeUnit.backtick
  ne_backslash : u ≠ CodeUnit.backslash
  ne_hash : u ≠ CodeUnit.hash
  /-- It is not the point of a number. -/
  notPoint : u = CodeUnit.period → rest.head?.any CodeUnit.isDecimalDigit = false

instance {u : CodeUnit} {rest : List CodeUnit} : Decidable (BeginsNoOther u rest) :=
  decidable_of_iff' _ (beginsNoOther_iff u rest)

variable {c : Context} {u : CodeUnit} {rest : List CodeUnit}

/-- An ASCII unit is a code point by itself. -/
theorem head?_of_isAscii (h : u.isAscii = true) :
    Utf16.head? (u :: rest) = some (u.toNat, 1) :=
  Utf16.head?_cons_of_not_isLead (isLead_eq_false_of_isAscii h) rest

/-- **Where no other token begins, a punctuator is looked for**, unless a regular expression may
stand there. -/
theorem read_of_beginsNoOther (h : BeginsNoOther u rest) (hregexp : c.allowRegExp = false) :
    read c (u :: rest) = readPunctuator c.jsx (u :: rest) := by
  have hname : ¬beginsName (u :: rest) = true := by
    simp [beginsName, head?_of_isAscii h.isAscii, h.notStart, h.ne_backslash]
  have hnumber : ¬beginsNumber (u :: rest) = true := by
    simp only [beginsNumber, List.head?_cons, Option.any_some, h.notDigit, Bool.false_or,
      List.drop_succ_cons, List.drop_zero, Bool.and_eq_true, beq_iff_eq, Option.some.injEq]
    rintro ⟨hperiod, hdigit⟩
    rw [h.notPoint hperiod] at hdigit
    simp at hdigit
  simp only [read]
  rw [if_neg hname, if_neg hnumber, if_neg (by simp [h.notQuote]), if_neg h.ne_backtick,
    if_neg h.ne_hash, if_neg (by simp [hregexp]), if_pos h.isAscii]

/-- The character of an ASCII unit. -/
theorem toNat_offender (h : u.isAscii = true) : (offender (u :: rest)).toNat = u.toNat := by
  have hlt : u.toNat < 0xD800 := by
    have : u.toNat < 128 := by
      simpa [CodeUnit.isAscii, UInt16.lt_iff_toNat_lt] using h
    omega
  obtain ⟨ch, hch⟩ := CodePoint.exists_toChar?_of_lt hlt
  rw [offender, head?_of_isAscii h]
  show (CodePoint.toChar u.toNat).toNat = u.toNat
  rw [CodePoint.toChar, hch]
  exact CodePoint.toNat_of_toChar? hch

end Lexeme

/-! ## The call -/

namespace Scanner

variable {c : Context} {s : Scanner} {u : CodeUnit} {rest : List CodeUnit}

/-- The cursor is on an ASCII unit that begins no trivia and no token but a punctuator. -/
structure AtSign (c : Context) (s : Scanner) (u : CodeUnit) (rest : List CodeUnit) : Prop
    extends Lexeme.BeginsNoOther u rest where
  rest_eq : s.cursor.rest = u :: rest
  noTrivia : ¬Trivia.CanBegin (s.triviaMode c) s.cursor.rest

/-- Where no trivia stands, the next token is read at the cursor. -/
theorem next_eq_readHere (h : ¬Trivia.CanBegin (s.triviaMode c) s.cursor.rest) :
    s.next c = ({ s with flags := ∅ } : Scanner).readHere c (Lexeme.read c) :=
  Passes.readAfterTrivia_eq (.done (Trivia.first?_eq_none_iff.mpr h)) rfl fun _ => Lexeme.read c

/-- **The longest punctuator.** At a unit that can only begin a punctuator, the next token is the
one longest punctuator that fits, and its span is the spelling. If none fits, the unit is
illegal. -/
theorem next_isLongest (h : AtSign c s u rest) (hregexp : c.allowRegExp = false) :
    (∀ p, Punctuator.IsLongest c.jsx (u :: rest) p → ∃ t s', s.next c = (.ok t, s') ∧
        t.kind = .punctuator p ∧ t.value = .none ∧
        t.start = s.cursor.location ∧
        t.stop = s.cursor.location.offset + p.units.length ∧
        s'.cursor.location.offset = t.stop ∧
        s.cursor.rest = p.units ++ s'.cursor.rest) ∧
      ((∃ p, Punctuator.Fits c.jsx (u :: rest) p) →
        ∃! p, Punctuator.IsLongest c.jsx (u :: rest) p) ∧
      ((∀ p, ¬Punctuator.Fits c.jsx (u :: rest) p) → ∃ ch s', ch.toNat = u.toNat ∧
        s.next c = (.error ⟨.illegalCharacter ch, s.cursor.location⟩, s') ∧
        s'.tokenStart = s.cursor) := by
  have hread := Lexeme.read_of_beginsNoOther h.toBeginsNoOther hregexp
  refine ⟨fun p hp => ?_, ?_, fun hnone => ?_⟩
  · have hread' : Lexeme.read c s.cursor.rest =
        .ok ⟨⟨.punctuator p, .none⟩, p.units.length, ∅⟩ := by
      rw [h.rest_eq, hread, Lexeme.readPunctuator, Punctuator.ofText?_eq_some_iff.mpr hp]
    obtain ⟨after, hafter⟩ := hp.fits.spelled
    rw [← h.rest_eq] at hafter
    obtain ⟨t, s', hnext, hkind, hvalue, hstart, hstop, hcursor⟩ :=
      exists_next_of_read (Trivia.first?_eq_none_iff.mpr h.noTrivia) hread'
        (by simp [← hafter])
    refine ⟨t, s', hnext, hkind, hvalue, hstart, hstop, ?_, ?_⟩
    · rw [hstop, hcursor, Cursor.offset_advance, ← hafter]
      simp
    · rw [hcursor, Cursor.rest_advance, ← hafter, List.drop_left]
  · rintro ⟨p, hp⟩
    cases hfound : Punctuator.ofText? c.jsx (u :: rest) with
    | none => exact absurd hp (Punctuator.ofText?_eq_none_iff.mp hfound p)
    | some q =>
      have hq := Punctuator.isLongest_of_ofText? hfound
      exact ⟨q, hq, fun _ hr => hr.unique hq⟩
  · have hfail : Lexeme.read c s.cursor.rest =
        .error ⟨.illegalCharacter (Lexeme.offender (u :: rest)), 0, 1, ∅⟩ := by
      rw [h.rest_eq, hread, Lexeme.readPunctuator, Punctuator.ofText?_eq_none_iff.mpr hnone]
    have hnext : s.next c =
        (.error ⟨.illegalCharacter (Lexeme.offender (u :: rest)), s.cursor.location⟩,
          { s with flags := ∅, cursor := s.cursor.advance 1, tokenStart := s.cursor }) := by
      rw [next_eq_readHere h.noTrivia, readHere, hfail]
      rfl
    exact ⟨_, _, Lexeme.toNat_offender h.isAscii, hnext, rfl⟩

end Scanner

end EcmaLex
