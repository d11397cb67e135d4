import EcmaLex.Proofs.CodePoints
import EcmaLex.Proofs.StableReaders

/-!
# Tokens that are set apart read the same

The readers of whole tokens are stable at their ends. Strings and templates end with a delimiter of
their own, so it does not matter where the text is cut behind them, and invalid escapes in tagged
templates stay what they were. For regular expressions the flags have to end at a separator. For
punctuators the argument is that the longest spelling found does not get longer.

* `Lexeme.read_eq`: the token at the beginning of a text.
* `Template.stable_readContinuation`: the template that goes on after a substitution.
-/

namespace EcmaLex

open Text (Recut Stops isSeparator)

/-! ## Strings -/

namespace StringLiteral

variable {strict : Bool} {quote : CodeUnit}

/-- The closing quote is taken. -/
theorem length_pos_of_body {text : List CodeUnit} {x : Reading (List CodeUnit)}
    (h : body strict quote text = .ok x) : 0 < x.length := by
  fun_induction body strict quote text generalizing x with
  | case1 => simp at h
  | case2 =>
    obtain rfl := Except.ok.inj h
    exact Nat.zero_lt_one
  | case3 => simp at h
  | case4 => simp at h
  | case5 => simp at h
  | case6 =>
    obtain ⟨z, -, rfl⟩ := Outcome.mapValue_shift_eq_ok_iff.mp h
    dsimp only
    omega
  | case7 =>
    obtain ⟨z, -, rfl⟩ := Outcome.mapValue_shift_eq_ok_iff.mp h
    dsimp only
    omega

theorem stable_body (strict : Bool) (quote : CodeUnit) : Reader.Stable (body strict quote) := by
  intro n text text' x hcut hx hn
  fun_induction body strict quote text generalizing n text' x with
  | case1 => simp at hx
  | case2 rest =>
    obtain rfl := Except.ok.inj hx
    obtain ⟨rest', rfl, -⟩ := hcut.exists_cons hn
    exact body_quote strict quote rest'
  | case3 => simp at hx
  | case4 => simp at hx
  | case5 => simp at hx
  | case6 rest _ e he hq _ ih =>
    obtain ⟨z, hz, rfl⟩ := Outcome.mapValue_shift_eq_ok_iff.mp hx
    dsimp only at hn
    -- the escape and at least the closing quote stay
    have hpos := length_pos_of_body hz
    have hepos := Escape.length_pos_of_body he
    obtain ⟨rest', rfl, hrest⟩ := hcut.exists_cons (by omega)
    have he' := Escape.body_eq _ hrest (by rw [he]; show e.length < _; omega) (by omega)
    rw [he] at he'
    rw [body_escape strict hq he', ih (hrest.drop (by omega)) hz (by omega)]
    rfl
  | case7 u rest hq hline hescape ih =>
    obtain ⟨z, hz, rfl⟩ := Outcome.mapValue_shift_eq_ok_iff.mp hx
    dsimp only at hn
    obtain ⟨rest', rfl, hrest⟩ := hcut.exists_cons (by omega)
    rw [body_unit strict hq hline hescape, ih hrest hz (by omega)]
    rfl

theorem stable_read (strict : Bool) : (read strict).Stable := by
  intro n text text' x hcut hx hn
  cases text with
  | nil => simp [read] at hx
  | cons quote rest =>
    rw [read] at hx
    obtain ⟨z, hz, rfl⟩ := Outcome.mapValue_shift_eq_ok_iff.mp hx
    dsimp only at hn
    obtain ⟨rest', rfl, hrest⟩ := hcut.exists_cons (by omega)
    rw [read, stable_body strict quote hrest hz (by omega)]
    rfl

end StringLiteral

/-! ## Templates -/

namespace Template

variable {tagged : Bool} {rest : List CodeUnit}

theorem span_backtick (tagged : Bool) (rest : List CodeUnit) :
    span tagged (CodeUnit.backtick :: rest) = .ok ⟨⟨some [], [], true⟩, 1, ∅⟩ := by
  rw [span, if_pos rfl]

theorem span_escape {e : Reading (Option CodePoint)}
    (he : Escape.body (some .templateOctal) rest = .ok e) :
    span tagged (CodeUnit.backslash :: rest) =
      ((span tagged (rest.drop e.length)).shift (1 + e.length) ∅).mapValue
        (·.prepend (some (e.value.elim [] CodePoint.encode))
          (normalize (CodeUnit.backslash :: rest.take e.length))) := by
  have hrest : rest ≠ [] := by
    rintro rfl
    simp [Escape.body] at he
  rw [span, if_neg (by decide), if_neg (fun h => absurd h.1 (by decide)), if_pos rfl,
    if_neg hrest, he]

/-- An invalid escape in a tagged template. -/
theorem span_invalid {f : Fault} (hrest : rest ≠ [])
    (hf : Escape.body (some .templateOctal) rest = .error f) :
    span true (CodeUnit.backslash :: rest) =
      ((span true (rest.drop f.stop)).shift (1 + f.stop) ∅).mapValue
        (·.prepend none (normalize (CodeUnit.backslash :: rest.take f.stop))) := by
  rw [span, if_neg (by decide), if_neg (fun h => absurd h.1 (by decide)), if_pos rfl,
    if_neg hrest, hf]
  rfl

theorem span_return (tagged : Bool) (rest : List CodeUnit) :
    span tagged (CodeUnit.carriageReturn :: rest) =
      ((span tagged (rest.drop (if rest.head? = some CodeUnit.lineFeed then 1 else 0))).shift
        (1 + if rest.head? = some CodeUnit.lineFeed then 1 else 0) ∅).mapValue
        (·.prepend (some [CodeUnit.lineFeed]) [CodeUnit.lineFeed]) := by
  rw [span, if_neg (by decide), if_neg (fun h => absurd h.1 (by decide)), if_neg (by decide),
    if_pos rfl]

theorem span_unit {u : CodeUnit} (htick : u ≠ CodeUnit.backtick)
    (hdollar : ¬(u = CodeUnit.dollar ∧ rest.head? = some CodeUnit.leftBrace))
    (hescape : u ≠ CodeUnit.backslash) (hreturn : u ≠ CodeUnit.carriageReturn) :
    span tagged (u :: rest) =
      ((span tagged rest).shift 1 ∅).mapValue (·.prepend (some [u]) [u]) := by
  rw [span, if_neg htick, if_neg hdollar, if_neg hescape, if_neg hreturn]

theorem two_le_length_of_more {o : Outcome Span} {k : Nat} {flags : TokenFlags} {f : Span → Span}
    {x : Reading Span} (hk : 0 < k) (ho : ∀ z, o = .ok z → 0 < z.length)
    (h : (o.shift k flags).mapValue f = .ok x) : 2 ≤ x.length := by
  obtain ⟨z, hz, rfl⟩ := Outcome.mapValue_shift_eq_ok_iff.mp h
  have := ho z hz
  show 2 ≤ k + z.length
  omega

/-- The closing delimiter is taken, and it is two units unless it is a backtick. -/
theorem length_of_span {text : List CodeUnit} {x : Reading Span}
    (h : span tagged text = .ok x) :
    0 < x.length ∧ (text.head? ≠ some CodeUnit.backtick → 2 ≤ x.length) := by
  fun_induction span tagged text generalizing x with
  | case1 => simp at h
  | case2 =>
    obtain rfl := Except.ok.inj h
    exact ⟨Nat.zero_lt_one, fun hne => absurd rfl hne⟩
  | case3 =>
    obtain rfl := Except.ok.inj h
    exact ⟨Nat.zero_lt_two, fun _ => Nat.le_refl 2⟩
  | case4 => simp at h
  | case5 _ _ e _ _ _ ih =>
    have htwo := two_le_length_of_more (by omega) (fun z hz => (ih hz).1) h
    exact ⟨by omega, fun _ => htwo⟩
  | case6 _ _ f _ _ _ _ ih =>
    have htwo := two_le_length_of_more (by omega) (fun z hz => (ih hz).1) h
    exact ⟨by omega, fun _ => htwo⟩
  | case7 => simp at h
  | case8 =>
    rename_i ih
    have htwo := two_le_length_of_more (by omega) (fun z hz => (ih hz).1) h
    exact ⟨by omega, fun _ => htwo⟩
  | case9 _ _ _ _ _ _ ih =>
    have htwo := two_le_length_of_more (by omega) (fun z hz => (ih hz).1) h
    exact ⟨by omega, fun _ => htwo⟩

theorem stable_span (tagged : Bool) : Reader.Stable (span tagged) := by
  intro n text text' x hcut hx hn
  fun_induction span tagged text generalizing n text' x with
  | case1 => simp at hx
  | case2 rest =>
    obtain rfl := Except.ok.inj hx
    obtain ⟨rest', rfl, -⟩ := hcut.exists_cons hn
    exact span_backtick tagged rest'
  | case3 u rest htick hdollar =>
    obtain rfl := Except.ok.inj hx
    have htwo : 2 ≤ n := hn
    obtain ⟨rest', rfl, hrest⟩ := hcut.exists_cons (by omega)
    have hhead := hrest.head?_eq (by omega)
    rw [span, if_neg htick, if_pos ⟨hdollar.1, by rw [hhead, hdollar.2]⟩]
  | case4 => simp at hx
  | case5 rest _ e he _ _ ih =>
    obtain ⟨z, hz, rfl⟩ := Outcome.mapValue_shift_eq_ok_iff.mp hx
    dsimp only at hn
    have hpos := (length_of_span hz).1
    have hepos := Escape.length_pos_of_body he
    obtain ⟨rest', rfl, hrest⟩ := hcut.exists_cons (by omega)
    have he' := Escape.body_eq _ hrest (by rw [he]; show e.length < _; omega) (by omega)
    rw [he] at he'
    rw [span_escape he', ih (hrest.drop (by omega)) hz (by omega), hrest.take_eq (by omega)]
    rfl
  | case6 rest hne f hf htagged _ _ ih =>
    obtain rfl : tagged = true := htagged
    obtain ⟨z, hz, rfl⟩ := Outcome.mapValue_shift_eq_ok_iff.mp hx
    dsimp only at hn
    obtain ⟨hpos, htwo⟩ := length_of_span hz
    obtain ⟨rest', rfl, hrest⟩ := hcut.exists_cons (by omega)
    -- a refused escape of a zero leaves its digits to the span, which takes more than one unit
    have hzero : rest.head? = some CodeUnit.zero → 2 ≤ n - 1 := by
      intro hhead
      by_cases hstop : f.stop = 0
      · rw [hstop, List.drop_zero, hhead] at htwo
        have := htwo (by decide)
        omega
      · omega
    have hf' := Escape.body_eq _ hrest (by rw [hf]; show f.stop < _; omega) hzero
    have hne' : rest' ≠ [] := by
      rintro rfl
      exact absurd (hrest.head?_eq (by omega)) (by cases rest <;> simp_all)
    rw [hf] at hf'
    rw [span_invalid hne' hf', ih (hrest.drop (by omega)) hz (by omega), hrest.take_eq (by omega)]
    rfl
  | case7 => simp at hx
  | case8 rest =>
    rename_i ih
    obtain ⟨z, hz, rfl⟩ := Outcome.mapValue_shift_eq_ok_iff.mp hx
    dsimp only at hn
    have hpos := (length_of_span hz).1
    obtain ⟨rest', rfl, hrest⟩ := hcut.exists_cons (by omega)
    have hspan := ih (hrest.drop (by omega)) hz (by omega)
    rw [span_return, hrest.head?_eq (by omega)]
    exact Outcome.mapValue_shift_eq_ok_iff.mpr ⟨z, hspan, rfl⟩
  | case9 u rest htick hdollar hescape hreturn ih =>
    obtain ⟨z, hz, rfl⟩ := Outcome.mapValue_shift_eq_ok_iff.mp hx
    dsimp only at hn
    have hpos := (length_of_span hz).1
    -- the unit behind a dollar sign stays, so it begins no substitution now either
    obtain ⟨rest', rfl, hrest⟩ := hcut.exists_cons (by omega)
    rw [← hrest.head?_eq (by omega)] at hdollar
    rw [span_unit htick hdollar hescape hreturn, ih hrest hz (by omega)]
    rfl

theorem stable_read (tagged first : Bool) : (read tagged first).Stable := by
  intro n text text' x hcut hx hn
  obtain ⟨z, hz, rfl⟩ := Outcome.mapValue_shift_eq_ok_iff.mp hx
  dsimp only at hn
  unfold read
  rw [stable_span tagged (hcut.drop (k := 1) (by omega)) hz (by omega)]
  rfl

/-- The template that goes on after a substitution. -/
theorem stable_readContinuation (tagged : Bool) : (readContinuation tagged).Stable := by
  intro n text text' x hcut hx hn
  unfold readContinuation at hx ⊢
  split at hx
  · next hbrace =>
    have hpos : 0 < n := by
      obtain ⟨z, -, rfl⟩ := Outcome.mapValue_shift_eq_ok_iff.mp hx
      dsimp only at hn
      omega
    rw [hcut.head?_eq hpos, if_pos hbrace]
    exact stable_read tagged false hcut hx hn
  · simp at hx

end Template

/-! ## Regular expressions -/

namespace RegExp

/-- A pattern stays where the text is cut behind its slash. -/
theorem pattern_eq {inClass : Bool} {n k : Nat} {text text' : List CodeUnit}
    (hcut : Recut n text text') (hk : pattern inClass text = .ok k) (hn : k < n) :
    pattern inClass text' = .ok k := by
  fun_induction pattern inClass text generalizing n text' k with
  | case1 => simp at hk
  | case2 => simp at hk
  | case3 => simp at hk
  | case4 => simp at hk
  | case5 inClass v rest hv j hj _ ih =>
    obtain rfl := Except.ok.inj hk
    obtain ⟨rest₁, rfl, hrest₁⟩ := hcut.exists_cons (by omega)
    obtain ⟨rest₂, rfl, hrest₂⟩ := hrest₁.exists_cons (by omega)
    have hj' := ih hrest₂ hj (by omega)
    simp [pattern, hv, hj', show CodeUnit.backslash.isLineTerminator = false by decide]
  | case6 => simp at hk
  | case7 inClass u rest hline hescape hend =>
    obtain ⟨rest', rfl, -⟩ := hcut.exists_cons (by omega)
    unfold pattern
    rw [if_neg hline, if_neg hescape, if_pos hend]
    exact hk
  | case8 inClass u rest hline hescape hend inClass' j hj =>
    rename_i ih
    obtain rfl := Except.ok.inj hk
    obtain ⟨rest', rfl, hrest⟩ := hcut.exists_cons (by omega)
    have hj' := ih hrest hj (by omega)
    unfold pattern
    rw [if_neg hline, if_neg hescape, if_neg hend]
    dsimp only
    rw [hj']
  | case9 => simp at hk

/-- The flag letters are ASCII. -/
theorem lt_of_isFlag {c : CodePoint} (h : isFlag (CodePoint.toChar c) = true) : c < 0x80 := by
  have hmem {ch : Char} (h : isFlag ch = true) : ch.toNat < 0x80 := by
    simp only [isFlag, List.contains_cons, List.contains_nil, Bool.or_false, Bool.or_eq_true,
      beq_iff_eq] at h
    rcases h with rfl | rfl | rfl | rfl | rfl | rfl | rfl | rfl <;> decide
  unfold CodePoint.toChar CodePoint.toChar? at h
  by_cases hvalid : c.isValidChar
  · rw [dif_pos hvalid] at h
    exact hmem h
  · rw [dif_neg hvalid] at h
    exact absurd h (by decide)

/-- A flag is a code point of one unit. -/
theorem width_of_isFlag {u : CodeUnit} {rest : List CodeUnit}
    (h : isFlag (Lexeme.offender (u :: rest)) = true) :
    ∃ c, Utf16.head? (u :: rest) = some (c, 1) := by
  obtain ⟨c, width, hhead⟩ := Utf16.exists_head?_cons u rest
  rw [Lexeme.offender, hhead] at h
  rcases Utf16.head?_cons_cases hhead with ⟨-, rfl⟩ | hbig
  · exact ⟨c, hhead⟩
  · -- the code points of surrogate pairs are far beyond ASCII
    exact absurd (Nat.lt_of_le_of_lt hbig (lt_of_isFlag h)) (by decide)

theorem flags_of_stops (seen : List Char) {text : List CodeUnit} (h : Stops text) :
    flags seen text = .ok ⟨[], 0, ∅⟩ := by
  cases text with
  | nil => rfl
  | cons u rest =>
    have hescape : u ≠ CodeUnit.backslash := by
      rintro rfl
      exact absurd (h _ rfl) (by decide)
    unfold flags
    rw [if_neg hescape]
    rcases h.utf16_head? with hnone | ⟨v, hv, hsome⟩
    · rw [hnone]
      rfl
    · rw [hsome]
      rcases Text.eq_of_isSeparator hv with rfl | rfl
      · exact if_pos (by decide)
      · exact if_pos (by decide)

theorem stableAtEnd_flags (seen : List Char) : Reader.StableAtEnd (flags seen) := by
  intro text text' x hx hcut
  induction text generalizing seen text' x with
  | nil =>
    obtain rfl := Except.ok.inj hx
    exact flags_of_stops seen hcut.stops
  | cons u rest ih =>
    unfold flags at hx
    by_cases hescape : u = CodeUnit.backslash
    · rw [if_pos hescape] at hx
      simp at hx
    rw [if_neg hescape] at hx
    split at hx
    · obtain rfl := Except.ok.inj hx
      exact flags_of_stops seen hcut.stops
    next hpart =>
    dsimp only at hx
    split at hx
    · simp at hx
    next hflag =>
    split at hx
    · simp at hx
    next hseen =>
    obtain ⟨z, hz, rfl⟩ := Outcome.mapValue_shift_eq_ok_iff.mp hx
    dsimp only at hcut
    obtain ⟨rest', rfl, hrest⟩ := hcut.exists_cons (by omega)
    rw [Nat.add_sub_cancel_left] at hrest
    -- the flag is one unit, which stays
    have hhead : Utf16.head? (u :: rest') = Utf16.head? (u :: rest) := by
      obtain ⟨c, hc⟩ := width_of_isFlag (by simpa using hflag)
      rw [hc, hcut.utf16_head? hc (by omega)]
    have hoffender : Lexeme.offender (u :: rest') = Lexeme.offender (u :: rest) := by
      rw [Lexeme.offender, hhead, Lexeme.offender]
    unfold flags
    rw [if_neg hescape, hhead, if_neg hpart, hoffender]
    dsimp only
    rw [if_neg hflag, if_neg hseen, ih _ hz hrest]
    rfl

theorem stableAtEnd_body : body.StableAtEnd := by
  intro text text' x hx hcut
  unfold body at hx ⊢
  split at hx
  · simp at hx
  · next k hk =>
    obtain ⟨z, hz, rfl⟩ := Outcome.mapValue_shift_eq_ok_iff.mp hx
    dsimp only at hcut
    have hrest := hcut.drop (Nat.le_add_right (k + 1) z.length)
    rw [Nat.add_sub_cancel_left] at hrest
    rw [pattern_eq hcut hk (by omega)]
    dsimp only
    rw [stableAtEnd_flags [] hz hrest, hcut.take_eq (by omega)]
    rfl

theorem stableAtEnd_read : read.StableAtEnd := by
  refine Reader.StableAtEnd.interpret ?_ _
  intro text text' x hx hcut
  obtain ⟨z, hz, rfl⟩ := Outcome.shift_eq_ok_iff.mp hx
  dsimp only at hcut
  have hrest := hcut.drop (Nat.le_add_right 1 z.length)
  rw [Nat.add_sub_cancel_left] at hrest
  exact Outcome.shift_eq_ok_iff.mpr ⟨z, stableAtEnd_body hz hrest, rfl⟩

end RegExp

/-! ## Punctuators -/

namespace Punctuator

theorem not_isSeparator_of_mem_units (p : Punctuator) : ∀ u ∈ p.units, isSeparator u = false := by
  have hall : p.units.all (fun u => !isSeparator u) = true := by cases p <;> decide
  simpa using hall

/-- No spelling begins with one that is listed before it. -/
theorem pairwise_all : all.Pairwise fun q p => ¬q.units <+: p.units := by
  decide +kernel

theorem allowedBefore_of_stops {jsx : Bool} {after after' : List CodeUnit} {p : Punctuator}
    (h : allowedBefore jsx after p = true) (hstop : Stops after') :
    allowedBefore jsx after' p = true := by
  have hslash (u : CodeUnit) (hu : isSeparator u = true) :
      (u == CodeUnit.slash || u == CodeUnit.star) = false := by
    rcases Text.eq_of_isSeparator hu with rfl | rfl <;> decide
  cases p with
  | optionalChain =>
    simp only [allowedBefore, hstop.any_head? Escape.isDecimalDigit_separator, Bool.not_false]
  | jsxClosingTagStart =>
    simp only [allowedBefore, Bool.and_eq_true] at h
    simp only [allowedBefore, h.1, hstop.any_head? hslash, Bool.not_false, Bool.and_self]
  | _ => exact h

/-- **The longest punctuator stays the longest.** With a separator behind it no longer spelling
fits, and a spelling that is listed before it fits no more than it did. -/
theorem ofText?_eq {jsx : Bool} {text text' : List CodeUnit} {p : Punctuator}
    (h : ofText? jsx text = some p) (hcut : Recut p.units.length text text') :
    ofText? jsx text' = some p := by
  rw [ofText?, List.find?_eq_some_iff_append] at h ⊢
  obtain ⟨hmatch, before, after, hall, -⟩ := h
  rw [matchesAt, Bool.and_eq_true, List.isPrefixOf_iff_prefix] at hmatch
  have hunits : text.take p.units.length = p.units := (List.prefix_iff_eq_take.mp hmatch.1).symm
  refine ⟨?_, before, after, hall, ?_⟩
  · rw [matchesAt, Bool.and_eq_true, List.isPrefixOf_iff_prefix]
    constructor
    · rw [List.prefix_iff_eq_take, hcut.take_eq (Nat.le_refl _), hunits]
    · have hstop := hcut.drop (Nat.le_refl _)
      rw [Nat.sub_self] at hstop
      exact allowedBefore_of_stops hmatch.2 hstop.stops
  · -- a spelling before it that fits now is a part of `p`, and none of these comes first
    intro q hq
    rw [Bool.not_eq_true', ← Bool.not_eq_true, matchesAt, Bool.and_eq_true,
      List.isPrefixOf_iff_prefix]
    rintro ⟨hpre, -⟩
    have hpre' := hcut.prefix_take (not_isSeparator_of_mem_units q) hpre
    rw [hunits] at hpre'
    have hpair := pairwise_all
    rw [hall] at hpair
    exact (List.pairwise_append.mp hpair).2.2 q hq p List.mem_cons_self hpre'

end Punctuator

/-! ## Tokens -/

namespace Lexeme

variable {c : Context} {u : CodeUnit} {rest rest' : List CodeUnit} {x : Reading Lexeme}

/-- Surrogates are not ASCII. -/
theorem isLead_eq_false_of_isAscii (h : u.isAscii = true) : u.isLead = false := by
  simp only [CodeUnit.isAscii, CodeUnit.isLead, decide_eq_true_eq, UInt16.lt_iff_toNat_lt,
    UInt16.le_iff_toNat_le, Bool.and_eq_false_iff, decide_eq_false_iff_not] at h ⊢
  left
  have : u.toNat < 128 := h
  show ¬55296 ≤ u.toNat
  omega

theorem isAscii_of_isDecimalDigit (h : u.isDecimalDigit = true) : u.isAscii = true := by
  simp only [CodeUnit.isAscii, CodeUnit.isDecimalDigit, decide_eq_true_eq, Bool.and_eq_true,
    UInt16.lt_iff_toNat_lt, UInt16.le_iff_toNat_le] at h ⊢
  have : u.toNat ≤ 57 := h.2
  show u.toNat < 128
  omega

/-- A token that is no name begins with an ASCII character. -/
theorem isAscii_of_read (h : read c (u :: rest) = .ok x)
    (hname : ¬beginsName (u :: rest) = true) : u.isAscii = true := by
  simp only [read] at h
  rw [if_neg hname] at h
  split_ifs at h with hnumber hquote htick hhash hslash hascii
  · rw [beginsNumber, List.head?_cons, Option.any_some, Bool.or_eq_true, Bool.and_eq_true,
      beq_iff_eq, Option.some.injEq] at hnumber
    rcases hnumber with hdigit | ⟨rfl, -⟩
    · exact isAscii_of_isDecimalDigit hdigit
    · decide
  · rw [CodeUnit.isQuote, Bool.or_eq_true, beq_iff_eq, beq_iff_eq] at hquote
    rcases hquote with rfl | rfl <;> decide
  · rw [htick]
    decide
  · rw [hhash]
    decide
  · rw [hslash.1]
    decide
  · exact hascii
  · simp [illegal] at h

/-- Whether a name begins is decided by its first code point. -/
theorem beginsName_eq (h : read c (u :: rest) = .ok x)
    (hcut : Recut x.length (u :: rest) (u :: rest')) :
    beginsName (u :: rest') = beginsName (u :: rest) := by
  by_cases hname : beginsName (u :: rest) = true
  · simp only [read] at h
    rw [if_pos hname] at h
    obtain ⟨z, b, hz, -, rfl⟩ := Reader.interpret_eq_ok_iff.mp h
    obtain ⟨hhead, hpoint⟩ := Identifier.head?_of_name hcut hz (Nat.le_refl _)
    unfold beginsName
    rw [hhead]
    rcases hpoint with hbackslash | hpoint
    · rw [hbackslash]
      rfl
    · rw [hpoint]
  · have hlead := isLead_eq_false_of_isAscii (isAscii_of_read h hname)
    unfold beginsName
    rw [Utf16.head?_cons_of_not_isLead hlead, Utf16.head?_cons_of_not_isLead hlead]
    rfl

/-- Whether a number begins is decided by a digit, or by a point and a digit. -/
theorem beginsNumber_eq (h : read c (u :: rest) = .ok x) (hname : ¬beginsName (u :: rest) = true)
    (hcut : Recut x.length (u :: rest) (u :: rest')) :
    beginsNumber (u :: rest') = beginsNumber (u :: rest) := by
  obtain ⟨_, hrest', hrest⟩ := hcut.exists_cons (length_pos_of_read h)
  obtain rfl := (List.cons.inj hrest').2
  by_cases hpoint : u = CodeUnit.period
  · subst hpoint
    have hunfold (text : List CodeUnit) : beginsNumber (CodeUnit.period :: text) =
        text.head?.any CodeUnit.isDecimalDigit := rfl
    rw [hunfold, hunfold]
    cases hdigit : rest.head?.any CodeUnit.isDecimalDigit with
    | true =>
      simp only [read] at h
      rw [if_neg hname, if_pos (by rw [hunfold, hdigit])] at h
      have htwo := Numeric.two_le_length_of_point hdigit h
      rw [hrest.head?_eq (by omega), hdigit]
    | false => rw [hrest.any_head? Escape.isDecimalDigit_separator hdigit]
  · have hne : (some u == some CodeUnit.period) = false := by simpa using hpoint
    unfold beginsNumber
    rw [List.head?_cons, List.head?_cons, hne, Bool.false_and, Bool.false_and]

/-- **A token that is set apart reads the same.** -/
theorem read_eq {text' : List CodeUnit} (h : read c (u :: rest) = .ok x)
    (hcut : Recut x.length (u :: rest) text') : read c text' = .ok x := by
  have hpos := length_pos_of_read h
  obtain ⟨rest', rfl, hrest⟩ := hcut.exists_cons hpos
  -- the same reader is chosen, and it reads the same
  have hname := beginsName_eq h hcut
  by_cases hn : beginsName (u :: rest) = true
  · simp only [read, hname, hn, if_true] at h ⊢
    exact Identifier.stableAtEnd_read h hcut
  have hnumber := beginsNumber_eq h hn hcut
  simp only [read, hname, hnumber] at h ⊢
  rw [if_neg hn] at h ⊢
  split_ifs at h ⊢
  · exact Numeric.read_eq h hpos hcut
  · exact StringLiteral.stable_read _ hcut h (Nat.le_refl _)
  · exact Template.stable_read _ _ hcut h (Nat.le_refl _)
  · exact Identifier.stableAtEnd_readPrivate h hcut
  · exact RegExp.stableAtEnd_read h hcut
  · obtain ⟨p, hp, rfl⟩ := kind_of_punctuator h
    unfold readPunctuator
    rw [Punctuator.ofText?_eq hp hcut]
  · simp [illegal] at h

end Lexeme

end EcmaLex
