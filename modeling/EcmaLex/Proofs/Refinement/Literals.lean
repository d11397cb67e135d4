import EcmaLex.Proofs.FlagMeanings
import EcmaLex.Proofs.Refinement.Escapes
import EcmaLex.Proofs.TemplateSpans

/-!
# Strings and templates on machine words

The routines for strings and templates copy plain text in runs, where the readers add unit after
unit. What a routine has copied and the run it has not copied yet are together what the reader has
given so far: that is the invariant of both loops. Each escape and each line end of a template
copies the run before it and begins a new one.
-/

namespace EcmaLex

open Text (CleanCut)

/-! ## Runs -/

namespace Machine

variable {m : Machine} {c : Cursor} {u : CodeUnit} {rest : List CodeUnit} {start n : Nat}

/-- A run becomes longer by what the cursor moves over. -/
theorem Admits.extract_advance (h : m.Admits c) (hstart : start ≤ c.location.offset)
    (hn : n ≤ c.rest.length) :
    m.source.extract start (c.advance n).location.offset =
      m.source.extract start c.location.offset ++ c.rest.take n := by
  obtain ⟨k, hk⟩ := Nat.exists_eq_add_of_le hstart
  have hbehind : (m.source.drop start).drop k = c.rest := by
    rw [List.drop_drop, ← hk, h.place.rest_eq]
  rw [Cursor.offset_advance, List.length_take, Nat.min_eq_left hn, List.extract_eq_take_drop,
    List.extract_eq_take_drop, hk, Nat.add_assoc, Nat.add_sub_cancel_left, Nat.add_sub_cancel_left,
    List.take_add, hbehind]

/-- A run that begins here is still empty. -/
theorem extract_self (source : List CodeUnit) (i : Nat) : source.extract i i = [] := by
  rw [List.extract_eq_take_drop, Nat.sub_self, List.take_zero]

/-- One more unit of a run. -/
theorem Admits.extract_succ (h : m.Admits c) (hstart : start ≤ c.location.offset)
    (hrest : c.rest = u :: rest) :
    m.source.extract start (c.advance 1).location.offset =
      m.source.extract start c.location.offset ++ [u] := by
  rw [h.extract_advance hstart (by simp [hrest]), hrest, List.take_succ_cons, List.take_zero]

end Machine

/-! ## Escapes that fail -/

/-- Nothing is noted where reading fails. -/
def Outcome.FailsBare {α : Type} (o : Outcome α) : Prop := o.Faults (·.flags = ∅)

theorem Outcome.FailsBare.shift {α : Type} {o : Outcome α} (h : o.FailsBare) (n : Nat) :
    (o.shift n ∅).FailsBare := by
  cases o with
  | ok x => trivial
  | error f => exact (TokenFlags.empty_union _).trans h

namespace Escape

variable {refusal : Option EscapeError} {text : List CodeUnit} {f : Fault}

theorem failsBare_hexDigit (e : EscapeError) (text : List CodeUnit) :
    (hexDigit e text).FailsBare := by
  cases text with
  | nil => rfl
  | cons u rest =>
    simp only [hexDigit]
    split
    · trivial
    · rfl

theorem failsBare_hexPair (text : List CodeUnit) : (hexPair text).FailsBare := by
  apply Reader.faults_bind (failsBare_hexDigit _ _)
  intro x hx
  obtain ⟨u, rest, d, -, -, rfl⟩ := hexDigit_eq_ok_iff.mp hx
  refine Outcome.FailsBare.shift (Reader.faults_bind (failsBare_hexDigit _ _) ?_) 1
  intro y hy
  trivial

theorem failsBare_unicode (text : List CodeUnit) : (unicode text).FailsBare := by
  cases h : unicode text with
  | ok x => trivial
  | error f =>
    obtain ⟨w, rest, -, ⟨-, -, rfl⟩ | ⟨-, rfl⟩⟩ := unicode_eq_error_iff.mp h
    · rfl
    · rfl

theorem failsBare_body (refusal : Option EscapeError) (text : List CodeUnit) :
    (body refusal text).FailsBare := by
  unfold body
  split
  · rfl
  · -- line terminator, control character, `x`, `u`, NUL, octal digit, other digit, code point
    split
    · trivial
    split
    · trivial
    split
    · exact Outcome.Faults.mapValue _ ((failsBare_hexPair _).shift 1)
    split
    · exact Outcome.Faults.mapValue _ ((failsBare_unicode _).shift 1)
    split
    · trivial
    split
    · apply Outcome.Faults.mapValue _
      cases refusal with
      | none => trivial
      | some e => rfl
    split
    · rfl
    split
    · trivial
    · rfl

theorem flags_of_body_eq_error (h : body refusal text = .error f) : f.flags = ∅ := by
  have hbare := failsBare_body refusal text
  rw [h] at hbare
  exact hbare

end Escape

namespace Routine

open Machine Text

variable {m : Machine} {c : Cursor} {u quote : CodeUnit} {rest : List CodeUnit} {start : Nat}
  {strict : Bool}

/-- The escape behind a backslash. -/
theorem attempt_escape_of_ok (strict : Bool) (mode : EscapeMode) (h : m.Admits c)
    (hrest : c.rest = CodeUnit.backslash :: rest)
    (hne : rest ≠ []) {e : Reading (Option CodePoint)}
    (he : Escape.body (octalRefusal strict mode) rest = .ok e) :
    (attempt (escape strict mode) : Routine LexError _).run (m.atCursor (c.advance 1)) =
      some (.ok (.ok e.value), (m.note e.flags).atCursor (c.advance (1 + e.length))) := by
  have hbehind := Cursor.rest_advance_one hrest
  apply run_attempt
  rw [escape_atCursor (h.advance 1) (by rwa [hbehind]), hbehind, he, carryOut_ok,
    Cursor.advance_one_advance hrest (by decide), Nat.add_comm]

/-- The routine goes on, or stops, where the escape did not fit. -/
theorem attempt_escape_of_error (strict : Bool) (mode : EscapeMode) (h : m.Admits c)
    (hrest : c.rest = CodeUnit.backslash :: rest)
    (hne : rest ≠ []) {f : Fault}
    (hf : Escape.body (octalRefusal strict mode) rest = .error f) :
    ∃ e, f.cause = .invalidEscape e ∧
      (attempt (escape strict mode) : Routine LexError _).run (m.atCursor (c.advance 1)) =
        some (.ok (.error e), m.atCursor (c.advance (1 + f.stop))) := by
  have hbehind := Cursor.rest_advance_one hrest
  obtain ⟨e, he⟩ := Escape.isInvalid_of_body hf
  refine ⟨e, he, run_attempt ?_⟩
  rw [escape_atCursor (h.advance 1) (by rwa [hbehind]), hbehind, hf, carryOut_error,
    Escape.flags_of_body_eq_error hf, note_empty,
    Cursor.advance_one_advance hrest (by decide) f.stop, Nat.add_comm f.stop, he]
  rfl

/-! ## Strings -/

/-- The closing quote. -/
theorem stringStep_quote (h : m.Admits c) (hstart : start ≤ c.location.offset)
    (hrest : c.rest = quote :: rest) (hquote : quote.isLineTerminator = false)
    (units : List CodeUnit) :
    (stringStep strict quote.toNat ⟨units, start⟩).run (m.atCursor c) =
      some (.ok (.done (units ++ m.source.extract start c.location.offset)),
        m.atCursor (c.advance 1)) := by
  unfold stringStep
  rw [run_state_bind, current_atCursor, hrest, unitAt_cons, if_pos rfl,
    run_bind_of_ok (sliceFrom_atCursor h start hstart),
    run_bind_of_ok (advance_atCursor h hrest hquote), run_pure]

/-- The end of the source, or of the line. -/
theorem stringStep_unterminated (hne : unitAt c.rest ≠ quote.toNat)
    (hend : c.rest = [] ∨ c.rest.head? = some CodeUnit.lineFeed ∨
      c.rest.head? = some CodeUnit.carriageReturn) (s : Copied) :
    (stringStep strict quote.toNat s).run (m.atCursor c) =
      some (.error ⟨.unterminatedString, c.location.wrap⟩, m.atCursor c) := by
  unfold stringStep
  rw [run_state_bind, current_atCursor, if_neg hne, run_ite, if_pos, run_failHere,
    location_atCursor]
  simpa [or_assoc] using hend

/-- A unit that denotes itself. -/
theorem stringStep_unit (h : m.Admits c) (hrest : c.rest = u :: rest) (hne : u ≠ quote)
    (hlines : ¬(u = CodeUnit.lineFeed ∨ u = CodeUnit.carriageReturn))
    (hescape : u ≠ CodeUnit.backslash) (s : Copied) :
    (stringStep strict quote.toNat s).run (m.atCursor c) =
      some (.ok (.again s), m.atCursor (c.advance 1)) := by
  rw [not_or] at hlines
  unfold stringStep
  simp only [run_state_bind, run_ite, current_atCursor, isAtEnd_atCursor, is_atCursor, hrest,
    unitAt_cons, List.head?_cons, List.isEmpty_cons, UInt16.toNat_inj, Option.some_beq_some,
    Bool.or_eq_true, beq_iff_eq, Bool.false_eq_true, false_or]
  rw [if_neg hne, if_neg (not_or.mpr hlines), if_neg hescape]
  by_cases hseparator : u = CodeUnit.lineSeparator ∨ u = CodeUnit.paragraphSeparator
  · have hline : u.isLineTerminator = true := by
      rcases hseparator with rfl | rfl <;> decide
    have hone : Escape.lineTerminatorLength c.rest = 1 := by
      cases rest with
      | nil => rw [hrest]; rfl
      | cons v rest => simp [hrest, Escape.lineTerminatorLength, hlines.2]
    rw [if_pos hseparator, run_bind_of_ok (consumeLineTerminator_atCursor h hrest hline), hone,
      run_pure]
  · have hline : u.isLineTerminator = false := by
      simpa [CodeUnit.isLineTerminator, hlines.1, hlines.2] using hseparator
    rw [if_neg hseparator, run_bind_of_ok (advance_atCursor h hrest hline), run_pure]

/-- A backslash at the end of the source. -/
theorem stringStep_backslash_end (h : m.Admits c) (hstart : start ≤ c.location.offset)
    (hrest : c.rest = [CodeUnit.backslash]) (hquote : CodeUnit.backslash ≠ quote)
    (units : List CodeUnit) :
    (stringStep strict quote.toNat ⟨units, start⟩).run (m.atCursor c) =
      some (.error ⟨.unterminatedString, (c.advance 1).location.wrap⟩,
        m.atCursor (c.advance 1)) := by
  have hend : (c.advance 1).rest = [] := Cursor.rest_advance_one hrest
  unfold stringStep
  simp only [run_state_bind, run_ite, current_atCursor, isAtEnd_atCursor, is_atCursor, hrest,
    unitAt_cons, List.head?_cons, List.isEmpty_cons, UInt16.toNat_inj]
  rw [if_neg hquote, if_neg (by decide), if_pos (by decide),
    run_bind_of_ok (sliceFrom_atCursor h start hstart),
    run_bind_of_ok (advance_atCursor h hrest (by decide)), run_state_bind, run_ite,
    isAtEnd_atCursor, hend, if_pos List.isEmpty_nil, run_failHere, location_atCursor]

/-- An escape copies the run before it, and a new run begins behind it. -/
theorem stringStep_escape (strict : Bool) (h : m.Admits c) (hstart : start ≤ c.location.offset)
    (hrest : c.rest = CodeUnit.backslash :: rest) (hne : rest ≠ [])
    (hquote : CodeUnit.backslash ≠ quote) (units : List CodeUnit) :
    (stringStep strict quote.toNat ⟨units, start⟩).run (m.atCursor c) =
      match Escape.body (octalRefusal strict .string) rest with
      | .error f => some (.error ⟨f.cause, c.location.wrap⟩, m.atCursor (c.advance (1 + f.stop)))
      | .ok e => some (.ok (.again ⟨units ++ m.source.extract start c.location.offset ++
            StringLiteral.contribution e.value, (c.advance (1 + e.length)).location.offset⟩),
          (m.note e.flags).atCursor (c.advance (1 + e.length))) := by
  have hbehind : (c.advance 1).rest = rest := Cursor.rest_advance_one hrest
  unfold stringStep
  simp only [run_state_bind, run_ite, current_atCursor, isAtEnd_atCursor, is_atCursor, hrest,
    unitAt_cons, List.head?_cons, List.isEmpty_cons, UInt16.toNat_inj]
  rw [if_neg hquote, if_neg (by decide), if_pos (by decide),
    run_bind_of_ok (sliceFrom_atCursor h start hstart),
    run_bind_of_ok (advance_atCursor h hrest (by decide)), run_state_bind, run_ite,
    isAtEnd_atCursor, hbehind, if_neg (by simpa using hne)]
  cases hbody : Escape.body (octalRefusal strict .string) rest with
  | error f =>
    obtain ⟨e, he, hattempt⟩ := attempt_escape_of_error strict .string h hrest hne hbody
    rw [run_bind_of_ok hattempt]
    simp only [he, run_failAt, location_atCursor]
  | ok e =>
    rw [run_bind_of_ok (attempt_escape_of_ok strict .string h hrest hne hbody)]
    rfl

/-- **The loop over a string.** The text copied so far and the run behind it are what was read. -/
theorem stringLoop_atCursor (strict : Bool) (h : m.Admits c) (hstart : start ≤ c.location.offset)
    (hquote : quote.isLineTerminator = false) (hescape : CodeUnit.backslash ≠ quote)
    (units : List CodeUnit) :
    (loop (stringStep strict quote.toNat) ⟨units, start⟩).run (m.atCursor c) =
      m.carryOut c.advance ((StringLiteral.body strict quote c.rest).mapValue
        (units ++ m.source.extract start c.location.offset ++ ·)) := by
  generalize hrest : c.rest = text
  -- the recursion of the reader: the end, the quote, a line end, a lone backslash, an escape that
  -- fails, an escape, and a unit that denotes itself
  fun_induction StringLiteral.body strict quote text generalizing m c units start with
  | case1 =>
    rw [run_loop_of_error (stringStep_unterminated (by rw [hrest]; exact
      (toNat_ne_endOfSource quote).symm) (.inl hrest) _)]
    exact (carryOut_failHere _).symm
  | case2 rest =>
    rw [run_loop_of_done (stringStep_quote h hstart hrest hquote units), Outcome.mapValue,
      carryOut_ok, note_empty, List.append_nil]
  | case3 u rest hne hlines =>
    have hend : c.rest.head? = some CodeUnit.lineFeed ∨
        c.rest.head? = some CodeUnit.carriageReturn := by
      simpa [hrest] using hlines
    rw [run_loop_of_error (stringStep_unterminated
      (by rw [hrest, unitAt_cons]; exact fun heq => hne (UInt16.toNat_inj.mp heq)) (.inr hend) _)]
    exact (carryOut_failHere _).symm
  | case4 =>
    rw [run_loop_of_error (stringStep_backslash_end h hstart hrest hescape units),
      Outcome.mapValue, carryOut_error, note_empty]
    rfl
  | case5 rest hne f hf =>
    have hround := stringStep_escape strict h hstart hrest hne hescape units
    rw [dite_eq_ite] at hf
    rw [octalRefusal, hf] at hround
    rw [run_loop_of_error hround, Outcome.mapValue, carryOut_error, note_empty]
    rfl
  | case6 rest hne e he _ _ ih =>
    have hround := stringStep_escape strict h hstart hrest hne hescape units
    rw [dite_eq_ite] at he
    rw [octalRefusal, he] at hround
    have hclean : Outcome.Clean rest (.ok e) := he ▸ Escape.clean_body _ rest
    have hcut : CleanCut c.rest (1 + e.length) := by
      rw [hrest]
      exact .cons (by decide) hclean
    have hbehind : (c.advance (1 + e.length)).rest = rest.drop e.length := by
      rw [Cursor.rest_advance, hrest, Nat.add_comm, List.drop_succ_cons]
    rw [run_loop_of_again hround,
      ih ((h.note e.flags).advance _) (Nat.le_refl _) _ hbehind, extract_self,
      Outcome.mapValue_mapValue, Outcome.mapValue_shift, carryOut_shift hcut, List.append_nil]
    simp only [Function.comp_def, List.append_assoc]
  | case7 u rest hne hlines hbackslash ih =>
    have hu : u ≠ CodeUnit.carriageReturn := fun heq => hlines (.inr heq)
    have hcut : CleanCut c.rest 1 := by
      rw [hrest]
      exact .one hu
    -- the unit stays in the run and is copied with it
    have hstart' : start ≤ (c.advance 1).location.offset := by
      rw [Cursor.offset_advance]
      omega
    rw [run_loop_of_again (stringStep_unit h hrest hne hlines hbackslash _),
      ih (h.advance 1) hstart' units (Cursor.rest_advance_one hrest), h.extract_succ hstart hrest,
      Outcome.mapValue_mapValue, Outcome.mapValue_shift, carryOut_shift hcut, note_empty]
    simp only [Function.comp_def, List.append_assoc, List.singleton_append]

/-- **A string literal.** -/
theorem string_atCursor (h : m.Admits c) (hrest : c.rest = quote :: rest)
    (hquote : quote.isQuote = true) :
    (string strict).run (m.atCursor c) =
      m.carryOut c.advance (StringLiteral.read strict c.rest) := by
  have hline : quote.isLineTerminator = false :=
    CodeUnit.isLineTerminator_of_class hquote (by decide)
  have hescape : CodeUnit.backslash ≠ quote := by
    rintro rfl
    exact absurd hquote (by decide)
  have hloop := stringLoop_atCursor strict (h.advance 1) (Nat.le_refl _) hline hescape []
  rw [extract_self, Cursor.rest_advance_one hrest] at hloop
  unfold string
  rw [run_state_bind, run_bind_of_ok (advance_atCursor h hrest hline), run_state_bind,
    current_atCursor, hrest, unitAt_cons, index_atCursor]
  rw [run_bind_pure hloop, StringLiteral.read, Outcome.mapValue_mapValue, Outcome.mapValue_shift,
    carryOut_shift_one hrest hline]
  rfl

/-! ## Templates -/

/-- Adding units with their line ends normalised. -/
theorem pushNormalized_eq (raw text : List CodeUnit) :
    pushNormalized raw text = raw ++ Template.normalize text := by
  fun_induction pushNormalized raw text with
  | case1 raw => exact (List.append_nil raw).symm
  | case2 raw u => rfl
  | case3 raw rest ih =>
    rw [ih, Template.normalize_crlf, List.append_assoc, List.singleton_append]
  | case4 raw v rest hv ih =>
    rw [ih, Template.normalize_return (by simpa using hv), List.append_assoc,
      List.singleton_append]
  | case5 raw u v rest hu ih =>
    rw [ih, Template.normalize_cons hu, List.append_assoc, List.singleton_append]

/-- The span that was copied, when its end is found. -/
def CopiedSpan.closed (x : CopiedSpan × Bool) : Template.Span := ⟨x.1.cooked, x.1.raw, x.2⟩

/-- What a span becomes when a run is copied. -/
theorem CopiedSpan.closed_flush (cooked : Option (List CodeUnit)) (raw run : List CodeUnit)
    (start : Nat) (last : Bool) :
    closed ((⟨cooked, raw, start⟩ : CopiedSpan).flush run, last) =
      (⟨some [], [], last⟩ : Template.Span).prepend (cooked.map (· ++ run)) (raw ++ run) := by
  cases cooked <;> simp [closed, flush, Template.Span.prepend]

theorem prepend_prepend_some (s : Template.Span) (cooked : Option (List CodeUnit))
    (units raw₁ raw₂ : List CodeUnit) :
    (s.prepend (some units) raw₂).prepend cooked raw₁ =
      s.prepend (cooked.map (· ++ units)) (raw₁ ++ raw₂) := by
  obtain ⟨_ | _, raw, last⟩ := s <;> cases cooked <;> simp [Template.Span.prepend]

theorem prepend_prepend_none (s : Template.Span) (cooked : Option (List CodeUnit))
    (raw₁ raw₂ : List CodeUnit) :
    (s.prepend none raw₂).prepend cooked raw₁ = s.prepend none (raw₁ ++ raw₂) := by
  cases cooked <;> simp [Template.Span.prepend]

variable {ctx : Context} {cooked : Option (List CodeUnit)} {raw : List CodeUnit}

theorem templateStep_end (hrest : c.rest = []) (s : CopiedSpan) :
    (templateStep ctx s).run (m.atCursor c) =
      some (.error ⟨.unterminatedTemplate, c.location.wrap⟩, m.atCursor c) := by
  unfold templateStep
  rw [run_state_bind, run_ite, isAtEnd_atCursor, hrest, if_pos List.isEmpty_nil, run_failHere,
    location_atCursor]

theorem templateStep_backtick (h : m.Admits c) (hstart : start ≤ c.location.offset)
    (hrest : c.rest = CodeUnit.backtick :: rest) :
    (templateStep ctx ⟨cooked, raw, start⟩).run (m.atCursor c) =
      some (.ok (.done ((⟨cooked, raw, start⟩ : CopiedSpan).flush
        (m.source.extract start c.location.offset), true)), m.atCursor (c.advance 1)) := by
  unfold templateStep
  simp only [run_state_bind, run_ite, isAtEnd_atCursor, is_atCursor, hrest, List.isEmpty_cons,
    List.head?_cons]
  rw [if_neg (by decide), if_pos (by decide), run_bind_of_ok (sliceFrom_atCursor h start hstart),
    run_bind_of_ok (advance_atCursor h hrest (by decide)), run_pure]

theorem templateStep_dollar (h : m.Admits c) (hstart : start ≤ c.location.offset)
    (hrest : c.rest = CodeUnit.dollar :: CodeUnit.leftBrace :: rest) :
    (templateStep ctx ⟨cooked, raw, start⟩).run (m.atCursor c) =
      some (.ok (.done ((⟨cooked, raw, start⟩ : CopiedSpan).flush
        (m.source.extract start c.location.offset), false)), m.atCursor (c.advance 2)) := by
  have hline : ∀ u ∈ c.rest.take 2, u.isLineTerminator = false := by
    rw [hrest, List.take_succ_cons, List.take_succ_cons, List.take_zero]
    exact Text.inLine_of_all rfl
  unfold templateStep
  simp only [run_state_bind, run_ite, isAtEnd_atCursor, is_atCursor, peekIs_atCursor h, hrest,
    List.isEmpty_cons, List.head?_cons, List.drop_succ_cons, List.drop_zero]
  rw [if_neg (by decide), if_neg (by decide), if_pos (by decide),
    run_bind_of_ok (sliceFrom_atCursor h start hstart), run_bind_of_ok (advanceBy_atCursor h hline),
    run_pure]

/-- A backslash copies the run before it. -/
theorem templateStep_backslash (ctx : Context) (cooked : Option (List CodeUnit))
    (raw : List CodeUnit) (h : m.Admits c) (hstart : start ≤ c.location.offset)
    (hrest : c.rest = CodeUnit.backslash :: rest) :
    (templateStep ctx ⟨cooked, raw, start⟩).run (m.atCursor c) =
      let s := (⟨cooked, raw, start⟩ : CopiedSpan).flush (m.source.extract start c.location.offset)
      if rest = [] then
        some (.error ⟨.unterminatedTemplate, (c.advance 1).location.wrap⟩,
          m.atCursor (c.advance 1))
      else
        (attempt (escape ctx.isStrict .template) >>= fun value => match value with
          | .ok p => resumeSpan (s.cook (p.elim [] CodePoint.encode)) c.location.offset
          | .error e =>
            if ctx.taggedTemplate then resumeSpan { s with cooked := none } c.location.offset
            else failAt (.invalidEscape e) c.location.wrap).run (m.atCursor (c.advance 1)) := by
  have hbehind : (c.advance 1).rest = rest := Cursor.rest_advance_one hrest
  unfold templateStep
  simp only [run_state_bind, run_ite, isAtEnd_atCursor, is_atCursor, hrest, List.isEmpty_cons,
    List.head?_cons]
  have hdollar : (some CodeUnit.backslash == some CodeUnit.dollar) = false := by decide
  rw [if_neg (by decide), if_neg (by decide), if_neg (by simp [hdollar]), if_pos (by decide),
    run_bind_of_ok (sliceFrom_atCursor h start hstart),
    run_bind_of_ok (advance_atCursor h hrest (by decide)), run_state_bind, run_ite,
    isAtEnd_atCursor, hbehind]
  simp only [List.isEmpty_iff]
  rfl

/-- Behind an escape a new run begins. -/
theorem resumeSpan_atCursor (h : m.Admits c) (hrest : c.rest = CodeUnit.backslash :: rest) {n : Nat}
    (hn : n ≤ rest.length) (s : CopiedSpan) (flags : TokenFlags) :
    (resumeSpan s c.location.offset).run ((m.note flags).atCursor (c.advance (1 + n))) =
      some (.ok (.again (s.resume
          (s.raw ++ Template.normalize (CodeUnit.backslash :: rest.take n))
          (c.advance (1 + n)).location.offset)),
        (m.note flags).atCursor (c.advance (1 + n))) := by
  have hle : c.location.offset ≤ (c.advance (1 + n)).location.offset := by
    rw [Cursor.offset_advance]
    omega
  have htaken : c.rest.take (1 + n) = CodeUnit.backslash :: rest.take n := by
    rw [hrest, Nat.add_comm, List.take_succ_cons]
  have htext : m.source.extract c.location.offset (c.advance (1 + n)).location.offset =
      CodeUnit.backslash :: rest.take n := by
    rw [h.extract_advance (Nat.le_refl _) (by rw [hrest, List.length_cons]; omega), extract_self,
      List.nil_append, htaken]
  unfold resumeSpan
  rw [run_bind_of_ok (sliceFrom_atCursor ((h.note flags).advance _) _ hle), run_state_bind,
    run_pure, pushNormalized_eq]
  show some (Except.ok (Step.again (s.resume (s.raw ++ Template.normalize
    (m.source.extract c.location.offset (c.advance (1 + n)).location.offset)) _)), _) = _
  rw [htext]
  rfl

/-- An escape copies the run before it and its own text, and a new run begins behind it. One that
fails does the same in a tagged template, but takes the cooked value away. -/
theorem templateStep_escape (ctx : Context) (cooked : Option (List CodeUnit))
    (raw : List CodeUnit) (h : m.Admits c) (hstart : start ≤ c.location.offset)
    (hrest : c.rest = CodeUnit.backslash :: rest) (hne : rest ≠ []) :
    (templateStep ctx ⟨cooked, raw, start⟩).run (m.atCursor c) =
      match Escape.body (some .templateOctal) rest with
      | .ok e =>
        some (.ok (.again ⟨(cooked.map (· ++ m.source.extract start c.location.offset)).map
              (· ++ e.value.elim [] CodePoint.encode),
            raw ++ m.source.extract start c.location.offset ++
              Template.normalize (CodeUnit.backslash :: rest.take e.length),
            (c.advance (1 + e.length)).location.offset⟩), m.atCursor (c.advance (1 + e.length)))
      | .error f =>
        if ctx.taggedTemplate then
          some (.ok (.again ⟨none, raw ++ m.source.extract start c.location.offset ++
              Template.normalize (CodeUnit.backslash :: rest.take f.stop),
            (c.advance (1 + f.stop)).location.offset⟩), m.atCursor (c.advance (1 + f.stop)))
        else some (.error ⟨f.cause, c.location.wrap⟩, m.atCursor (c.advance (1 + f.stop))) := by
  have hround := templateStep_backslash ctx cooked raw h hstart hrest
  rw [if_neg hne] at hround
  rw [hround]
  have hclean := Escape.clean_body (some .templateOctal) rest
  cases hbody : Escape.body (some .templateOctal) rest with
  | ok e =>
    rw [hbody] at hclean
    -- no escape of a template is an octal one, so none marks the token
    have hflags : e.flags = ∅ :=
      (Escape.unmarked_body isMark_ne_empty (by simp) rest).flags_eq_empty hbody
    have hresume := resumeSpan_atCursor h hrest hclean.le
    rw [run_bind_of_ok (attempt_escape_of_ok ctx.isStrict .template h hrest hne hbody)]
    simp only [hresume, hflags]
    rw [note_empty]
    rfl
  | error f =>
    rw [hbody] at hclean
    obtain ⟨e, he, hattempt⟩ :=
      attempt_escape_of_error ctx.isStrict .template h hrest hne hbody
    have hresume := fun s => resumeSpan_atCursor h hrest hclean.2.le s ∅
    simp only [note_empty] at hresume
    rw [run_bind_of_ok hattempt]
    simp only [run_ite, hresume, he, run_failAt]
    rfl

/-- A line end becomes a line feed. -/
theorem templateStep_return (ctx : Context) (cooked : Option (List CodeUnit))
    (raw : List CodeUnit) (h : m.Admits c) (hstart : start ≤ c.location.offset)
    (hrest : c.rest = CodeUnit.carriageReturn :: rest) :
    (templateStep ctx ⟨cooked, raw, start⟩).run (m.atCursor c) =
      let n := 1 + if rest.head? = some CodeUnit.lineFeed then 1 else 0
      let run := m.source.extract start c.location.offset
      some (.ok (.again ⟨(cooked.map (· ++ run)).map (· ++ [CodeUnit.lineFeed]),
        raw ++ run ++ [CodeUnit.lineFeed], (c.advance n).location.offset⟩),
        m.atCursor (c.advance n)) := by
  have hlength : Escape.lineTerminatorLength c.rest =
      1 + if rest.head? = some CodeUnit.lineFeed then 1 else 0 := by
    cases rest with
    | nil => rw [hrest]; rfl
    | cons v rest =>
      simp only [hrest, Escape.lineTerminatorLength, List.head?_cons, Option.some.injEq, true_and]
      split <;> rfl
  unfold templateStep
  simp only [run_state_bind, run_ite, isAtEnd_atCursor, is_atCursor, hrest, List.isEmpty_cons,
    List.head?_cons]
  have hdollar : (some CodeUnit.carriageReturn == some CodeUnit.dollar) = false := by decide
  rw [if_neg (by decide), if_neg (by decide), if_neg (by simp [hdollar]), if_neg (by decide),
    if_pos (by decide), run_bind_of_ok (sliceFrom_atCursor h start hstart),
    run_bind_of_ok (consumeLineTerminator_atCursor h hrest (by decide)), run_state_bind, run_pure,
    hlength]
  rfl

/-- A unit that denotes itself. -/
theorem templateStep_unit (h : m.Admits c) (hrest : c.rest = u :: rest)
    (htick : u ≠ CodeUnit.backtick)
    (hdollar : ¬(u = CodeUnit.dollar ∧ rest.head? = some CodeUnit.leftBrace))
    (hescape : u ≠ CodeUnit.backslash) (hreturn : u ≠ CodeUnit.carriageReturn) (s : CopiedSpan) :
    (templateStep ctx s).run (m.atCursor c) =
      some (.ok (.again s), m.atCursor (c.advance 1)) := by
  unfold templateStep
  simp only [run_state_bind, run_ite, isAtEnd_atCursor, is_atCursor, peekIs_atCursor h, hrest,
    List.isEmpty_cons, List.head?_cons, List.drop_succ_cons, List.drop_zero, Option.some_beq_some,
    Bool.or_eq_true, Bool.and_eq_true, beq_iff_eq]
  rw [if_neg (by decide), if_neg htick, if_neg hdollar, if_neg hescape, if_neg hreturn]
  by_cases hends : (u = CodeUnit.lineFeed ∨ u = CodeUnit.lineSeparator) ∨
      u = CodeUnit.paragraphSeparator
  · have hline : u.isLineTerminator = true := by
      rcases hends with (rfl | rfl) | rfl <;> decide
    have hone : Escape.lineTerminatorLength c.rest = 1 := by
      cases rest with
      | nil => rw [hrest]; rfl
      | cons v rest => simp [hrest, Escape.lineTerminatorLength, hreturn]
    rw [if_pos hends, run_bind_of_ok (consumeLineTerminator_atCursor h hrest hline), hone, run_pure]
  · have hline : u.isLineTerminator = false := by
      simpa [CodeUnit.isLineTerminator, hreturn, and_assoc] using hends
    rw [if_neg hends, run_bind_of_ok (advance_atCursor h hrest hline), run_pure]

/-- **The loop over a span.** The span copied so far and the run behind it are what was read. -/
theorem templateLoop_atCursor (ctx : Context) (cooked : Option (List CodeUnit))
    (raw : List CodeUnit) (h : m.Admits c) (hstart : start ≤ c.location.offset) :
    (loop (templateStep ctx) ⟨cooked, raw, start⟩ >>= fun x => pure (CopiedSpan.closed x)).run
        (m.atCursor c) =
      m.carryOut c.advance ((Template.span ctx.taggedTemplate c.rest).mapValue
        (·.prepend (cooked.map (· ++ m.source.extract start c.location.offset))
          (raw ++ m.source.extract start c.location.offset))) := by
  generalize hrest : c.rest = text
  -- the recursion of the reader: the end, a backtick, a substitution, a lone backslash, an escape,
  -- one that fails in a tagged template, one that fails, a carriage return, and any other unit
  fun_induction Template.span ctx.taggedTemplate text generalizing m c cooked raw start with
  | case1 =>
    rw [run_bind_of_error (run_loop_of_error (templateStep_end hrest _))]
    exact (carryOut_failHere _).symm
  | case2 rest =>
    rw [run_bind_of_ok (run_loop_of_done (templateStep_backtick h hstart hrest)), run_pure,
      CopiedSpan.closed_flush, Outcome.mapValue, carryOut_ok, note_empty]
  | case3 u rest htick hdollar =>
    obtain ⟨rfl, hbrace⟩ := hdollar
    obtain ⟨rest, rfl⟩ := List.head?_eq_some_iff.mp hbrace
    rw [run_bind_of_ok (run_loop_of_done (templateStep_dollar h hstart hrest)), run_pure,
      CopiedSpan.closed_flush, Outcome.mapValue, carryOut_ok, note_empty]
  | case4 =>
    have hround := templateStep_backslash ctx cooked raw h hstart hrest
    rw [if_pos rfl] at hround
    rw [run_bind_of_error (run_loop_of_error hround), Outcome.mapValue, carryOut_error, note_empty]
    rfl
  | case5 rest hne e he _ _ ih =>
    have hround := templateStep_escape ctx cooked raw h hstart hrest hne
    simp only [he] at hround
    have hclean : Outcome.Clean rest (.ok e) := he ▸ Escape.clean_body _ rest
    have hcut : CleanCut c.rest (1 + e.length) := by
      rw [hrest]
      exact .cons (by decide) hclean
    have hbehind : (c.advance (1 + e.length)).rest = rest.drop e.length := by
      rw [Cursor.rest_advance, hrest, Nat.add_comm, List.drop_succ_cons]
    rw [run_bind, run_loop_of_again hround, ← run_bind,
      ih _ _ (h.advance _) (Nat.le_refl _) hbehind, extract_self, Outcome.mapValue_mapValue,
      Outcome.mapValue_shift, carryOut_shift hcut, note_empty]
    simp only [Function.comp_def, prepend_prepend_some, List.append_nil, Option.map_id']
  | case6 rest hne f hf htagged _ _ ih =>
    have hround := templateStep_escape ctx cooked raw h hstart hrest hne
    simp only [hf, if_pos htagged] at hround
    have hclean : Outcome.Clean rest (.error f : Outcome _) := hf ▸ Escape.clean_body _ rest
    have hcut : CleanCut c.rest (1 + f.stop) := by
      rw [hrest]
      exact .cons (by decide) hclean.2
    have hbehind : (c.advance (1 + f.stop)).rest = rest.drop f.stop := by
      rw [Cursor.rest_advance, hrest, Nat.add_comm, List.drop_succ_cons]
    rw [run_bind, run_loop_of_again hround, ← run_bind,
      ih _ _ (h.advance _) (Nat.le_refl _) hbehind, extract_self, Outcome.mapValue_mapValue,
      Outcome.mapValue_shift, carryOut_shift hcut, note_empty]
    simp only [Function.comp_def, prepend_prepend_none, List.append_nil, Option.map_none]
  | case7 rest hne f hf htagged =>
    have hround := templateStep_escape ctx cooked raw h hstart hrest hne
    simp only [hf, if_neg htagged] at hround
    rw [run_bind_of_error (run_loop_of_error hround), Outcome.mapValue, carryOut_error, note_empty]
    rfl
  | case8 rest n =>
    rename_i ih
    have hn : n = if rest.head? = some CodeUnit.lineFeed then 1 else 0 := dite_eq_ite
    clear_value n
    have hcut : CleanCut c.rest (1 + n) := by
      rw [hrest, hn]
      exact Template.cleanCut_return rest
    have hbehind : (c.advance (1 + n)).rest = rest.drop n := by
      rw [Cursor.rest_advance, hrest, Nat.add_comm, List.drop_succ_cons]
    have hround := templateStep_return ctx cooked raw h hstart hrest
    rw [← hn] at hround
    rw [run_bind, run_loop_of_again hround, ← run_bind,
      ih _ _ (h.advance _) (Nat.le_refl _) hbehind, extract_self, Outcome.mapValue_mapValue,
      Outcome.mapValue_shift, carryOut_shift hcut, note_empty]
    simp only [Function.comp_def, prepend_prepend_some, List.append_nil, Option.map_id']
  | case9 u rest htick hdollar hescape hreturn ih =>
    have hcut : CleanCut c.rest 1 := by
      rw [hrest]
      exact .one hreturn
    -- the unit stays in the run and is copied with it
    have hstart' : start ≤ (c.advance 1).location.offset := by
      rw [Cursor.offset_advance]
      omega
    rw [run_bind, run_loop_of_again (templateStep_unit h hrest htick hdollar hescape hreturn _),
      ← run_bind, ih _ _ (h.advance 1) hstart' (Cursor.rest_advance_one hrest),
      h.extract_succ hstart hrest, Outcome.mapValue_mapValue, Outcome.mapValue_shift,
      carryOut_shift hcut, note_empty]
    simp only [Function.comp_def, prepend_prepend_some, Option.map_map, List.append_assoc]

/-- **A span of a template**, behind its opening delimiter. -/
theorem templateSpan_atCursor (h : m.Admits c) (first : Bool) :
    (templateSpan ctx first).run (m.atCursor c) =
      m.carryOut c.advance
        ((Template.span ctx.taggedTemplate c.rest).mapValue (Template.lexeme first)) := by
  have hloop := templateLoop_atCursor ctx (some []) [] h (Nat.le_refl _)
  have hwhole : (fun s : Template.Span => s.prepend (some []) []) = id := by
    funext s
    obtain ⟨_ | _, raw, last⟩ := s <;> rfl
  rw [extract_self, List.append_nil, Option.map_some, List.append_nil, hwhole,
    Outcome.mapValue_id] at hloop
  rw [← run_bind_pure hloop (Template.lexeme first), run_bind_assoc]
  rfl

/-- **A template**, from its opening delimiter of one unit on. -/
theorem template_atCursor (h : m.Admits c) (hrest : c.rest = u :: rest)
    (hu : u.isLineTerminator = false) (first : Bool) :
    (advance >>= fun _ => templateSpan ctx first).run (m.atCursor c) =
      m.carryOut c.advance (Template.read ctx.taggedTemplate first c.rest) := by
  rw [run_bind_of_ok (advance_atCursor h hrest hu), templateSpan_atCursor (h.advance 1),
    Cursor.rest_advance_one hrest, Template.read, hrest, List.drop_succ_cons, List.drop_zero,
    Outcome.mapValue_shift, carryOut_shift_one hrest hu]

end Routine

end EcmaLex
