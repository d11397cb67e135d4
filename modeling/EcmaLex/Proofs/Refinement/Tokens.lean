import EcmaLex.Machine.Tokens
import EcmaLex.Proofs.JsxNames
import EcmaLex.Proofs.Refinement.Literals
import EcmaLex.Proofs.Refinement.Names
import EcmaLex.Proofs.Refinement.Numbers
import EcmaLex.Proofs.Refinement.Punctuators
import EcmaLex.Proofs.RegExpLiterals

/-!
# Tokens on machine words

The routines for regular expressions and for JSX carry out what their readers say, and so does the
choice among all routines: `token_atCursor` puts the parts together.
-/

namespace EcmaLex.Routine

open Machine Text

/-! ## Patterns -/

/-- How far a pattern goes, as the result of a reader. -/
def patternOutcome : Except Nat Nat → Outcome Unit
  | .ok n => .ok ⟨(), n, ∅⟩
  | .error n => .error ⟨.unterminatedRegExp, n, n, ∅⟩

section Patterns
variable {m : Machine} {c : Cursor} {u v : CodeUnit} {rest text : List CodeUnit} {inClass : Bool}

/-- At the end of the source and at the end of a line. -/
theorem isAtEnd_or_isLineTerminator :
    ((m.atCursor c).isAtEnd || (m.atCursor c).current.isUnit CodeUnit.isLineTerminator) =
      c.rest.head?.all CodeUnit.isLineTerminator := by
  rw [isAtEnd_atCursor, current_atCursor, isUnit_unitAt]
  cases c.rest <;> rfl

theorem patternStep_end (hend : c.rest.head?.all CodeUnit.isLineTerminator = true) :
    (patternStep inClass).run (m.atCursor c) =
      some (.error ⟨.unterminatedRegExp, c.location.wrap⟩, m.atCursor c) := by
  unfold patternStep
  rw [run_state_bind, run_ite, isAtEnd_or_isLineTerminator, if_pos hend, run_failHere,
    location_atCursor]

/-- A backslash takes the next unit along, if the line goes on. -/
theorem patternStep_backslash (inClass : Bool) (h : m.Admits c)
    (hrest : c.rest = CodeUnit.backslash :: rest) :
    (patternStep inClass).run (m.atCursor c) =
      if rest.head?.all CodeUnit.isLineTerminator then
        some (.error ⟨.unterminatedRegExp, (c.advance 1).location.wrap⟩, m.atCursor (c.advance 1))
      else some (.ok (.again inClass), m.atCursor (c.advance 2)) := by
  have hbehind := Cursor.rest_advance_one hrest
  have hline : CodeUnit.backslash.isLineTerminator = false := by decide
  unfold patternStep
  rw [run_state_bind, run_ite, isAtEnd_or_isLineTerminator, hrest, List.head?_cons, Option.all_some,
    hline, if_neg Bool.false_ne_true, run_ite, is_atCursor, hrest, if_pos (by simp),
    run_bind_of_ok (advance_atCursor h hrest hline), run_state_bind, run_ite,
    isAtEnd_or_isLineTerminator, hbehind]
  cases rest with
  | nil => rfl
  | cons v rest =>
    rw [List.head?_cons, Option.all_some]
    cases hv : v.isLineTerminator with
    | true => rfl
    | false =>
      rw [if_neg Bool.false_ne_true, if_neg Bool.false_ne_true,
        run_bind_of_ok (advance_atCursor (h.advance 1) hbehind hv), run_pure,
        Cursor.advance_one_advance hrest hline]

/-- The slash at the end. -/
theorem patternStep_slash (hrest : c.rest = CodeUnit.slash :: rest) :
    (patternStep false).run (m.atCursor c) = some (.ok (.done ()), m.atCursor c) := by
  have hline : CodeUnit.slash.isLineTerminator = false := by decide
  unfold patternStep
  rw [run_state_bind, run_ite, isAtEnd_or_isLineTerminator, hrest, List.head?_cons, Option.all_some,
    hline, if_neg Bool.false_ne_true]
  simp only [run_ite, is_atCursor, hrest]
  rfl

/-- Any other unit opens a class, closes it, or does nothing to it. -/
theorem patternStep_unit (h : m.Admits c) (hrest : c.rest = u :: rest)
    (hline : u.isLineTerminator = false) (hescape : u ≠ CodeUnit.backslash)
    (hend : ¬(u = CodeUnit.slash ∧ inClass = false)) :
    (patternStep inClass).run (m.atCursor c) =
      some (.ok (.again (u == CodeUnit.leftBracket || (inClass && u != CodeUnit.rightBracket))),
        m.atCursor (c.advance 1)) := by
  have hgoes : ¬(u == CodeUnit.slash && !inClass) = true := by simpa using hend
  unfold patternStep
  rw [run_state_bind, run_ite, isAtEnd_or_isLineTerminator, hrest, List.head?_cons, Option.all_some,
    hline, if_neg Bool.false_ne_true]
  simp only [run_ite, is_atCursor, hrest, List.head?_cons, Option.some_beq_some]
  rw [if_neg (by simpa using hescape), if_neg hgoes,
    run_bind_of_ok (advance_atCursor h hrest hline), run_pure]
  rfl

/-- The position, seen from `n` units earlier. -/
def farther (n : Nat) : Except Nat Nat → Except Nat Nat
  | .ok k => .ok (k + n)
  | .error k => .error (k + n)

theorem patternOutcome_farther (n : Nat) (r : Except Nat Nat) :
    patternOutcome (farther n r) = (patternOutcome r).shift n ∅ := by
  cases r <;> simp [farther, patternOutcome, Outcome.shift, Nat.add_comm]

/-- The loop goes on behind `n` units. -/
theorem patternLoop_again {n : Nat} {inClass' : Bool} {r : Except Nat Nat}
    (hround : (patternStep inClass).run (m.atCursor c) =
      some (.ok (.again inClass'), m.atCursor (c.advance n)))
    (hcut : CleanCut c.rest n)
    (hloop : (loop patternStep inClass').run (m.atCursor (c.advance n)) =
      m.carryOut (c.advance n).advance (patternOutcome r)) :
    (loop patternStep inClass).run (m.atCursor c) =
      m.carryOut c.advance (patternOutcome (farther n r)) := by
  rw [run_loop_of_again hround, hloop, patternOutcome_farther, carryOut_shift hcut, note_empty]

theorem rest_advance_two (hrest : c.rest = u :: v :: rest) : (c.advance 2).rest = rest := by
  rw [Cursor.rest_advance, hrest, List.drop_succ_cons, List.drop_succ_cons, List.drop_zero]

theorem patternLoop_backslash (h : m.Admits c) (hrest : c.rest = CodeUnit.backslash :: v :: rest)
    (hv : ¬v.isLineTerminator = true) {r : Except Nat Nat}
    (hloop : (loop patternStep inClass).run (m.atCursor (c.advance 2)) =
      m.carryOut (c.advance 2).advance (patternOutcome r)) :
    (loop patternStep inClass).run (m.atCursor c) =
      m.carryOut c.advance (patternOutcome (farther 2 r)) := by
  have hround := patternStep_backslash inClass h hrest
  rw [List.head?_cons, Option.all_some, if_neg hv] at hround
  have hcut : CleanCut c.rest 2 := by
    rw [hrest]
    exact .succ (by decide) (.one (CodeUnit.ne_return_of_not_isLineTerminator hv))
  exact patternLoop_again hround hcut hloop

theorem patternLoop_unit (h : m.Admits c) (hrest : c.rest = u :: rest)
    (hline : ¬u.isLineTerminator = true) (hescape : u ≠ CodeUnit.backslash)
    (hend : ¬(u = CodeUnit.slash ∧ inClass = false)) {r : Except Nat Nat}
    (hloop : (loop patternStep
        (u == CodeUnit.leftBracket || (inClass && u != CodeUnit.rightBracket))).run
        (m.atCursor (c.advance 1)) = m.carryOut (c.advance 1).advance (patternOutcome r)) :
    (loop patternStep inClass).run (m.atCursor c) =
      m.carryOut c.advance (patternOutcome (farther 1 r)) := by
  have hline' : u.isLineTerminator = false := by simpa using hline
  have hcut : CleanCut c.rest 1 := by
    rw [hrest]
    exact .one (CodeUnit.ne_return_of_not_isLineTerminator hline)
  exact patternLoop_again (patternStep_unit h hrest hline' hescape hend) hcut hloop

/-- **The loop over a pattern** stops where the pattern ends, or where it turns out not to. -/
theorem patternLoop_atCursor (h : m.Admits c) (inClass : Bool) :
    (loop patternStep inClass).run (m.atCursor c) =
      m.carryOut c.advance (patternOutcome (RegExp.pattern inClass c.rest)) := by
  generalize hrest : c.rest = text
  -- the recursion of the search: the end, a line end, a backslash before either, a backslash with
  -- a unit, the slash, and a unit
  fun_induction RegExp.pattern inClass text generalizing c with
  | case1 =>
    rw [run_loop_of_error (patternStep_end (by rw [hrest]; rfl))]
    exact (carryOut_failHere _).symm
  | case2 _ u rest hline =>
    rw [run_loop_of_error (patternStep_end (by rw [hrest]; exact hline))]
    exact (carryOut_failHere _).symm
  | case3 inClass _ =>
    have hround := patternStep_backslash inClass h hrest
    rw [List.head?_nil, Option.all_none, if_pos rfl] at hround
    rw [run_loop_of_error hround, patternOutcome, carryOut_error, note_empty]
    rfl
  | case4 inClass v rest hv =>
    have hround := patternStep_backslash inClass h hrest
    rw [List.head?_cons, Option.all_some, if_pos hv] at hround
    rw [run_loop_of_error hround, patternOutcome, carryOut_error, note_empty]
    rfl
  | case5 inClass v rest hv n hn _ ih =>
    have hloop := ih (h.advance 2) (rest_advance_two hrest)
    rw [hn] at hloop
    exact patternLoop_backslash h hrest hv hloop
  | case6 inClass v rest hv n hn _ ih =>
    have hloop := ih (h.advance 2) (rest_advance_two hrest)
    rw [hn] at hloop
    exact patternLoop_backslash h hrest hv hloop
  | case7 inClass u rest hline hescape hend =>
    obtain ⟨rfl, rfl⟩ := hend
    rw [run_loop_of_done (patternStep_slash hrest), patternOutcome, carryOut_plain]
    rfl
  | case8 inClass u rest hline hescape hend inClass' n hn =>
    rename_i ih
    have hloop := ih (h.advance 1) (Cursor.rest_advance_one hrest)
    rw [hn] at hloop
    exact patternLoop_unit h hrest hline hescape hend hloop
  | case9 inClass u rest hline hescape hend inClass' n hn =>
    rename_i ih
    have hloop := ih (h.advance 1) (Cursor.rest_advance_one hrest)
    rw [hn] at hloop
    exact patternLoop_unit h hrest hline hescape hend hloop

end Patterns

/-! ## Flags of regular expressions -/

section Flags
variable {m : Machine} {c : Cursor} {u : CodeUnit} {rest text : List CodeUnit} {seen : List Char}

/-- One more flag, by the code point at the cursor. -/
theorem flagStep_atCursor (seen : List Char) (h : m.Admits c) (p : CodePoint) (width : Nat)
    (hhead : (Utf16.head? c.rest).getD (CodePoint.endOfSource, 0) = (p, width)) :
    (flagStep seen).run (m.atCursor c) =
      if p = CodeUnit.backslash.toNat then
        some (.error ⟨.invalidRegExpFlag '\\', c.location.wrap⟩, m.atCursor c)
      else if !p.isIdentifierPart then some (.ok (.done seen), m.atCursor c)
      else if !RegExp.isFlag p.toChar then
        some (.error ⟨.invalidRegExpFlag p.toChar, c.location.wrap⟩, m.atCursor c)
      else if seen.contains p.toChar then
        some (.error ⟨.duplicateRegExpFlag p.toChar, c.location.wrap⟩, m.atCursor c)
      else
        (advanceBy width >>= fun _ => pure (.again (seen ++ [p.toChar]))).run (m.atCursor c) := by
  have hcodePoint := currentCodePoint_atCursor (ε := LexError) h
  rw [hhead] at hcodePoint
  unfold flagStep
  rw [run_bind_of_ok hcodePoint]
  simp only [run_ite, run_failHere, location_atCursor, run_pure]

/-- What is read of flags, by the first code point. -/
theorem flags_cons {p : CodePoint} {width : Nat}
    (hhead : Utf16.head? (u :: rest) = some (p, width)) :
    RegExp.flags seen (u :: rest) =
      if p = CodeUnit.backslash.toNat then .failHere (.invalidRegExpFlag '\\')
      else if !p.isIdentifierPart then .ok ⟨[], 0, ∅⟩
      else if !RegExp.isFlag p.toChar then .failHere (.invalidRegExpFlag p.toChar)
      else if seen.contains p.toChar then .failHere (.duplicateRegExpFlag p.toChar)
      else ((RegExp.flags (seen ++ [p.toChar]) rest).shift 1 ∅).mapValue (p.toChar :: ·) := by
  have hoffender : Lexeme.offender (u :: rest) = p.toChar := by rw [Lexeme.offender, hhead]
  rw [RegExp.flags, hhead, Option.any_some, hoffender]
  simp only [Utf16.eq_toNat_iff_of_head? hhead (v := CodeUnit.backslash) (by decide)]

/-- **The loop over flags.** The flags that came before stay in front. -/
theorem flagLoop_atCursor (h : m.Admits c) (seen : List Char) :
    (loop flagStep seen).run (m.atCursor c) =
      m.carryOut c.advance ((RegExp.flags seen c.rest).mapValue (seen ++ ·)) := by
  induction hrest : c.rest generalizing c seen with
  | nil =>
    have hstep := flagStep_atCursor seen h CodePoint.endOfSource 0
      (by rw [hrest]; rfl)
    have hend : CodePoint.isIdentifierPart CodePoint.endOfSource = false :=
      (CodePoint.not_identifier_of_max_lt (by decide)).2
    rw [if_neg (by decide), hend, Bool.not_false, if_pos rfl] at hstep
    rw [run_loop_of_done hstep, RegExp.flags, Outcome.mapValue, carryOut_plain, List.append_nil]
    rfl
  | cons u rest ih =>
    obtain ⟨p, width, hhead⟩ := Utf16.exists_head?_cons u rest
    have hstep := flagStep_atCursor seen h p width
      (by rw [hrest, hhead]; rfl)
    rw [flags_cons hhead]
    by_cases hescape : p = CodeUnit.backslash.toNat
    · rw [if_pos hescape] at hstep ⊢
      rw [run_loop_of_error hstep]
      exact (carryOut_failHere _).symm
    rw [if_neg hescape] at hstep ⊢
    by_cases hpart : (!p.isIdentifierPart) = true
    · rw [if_pos hpart] at hstep ⊢
      rw [run_loop_of_done hstep, Outcome.mapValue, carryOut_plain, List.append_nil]
      rfl
    rw [if_neg hpart] at hstep ⊢
    by_cases hflag : (!RegExp.isFlag p.toChar) = true
    · rw [if_pos hflag] at hstep ⊢
      rw [run_loop_of_error hstep]
      exact (carryOut_failHere _).symm
    rw [if_neg hflag] at hstep ⊢
    by_cases hseen : seen.contains p.toChar = true
    · rw [if_pos hseen] at hstep ⊢
      rw [run_loop_of_error hstep]
      exact (carryOut_failHere _).symm
    rw [if_neg hseen] at hstep ⊢
    -- a flag is one unit, and ends no line
    obtain ⟨-, rfl⟩ := RegExp.toNat_of_isFlag hhead (by simpa using hflag)
    have hinLine := Identifier.inLine_of_part hhead (by simpa using hpart)
    have hline : u.isLineTerminator = false := by simpa using hinLine
    rw [run_bind_of_ok (advanceBy_atCursor h (by rwa [hrest])), run_pure] at hstep
    rw [run_loop_of_again hstep, ih (h.advance 1) _ (Cursor.rest_advance_one hrest),
      Outcome.mapValue_mapValue, Outcome.mapValue_shift, carryOut_shift_one hrest hline]
    simp only [Function.comp_def, List.append_assoc, List.singleton_append]

end Flags

/-! ## Regular expressions -/

section RegExps
variable {m : Machine} {c : Cursor} {text : List CodeUnit} {n : Nat}

/-- What follows an opening slash that was taken for one. -/
theorem carryOut_shift_opener {α : Type} (o : Outcome α) :
    (m.carryOut c.advancePastOpener (o.shift 1 ∅) : Option (Except LexError α × Machine)) =
      m.carryOut c.stepInLine.advance o := by
  cases o with
  | ok x => simp only [Outcome.shift, carryOut, Nat.add_comm 1, Cursor.advancePastOpener,
      TokenFlags.empty_union]
  | error f => simp only [Outcome.shift, carryOut, Nat.add_comm 1, Cursor.advancePastOpener,
      TokenFlags.empty_union]

/-- A pattern ends with a slash. -/
theorem slash_of_pattern (hn : RegExp.pattern false text = .ok n) :
    text.drop n = CodeUnit.slash :: text.drop (n + 1) ∧ CleanCut text n ∧
      CleanCut text (n + 1) := by
  have hslash := (RegExp.pattern_eq_ok_iff.mp hn).endsAt.1
  obtain ⟨hlt, hget⟩ := List.getElem?_eq_some_iff.mp hslash
  refine ⟨?_, .of_after (Nat.le_of_lt hlt) ?_, .of_before hlt ?_⟩
  · rw [List.drop_eq_getElem_cons hlt, hget]
  · rw [hslash]
    decide
  · rw [hslash]
    decide

/-- The flags, and the error where two of them exclude each other. -/
theorem regExpFlags_atCursor (h : m.Admits c) :
    regExpFlags.run (m.atCursor c) =
      match RegExp.flags [] c.rest with
      | .error f => m.carryOut c.advance (.error f)
      | .ok x =>
        if x.value.contains 'u' && x.value.contains 'v' then
          some (.error ⟨.conflictingRegExpFlags, m.tokenLocation⟩,
            (m.note x.flags).atCursor (c.advance x.length))
        else m.carryOut c.advance (.ok x) := by
  have hloop := flagLoop_atCursor h []
  unfold regExpFlags
  cases hflags : RegExp.flags [] c.rest with
  | error f =>
    rw [hflags] at hloop
    exact run_bind_of_error hloop
  | ok x =>
    rw [hflags] at hloop
    rw [run_bind_of_ok hloop]
    exact run_ite _ _ _ _

/-- What is read of an expression whose pattern has `n` units. -/
theorem read_of_pattern (hpattern : RegExp.pattern false (text.drop 1) = .ok n) :
    RegExp.read text =
      match RegExp.flags [] ((text.drop 1).drop (n + 1)) with
      | .error f => (Outcome.shift (n + 1) ∅ (.error f)).shift 1 ∅
      | .ok x =>
        if x.value.contains 'u' && x.value.contains 'v' then
          .error ⟨.conflictingRegExpFlags, 0, n + 1 + x.length + 1, x.flags⟩
        else
          (Outcome.shift (n + 1) ∅ (.ok ⟨⟨.regExpLiteral, .regExp (Utf16.lossy
            ((text.drop 1).take n)) (String.ofList x.value)⟩, x.length, x.flags⟩)).shift 1 ∅ := by
  unfold RegExp.read Reader.interpret RegExp.body
  dsimp only
  rw [hpattern]
  dsimp only
  cases RegExp.flags [] ((text.drop 1).drop (n + 1)) with
  | error f => rfl
  | ok x =>
    simp only [Outcome.shift, Outcome.mapValue, RegExp.Literal.toLexeme, TokenFlags.empty_union]
    cases x.value.contains 'u' && x.value.contains 'v' with
    | true =>
      rw [Nat.add_comm 1]
      rfl
    | false => rfl

/-- **A regular expression.** What stands at the cursor is taken for its opening slash. -/
theorem regExp_atCursor (h : m.Admits c) (hstart : m.tokenLocation = c.location.wrap) :
    regExp.run (m.atCursor c) = m.carryOut c.advancePastOpener (RegExp.read c.rest) := by
  -- the opener is passed as a unit of its line, whatever it is
  have hopened := h.stepInLine
  have hrest : c.rest.drop 1 = c.stepInLine.rest := Cursor.rest_stepInLine.symm
  have hloop := patternLoop_atCursor hopened false
  unfold regExp
  rw [run_bind_of_ok (advance_eq_stepInLine h), run_state_bind]
  cases hpattern : RegExp.pattern false c.stepInLine.rest with
  | error n =>
    have hread : RegExp.read c.rest =
        Outcome.shift 1 ∅ (.error ⟨.unterminatedRegExp, n, n, ∅⟩) := by
      unfold RegExp.read Reader.interpret RegExp.body
      dsimp only
      rw [hrest, hpattern]
      rfl
    rw [hpattern] at hloop
    rw [run_bind_of_error hloop, hread, carryOut_shift_opener]
    rfl
  | ok n =>
    obtain ⟨hslash, hcut, hcut'⟩ := slash_of_pattern hpattern
    have hslice := hopened.extract_advance (Nat.le_refl _) hcut.le
    rw [extract_self, List.nil_append] at hslice
    have hflags := regExpFlags_atCursor (hopened.advance (n + 1))
    rw [hpattern, patternOutcome, carryOut_plain] at hloop
    rw [run_bind_of_ok hloop, index_atCursor,
      run_bind_of_ok (sliceFrom_atCursor (hopened.advance n) _
        (by rw [Cursor.offset_advance]; omega)),
      run_bind_of_ok (advance_atCursor (hopened.advance n) hslash (by decide)),
      Cursor.advance_advance hcut, hslice, read_of_pattern (by rw [hrest, hpattern]), hrest,
      ← Cursor.rest_advance]
    cases hread : RegExp.flags [] (c.stepInLine.advance (n + 1)).rest with
    | error f =>
      rw [hread] at hflags
      rw [run_bind_of_error hflags, carryOut_shift_opener, carryOut_shift hcut', note_empty]
      rfl
    | ok x =>
      rw [hread] at hflags
      dsimp only at hflags ⊢
      split at hflags
      · next hconflict =>
        rw [run_bind_of_error hflags, if_pos hconflict, hstart, carryOut_error,
          Cursor.advance_advance hcut']
        rfl
      · next hconflict =>
        rw [run_bind_of_ok hflags, if_neg hconflict, carryOut_shift_opener, carryOut_shift hcut',
          note_empty]
        rfl

end RegExps

/-! ## JSX -/

section Jsx
variable {m : Machine} {c : Cursor} {u quote : CodeUnit} {rest : List CodeUnit}

/-- Past a unit of text, or past a whole line terminator sequence. -/
theorem cross_atCursor {ε : Type} (h : m.Admits c) (hrest : c.rest = u :: rest) :
    (cross : Routine ε Unit).run (m.atCursor c) =
      some (.ok (), m.atCursor (c.advance (Escape.lineTerminatorLength c.rest))) := by
  unfold cross
  rw [run_state_bind, run_ite, current_atCursor, isUnit_unitAt, hrest, List.head?_cons,
    Option.any_some]
  cases hu : u.isLineTerminator with
  | true =>
    rw [if_pos rfl, ← hrest]
    exact consumeLineTerminator_atCursor h hrest hu
  | false =>
    have hone : Escape.lineTerminatorLength (u :: rest) = 1 := by
      apply Escape.lineTerminatorLength_of_ne
      intro hcr
      exact CodeUnit.ne_return_of_not_isLineTerminator (by simp [hu]) hcr.1
    rw [if_neg Bool.false_ne_true, hone]
    exact advance_atCursor h hrest hu

/-- A run that begins with a line terminator sequence has it whole, if line feeds belong to it. -/
theorem length_takeWhile_lineTerminator {p : CodeUnit → Bool} (hlf : p CodeUnit.lineFeed = true)
    (hu : p u = true) (rest : List CodeUnit) :
    ((u :: rest).takeWhile p).length = Escape.lineTerminatorLength (u :: rest) +
      (((u :: rest).drop (Escape.lineTerminatorLength (u :: rest))).takeWhile p).length := by
  by_cases hcrlf : u = CodeUnit.carriageReturn ∧ rest.head? = some CodeUnit.lineFeed
  · obtain ⟨rfl, hhead⟩ := hcrlf
    obtain ⟨rest, rfl⟩ := List.head?_eq_some_iff.mp hhead
    simp [Escape.lineTerminatorLength, hu, hlf]
    omega
  · rw [Escape.lineTerminatorLength_of_ne hcrlf]
    simp [hu]
    omega

/-- **A loop that crosses** whatever belongs to a class, line ends included, comes to the end of the
run of that class. -/
theorem crossLoop_atCursor {ε : Type} {body : Unit → Routine ε (Step Unit Unit)}
    {p : CodeUnit → Bool} (hlf : p CodeUnit.lineFeed = true)
    (hgo : ∀ d : Cursor, d.rest.head?.any p = true →
      (body ()).run (m.atCursor d) = (cross >>= fun _ => pure (.again ())).run (m.atCursor d))
    (h : m.Admits c) :
    (loop body ()).run (m.atCursor c) =
      (loop body ()).run (m.atCursor (c.advance (c.rest.takeWhile p).length)) := by
  -- a round takes one or two units, so the induction is on what is left
  induction hn : c.rest.length using Nat.strongRecOn generalizing c with
  | ind n ih =>
    cases hrest : c.rest with
    | nil => rfl
    | cons u rest =>
      cases hu : p u with
      | false =>
        rw [List.takeWhile_cons_of_neg (by simp [hu])]
        rfl
      | true =>
        have hcut := Escape.cleanCut_lineTerminatorLength u rest
        have hpos := Escape.lineTerminatorLength_pos (u :: rest)
        have hrun := length_takeWhile_lineTerminator hlf hu rest
        have hround : (body ()).run (m.atCursor c) = some (.ok (.again ()),
            m.atCursor (c.advance (Escape.lineTerminatorLength c.rest))) := by
          rw [hgo c (by rw [hrest]; exact hu), run_bind_of_ok (cross_atCursor h hrest), run_pure]
        rw [hrest] at hround
        have hlt : (c.advance (Escape.lineTerminatorLength (u :: rest))).rest.length < n := by
          have hle := hcut.le
          rw [List.length_cons] at hle
          rw [Cursor.rest_advance, List.length_drop, ← hn, hrest, List.length_cons]
          omega
        rw [run_loop_of_again hround, ih _ hlt (h.advance _) rfl, Cursor.rest_advance, hrest, hrun,
          Cursor.advance_advance (by rwa [hrest])]

/-- Whether text goes on. -/
theorem isText_atCursor :
    (!(m.atCursor c).isAtEnd && !(m.atCursor c).is CodeUnit.lessThan &&
      !(m.atCursor c).is CodeUnit.leftBrace) = c.rest.head?.any Jsx.isText := by
  rw [isAtEnd_atCursor, is_atCursor, is_atCursor]
  cases c.rest <;> simp [Jsx.isText, bne]

theorem jsxTextStep_of_text (htext : c.rest.head?.any Jsx.isText = true) :
    (jsxTextStep ()).run (m.atCursor c) =
      (cross >>= fun _ => pure (.again ()) : Routine LexError _).run (m.atCursor c) := by
  unfold jsxTextStep
  rw [run_state_bind, isText_atCursor, htext, if_pos rfl]

theorem jsxTextStep_of_end (hend : c.rest.head?.any Jsx.isText = false) :
    (jsxTextStep ()).run (m.atCursor c) = some (.ok (.done ()), m.atCursor c) := by
  unfold jsxTextStep
  rw [run_state_bind, isText_atCursor, hend, if_neg Bool.false_ne_true, run_pure]

/-- Behind a run of a class no unit of it follows. -/
theorem any_behind_takeWhile (c : Cursor) (p : CodeUnit → Bool) :
    (c.advance (c.rest.takeWhile p).length).rest.head?.any p = false := by
  rw [Cursor.rest_advance, List.head?_drop]
  cases hv : c.rest[(c.rest.takeWhile p).length]? with
  | none => rfl
  | some v => exact Text.eq_false_of_getElem?_takeWhile hv

/-- **The next token between tags.** -/
theorem jsxChild_atCursor (h : m.Admits c) :
    jsxChild.run (m.atCursor c) = m.carryOut c.advance (Jsx.child c.rest) := by
  have htag := eat_atCursor (ε := LexError) h (u := CodeUnit.lessThan) (by decide)
  have hbrace := eat_atCursor (ε := LexError) h (u := CodeUnit.leftBrace) (by decide)
  unfold jsxChild
  rw [run_state_bind, run_ite, isAtEnd_atCursor]
  cases hrest : c.rest with
  | nil =>
    rw [List.isEmpty_nil, if_pos rfl, run_pure, Jsx.child, carryOut_plain]
    rfl
  | cons u rest =>
    simp only [hrest, List.head?_cons, Option.some.injEq] at htag hbrace
    rw [List.isEmpty_cons, if_neg Bool.false_ne_true, Jsx.child]
    by_cases hless : u = CodeUnit.lessThan
    · subst hless
      have hclosing := eat_atCursor (ε := LexError) (h.advance 1) (u := CodeUnit.slash) (by decide)
      rw [Cursor.rest_advance_one hrest, Cursor.advance_one_advance hrest (by decide)] at hclosing
      rw [if_pos rfl] at htag ⊢
      rw [run_bind_of_ok htag, if_pos rfl]
      by_cases hslash : rest.head? = some CodeUnit.slash
      · rw [if_pos hslash] at hclosing ⊢
        rw [run_bind_of_ok hclosing, if_pos rfl, run_pure, carryOut_plain]
        rfl
      · rw [if_neg hslash] at hclosing ⊢
        rw [run_bind_of_ok hclosing, if_neg Bool.false_ne_true, run_pure, carryOut_plain]
        rfl
    rw [if_neg hless] at htag ⊢
    rw [run_bind_of_ok htag, if_neg Bool.false_ne_true]
    by_cases hopen : u = CodeUnit.leftBrace
    · rw [if_pos hopen] at hbrace ⊢
      rw [run_bind_of_ok hbrace, if_pos rfl, run_pure, carryOut_plain]
      rfl
    rw [if_neg hopen] at hbrace ⊢
    have htext : Jsx.isText u = true := by simp [Jsx.isText, hless, hopen]
    have hrun : c.rest.takeWhile Jsx.isText = u :: rest.takeWhile Jsx.isText := by
      rw [hrest, List.takeWhile_cons_of_pos htext]
    have hloop : (loop jsxTextStep ()).run (m.atCursor c) =
        some (.ok (), m.atCursor (c.advance (u :: rest.takeWhile Jsx.isText).length)) := by
      rw [crossLoop_atCursor (by decide) (fun d => jsxTextStep_of_text) h,
        run_loop_of_done (jsxTextStep_of_end (any_behind_takeWhile c _)), hrun]
    have hslice := sliceFrom_atCursor (ε := LexError)
      (h.advance (u :: rest.takeWhile Jsx.isText).length) c.location.offset
      (by rw [Cursor.offset_advance]; omega)
    rw [h.extract_advance (Nat.le_refl _) (hrun ▸ (List.takeWhile_prefix _).length_le),
      extract_self, List.nil_append, ← hrun, ← List.prefix_iff_eq_take.mp (List.takeWhile_prefix _),
      hrun] at hslice
    rw [run_bind_of_ok hbrace, if_neg Bool.false_ne_true, run_bind_of_ok hloop, index_atCursor,
      run_bind_of_ok hslice, run_pure, carryOut_plain]

theorem jsxStringStep_of_text (htext : c.rest.head?.any (· != quote) = true) :
    (jsxStringStep quote.toNat ()).run (m.atCursor c) =
      (cross >>= fun _ => pure (.again ()) : Routine LexError _).run (m.atCursor c) := by
  have hquote : unitAt c.rest ≠ quote.toNat := by
    rw [Ne, unitAt_eq_toNat_iff]
    intro hhead
    simp [hhead] at htext
  have hend : c.rest.isEmpty = false := by
    cases hrest : c.rest with
    | nil => simp [hrest] at htext
    | cons u rest => rfl
  unfold jsxStringStep
  rw [run_state_bind, current_atCursor, if_neg hquote, isAtEnd_atCursor, hend,
    if_neg Bool.false_ne_true]

theorem jsxStringStep_of_quote (m : Machine) (hhead : c.rest.head? = some quote) :
    (jsxStringStep quote.toNat ()).run (m.atCursor c) = some (.ok (.done ()), m.atCursor c) := by
  unfold jsxStringStep
  rw [run_state_bind, current_atCursor, if_pos ((unitAt_eq_toNat_iff quote).mpr hhead), run_pure]

theorem jsxStringStep_of_nil (m : Machine) (quote : CodeUnit) (hrest : c.rest = []) :
    (jsxStringStep quote.toNat ()).run (m.atCursor c) =
      some (.error ⟨.unterminatedString, c.location.wrap⟩, m.atCursor c) := by
  unfold jsxStringStep
  rw [run_state_bind, current_atCursor, hrest, unitAt_nil,
    if_neg (toNat_ne_endOfSource quote).symm, isAtEnd_atCursor, hrest, List.isEmpty_nil, if_pos rfl,
    run_failHere, location_atCursor]

/-- **A quoted attribute value.** -/
theorem jsxString_atCursor (h : m.Admits c) (hrest : c.rest = quote :: rest)
    (hquote : quote.isQuote = true) :
    jsxString.run (m.atCursor c) = m.carryOut c.advance (Jsx.attributeValue c.rest) := by
  have hline : quote.isLineTerminator = false :=
    CodeUnit.isLineTerminator_of_class hquote (by decide)
  have hlf : (CodeUnit.lineFeed != quote) = true := by
    rw [bne_iff_ne]
    rintro rfl
    exact absurd hline (by decide)
  have hbehind := Cursor.rest_advance_one hrest
  have hopened := h.advance 1
  -- the loop comes to the next quote of this kind, or to the end
  have hend := any_behind_takeWhile (c.advance 1) (· != quote)
  have hloop := crossLoop_atCursor hlf (fun d => jsxStringStep_of_text) hopened
  have hprefix := List.takeWhile_prefix (· != quote) (l := rest)
  unfold jsxString
  rw [run_state_bind, run_bind_of_ok (advance_atCursor h hrest hline), run_state_bind,
    current_atCursor, hrest, unitAt_cons, index_atCursor, Jsx.attributeValue]
  rw [hbehind] at hend hloop
  generalize htext : rest.takeWhile (· != quote) = text at *
  have hafter : ((c.advance 1).advance text.length).rest = rest.drop text.length := by
    rw [Cursor.rest_advance, hbehind]
  have hwidth : text.length + (rest.drop text.length).length = rest.length := by
    have hle := hprefix.length_le
    rw [List.length_drop]
    omega
  cases hdrop : rest.drop text.length with
  | nil =>
    have hstep := jsxStringStep_of_nil m quote (hafter.trans hdrop)
    rw [hdrop, List.length_nil] at hwidth
    rw [run_bind_of_error (hloop.trans (run_loop_of_error hstep)), if_neg (by omega),
      carryOut_error, note_empty, Cursor.advance_one_advance hrest hline]
    rfl
  | cons v after =>
    rw [hafter, hdrop, List.head?_cons, Option.any_some] at hend
    obtain rfl : v = quote := by simpa using hend
    have hhead : ((c.advance 1).advance text.length).rest.head? = some v := by
      rw [hafter, hdrop, List.head?_cons]
    have hstep := jsxStringStep_of_quote m hhead
    have hcut : CleanCut (c.advance 1).rest text.length := by
      rw [hbehind]
      apply CleanCut.of_after hprefix.length_le
      rw [← List.head?_drop, hdrop, List.head?_cons, Ne, Option.some.injEq]
      exact (bne_iff_ne.mp hlf).symm
    have hslice := sliceFrom_atCursor (ε := LexError) (hopened.advance text.length)
      (c.advance 1).location.offset
      (by rw [(c.advance 1).offset_advance]; exact Nat.le_add_right _ _)
    rw [hopened.extract_advance (Nat.le_refl _) hcut.le, extract_self, List.nil_append, hbehind,
      ← List.prefix_iff_eq_take.mp hprefix] at hslice
    rw [hdrop, List.length_cons] at hwidth
    rw [run_bind_of_ok (hloop.trans (run_loop_of_done hstep)), run_bind_of_ok hslice,
      run_bind_of_ok (advance_atCursor (hopened.advance text.length) (hafter.trans hdrop) hline),
      run_pure, if_pos (by omega), carryOut_plain, Cursor.advance_advance hcut,
      Cursor.advance_one_advance hrest hline]

theorem jsxNameStep_atCursor (h : m.Admits c) (p : CodePoint) (width : Nat)
    (hhead : (Utf16.head? c.rest).getD (CodePoint.endOfSource, 0) = (p, width)) :
    (jsxNameStep ()).run (m.atCursor c) =
      if Jsx.isNamePart p then
        (advanceBy width >>= fun _ => pure (.again ()) : Routine LexError _).run (m.atCursor c)
      else some (.ok (.done ()), m.atCursor c) := by
  have hcodePoint := currentCodePoint_atCursor (ε := LexError) h
  rw [hhead] at hcodePoint
  unfold jsxNameStep
  rw [run_bind_of_ok hcodePoint]
  simp only [run_ite, run_pure]
  rfl

/-- A name part stands on one line. -/
theorem inLine_of_isNamePart {text : List CodeUnit} {p : CodePoint} {width : Nat}
    (hhead : Utf16.head? text = some (p, width)) (hp : Jsx.isNamePart p = true) :
    ∀ u ∈ text.take width, u.isLineTerminator = false := by
  rw [Jsx.isNamePart, Bool.or_eq_true, beq_iff_eq] at hp
  rcases hp with rfl | hp
  · apply Utf16.inLine_of_head? hhead
    cases text with
    | nil => rfl
    | cons u rest =>
      obtain rfl : u = CodeUnit.minus := (Utf16.eq_toNat_iff_of_head? hhead (by decide)).mp rfl
      rfl
  · exact Identifier.inLine_of_part hhead hp

/-- **The loop over a name** takes the longest run of name parts. -/
theorem jsxNameLoop_atCursor (h : m.Admits c) :
    (loop jsxNameStep ()).run (m.atCursor c) =
      some (.ok (), m.atCursor (c.advance (Jsx.nameLength c.rest))) := by
  generalize hrest : c.rest = text
  induction text using Utf16.induction generalizing c with
  | nil =>
    -- what stands for the end is part of no name, so the loop ends there
    have hpart : Jsx.isNamePart CodePoint.endOfSource = false := by
      rw [Jsx.isNamePart, (CodePoint.not_identifier_of_max_lt (by decide)).2]
      decide
    have hstep := jsxNameStep_atCursor h CodePoint.endOfSource 0 (by rw [hrest]; rfl)
    rw [hpart, if_neg Bool.false_ne_true] at hstep
    exact run_loop_of_done hstep
  | cons w rest p hp ih =>
    have hstep := jsxNameStep_atCursor h p w.length (by rw [hrest, hp]; rfl)
    rw [Jsx.nameLength_append hp]
    cases hpart : Jsx.isNamePart p with
    | false =>
      rw [hpart, if_neg Bool.false_ne_true] at hstep
      exact run_loop_of_done hstep
    | true =>
      have hline := inLine_of_isNamePart hp hpart
      have hcut : CleanCut c.rest w.length := by
        rw [hrest]
        apply CleanCut.of_not_mem (by simp)
        intro hmem
        exact absurd (hline _ hmem) (by decide)
      have hbehind : (c.advance w.length).rest = rest := by
        rw [Cursor.rest_advance, hrest, List.drop_left]
      rw [hpart, if_pos rfl, run_bind_of_ok (advanceBy_atCursor h (by rwa [hrest])),
        run_pure] at hstep
      rw [run_loop_of_again hstep, ih (h.advance _) hbehind, if_pos rfl,
        Cursor.advance_advance hcut]

/-- Whether a name begins is seen from its first code point. -/
theorem isIdentifierStart_getD (text : List CodeUnit) :
    ((Utf16.head? text).getD (CodePoint.endOfSource, 0)).1.isIdentifierStart =
      (Utf16.head? text).any fun (p, _) => p.isIdentifierStart := by
  cases Utf16.head? text with
  | none => exact (CodePoint.not_identifier_of_max_lt (by decide)).1
  | some x => rfl

/-- What begins no token is shown by its first code point. -/
theorem illegalCharacter_atCursor :
    (illegalCharacter ((Utf16.head? c.rest).getD (CodePoint.endOfSource, 0)).1).run (m.atCursor c) =
      m.carryOut c.advance (Lexeme.illegal c.rest) := by
  have hoffender : ((Utf16.head? c.rest).getD (CodePoint.endOfSource, 0)).1.toChar =
      Lexeme.offender c.rest := by
    rw [Lexeme.offender]
    cases Utf16.head? c.rest <;> rfl
  rw [run_illegalCharacter, hoffender, location_atCursor]
  exact (carryOut_failHere _).symm

/-- **A name in a tag.** -/
theorem jsxName_atCursor (h : m.Admits c) (hstart : m.tokenStart = c.location.offset) :
    jsxName.run (m.atCursor c) = m.carryOut c.advance (Jsx.name c.rest) := by
  have hcodePoint := currentCodePoint_atCursor (ε := LexError) h
  have hle := (Jsx.codePoints_nameLength c.rest).1
  have hslice := sliceFrom_atCursor (ε := LexError) (h.advance (Jsx.nameLength c.rest))
    c.location.offset (by rw [Cursor.offset_advance]; omega)
  rw [h.extract_advance (Nat.le_refl _) hle, extract_self, List.nil_append, ← hstart] at hslice
  unfold jsxName Jsx.name
  rw [run_bind_of_ok hcodePoint]
  dsimp only
  rw [run_ite, isIdentifierStart_getD]
  cases (Utf16.head? c.rest).any fun (p, _) => p.isIdentifierStart with
  | false => exact illegalCharacter_atCursor
  | true =>
    rw [Bool.not_true, if_neg Bool.false_ne_true, if_pos rfl, carryOut_plain,
      run_bind_of_ok (jsxNameLoop_atCursor h), run_state_bind]
    apply (run_bind_of_ok hslice).trans
    rw [run_pure]

end Jsx

/-! ## Any token -/

section
variable {m : Machine} {c : Cursor} {u : CodeUnit} {rest : List CodeUnit}

/-- The reader's choice for ASCII, in the order of the routine. -/
theorem read_of_isAscii (ctx : Context) {u : CodeUnit} (hu : u.isAscii = true)
    (rest : List CodeUnit) :
    Lexeme.read ctx (u :: rest) =
      if CodePoint.isAsciiIdentifierStart u.toNat then Identifier.read (u :: rest)
      else if u.isDecimalDigit then Numeric.read (modeOf ctx) (u :: rest)
      else if u.isQuote then StringLiteral.read ctx.isStrict (u :: rest)
      else if u = CodeUnit.backtick then Template.read ctx.taggedTemplate true (u :: rest)
      else if u = CodeUnit.period ∧ rest.head?.any CodeUnit.isDecimalDigit = true then
        Numeric.read (modeOf ctx) (u :: rest)
      else if u = CodeUnit.backslash then Identifier.read (u :: rest)
      else if u = CodeUnit.hash then Identifier.readPrivate (u :: rest)
      else if u = CodeUnit.slash then
        if ctx.allowRegExp then RegExp.read (u :: rest)
        else Lexeme.readPunctuator ctx.jsx (u :: rest)
      else Lexeme.readPunctuator ctx.jsx (u :: rest) := by
  have hlt : u.toNat < 0x80 := by simpa [CodeUnit.isAscii, UInt16.lt_iff_toNat_lt] using hu
  have hname : Lexeme.beginsName (u :: rest) = true ↔
      CodePoint.isAsciiIdentifierStart u.toNat = true ∨ u = CodeUnit.backslash := by
    simp [Lexeme.beginsName, Lexeme.head?_of_isAscii hu, CodePoint.isIdentifierStart,
      CodePoint.isStartBy, hlt, or_comm]
  have hnumber : Lexeme.beginsNumber (u :: rest) = true ↔ u.isDecimalDigit = true ∨
      u = CodeUnit.period ∧ rest.head?.any CodeUnit.isDecimalDigit = true := by
    simp [Lexeme.beginsNumber]
  have hdigit : u.isDecimalDigit = true → u ≠ CodeUnit.backslash := by
    rintro h rfl
    exact absurd h (by decide)
  have hquote : u.isQuote = true → u ≠ CodeUnit.backslash ∧ u ≠ CodeUnit.period := by
    intro h
    constructor <;> rintro rfl <;> exact absurd h (by decide)
  rw [Lexeme.read]
  simp only [hname, hnumber, hu, if_true]
  by_cases hstart : CodePoint.isAsciiIdentifierStart u.toNat = true
  · rw [if_pos (.inl hstart), if_pos hstart]
  rw [if_neg hstart]
  by_cases hd : u.isDecimalDigit = true
  · rw [if_neg (not_or.mpr ⟨hstart, hdigit hd⟩), if_pos (.inl hd), if_pos hd]
    rfl
  rw [if_neg hd]
  by_cases hq : u.isQuote = true
  · obtain ⟨hbackslash, hperiod⟩ := hquote hq
    rw [if_neg (not_or.mpr ⟨hstart, hbackslash⟩),
      if_neg (not_or.mpr ⟨hd, fun h => hperiod h.1⟩), if_pos hq, if_pos hq]
  simp only [hstart, hd, hq, false_or, if_false, Bool.false_eq_true]
  -- what is left are six units, each of which begins one kind of token
  by_cases hbacktick : u = CodeUnit.backtick
  · subst hbacktick
    rfl
  rw [if_neg hbacktick, if_neg hbacktick]
  by_cases hpoint : u = CodeUnit.period ∧ rest.head?.any CodeUnit.isDecimalDigit = true
  · rw [if_pos hpoint, if_pos hpoint, hpoint.1]
    rfl
  rw [if_neg hpoint, if_neg hpoint]
  by_cases hslash : u = CodeUnit.slash
  · simp only [hslash, true_and, if_true]
  · simp only [hslash, false_and, if_false]

/-- The reader's choice for all other units. -/
theorem read_of_not_isAscii (ctx : Context) (hu : u.isAscii = false) (rest : List CodeUnit) :
    Lexeme.read ctx (u :: rest) =
      if (Utf16.head? (u :: rest)).any fun (p, _) => p.isIdentifierStart then
        Identifier.read (u :: rest)
      else Lexeme.illegal (u :: rest) := by
  have hne {v : CodeUnit} (hv : v.isAscii = true) : u ≠ v := by
    rintro rfl
    rw [hv] at hu
    exact absurd hu (by decide)
  have hge : 0x80 ≤ u.toNat := by simpa [CodeUnit.isAscii, UInt16.lt_iff_toNat_lt] using hu
  have hdigit : u.isDecimalDigit = false := by
    simp only [CodeUnit.isDecimalDigit, Bool.and_eq_false_iff, decide_eq_false_iff_not,
      UInt16.le_iff_toNat_le, UInt16.reduceToNat]
    omega
  have hbackslash : u ≠ CodeUnit.backslash := hne (by decide)
  have hperiod : u ≠ CodeUnit.period := hne (by decide)
  have hquote : u.isQuote = false := by
    simp [CodeUnit.isQuote, hne (v := CodeUnit.doubleQuote) (by decide),
      hne (v := CodeUnit.singleQuote) (by decide)]
  have hname : Lexeme.beginsName (u :: rest) =
      (Utf16.head? (u :: rest)).any fun (p, _) => p.isIdentifierStart := by
    simp [Lexeme.beginsName, hbackslash]
  have hnumber : Lexeme.beginsNumber (u :: rest) = false := by
    simp [Lexeme.beginsNumber, hdigit, hperiod]
  have hbacktick : u ≠ CodeUnit.backtick := hne (by decide)
  have hhash : u ≠ CodeUnit.hash := hne (by decide)
  have hslash : u ≠ CodeUnit.slash := hne (by decide)
  simp only [Lexeme.read, hname, hnumber, hquote, hu, hbacktick, hhash, hslash, false_and,
    Bool.false_eq_true, if_false]

/-- **The token at the cursor**, where no line ends. The choice among the routines by the unit at
the cursor is the reader's choice by the text. -/
theorem token_atCursor (ctx : Context) (h : m.Admits c)
    (hline : c.rest.head?.any CodeUnit.isLineTerminator = false) :
    (token ctx).run (m.atCursor c) =
      (m.marked c).carryOut c.advance (Lexeme.read ctx c.rest) := by
  have hm := h.marked c
  have hstart : (m.marked c).tokenLocation = c.location.wrap := rfl
  have hmark : (m.atCursor c).markTokenStart = (m.marked c).atCursor c := rfl
  unfold token
  rw [run_update_bind, hmark, run_state_bind]
  generalize m.marked c = m at hm hstart
  rw [run_ite, isAtEnd_atCursor]
  cases hrest : c.rest with
  | nil =>
    rw [List.isEmpty_nil, if_pos rfl, run_pure, Lexeme.read, carryOut_plain]
    rfl
  | cons u rest =>
    have hcurrent : (m.atCursor c).current = u.toNat := by
      rw [current_atCursor, hrest, unitAt_cons]
    have hunit (p : CodeUnit → Bool) : CodePoint.isUnit p u.toNat = p u := by
      rw [CodePoint.isUnit, unit?_toNat, Option.any_some]
    have his (v : CodeUnit) : (m.atCursor c).is v = (u == v) := by
      rw [is_atCursor, hrest, List.head?_cons, Option.some_beq_some]
    have hpeek (p : CodeUnit → Bool) : (m.atCursor c).peek.isUnit p = rest.head?.any p := by
      rw [peek_atCursor hm, isUnit_unitAt, hrest, List.drop_succ_cons, List.drop_zero]
    rw [hrest, List.head?_cons, Option.any_some] at hline
    simp only [List.isEmpty_cons, Bool.false_eq_true, if_false, run_ite, hunit, his, hpeek,
      hcurrent, beq_iff_eq, Bool.and_eq_true]
    cases hascii : u.isAscii with
    | false =>
      have hge : ¬u.toNat < 0x80 := by
        simpa [CodeUnit.isAscii, UInt16.lt_iff_toNat_lt] using hascii
      have hcodePoint := currentCodePoint_atCursor (ε := LexError) hm
      rw [if_neg hge, read_of_not_isAscii ctx hascii rest, run_bind_of_ok hcodePoint]
      dsimp only
      rw [run_ite, isIdentifierStart_getD, hrest]
      split
      · next hname =>
        have hbegins : Lexeme.beginsName c.rest = true := by
          rw [Lexeme.beginsName, hrest, hname, Bool.or_true]
        rw [identifier_atCursor hm hbegins, hrest]
      · rw [← hrest]
        exact illegalCharacter_atCursor
    | true =>
      have hlt : u.toNat < 0x80 := by
        simpa [CodeUnit.isAscii, UInt16.lt_iff_toNat_lt] using hascii
      have hhead : Utf16.head? c.rest = some (u.toNat, 1) := by
        rw [hrest, Lexeme.head?_of_isAscii hascii]
      rw [if_pos hlt, read_of_isAscii ctx hascii rest, ← hrest]
      by_cases hname : CodePoint.isAsciiIdentifierStart u.toNat = true
      · have hbegins : Lexeme.beginsName c.rest = true := by
          simp [Lexeme.beginsName, hhead, CodePoint.isIdentifierStart, CodePoint.isStartBy, hlt,
            hname]
        rw [if_pos hname, if_pos hname, identifier_atCursor hm hbegins]
      rw [if_neg hname, if_neg hname]
      by_cases hdigit : u.isDecimalDigit = true
      · have hbegins : Lexeme.beginsNumber c.rest = true := by
          simp [Lexeme.beginsNumber, hrest, hdigit]
        rw [if_pos hdigit, if_pos hdigit, number_atCursor ctx hm hstart hbegins]
      rw [if_neg hdigit, if_neg hdigit]
      by_cases hquote : u.isQuote = true
      · rw [if_pos hquote, if_pos hquote, string_atCursor hm hrest hquote]
      rw [if_neg hquote, if_neg hquote]
      by_cases hbacktick : u = CodeUnit.backtick
      · rw [if_pos hbacktick, if_pos hbacktick, template_atCursor hm hrest hline]
      rw [if_neg hbacktick, if_neg hbacktick]
      by_cases hpoint : u = CodeUnit.period ∧ rest.head?.any CodeUnit.isDecimalDigit = true
      · have hbegins : Lexeme.beginsNumber c.rest = true := by
          simp [Lexeme.beginsNumber, hrest, hpoint]
        rw [if_pos hpoint, if_pos hpoint, number_atCursor ctx hm hstart hbegins]
      rw [if_neg hpoint, if_neg hpoint]
      by_cases hbackslash : u = CodeUnit.backslash
      · have hbegins : Lexeme.beginsName c.rest = true := by
          simp [Lexeme.beginsName, hrest, hbackslash]
        rw [if_pos hbackslash, if_pos hbackslash, identifier_atCursor hm hbegins]
      rw [if_neg hbackslash, if_neg hbackslash]
      by_cases hhash : u = CodeUnit.hash
      · rw [if_pos hhash, if_pos hhash, privateName_atCursor hm (hhash ▸ hrest)]
      rw [if_neg hhash, if_neg hhash]
      by_cases hslash : u = CodeUnit.slash
      · subst hslash
        rw [if_pos rfl, if_pos rfl]
        cases hregExp : ctx.allowRegExp with
        | false => rw [if_neg Bool.false_ne_true, slash_atCursor ctx hm hrest hregExp]
        | true =>
          have hseek : c.advancePastOpener = c.advance :=
            funext fun n => Cursor.advancePastOpener_eq (by rw [hrest]; rfl) hline n
          unfold slash
          rw [if_pos rfl, hregExp, if_pos rfl, regExp_atCursor hm hstart, hseek]
      rw [if_neg hslash, if_neg hslash, punctuator_atCursor ctx hm hstart hrest hline hascii hslash]

end

end EcmaLex.Routine
