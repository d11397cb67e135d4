import EcmaLex.Machine.Trivia
import EcmaLex.Proofs.Refinement.Tokens
import EcmaLex.Proofs.SkippedTrivia
import EcmaLex.Proofs.TriviaGrammar

/-!
# Trivia on machine words

One round of the loop over trivia passes the piece that the grammar sees at the cursor
(`skipPiece_atCursor`). Line ends within a block comment are noted as they are passed, which comes
to the same as noting them behind the comment: `Machine.passed` is the invariant of the loop.
-/

namespace EcmaLex

open Text

namespace Machine

variable {m : Machine} {c : Cursor}

/-- What is noted of units between tokens: whether a line ended in them. -/
def passed (m : Machine) (text : List CodeUnit) : Machine :=
  { m.note { newLineBefore := text.any CodeUnit.isLineTerminator } with
    lineStart := m.lineStart || text.any CodeUnit.isLineTerminator }

theorem passed_append (m : Machine) (a b : List CodeUnit) :
    (m.passed a).passed b = m.passed (a ++ b) := by
  simp only [passed, List.any_append, note, Bool.or_assoc]
  show ({ m with flags := (m.flags.union _).union _, lineStart := _ } : Machine) =
    { m with flags := m.flags.union _, lineStart := _ }
  simp only [TokenFlags.union, Bool.or_assoc]
  rfl

theorem passed_of_inLine {text : List CodeUnit} (h : text.any CodeUnit.isLineTerminator = false) :
    m.passed text = m := by
  simp only [passed, h, Bool.or_false]
  show ({ m with flags := m.flags ∪ ∅ } : Machine) = m
  rw [TokenFlags.union_empty]

theorem Admits.passed (h : m.Admits c) (text : List CodeUnit) : (m.passed text).Admits c :=
  ⟨h.place, h.room⟩

/-- Collecting a comment, if this is asked for. -/
def collected (m : Machine) (ctx : Context) (k : Comment) : Machine :=
  { m with comments := if ctx.collectComments then m.comments.push k else m.comments }

end Machine

namespace Routine

open Machine

variable {m : Machine} {c : Cursor} {u : CodeUnit} {rest : List CodeUnit}

/-! ## Units between tokens -/

theorem any_take_lineTerminator (hu : u.isLineTerminator = true) (rest : List CodeUnit) :
    ((u :: rest).take (Escape.lineTerminatorLength (u :: rest))).any CodeUnit.isLineTerminator =
      true := by
  obtain ⟨n, hn⟩ := Nat.exists_eq_succ_of_ne_zero
    (Nat.pos_iff_ne_zero.mp (Escape.lineTerminatorLength_pos (u :: rest)))
  rw [hn, List.take_succ_cons, List.any_cons, hu, Bool.true_or]

/-- Past a line terminator sequence. -/
theorem skipLineTerminator_atCursor {ε : Type} (h : m.Admits c) (hrest : c.rest = u :: rest)
    (hu : u.isLineTerminator = true) :
    (skipLineTerminator : Routine ε Unit).run (m.atCursor c) =
      let n := Escape.lineTerminatorLength c.rest
      some (.ok (), (m.passed (c.rest.take n)).atCursor (c.advance n)) := by
  unfold skipLineTerminator
  dsimp only
  rw [run_bind_of_ok (consumeLineTerminator_atCursor h hrest hu), run_update, Machine.passed]
  rw [hrest, any_take_lineTerminator hu]
  simp only [Bool.or_true]
  rfl

/-! ## Block comments -/

/-- Before the first closing delimiter a unit belongs to the text. -/
theorem blockText?_cons (hopen : ¬(u = CodeUnit.star ∧ rest.head? = some CodeUnit.slash)) :
    Trivia.blockText? (u :: rest) = (Trivia.blockText? rest).map (u :: ·) := by
  cases rest with
  | nil => rfl
  | cons v rest => exact if_neg (by simpa using hopen)

/-- A line terminator sequence belongs to the text whole. -/
theorem blockText?_lineTerminator
    (hopen : ¬(u = CodeUnit.star ∧ rest.head? = some CodeUnit.slash)) :
    Trivia.blockText? (u :: rest) =
      (Trivia.blockText? ((u :: rest).drop (Escape.lineTerminatorLength (u :: rest)))).map
        ((u :: rest).take (Escape.lineTerminatorLength (u :: rest)) ++ ·) := by
  by_cases hcrlf : u = CodeUnit.carriageReturn ∧ rest.head? = some CodeUnit.lineFeed
  · obtain ⟨rfl, hhead⟩ := hcrlf
    obtain ⟨rest, rfl⟩ := List.head?_eq_some_iff.mp hhead
    have hreturn : CodeUnit.carriageReturn ≠ CodeUnit.star := by decide
    have hfeed : CodeUnit.lineFeed ≠ CodeUnit.star := by decide
    rw [blockText?_cons (fun h => hreturn h.1), blockText?_cons (fun h => hfeed h.1),
      Option.map_map]
    rfl
  · rw [Escape.lineTerminatorLength_of_ne hcrlf, blockText?_cons hopen]
    rfl

/-- A unit of a block comment. -/
theorem blockStep_unit (h : m.Admits c) (hrest : c.rest = u :: rest)
    (hopen : ¬(u = CodeUnit.star ∧ rest.head? = some CodeUnit.slash)) :
    (blockStep ()).run (m.atCursor c) =
      let n := Escape.lineTerminatorLength c.rest
      some (.ok (.again ()), (m.passed (c.rest.take n)).atCursor (c.advance n)) := by
  unfold blockStep
  simp only [run_state_bind, run_ite, isAtEnd_atCursor, is_atCursor, peekIs_atCursor h,
    current_atCursor, isUnit_unitAt, hrest, List.isEmpty_cons, List.head?_cons, Option.any_some,
    List.drop_succ_cons, List.drop_zero, Bool.false_eq_true, if_false, Option.some_beq_some,
    Bool.and_eq_true, beq_iff_eq]
  rw [if_neg hopen]
  cases hu : u.isLineTerminator with
  | true =>
    rw [if_pos rfl, run_bind_of_ok (skipLineTerminator_atCursor h hrest hu), run_pure, hrest]
  | false =>
    have hone : Escape.lineTerminatorLength (u :: rest) = 1 := by
      apply Escape.lineTerminatorLength_of_ne
      intro hcr
      exact CodeUnit.ne_return_of_not_isLineTerminator (by simp [hu]) hcr.1
    rw [if_neg Bool.false_ne_true, run_bind_of_ok (advance_atCursor h hrest hu), run_pure, hone,
      passed_of_inLine (by simp [hu])]

/-- **The loop over a block comment** comes to its closing delimiter, or to the end. -/
theorem blockLoop_atCursor (h : m.Admits c) :
    (loop blockStep ()).run (m.atCursor c) =
      match Trivia.blockText? c.rest with
      | some text => some (.ok (c.location.offset + text.length),
          (m.passed text).atCursor (c.advance (text.length + 2)))
      | none => some (.error ⟨.unterminatedComment, (c.advance c.rest.length).location.wrap⟩,
          (m.passed c.rest).atCursor (c.advance c.rest.length)) := by
  -- a round takes one or two units, so the induction is on what is left
  induction hn : c.rest.length using Nat.strongRecOn generalizing m c with
  | ind n ih =>
    cases hrest : c.rest with
    | nil =>
      obtain rfl : n = 0 := by simpa [hrest] using hn.symm
      apply run_loop_of_error
      unfold blockStep
      rw [run_state_bind, run_ite, isAtEnd_atCursor, hrest, List.isEmpty_nil, if_pos rfl,
        run_failHere, passed_of_inLine rfl]
      rfl
    | cons u rest =>
      by_cases hclose : u = CodeUnit.star ∧ rest.head? = some CodeUnit.slash
      · obtain ⟨rfl, hhead⟩ := hclose
        obtain ⟨rest, rfl⟩ := List.head?_eq_some_iff.mp hhead
        have hline : ∀ u ∈ c.rest.take 2, u.isLineTerminator = false := by
          rw [hrest, List.take_succ_cons, List.take_succ_cons, List.take_zero]
          exact Text.inLine_of_all rfl
        have hfound : Trivia.blockText? (CodeUnit.star :: CodeUnit.slash :: rest) = some [] :=
          if_pos ⟨rfl, rfl⟩
        rw [hfound]
        apply run_loop_of_done
        unfold blockStep
        simp only [run_state_bind, run_ite, isAtEnd_atCursor, is_atCursor, peekIs_atCursor h, hrest,
          List.isEmpty_cons, List.head?_cons, List.drop_succ_cons, List.drop_zero]
        rw [if_neg Bool.false_ne_true, if_pos (by decide),
          run_bind_of_ok (advanceBy_atCursor h hline), run_pure, passed_of_inLine rfl]
        rfl
      · have hcut := Escape.cleanCut_lineTerminatorLength u rest
        have hpos := Escape.lineTerminatorLength_pos (u :: rest)
        have hround := blockStep_unit h hrest hclose
        rw [hrest] at hround
        rw [blockText?_lineTerminator hclose]
        generalize Escape.lineTerminatorLength (u :: rest) = k at *
        have hle := hcut.le
        have hwidth : ((u :: rest).take k).length = k := List.length_take_of_le hle
        have hlength : (c.advance k).rest.length + k = n := by
          rw [Cursor.rest_advance, List.length_drop, ← hn, hrest]
          omega
        -- what has been passed is noted before the rest of the comment is
        have hloop := ih _ (by omega) ((h.passed ((u :: rest).take k)).advance k) rfl
        rw [Cursor.rest_advance, hrest, Cursor.offset_advance, hrest, hwidth] at hloop
        rw [run_loop_of_again hround, hloop]
        cases Trivia.blockText? ((u :: rest).drop k) with
        | some text =>
          simp only [Option.map_some, passed_append, List.length_append, hwidth, Nat.add_assoc,
            Cursor.advance_advance (hrest ▸ hcut)]
        | none =>
          have hend : k + ((u :: rest).drop k).length = n := by
            rw [List.length_drop, ← hn, hrest]
            omega
          simp only [Option.map_none, passed_append, List.take_append_drop,
            Cursor.advance_advance (hrest ▸ hcut), hend]

/-! ## Comments -/

/-- A comment between two places is collected with the text between its delimiters. -/
theorem recordComment_atCursor {ε : Type} (ctx : Context) (kind : Comment.Kind) (start : Machine)
    {i j : Nat} (hij : i ≤ j) (hj : j ≤ m.source.length) :
    (recordComment ctx kind start i j : Routine ε Unit).run (m.atCursor c) =
      some (.ok (), (m.collected ctx ⟨kind, Utf16.lossy (m.source.extract i j), start.location,
        c.location.wrap⟩).atCursor c) := by
  unfold recordComment collected
  cases ctx.collectComments with
  | false => rfl
  | true =>
    rw [Bool.not_true, if_neg Bool.false_ne_true, slice, run_bind_assoc, run_state_bind,
      source_atCursor, if_pos ⟨hij, hj⟩]
    rfl

/-- Past the opening delimiter of a comment. -/
theorem advanceBy_opener {ε : Type} {kind : Comment.Kind} (h : m.Admits c)
    (hpre : kind.opener <+: c.rest) :
    (advanceBy kind.opener.length : Routine ε Unit).run (m.atCursor c) =
      some (.ok (), m.atCursor (c.advance kind.opener.length)) := by
  apply advanceBy_atCursor h
  rw [← List.prefix_iff_eq_take.mp hpre]
  cases kind <;> exact Text.inLine_of_all rfl

theorem cleanCut_opener {kind : Comment.Kind} {text : List CodeUnit} (hpre : kind.opener <+: text) :
    CleanCut text kind.opener.length :=
  .of_isPrefixOf hpre (Trivia.Written.return_not_mem_opener kind)

/-- **A comment up to the end of its line.** -/
theorem skipSingleLineComment_atCursor {ε : Type} (ctx : Context) (kind : Comment.Kind)
    (h : m.Admits c) (hpre : kind.opener <+: c.rest) :
    let text := (c.rest.drop kind.opener.length).takeWhile fun u => !u.isLineTerminator
    let stop := c.advance (kind.opener.length + text.length)
    (skipSingleLineComment ctx kind kind.opener.length : Routine ε Unit).run (m.atCursor c) =
      some (.ok (), (m.collected ctx ⟨kind, Utf16.lossy text, c.location.wrap,
        stop.location.wrap⟩).atCursor stop) := by
  intro text stop
  have hopened := h.advance kind.opener.length
  have hprefix : text <+: (c.advance kind.opener.length).rest := List.takeWhile_prefix _
  have hstop : (c.advance kind.opener.length).advance text.length = stop :=
    Cursor.advance_advance (cleanCut_opener hpre) _
  have hrun := advanceWhile_atCursor (ε := ε)
    (p := fun u => u != CodePoint.endOfSource && !u.isUnit CodeUnit.isLineTerminator)
    (q := fun u => !u.isLineTerminator) hopened rfl
    (fun u => by simp [CodePoint.isUnit, toNat_ne_endOfSource]) (fun u hu => by simpa using hu)
  have hslice := hopened.extract_advance (Nat.le_refl _) hprefix.length_le
  rw [extract_self, List.nil_append, ← List.prefix_iff_eq_take.mp hprefix, hstop] at hslice
  rw [show (c.advance kind.opener.length).rest.takeWhile (fun u => !u.isLineTerminator) = text
    from rfl, hstop] at hrun
  have hle : (c.advance kind.opener.length).location.offset ≤ stop.location.offset := by
    rw [← hstop, (c.advance kind.opener.length).offset_advance]
    exact Nat.le_add_right _ _
  unfold skipSingleLineComment
  rw [run_state_bind, run_bind_of_ok (advanceBy_opener h hpre), run_state_bind,
    run_bind_of_ok hrun, run_state_bind, index_atCursor, index_atCursor,
    recordComment_atCursor ctx kind _ hle (h.advance _).place.offset_le, hslice, location_atCursor]

/-- **A block comment.** -/
theorem skipMultiLineComment_atCursor (ctx : Context) (h : m.Admits c)
    (hpre : Comment.Kind.multiLine.opener <+: c.rest) :
    (skipMultiLineComment ctx).run (m.atCursor c) =
      match Trivia.blockText? (c.rest.drop 2) with
      | some text =>
        let stop := c.advance (2 + text.length + 2)
        some (.ok (), ((m.passed text).collected ctx ⟨.multiLine, Utf16.lossy text, c.location.wrap,
          stop.location.wrap⟩).atCursor stop)
      | none =>
        let stop := c.advance c.rest.length
        some (.error ⟨.unterminatedComment, stop.location.wrap⟩,
          (m.passed (c.rest.drop 2)).atCursor stop) := by
  have hopened := h.advance 2
  have hcut : CleanCut c.rest 2 := cleanCut_opener hpre
  have hopen : (advanceBy 2 : Routine LexError Unit).run (m.atCursor c) =
      some (.ok (), m.atCursor (c.advance 2)) := advanceBy_opener h hpre
  have hloop := blockLoop_atCursor hopened
  unfold skipMultiLineComment
  rw [run_state_bind, run_bind_of_ok hopen, run_state_bind, index_atCursor]
  rw [Cursor.rest_advance] at hloop
  cases htext : Trivia.blockText? (c.rest.drop 2) with
  | none =>
    have hend : (c.advance 2).advance (c.rest.drop 2).length = c.advance c.rest.length := by
      have hle := hcut.le
      rw [Cursor.advance_advance hcut, List.length_drop, Nat.add_sub_cancel' hle]
    rw [htext] at hloop
    rw [run_bind_of_error hloop, hend]
  | some text =>
    obtain ⟨rest, hrest, -⟩ := Trivia.eq_append_of_blockText? htext
    have hprefix : text <+: (c.advance 2).rest := by
      rw [Cursor.rest_advance, hrest, List.append_assoc]
      exact List.prefix_append _ _
    have hoffset : ((c.advance 2).advance text.length).location.offset =
        (c.advance 2).location.offset + text.length := by
      rw [(c.advance 2).offset_advance, List.length_take_of_le hprefix.length_le]
    have hslice := hopened.extract_advance (Nat.le_refl _) hprefix.length_le
    rw [extract_self, List.nil_append, ← List.prefix_iff_eq_take.mp hprefix, hoffset] at hslice
    have hj : (c.advance 2).location.offset + text.length ≤ (m.passed text).source.length := by
      rw [← hoffset]
      exact (hopened.advance _).place.offset_le
    rw [htext] at hloop
    rw [run_bind_of_ok hloop, recordComment_atCursor ctx .multiLine _ (Nat.le_add_right _ _) hj,
      Cursor.advance_advance hcut, location_atCursor]
    show some
      (_, (Machine.collected _ ctx ⟨_, Utf16.lossy (m.source.extract _ _), _, _⟩).atCursor _) =
      _
    rw [hslice]
    rfl

end Routine

/-! ## Scanners as machines -/

/-- A comment with its locations as words hold them. -/
def Comment.wrap (k : Comment) : Comment := { k with start := k.start.wrap, stop := k.stop.wrap }

namespace Machine

/-- The machine that stands where a scanner does. -/
def image (b : Build) (source : List CodeUnit) (s : Scanner) : Machine where
  build := b
  source
  index := s.cursor.location.offset
  line := .ofNat s.cursor.location.line
  column := .ofNat s.cursor.location.column
  current := unitAt s.cursor.rest
  tokenStart := s.tokenStart.location.offset
  tokenLine := .ofNat s.tokenStart.location.line
  tokenColumn := .ofNat s.tokenStart.location.column
  flags := s.flags
  lineStart := s.lineStart
  comments := s.comments.map Comment.wrap

variable {b : Build} {source : List CodeUnit} {s : Scanner} {collect : Bool}

theorem image_eq_atCursor : image b source s = (image b source s).atCursor s.cursor := rfl

theorem image_pass_blank : image b source (s.pass collect .blank) =
    (image b source s).atCursor (s.cursor.advance 1) := by
  have hflags : s.flags ∪ { newLineBefore := false } = s.flags := TokenFlags.union_empty _
  simp only [image, Scanner.pass, Trivia.endsLine, Trivia.length, hflags, Bool.or_false]
  rfl

theorem image_pass_lineBreak {u : CodeUnit} {rest : List CodeUnit}
    (hrest : s.cursor.rest = u :: rest)
    (hu : u.isLineTerminator = true) :
    let n := Escape.lineTerminatorLength s.cursor.rest
    image b source (s.pass collect (.lineBreak
        (u == CodeUnit.carriageReturn && rest.head? == some CodeUnit.lineFeed))) =
      ((image b source s).passed (s.cursor.rest.take n)).atCursor (s.cursor.advance n) := by
  intro n
  have hlength : (Trivia.lineBreak (u == CodeUnit.carriageReturn &&
      rest.head? == some CodeUnit.lineFeed)).length = n := by
    cases rest <;> simp [n, hrest, Trivia.length, Escape.lineTerminatorLength]
  have hline : (s.cursor.rest.take n).any CodeUnit.isLineTerminator = true := by
    rw [show n = Escape.lineTerminatorLength s.cursor.rest from rfl, hrest]
    exact Routine.any_take_lineTerminator hu rest
  simp only [image, Scanner.pass, hlength, passed, hline, Trivia.endsLine, Bool.or_true]
  rfl

theorem image_pass_comment (ctx : Context) (kind : Comment.Kind) (text : List CodeUnit) :
    let stop := s.cursor.advance (Trivia.comment kind text).length
    image b source (s.pass ctx.collectComments (.comment kind text)) =
      (((image b source s).passed text).collected ctx ⟨kind, Utf16.lossy text,
        s.cursor.location.wrap, stop.location.wrap⟩).atCursor stop := by
  intro stop
  unfold image Scanner.pass collected
  cases ctx.collectComments with
  | false => rfl
  | true =>
    simp only [if_true, Array.map_push]
    rfl

theorem image_pass_unclosed (text : List CodeUnit) :
    image b source (s.pass collect (.unclosed text)) =
      ((image b source s).passed text).atCursor (s.cursor.advance (Trivia.unclosed text).length) :=
  rfl

end Machine

namespace Routine

open Machine

variable {b : Build} {source : List CodeUnit} {ctx : Context} {s s' : Scanner}

theorem isPrefixOf_cons (u : CodeUnit) (more text : List CodeUnit) :
    (u :: more).isPrefixOf text = (text.head? == some u && more.isPrefixOf (text.drop 1)) := by
  cases text with
  | nil => rfl
  | cons v rest =>
    rw [List.isPrefixOf_cons_cons, List.head?_cons, Option.some_beq_some, Bool.beq_comm]
    rfl

/-- A comment up to the end of its line is passed. -/
theorem skipSingleLineComment_image (h : (image b source s).Admits s.cursor) {kind : Comment.Kind}
    (hkind : kind ≠ .multiLine) (hpre : kind.opener.isPrefixOf s.cursor.rest = true) :
    (skipSingleLineComment ctx kind kind.opener.length >>= fun _ => pure true :
        Routine LexError Bool).run (image b source s) =
      let t := Trivia.commentOf kind s.cursor.rest
      let s' := s.pass ctx.collectComments t
      some (if t.isUnclosed then .error ⟨.unterminatedComment, s'.cursor.location.wrap⟩
        else .ok true,
        image b source s') := by
  have hskip := skipSingleLineComment_atCursor (ε := LexError) ctx kind h
    (List.isPrefixOf_iff_prefix.mp hpre)
  have hof : Trivia.commentOf kind s.cursor.rest = .comment kind
      ((s.cursor.rest.drop kind.opener.length).takeWhile fun u => !u.isLineTerminator) := by
    cases kind <;> first | rfl | exact absurd rfl hkind
  have hcloser : kind.closer.length = 0 := by
    cases kind <;> first | rfl | exact absurd rfl hkind
  have hline : ((s.cursor.rest.drop kind.opener.length).takeWhile
      fun u => !u.isLineTerminator).any CodeUnit.isLineTerminator = false := by
    rw [List.any_eq_false]
    intro u hu
    simpa using List.mem_takeWhile_imp hu
  rw [image_eq_atCursor, run_bind_of_ok hskip, run_pure, hof]
  dsimp only
  rw [image_pass_comment, passed_of_inLine hline, Trivia.length, hcloser, Nat.add_zero]
  rfl

/-- A block comment is passed, or taken for one without an end. -/
theorem skipMultiLineComment_image (h : (image b source s).Admits s.cursor)
    (hpre : Comment.Kind.multiLine.opener.isPrefixOf s.cursor.rest = true) :
    (skipMultiLineComment ctx >>= fun _ => pure true).run (image b source s) =
      let t := Trivia.commentOf .multiLine s.cursor.rest
      let s' := s.pass ctx.collectComments t
      some (if t.isUnclosed then .error ⟨.unterminatedComment, s'.cursor.location.wrap⟩
        else .ok true,
        image b source s') := by
  have hpre' := List.isPrefixOf_iff_prefix.mp hpre
  have hskip := skipMultiLineComment_atCursor ctx h hpre'
  have hlength : 2 + (s.cursor.rest.drop 2).length = s.cursor.rest.length := by
    have hle : 2 ≤ s.cursor.rest.length := hpre'.length_le
    rw [List.length_drop]
    omega
  have hof : Trivia.commentOf .multiLine s.cursor.rest =
      match Trivia.blockText? (s.cursor.rest.drop 2) with
      | some text => .comment .multiLine text
      | none => .unclosed (s.cursor.rest.drop 2) := rfl
  rw [image_eq_atCursor, hof]
  cases htext : Trivia.blockText? (s.cursor.rest.drop 2) with
  | none =>
    rw [htext] at hskip
    dsimp only at hskip ⊢
    rw [run_bind_of_error hskip, image_pass_unclosed]
    have hend : (Trivia.unclosed (s.cursor.rest.drop 2)).length = s.cursor.rest.length := hlength
    rw [Scanner.cursor_pass, hend]
    rfl
  | some text =>
    rw [htext] at hskip
    dsimp only at hskip ⊢
    rw [run_bind_of_ok hskip, run_pure, image_pass_comment]
    rfl

/-- What the routine looks for is what opens a comment. -/
theorem opening_image (ctx : Context) (h : (image b source s).Admits s.cursor) :
    let m := image b source s
    let opens := fun kind : Comment.Kind => kind.opener.isPrefixOf s.cursor.rest
    (m.is CodeUnit.slash && m.peekIs 1 CodeUnit.slash) = opens .singleLine ∧
    (m.is CodeUnit.slash && m.peekIs 1 CodeUnit.star) = opens .multiLine ∧
    (m.is CodeUnit.lessThan && ctx.allowsHtmlComments && m.peekIs 1 (CodeUnit.ofChar '!') &&
      m.peekIs 2 CodeUnit.minus && m.peekIs 3 CodeUnit.minus) =
        (ctx.allowsHtmlComments && opens .htmlOpen) ∧
    (m.is CodeUnit.minus && ctx.allowsHtmlComments && m.lineStart &&
      m.peekIs 1 CodeUnit.minus && m.peekIs 2 (CodeUnit.ofChar '>')) =
        (ctx.allowsHtmlComments && s.lineStart && opens .htmlClose) ∧
    (m.is CodeUnit.hash && m.index == 0 && m.peekIs 1 (CodeUnit.ofChar '!')) =
        (s.cursor.location.offset == 0 && opens .hashbang) := by
  intro m opens
  have his (u : CodeUnit) : m.is u = (s.cursor.rest.head? == some u) :=
    is_atCursor (m := image b source s) u
  have hpeek (k : Nat) (u : CodeUnit) : m.peekIs k u = ((s.cursor.rest.drop k).head? == some u) :=
    peekIs_atCursor h k u
  have hlineStart : m.lineStart = s.lineStart := rfl
  have hindex : m.index = s.cursor.location.offset := rfl
  have hnil (text : List CodeUnit) : ([] : List CodeUnit).isPrefixOf text = true := by
    cases text <;> rfl
  simp only [his, hpeek, hlineStart, hindex, opens, Comment.Kind.opener, isPrefixOf_cons, hnil,
    Bool.and_true, List.drop_drop, true_and]
  refine ⟨?_, ?_, ?_⟩
  · ac_rfl
  · ac_rfl
  · ac_rfl

/-- **One round of the loop over trivia** passes the piece at the cursor, if there is one. -/
theorem skipPiece_image (ctx : Context) (h : (image b source s).Admits s.cursor) :
    (skipPiece ctx).run (image b source s) =
      match Trivia.first? (s.triviaMode ctx) s.cursor.rest with
      | none => some (.ok false, image b source s)
      | some t =>
        let s' := s.pass ctx.collectComments t
        some (if t.isUnclosed then .error ⟨.unterminatedComment, s'.cursor.location.wrap⟩
          else .ok true,
          image b source s') := by
  obtain ⟨hsingle, hmulti, hopen, hclose, hbang⟩ := opening_image ctx h
  have hcurrent (p : CodeUnit → Bool) :
      (image b source s).current.isUnit p = s.cursor.rest.head?.any p := isUnit_unitAt p
  unfold skipPiece
  simp only [run_state_bind, run_ite, hsingle, hmulti, hopen, hclose, hbang, hcurrent]
  cases hrest : s.cursor.rest with
  | nil => simp [Trivia.first?, Comment.Kind.opener]
  | cons u rest =>
    rw [List.head?_cons, Option.any_some, Option.any_some, Trivia.first?]
    by_cases hblank : u.isBlank = true
    · have hline := CodeUnit.isLineTerminator_of_class hblank (by decide)
      rw [if_pos hblank, if_pos hblank]
      dsimp only
      rw [image_eq_atCursor, run_bind_of_ok (advance_atCursor h hrest hline), run_pure,
        image_pass_blank]
      rfl
    rw [if_neg hblank, if_neg hblank]
    by_cases hline : u.isLineTerminator = true
    · rw [if_pos hline, if_pos hline]
      dsimp only
      rw [image_eq_atCursor, run_bind_of_ok (skipLineTerminator_atCursor h hrest hline), run_pure,
        image_pass_lineBreak hrest hline]
      rfl
    -- the openers are tried in the order of the grammar
    have hopening : Trivia.opening? (s.triviaMode ctx) s.cursor.rest =
        if Comment.Kind.singleLine.opener.isPrefixOf s.cursor.rest then some .singleLine
        else if Comment.Kind.multiLine.opener.isPrefixOf s.cursor.rest then some .multiLine
        else if ctx.allowsHtmlComments && Comment.Kind.htmlOpen.opener.isPrefixOf s.cursor.rest then
          some .htmlOpen
        else if ctx.allowsHtmlComments && s.lineStart &&
            Comment.Kind.htmlClose.opener.isPrefixOf s.cursor.rest then some .htmlClose
        else if s.cursor.location.offset == 0 &&
            Comment.Kind.hashbang.opener.isPrefixOf s.cursor.rest then some .hashbang
        else none := rfl
    rw [if_neg hline, if_neg hline, ← hrest, hopening]
    by_cases hsingle : Comment.Kind.singleLine.opener.isPrefixOf s.cursor.rest = true
    · rw [if_pos hsingle, if_pos hsingle]
      exact skipSingleLineComment_image h (by decide) hsingle
    rw [if_neg hsingle, if_neg hsingle]
    by_cases hmulti : Comment.Kind.multiLine.opener.isPrefixOf s.cursor.rest = true
    · rw [if_pos hmulti, if_pos hmulti]
      exact skipMultiLineComment_image h hmulti
    rw [if_neg hmulti, if_neg hmulti]
    by_cases hopen : (ctx.allowsHtmlComments &&
        Comment.Kind.htmlOpen.opener.isPrefixOf s.cursor.rest) = true
    · rw [if_pos hopen, if_pos hopen]
      exact skipSingleLineComment_image h (by decide) (Bool.and_eq_true_iff.mp hopen).2
    rw [if_neg hopen, if_neg hopen]
    by_cases hclose : (ctx.allowsHtmlComments && s.lineStart &&
        Comment.Kind.htmlClose.opener.isPrefixOf s.cursor.rest) = true
    · rw [if_pos hclose, if_pos hclose]
      exact skipSingleLineComment_image h (by decide) (Bool.and_eq_true_iff.mp hclose).2
    rw [if_neg hclose, if_neg hclose]
    by_cases hbang : (s.cursor.location.offset == 0 &&
        Comment.Kind.hashbang.opener.isPrefixOf s.cursor.rest) = true
    · rw [if_pos hbang, if_pos hbang]
      exact skipSingleLineComment_image h (by decide) (Bool.and_eq_true_iff.mp hbang).2
    rw [if_neg hbang, if_neg hbang, run_pure]
    rfl

/-- A comment without an end takes all that is left. -/
theorem passes_unclosed {t : Trivia} {ts : List Trivia} (ht : t.isUnclosed = true)
    (hfirst : Trivia.first? (s.triviaMode ctx) s.cursor.rest = some t)
    (hp : Scanner.Passes ctx (s.pass ctx.collectComments t) ts s') :
    s' = s.pass ctx.collectComments t := by
  obtain ⟨piece, rest, hrest, hwritten⟩ := Trivia.written_of_first? hfirst
  have hnil : (s.pass ctx.collectComments t).cursor.rest = [] := by
    rw [Scanner.cursor_pass, Cursor.rest_advance, hrest, ← hwritten.length_eq, List.drop_left]
    cases hwritten with
    | unclosed => rfl
    | _ => exact nomatch ht
  cases hp with
  | done _ => rfl
  | piece hmore _ => exact absurd hnil (Trivia.ne_nil_of_first? hmore)

/-- **Trivia are passed** piece by piece. -/
theorem skipTrivia_image {ts : List Trivia} (hp : Scanner.Passes ctx s ts s')
    (h : (image b source s).Admits s.cursor) :
    (skipTrivia ctx).run (image b source s) =
      some (if ts.any Trivia.isUnclosed then
          .error ⟨.unterminatedComment, s'.cursor.location.wrap⟩ else .ok (),
        image b source s') := by
  unfold skipTrivia
  induction hp with
  | done hnone =>
    have hpiece := skipPiece_image ctx h
    rw [hnone] at hpiece
    apply run_loop_of_done
    rw [run_bind_of_ok hpiece]
    rfl
  | @piece s s' t ts hfirst hmore ih =>
    have hpiece := skipPiece_image ctx h
    rw [hfirst] at hpiece
    dsimp only at hpiece
    rw [List.any_cons]
    cases ht : t.isUnclosed with
    | true =>
      rw [ht, if_pos rfl] at hpiece
      rw [passes_unclosed ht hfirst hmore]
      exact run_loop_of_error (run_bind_of_error hpiece)
    | false =>
      rw [ht, if_neg Bool.false_ne_true] at hpiece
      have hround : ((do
          let more ← skipPiece ctx
          return if more then .again () else .done ()) : Routine LexError (Step Unit Unit)).run
          (image b source s) =
            some (.ok (.again ()), image b source (s.pass ctx.collectComments t)) := by
        rw [run_bind_of_ok hpiece]
        rfl
      have hadmits : (image b source (s.pass ctx.collectComments t)).Admits
          (s.pass ctx.collectComments t).cursor := by
        have hbehind := h.advance t.length
        exact ⟨hbehind.place, hbehind.room⟩
      rw [run_loop_of_again hround, ih hadmits, Bool.false_or]

end Routine

end EcmaLex
