import Mathlib.Algebra.GroupWithZero.Nat
import EcmaLex.Proofs.Calls
import EcmaLex.Proofs.Marks
import EcmaLex.Proofs.Restoring

/-!
# Lines that end before a token

Whether a line ended before a token matters to a parser, which may then put in a semicolon. The flag
for it is set by passed trivia only, and it says what it should: *a line terminator stands in the
gap between the token before and this one*, bare, behind a comment or inside one. Terminators inside
of tokens do not count. No reader sets the flag, every call clears what an earlier one left, and the
rest of a template takes the flag, and the gap, of the brace it begins with.

* `Trivia.Written.any_isLineTerminator`: the text of one piece.
* `Scanner.Passes.exists_gap`: all pieces before a token, and `exists_gap_of_append` some of them.
* `Scanner.notesGap_of_next` and `TokenStream.notesGap_of_advance`: one token.
* `newLineBefore_notes_gaps`: whole runs.
-/

namespace EcmaLex

/-! ## The text of trivia -/

/-- A blank ends no line. -/
theorem CodeUnit.isLineTerminator_of_isBlank {u : CodeUnit} (h : u.isBlank = true) :
    u.isLineTerminator = false := by
  rw [← Bool.not_eq_true]
  intro hline
  simp only [isLineTerminator, Bool.or_eq_true, beq_iff_eq] at hline
  rcases hline with ((rfl | rfl) | rfl) | rfl <;> exact absurd h (by decide)

namespace Trivia

theorem any_isLineTerminator_delimiters (kind : Comment.Kind) :
    kind.opener.any CodeUnit.isLineTerminator = false ∧
      kind.closer.any CodeUnit.isLineTerminator = false := by
  cases kind <;> decide

/-- **One piece.** A line ends within it exactly if there is a line terminator in its text. -/
theorem Written.any_isLineTerminator {m : Mode} {t : Trivia} {piece rest : List CodeUnit}
    (h : Written m t piece rest) : piece.any CodeUnit.isLineTerminator = t.endsLine := by
  cases h with
  | blank hu => simp [CodeUnit.isLineTerminator_of_isBlank hu, endsLine]
  | lineBreak hu _ => simp [hu, endsLine]
  | crlf => rfl
  | lineComment =>
    rw [List.any_append, (any_isLineTerminator_delimiters _).1, Bool.false_or]
    rfl
  | block =>
    obtain ⟨hopener, hcloser⟩ := any_isLineTerminator_delimiters .multiLine
    rw [List.any_append, List.any_append, hopener, hcloser, Bool.false_or, Bool.or_false]
    rfl
  | unclosed =>
    rw [List.any_append, (any_isLineTerminator_delimiters _).1, Bool.false_or]
    rfl

end Trivia

namespace Scanner

variable {source : List CodeUnit} {kept : List Comment} {c : Context} {s s' : Scanner} {t : Token}

/-- **Some of the pieces.** They are written in front of what is left when they are passed. -/
theorem Passes.exists_gap_of_append {before after : List Trivia}
    (hp : Passes c s (before ++ after) s') :
    ∃ s₁ gap, Passes c s₁ after s' ∧ s.cursor.rest = gap ++ s₁.cursor.rest ∧
      s₁.cursor.location.offset = s.cursor.location.offset + gap.length ∧
      gap.length = (before.map Trivia.length).sum ∧
      gap.any CodeUnit.isLineTerminator = before.any Trivia.endsLine ∧
      s₁.lineStart = (s.lineStart || before.any Trivia.endsLine) := by
  induction before generalizing s with
  | nil => exact ⟨s, [], hp, rfl, rfl, rfl, rfl, by simp⟩
  | cons piece before ih =>
    cases hp with
    | piece hfirst hrest =>
      obtain ⟨text, rest, htext, hwritten⟩ := Trivia.written_of_first? hfirst
      obtain ⟨s₁, gap, hafter, hgap, hoffset, hsum, hany, hline⟩ := ih hrest
      have hlength := hwritten.length_eq
      rw [cursor_pass, Cursor.rest_advance, htext, ← hlength, List.drop_left] at hgap
      rw [cursor_pass, Cursor.offset_advance, htext, ← hlength, List.take_left] at hoffset
      refine ⟨s₁, text ++ gap, hafter, ?_, ?_, ?_, ?_, ?_⟩
      · rw [htext, hgap, List.append_assoc]
      · rw [hoffset, List.length_append, Nat.add_assoc]
      · rw [List.length_append, hlength, hsum, List.map_cons, List.sum_cons]
      · rw [List.any_append, List.any_cons, hwritten.any_isLineTerminator, hany]
      · rw [hline, lineStart_pass, List.any_cons, Bool.or_assoc]

/-- **All pieces.** -/
theorem Passes.exists_gap {ts : List Trivia} (hp : Passes c s ts s') :
    ∃ gap, s.cursor.rest = gap ++ s'.cursor.rest ∧
      s'.cursor.location.offset = s.cursor.location.offset + gap.length ∧
      gap.any CodeUnit.isLineTerminator = ts.any Trivia.endsLine := by
  rw [← List.append_nil ts] at hp
  obtain ⟨s₁, gap, hdone, hrest, hoffset, -, hany, -⟩ := hp.exists_gap_of_append
  cases hdone with
  | done _ => exact ⟨gap, hrest, hoffset, hany⟩

end Scanner

/-! ## Tokens behind gaps -/

/-- The token stands behind a gap that begins at an offset, and its flag is set exactly if there is
a line feed, a carriage return, a line separator or a paragraph separator in the gap. -/
structure Token.NotesGap (source : List CodeUnit) (gapStart : Nat) (t : Token) : Prop where
  gapStart_le : gapStart ≤ t.start.offset
  start_le : t.start.offset ≤ t.stop
  stop_le : t.stop ≤ source.length
  newLineBefore_iff : t.flags.newLineBefore = true ↔
    ∃ u ∈ source.extract gapStart t.start.offset, u ∈ [0x0A, 0x0D, 0x2028, 0x2029]

theorem any_isLineTerminator_iff {text : List CodeUnit} :
    text.any CodeUnit.isLineTerminator = true ↔
      ∃ u ∈ text, u ∈ [0x0A, 0x0D, 0x2028, 0x2029] := by
  simp [List.any_eq_true, CodeUnit.isLineTerminator, or_assoc]

/-- A token made of a reading ends behind its start, and within the source. -/
theorem Token.start_le_stop_ofReading {source : List CodeUnit} {start : Cursor}
    (hstart : start.IsPlaceOf source) (c : Context) (flags : TokenFlags) (x : Reading Lexeme) :
    let t := Token.ofReading c start (start.advance x.length) flags x
    t.start.offset ≤ t.stop ∧ t.stop ≤ source.length := by
  refine ⟨?_, (hstart.advance x.length).offset_le⟩
  show start.location.offset ≤ (start.advance x.length).location.offset
  rw [Cursor.offset_advance]
  exact Nat.le_add_right _ _

namespace Scanner

variable {source : List CodeUnit} {kept : List Comment} {c : Context} {s s' : Scanner} {t : Token}

/-- **The next token.** What the scanner remembers of it is enough to read its place again. -/
theorem Keeps.notesGap_of_next (h : s.Keeps source kept) (hnext : s.next c = (.ok t, s')) :
    t.NotesGap source s.cursor.location.offset ∧ s'.cursor.location.offset = t.stop ∧
      s'.tokenStart.location = t.start ∧ s'.flags = t.flags := by
  obtain ⟨ts, s₁, x, hp, -, hx, rfl, rfl⟩ := next_eq_ok_iff.mp hnext
  obtain ⟨gap, hrest, hoffset, hany⟩ := hp.exists_gap
  have hplace := ((h.with_flags ∅).passes hp).cursor
  have hgap : source.extract s.cursor.location.offset s₁.cursor.location.offset = gap := by
    rw [hoffset]
    exact h.cursor.extract_eq hrest
  -- the flag comes from trivia, and no reader adds to it
  have hflag : (s₁.flags ∪ x.flags).newLineBefore = ts.any Trivia.endsLine := by
    rw [hp.flags_eq, TokenFlags.newLineBefore_union, Lexeme.newLineBefore_of_read hx, Bool.or_false]
    rfl
  obtain ⟨hstart, hstop⟩ := Token.start_le_stop_ofReading hplace c s₁.flags x
  refine ⟨⟨?_, hstart, hstop, ?_⟩, rfl, rfl, rfl⟩
  · show s.cursor.location.offset ≤ s₁.cursor.location.offset
    rw [hoffset]
    exact Nat.le_add_right _ _
  · show (s₁.flags ∪ x.flags).newLineBefore = true ↔
      ∃ u ∈ source.extract s.cursor.location.offset s₁.cursor.location.offset, _
    rw [hflag, hgap, ← hany, any_isLineTerminator_iff]

/-- **The rest of a template** stands behind the gap of its brace. -/
theorem Keeps.notesGap_of_continueTemplate {gapStart : Nat} {brace : Token}
    (h : s.Keeps source kept) (hbrace : brace.NotesGap source gapStart)
    (hstart : s.tokenStart.location = brace.start) (hflags : s.flags = brace.flags)
    (htemplate : s.continueTemplate c = (.ok t, s')) :
    t.NotesGap source gapStart ∧ s'.cursor.location.offset = t.stop := by
  obtain ⟨x, hx, rfl, rfl⟩ := continueTemplate_eq_ok_iff.mp htemplate
  have hreading : x.flags.newLineBefore = false :=
    Template.unmarked_readContinuation isMark_newLineBefore _ _ x hx
  obtain ⟨hle, hstop⟩ := Token.start_le_stop_ofReading h.tokenStart c
    { newLineBefore := s.flags.newLineBefore } x
  refine ⟨⟨?_, hle, hstop, ?_⟩, rfl⟩
  · show gapStart ≤ s.tokenStart.location.offset
    rw [hstart]
    exact hbrace.gapStart_le
  · show (s.flags.newLineBefore || x.flags.newLineBefore) = true ↔
      ∃ u ∈ source.extract gapStart s.tokenStart.location.offset, _
    rw [hreading, Bool.or_false, hstart, hflags]
    exact hbrace.newLineBefore_iff

end Scanner

/-- **One token of a stream.** -/
theorem TokenStream.notesGap_of_advance {source : List CodeUnit} {kept : List Comment}
    {s s' : TokenStream} {t : Token} (h : s.scanner.Keeps source kept)
    (hadvance : s.advance = (.ok t, s')) :
    t.NotesGap source s.scanner.cursor.location.offset ∧
      s'.scanner.cursor.location.offset = t.stop ∧ s'.scanner.Keeps source kept := by
  rcases advance_eq_ok_iff.mp hadvance with
    ⟨scanner, hnext, -, rfl⟩ | ⟨brace, sub, scanner, scanner', hnext, -, htemplate, rfl⟩
  · obtain ⟨hgap, hstop, -⟩ := h.notesGap_of_next hnext
    rw [scanner_track]
    exact ⟨hgap, hstop, h.of_next hnext⟩
  · obtain ⟨hbrace, -, hstart, hflags⟩ := h.notesGap_of_next hnext
    have hkeeps := h.of_next hnext
    obtain ⟨hgap, hstop⟩ := hkeeps.notesGap_of_continueTemplate hbrace hstart hflags htemplate
    rw [scanner_track]
    exact ⟨hgap, hstop, hkeeps.of_continueTemplate htemplate⟩

/-! ## Runs -/

/-- Every token notes the gap between the one before it and itself. The first gap begins at an
offset. -/
def NotesGaps (source : List CodeUnit) : Nat → List Token → Prop
  | _, [] => True
  | gapStart, t :: ts => t.NotesGap source gapStart ∧ NotesGaps source t.stop ts

/-- The tokens of calls one after the other, each with a context of its own, up to an error. -/
def Scanner.tokensWith (s : Scanner) : List Context → List Token
  | [] => []
  | c :: cs =>
    match s.next c with
    | (.ok t, s') => t :: s'.tokensWith cs
    | (.error _, _) => []

theorem Scanner.Keeps.notesGaps_tokensWith {source : List CodeUnit} {kept : List Comment}
    {s : Scanner} (h : s.Keeps source kept) (cs : List Context) :
    NotesGaps source s.cursor.location.offset (s.tokensWith cs) := by
  induction cs generalizing s with
  | nil => trivial
  | cons c cs ih =>
    rw [tokensWith]
    split
    · next t s' hnext =>
      obtain ⟨hgap, hstop, -⟩ := h.notesGap_of_next hnext
      refine ⟨hgap, ?_⟩
      rw [← hstop]
      exact ih (h.of_next hnext)
    · trivial

theorem TokenStream.notesGaps_run {source : List CodeUnit} {kept : List Comment}
    {s : TokenStream} (h : s.scanner.Keeps source kept) :
    NotesGaps source s.scanner.cursor.location.offset s.run.tokens := by
  fun_induction TokenStream.run s with
  | case1 => trivial
  | case2 s t s' hadvance _ => exact ⟨(notesGap_of_advance h hadvance).1, trivial⟩
  | case3 s t s' hadvance _ ih =>
    obtain ⟨hgap, hstop, hkeeps⟩ := notesGap_of_advance h hadvance
    refine ⟨hgap, ?_⟩
    rw [← hstop]
    exact ih hkeeps

/-- **The flag for a line break before a token** is set exactly if there is a line terminator
between the end of the token before, or the start of the source, and the token. This holds for all
calls of a scanner, with any contexts, and for all tokens of a stream, the spans of templates
included, up to an error if there is one. -/
theorem newLineBefore_notes_gaps (source : List CodeUnit) :
    (∀ cs, NotesGaps source 0 ((Scanner.ofSource source).tokensWith cs)) ∧
      ∀ c, NotesGaps source 0 (TokenStream.ofSource source c).run.tokens := by
  have hkeeps := Scanner.Keeps.of_startingAt source .start
  have hzero : (Scanner.startingAt source .start).cursor.location.offset = 0 := Nat.zero_min _
  constructor
  · intro cs
    have hgaps := hkeeps.notesGaps_tokensWith cs
    rwa [hzero] at hgaps
  · intro c
    have hgaps : NotesGaps source (Scanner.startingAt source .start).cursor.location.offset _ :=
      TokenStream.notesGaps_run (s := .ofSource source c) hkeeps
    rwa [hzero] at hgaps

/-- A template with a line break in each span and one before the brace that ends its substitution:
only the last one counts, and only for the span behind it. -/
example :
    let source : List CodeUnit := [0x60, 0x0A, 0x24, 0x7B, 0x61, 0x0A, 0x7D, 0x0A, 0x60, 0x62]
    (TokenStream.ofSource source {}).run.tokens.map (fun t => (t.kind, t.flags.newLineBefore)) =
      [(.templateHead, false), (.identifier, false), (.templateTail, true), (.identifier, false),
        (.eof, false)] := by
  decide +kernel

end EcmaLex
