import EcmaLex.Proofs.Calls
import EcmaLex.Proofs.Marks
import EcmaLex.Proofs.PositionTracking
import EcmaLex.Proofs.StableTokens

/-!
# Printing tokens and reading them again

Tokens are printed one after the other, each as it stands in its source and behind a separator of
one unit: a line feed if a line ended before the token, a blank otherwise (`printed`). Reading the
result gives the tokens again, in kind, value and flags.

Two runs over different texts are compared, in lockstep. Where the first one reads a token, the
second finds the separator, and behind it the same units, cut off where the token ends. No trivia
can begin there if none could in the source (`Trivia.not_canBegin_of_recut`), and the reader takes
the same units again (`Lexeme.read_eq`). What the second run needs to know of the first is whether
only trivia came before on the line; the rest of a stream's state is the same in both.

* `Scanner.next_printed` and `TokenStream.advance_printed`: one token.
* `Run.Repeats.toExcept_printed`: all tokens of a run.
* `exists_tokens_of_printed`: whole sources.
-/

namespace EcmaLex

open Text (Recut Stops isSeparator)

/-! ## Printed tokens -/

/-- The unit that stands for the trivia before a token. -/
def separatorFor (newLine : Bool) : CodeUnit :=
  if newLine then CodeUnit.lineFeed else CodeUnit.ofChar ' '

/-- The units of a source that a token takes. -/
def Token.text (source : List CodeUnit) (t : Token) : List CodeUnit :=
  source.extract t.start.offset t.stop

/-- The tokens of a source, each behind a separator. -/
def printed (source : List CodeUnit) (ts : List Token) : List CodeUnit :=
  ts.flatMap fun t => separatorFor t.flags.newLineBefore :: t.text source

/-- What a token is, wherever it stands. -/
def Token.content (t : Token) : Token.Kind × Token.Value × TokenFlags := (t.kind, t.value, t.flags)

theorem isSeparator_separatorFor (newLine : Bool) : isSeparator (separatorFor newLine) = true := by
  cases newLine <;> decide

theorem stops_printed (source : List CodeUnit) (ts : List Token) : Stops (printed source ts) := by
  intro u hu
  cases ts with
  | nil => simp [printed] at hu
  | cons t ts =>
    obtain rfl : separatorFor t.flags.newLineBefore = u := by simpa [printed] using hu
    exact isSeparator_separatorFor _

/-- The text of a token is what was taken where it starts. -/
theorem Token.text_eq {source : List CodeUnit} {t : Token} {a : Cursor} {start : Location} {k : Nat}
    (h : a.Tracks source start) (hstart : a.location = t.start)
    (hstop : t.stop = t.start.offset + (a.rest.take k).length) :
    t.text source = a.rest.take k := by
  rw [Token.text, List.extract_eq_take_drop, hstop, Nat.add_sub_cancel_left, ← hstart, ← h.rest_eq]
  exact (List.prefix_iff_eq_take.mp (List.take_prefix k a.rest)).symm

/-! ## Trivia in front of printed tokens -/

namespace Trivia

/-- The piece of trivia that a separator is. -/
def ofSeparator (newLine : Bool) : Trivia := if newLine then .lineBreak false else .blank

section Separator
variable (newLine : Bool)

@[simp] theorem length_ofSeparator : (ofSeparator newLine).length = 1 := by
  cases newLine <;> rfl

@[simp] theorem endsLine_ofSeparator : (ofSeparator newLine).endsLine = newLine := by
  cases newLine <;> rfl

@[simp] theorem isUnclosed_ofSeparator : (ofSeparator newLine).isUnclosed = false := by
  cases newLine <;> rfl

end Separator

theorem first?_separator (m : Mode) (newLine : Bool) (text : List CodeUnit) :
    first? m (separatorFor newLine :: text) = some (ofSeparator newLine) := by
  cases newLine with
  | true =>
    simp only [first?, separatorFor, if_true]
    rw [if_neg (by decide), if_pos (by decide), beq_eq_false_iff_ne.mpr (by decide)]
    rfl
  | false => rfl

/-- Comments that exist where the source does not begin exist where it does. -/
theorem recognises_of_not_sourceStart {html lineStart b : Bool} {kind : Comment.Kind}
    (h : Mode.recognises ⟨html, lineStart, false⟩ kind = true) :
    Mode.recognises ⟨html, lineStart, b⟩ kind = true := by
  cases kind with
  | hashbang => exact absurd h (by simp [Mode.recognises])
  | _ => exact h

/-- Behind a separator no trivia begins where none could begin in the source. -/
theorem not_canBegin_of_recut {html lineStart b : Bool} {n : Nat} {text text' : List CodeUnit}
    (h : ¬CanBegin ⟨html, lineStart, b⟩ text) (hcut : Recut n text text') (hn : 0 < n) :
    ¬CanBegin ⟨html, lineStart, false⟩ text' := by
  rintro (⟨u, hu, hclass⟩ | ⟨kind, hkind, hopener⟩)
  · rw [hcut.head?_eq hn] at hu
    exact h (.inl ⟨u, hu, hclass⟩)
  · have hpre := hcut.prefix_take (not_isSeparator_of_mem_opener kind) hopener
    refine h (.inr ⟨kind, recognises_of_not_sourceStart hkind, ?_⟩)
    exact hpre.trans (List.take_prefix n text)

end Trivia

/-! ## One token of a scanner -/

namespace Scanner

/-- A call for the next token that reads `x` at the beginning of `text`, behind trivia in which a
line ended or not. -/
structure Gives (c : Context) (s : Scanner) (text : List CodeUnit) (newLine : Bool)
    (x : Reading Lexeme) (t : Token) (s' : Scanner) : Prop where
  read_eq : Lexeme.read c text = .ok x
  content_eq : t.content = (x.value.kind, x.value.value, { newLineBefore := newLine } ∪ x.flags)
  rest_eq : s'.cursor.rest = text.drop x.length
  tokenStart_eq : s'.tokenStart.rest = text
  flags_eq : s'.flags = t.flags
  lineStart_eq : s'.lineStart = ((s.lineStart || newLine) && x.value.kind == .eof)

variable {source : List CodeUnit} {c : Context} {s s' s₁ : Scanner} {t : Token}
  {text text' : List CodeUnit} {newLine : Bool} {x : Reading Lexeme}

/-- The flag for a line break comes from the trivia alone. -/
theorem Gives.newLineBefore_eq (h : Gives c s text newLine x t s') :
    t.flags.newLineBefore = newLine := by
  have hflags : t.flags = { newLineBefore := newLine } ∪ x.flags :=
    (Prod.mk.inj (Prod.mk.inj h.content_eq).2).2
  rw [hflags, TokenFlags.newLineBefore_union, Lexeme.newLineBefore_of_read h.read_eq,
    Bool.or_false]

/-- What a successful call gives, and that no trivia begins at its token. -/
theorem gives_of_next (hnext : s.next c = (.ok t, s')) :
    ∃ text newLine x, Gives c s text newLine x t s' ∧
      (∃ b, ¬Trivia.CanBegin ⟨c.allowsHtmlComments, s.lineStart || newLine, b⟩ text) ∧
      s'.tokenStart.location = t.start ∧
      t.stop = t.start.offset + (s'.tokenStart.rest.take x.length).length := by
  obtain ⟨ts, s₁, x, hp, -, hx, rfl, rfl⟩ := next_eq_ok_iff.mp hnext
  have hflags := hp.flags_eq
  rw [TokenFlags.empty_union] at hflags
  have hline : s₁.lineStart = (s.lineStart || ts.any Trivia.endsLine) := hp.lineStart_eq
  refine ⟨s₁.cursor.rest, ts.any Trivia.endsLine, x, ⟨hx, ?_, rfl, rfl, rfl, ?_⟩,
    ⟨s₁.cursor.location.offset == 0, ?_⟩, rfl, ?_⟩
  · rw [← hflags]
    rfl
  · rw [lineStart_took, hline]
  · have hend := Trivia.first?_eq_none_iff.mp hp.first?_eq_none
    rw [triviaMode, hline] at hend
    exact hend
  · exact Location.offset_after _ _

/-- A separator is passed as the only piece of trivia where none begins behind it. -/
theorem passes_separator (hrest : s.cursor.rest = separatorFor newLine :: text)
    (htext : ¬Trivia.CanBegin ⟨c.allowsHtmlComments, s.lineStart || newLine, false⟩ text) :
    Passes c s [Trivia.ofSeparator newLine]
      (s.pass c.collectComments (Trivia.ofSeparator newLine)) := by
  have hfirst : Trivia.first? (s.triviaMode c) s.cursor.rest =
      some (Trivia.ofSeparator newLine) := by
    rw [hrest]
    exact Trivia.first?_separator _ newLine text
  refine .piece hfirst (.done ?_)
  rw [triviaMode_pass c.collectComments hfirst, Trivia.first?_eq_none_iff, cursor_pass,
    Cursor.rest_advance, hrest, Trivia.length_ofSeparator, List.drop_succ_cons, List.drop_zero]
  unfold Trivia.Mode.after
  rw [Trivia.endsLine_ofSeparator]
  exact htext

/-- A call behind a separator, where no trivia begins. -/
theorem exists_gives (hrest : s.cursor.rest = separatorFor newLine :: text)
    (htext : ¬Trivia.CanBegin ⟨c.allowsHtmlComments, s.lineStart || newLine, false⟩ text)
    (hx : Lexeme.read c text = .ok x) :
    ∃ t s', s.next c = (.ok t, s') ∧ Gives c s text newLine x t s' := by
  have hp := passes_separator (s := { s with flags := ∅ }) hrest htext
  have hclosed : [Trivia.ofSeparator newLine].any Trivia.isUnclosed = false := by
    rw [List.any_cons, Trivia.isUnclosed_ofSeparator]
    rfl
  have htext' : (({ s with flags := ∅ } : Scanner).pass c.collectComments
      (Trivia.ofSeparator newLine)).cursor.rest = text := by
    rw [cursor_pass, Cursor.rest_advance, hrest, Trivia.length_ofSeparator, List.drop_succ_cons,
      List.drop_zero]
  have hflags := hp.flags_eq
  have hline := hp.lineStart_eq
  rw [List.any_cons, Trivia.endsLine_ofSeparator, List.any_nil, Bool.or_false] at hflags hline
  rw [TokenFlags.empty_union] at hflags
  rw [← htext'] at hx
  refine ⟨_, _, next_eq_ok_iff.mpr ⟨_, _, x, hp, hclosed, hx, rfl, rfl⟩, ?_⟩
  rw [htext'] at hx
  refine ⟨hx, ?_, ?_, htext', rfl, ?_⟩
  · rw [← hflags]
    rfl
  · rw [cursor_took, Cursor.rest_advance, htext']
  · rw [lineStart_took, hline]

/-- A second call, behind a separator and on the same line or not as the first one, that reads the
same gives the same. -/
theorem Gives.again {r : Scanner} (h : Gives c s text newLine x t s')
    (htext : ¬Trivia.CanBegin ⟨c.allowsHtmlComments, s.lineStart || newLine, false⟩ text')
    (hx : Lexeme.read c text' = .ok x) (hline : r.lineStart = s.lineStart)
    (hrest : r.cursor.rest = separatorFor newLine :: text') :
    ∃ t' r', r.next c = (.ok t', r') ∧ Gives c r text' newLine x t' r' ∧
      t'.content = t.content ∧ r'.lineStart = s'.lineStart := by
  rw [← hline] at htext
  obtain ⟨t', r', hnext, hgives⟩ := exists_gives hrest htext hx
  refine ⟨t', r', hnext, hgives, ?_, ?_⟩
  · rw [hgives.content_eq, h.content_eq]
  · rw [hgives.lineStart_eq, h.lineStart_eq, hline]

/-- What stands behind the first units. -/
theorem drop_take_append {n : Nat} {text after : List CodeUnit} (hn : n ≤ text.length) :
    (text.take n ++ after).drop n = after := by
  apply List.drop_left'
  rw [List.length_take, Nat.min_eq_left hn]

/-- **One token, printed.** The next token of a source, behind a separator and in front of another
one or the end, is read again. -/
theorem next_printed {r : Scanner} {after : List CodeUnit} (h : s.Tracks source .start)
    (hnext : s.next c = (.ok t, s')) (hline : r.lineStart = s.lineStart)
    (hrest : r.cursor.rest = separatorFor t.flags.newLineBefore :: (t.text source ++ after))
    (hafter : Stops after) (heof : t.kind = .eof → after = []) :
    ∃ t' r', r.next c = (.ok t', r') ∧ t'.content = t.content ∧
      r'.lineStart = s'.lineStart ∧ r'.cursor.rest = after := by
  have htracks := h.of_next hnext
  obtain ⟨text, newLine, x, hgives, ⟨b, htext⟩, hstart, hstop⟩ := gives_of_next hnext
  rw [hgives.newLineBefore_eq, Token.text_eq htracks.tokenStart hstart hstop,
    hgives.tokenStart_eq] at hrest
  cases text with
  | nil =>
    -- the end token, behind the last separator
    obtain rfl := Except.ok.inj hgives.read_eq
    obtain rfl := heof (Prod.mk.inj hgives.content_eq).1
    obtain ⟨t', r', hnext', hgives', hcontent, hline'⟩ :=
      hgives.again (Trivia.first?_eq_none_iff.mp rfl) rfl hline hrest
    exact ⟨t', r', hnext', hcontent, hline', hgives'.rest_eq⟩
  | cons u rest =>
    have hhead : (u :: rest).head? ≠ some CodeUnit.carriageReturn := by
      intro hcr
      exact htext (.inl ⟨_, hcr, .inr (by decide)⟩)
    have hclean := Lexeme.clean_read c hhead
    rw [hgives.read_eq] at hclean
    have hcut := Recut.of_take hclean.le hafter
    have hpos := Lexeme.length_pos_of_read hgives.read_eq
    have hread := Lexeme.read_eq hgives.read_eq hcut
    obtain ⟨t', r', hnext', hgives', hcontent, hline'⟩ :=
      hgives.again (Trivia.not_canBegin_of_recut htext hcut hpos) hread hline hrest
    refine ⟨t', r', hnext', hcontent, hline', ?_⟩
    rw [hgives'.rest_eq]
    exact drop_take_append hclean.le

/-- The second scanner is as far along the printed tokens as the first one is along their source. -/
def Mirrors (source : List CodeUnit) (s r : Scanner) : Prop :=
  s.Tracks source .start ∧ r.lineStart = s.lineStart

end Scanner

/-! ## Templates that go on -/

/-- **A continued template, printed.** The brace is read again from what is left of it in front of
the template, and then the template in its place. -/
theorem Scanner.continueTemplate_printed {source after : List CodeUnit} {c c' : Context}
    {s s₁ s' r : Scanner} {brace t : Token} (h : s.Tracks source .start)
    (hnext : s.next c = (.ok brace, s₁)) (htemplate : s₁.continueTemplate c' = (.ok t, s'))
    (hline : r.lineStart = s.lineStart)
    (hrest : r.cursor.rest = separatorFor t.flags.newLineBefore :: (t.text source ++ after))
    (hafter : Stops after) :
    ∃ brace' r₁ t' r', r.next c = (.ok brace', r₁) ∧ brace'.content = brace.content ∧
      r₁.continueTemplate c' = (.ok t', r') ∧ t'.content = t.content ∧
      r'.lineStart = s'.lineStart ∧ r'.cursor.rest = after := by
  have htracks := h.of_next hnext
  obtain ⟨text, newLine, x, hgives, ⟨b, htext⟩, -, -⟩ := gives_of_next hnext
  obtain ⟨y, hy, rfl, rfl⟩ := continueTemplate_eq_ok_iff.mp htemplate
  have hline₁ : s₁.flags.newLineBefore = newLine := by
    rw [hgives.flags_eq, hgives.newLineBefore_eq]
  have hline_y : y.flags.newLineBefore = false :=
    Template.unmarked_readContinuation isMark_newLineBefore _ _ y hy
  have hstop : (Token.ofReading c' s₁.tokenStart (s₁.tokenStart.advance y.length)
      { newLineBefore := s₁.flags.newLineBefore } y).text source =
        s₁.tokenStart.rest.take y.length :=
    Token.text_eq htracks.tokenStart rfl (Location.offset_after _ _)
  have hsep : (Token.ofReading c' s₁.tokenStart (s₁.tokenStart.advance y.length)
      { newLineBefore := s₁.flags.newLineBefore } y).flags.newLineBefore = newLine := by
    show (s₁.flags.newLineBefore || y.flags.newLineBefore) = newLine
    rw [hline₁, hline_y, Bool.or_false]
  rw [hsep, hstop, hgives.tokenStart_eq] at hrest
  rw [hgives.tokenStart_eq] at hy
  have hclean := Template.clean_readContinuation c'.taggedTemplate text
  rw [hy] at hclean
  have hcut := Recut.of_take hclean.le hafter
  obtain ⟨⟨rest, rfl⟩, hread⟩ := Lexeme.template_of_readContinuation hy
  have hpos := Lexeme.length_pos_of_template hread
  -- what is left of the brace is enough to read it
  have hx : Lexeme.read c ((CodeUnit.rightBrace :: rest).take y.length ++ after) = .ok x := by
    obtain ⟨rest', hrest', -⟩ := hcut.exists_cons hpos
    rw [hrest', Lexeme.read_rightBrace, ← Lexeme.read_rightBrace c rest]
    exact hgives.read_eq
  obtain ⟨brace', r₁, hnext', hgives', hcontent, hline'⟩ :=
    hgives.again (Trivia.not_canBegin_of_recut htext hcut hpos) hx hline hrest
  have hy' := Template.stable_readContinuation _ hcut hy (Nat.le_refl _)
  rw [← hgives'.tokenStart_eq] at hy'
  refine ⟨brace', r₁, _, _, hnext', hcontent,
    continueTemplate_eq_ok_iff.mpr ⟨y, hy', rfl, rfl⟩, ?_, ?_, ?_⟩
  · show (_, _, ({ newLineBefore := r₁.flags.newLineBefore } : TokenFlags) ∪ y.flags) = (_, _, _)
    rw [hgives'.flags_eq, hgives'.newLineBefore_eq, ← hline₁]
    rfl
  · rw [lineStart_took, lineStart_took]
    show (r₁.lineStart && _) = (s₁.lineStart && _)
    rw [hline']
  · rw [cursor_took, Cursor.rest_advance, hgives'.tokenStart_eq]
    exact drop_take_append hclean.le

namespace TokenStream

/-- Noting a token depends on its kind only, and leaves the scanner alone. -/
theorem track_congr (s : TokenStream) {t t' : Token} (ht : t'.kind = t.kind) (tagged : Bool)
    (scanner scanner' : Scanner) :
    ({ s with scanner := scanner' } : TokenStream).track t' tagged =
      { ({ s with scanner } : TokenStream).track t tagged with scanner := scanner' } := by
  unfold track
  rw [ht]
  dsimp only
  split <;> rfl

variable {source after : List CodeUnit} {s s' : TokenStream} {t : Token} {r : Scanner}

/-- **One token of a stream, printed.** The second stream differs in its scanner only, before and
after. -/
theorem advance_printed (h : s.scanner.Tracks source .start) (hadv : s.advance = (.ok t, s'))
    (hline : r.lineStart = s.scanner.lineStart)
    (hrest : r.cursor.rest = separatorFor t.flags.newLineBefore :: (t.text source ++ after))
    (hafter : Stops after) (heof : t.kind = .eof → after = []) :
    ∃ t' r', ({ s with scanner := r } : TokenStream).advance = (.ok t', { s' with scanner := r' }) ∧
      t'.content = t.content ∧ r'.lineStart = s'.scanner.lineStart ∧ r'.cursor.rest = after := by
  rcases advance_eq_ok_iff.mp hadv with
    ⟨scanner, hnext, hcloses, rfl⟩ | ⟨brace, sub, scanner, scanner', hnext, hcloses, htemplate, rfl⟩
  · obtain ⟨t', r', hnext', hcontent, hline', hrest'⟩ :=
      Scanner.next_printed h hnext hline hrest hafter heof
    have hkind : t'.kind = t.kind := (Prod.mk.inj hcontent).1
    refine ⟨t', r', advance_eq_ok_iff.mpr (.inl ⟨r', hnext', ?_, ?_⟩), hcontent, ?_, hrest'⟩
    · rw [← hcloses, closes?, closes?, hkind]
    · exact (track_congr s hkind _ scanner r').symm
    · rw [scanner_track]
      exact hline'
  · obtain ⟨brace', r₁, t', r', hnext', hbrace, htemplate', hcontent, hline', hrest'⟩ :=
      Scanner.continueTemplate_printed h hnext htemplate hline hrest hafter
    have hkind : t'.kind = t.kind := (Prod.mk.inj hcontent).1
    refine ⟨t', r', advance_eq_ok_iff.mpr (.inr ⟨brace', sub, r₁, r', hnext', ?_, htemplate', ?_⟩),
      hcontent, ?_, hrest'⟩
    · rw [← hcloses, closes?, closes?, (Prod.mk.inj hbrace).1]
    · exact (track_congr { s with substitutions := s.substitutions.tail } hkind _ scanner' r').symm
    · rw [scanner_track]
      exact hline'

/-- The scanner of a stream stays tracked. -/
theorem tracks_of_advance (h : s.scanner.Tracks source .start) (hadv : s.advance = (.ok t, s')) :
    s'.scanner.Tracks source .start := by
  rcases advance_eq_ok_iff.mp hadv with
    ⟨scanner, hnext, -, rfl⟩ | ⟨brace, sub, scanner, scanner', hnext, -, htemplate, rfl⟩
  · rw [scanner_track]
    exact h.of_next hnext
  · rw [scanner_track]
    exact (h.of_next hnext).of_continueTemplate htemplate

/-- The second stream is as far along the printed tokens as the first one is along their source, and
has seen the same tokens. -/
def Mirrors (source : List CodeUnit) (s r : TokenStream) : Prop :=
  s.scanner.Mirrors source r.scanner ∧ r = { s with scanner := r.scanner }

end TokenStream

/-! ## Whole runs -/

/-- From one token to all tokens of a run. `Mirrors` is what the calls of the second run, whose text
left is `rest`, keep with those of the first one. -/
theorem Run.Repeats.toExcept_printed {σ : Type} {call : σ → Except LexError Token × σ}
    {run : σ → Run σ} (hrun : Repeats call run) {source : List CodeUnit} (rest : σ → List CodeUnit)
    {Mirrors : σ → σ → Prop}
    (hcall : ∀ {s r t s' after}, Mirrors s r → call s = (.ok t, s') →
      rest r = separatorFor t.flags.newLineBefore :: (t.text source ++ after) →
      Stops after → (t.kind = .eof → after = []) →
      ∃ t' r', call r = (.ok t', r') ∧ t'.content = t.content ∧ Mirrors s' r' ∧ rest r' = after)
    {s r : σ} {ts : List Token} (hmirrors : Mirrors s r) (hs : (run s).toExcept = .ok ts)
    (hrest : rest r = printed source ts) :
    ∃ ts', (run r).toExcept = .ok ts' ∧ ts'.map Token.content = ts.map Token.content := by
  induction ts generalizing s r with
  | nil => exact absurd hs hrun.toExcept_ne_nil
  | cons t ts ih =>
    obtain ⟨s', hs', hrun_s⟩ := hrun.toExcept_cons_iff.mp hs
    have heof : t.kind = .eof → printed source ts = [] := by
      intro heof
      rw [if_pos heof] at hrun_s
      rw [hrun_s]
      rfl
    obtain ⟨t', r', hr', hcontent, hmirrors', hrest'⟩ :=
      hcall hmirrors hs' hrest (stops_printed source ts) heof
    have hkind : t'.kind = t.kind := (Prod.mk.inj hcontent).1
    by_cases ht : t.kind = .eof
    · rw [if_pos ht] at hrun_s
      refine ⟨[t'], hrun.toExcept_cons_iff.mpr ⟨r', hr', ?_⟩, ?_⟩
      · rw [hkind, if_pos ht]
      · rw [hrun_s]
        exact congrArg ([·]) hcontent
    · rw [if_neg ht] at hrun_s
      obtain ⟨ts', hrun_r, hcontents⟩ := ih hmirrors' hrun_s hrest'
      refine ⟨t' :: ts', hrun.toExcept_cons_iff.mpr ⟨r', hr', ?_⟩, ?_⟩
      · rw [hkind, if_neg ht]
        exact hrun_r
      · rw [List.map_cons, List.map_cons, hcontent, hcontents]

/-- **Printed tokens are read again.** If a source is split into tokens, then the tokens, each
behind a blank or a line feed, are split into tokens of the same kinds, values and flags, in the
same context. This holds for a scanner and for a token stream. -/
theorem exists_tokens_of_printed (source : List CodeUnit) (c : Context) (ts : List Token) :
    (((Scanner.ofSource source).tokenizeAll c).1 = .ok ts →
      ∃ ts', ((Scanner.ofSource (printed source ts)).tokenizeAll c).1 = .ok ts' ∧
        ts'.map Token.content = ts.map Token.content) ∧
    (tokenize source c = .ok ts →
      ∃ ts', tokenize (printed source ts) c = .ok ts' ∧
        ts'.map Token.content = ts.map Token.content) := by
  have hmirrors : (Scanner.ofSource source).Mirrors source (.ofSource (printed source ts)) :=
    ⟨.of_startingAt source .start, rfl⟩
  constructor
  · intro hs
    refine (Scanner.repeats_run c).toExcept_printed (·.cursor.rest) ?_ hmirrors hs rfl
    rintro s r t s' after ⟨htracks, hline⟩ hnext hrest hafter heof
    obtain ⟨t', r', hnext', hcontent, hline', hrest'⟩ :=
      Scanner.next_printed htracks hnext hline hrest hafter heof
    exact ⟨t', r', hnext', hcontent, ⟨htracks.of_next hnext, hline'⟩, hrest'⟩
  · intro hs
    have hstreams : (TokenStream.ofSource source c).Mirrors source
      (.ofSource (printed source ts) c) := ⟨hmirrors, rfl⟩
    refine TokenStream.repeats_run.toExcept_printed (·.scanner.cursor.rest) ?_ hstreams hs rfl
    rintro s r t s' after ⟨⟨htracks, hline⟩, hr⟩ hadv hrest hafter heof
    obtain ⟨t', r', hadv', hcontent, hline', hrest'⟩ :=
      TokenStream.advance_printed htracks hadv hline hrest hafter heof
    rw [← hr] at hadv'
    exact ⟨t', _, hadv', hcontent,
      ⟨⟨TokenStream.tracks_of_advance htracks hadv, hline'⟩, rfl⟩, hrest'⟩

/-- A conditional with a number behind the question mark, a comment that ends a line, and a template
with a substitution. -/
theorem exists_tokens_of_printed_template :
    let source : List CodeUnit :=
      [0x61, 0x3F, 0x2E, 0x35, 0x3A, 0x2F, 0x2F, 0x0A, 0x60, 0x24, 0x7B, 0x62, 0x7D, 0x60]
    let ts := (TokenStream.ofSource source {}).run.tokens
    let names := ((Scanner.ofSource [0x61, 0x0A, 0x62]).run {}).tokens
    tokenize source {} = .ok ts ∧
      (∃ ts', tokenize (printed source ts) {} = .ok ts' ∧
        ts'.map Token.content = ts.map Token.content) ∧
      ((Scanner.ofSource [0x61, 0x0A, 0x62]).tokenizeAll {}).1 = .ok names ∧
      ∃ ts', ((Scanner.ofSource (printed [0x61, 0x0A, 0x62] names)).tokenizeAll {}).1 = .ok ts' ∧
        ts'.map Token.content = names.map Token.content := by
  intro source ts names
  have hts : tokenize source {} = .ok ts := Run.toExcept_eq_ok_iff.mpr ⟨by decide +kernel, rfl⟩
  have hnames : ((Scanner.ofSource [0x61, 0x0A, 0x62]).tokenizeAll {}).1 = .ok names :=
    Run.toExcept_eq_ok_iff.mpr ⟨by decide +kernel, rfl⟩
  exact ⟨hts, (exists_tokens_of_printed source {} ts).2 hts, hnames,
    (exists_tokens_of_printed _ {} names).1 hnames⟩

end EcmaLex
