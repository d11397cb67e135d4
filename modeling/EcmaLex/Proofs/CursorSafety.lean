import EcmaLex.Proofs.Faults
import EcmaLex.Proofs.Gaps
import EcmaLex.Proofs.Places

/-!
# Scanning stays inside the source

Whatever is asked of a scanner, in whatever order and after whatever failures, its places stay
inside the source, and all that its answers were copied from lies inside the source as well. The
places are those that `Session.Follows` describes. What is left are the errors: none says that a
number has no value, and one that points at a trailing separator points at the unit right before the
cursor (`LexError.Justified`).

* `Scanner.Safe` and `Reply.Safe`: what is true after every command.
* `Session.Follows.performAll_safe`: every session.
-/

namespace EcmaLex

variable {source : List CodeUnit} {start : Location}

/-! ## What lies inside the source -/

/-- A location inside the source. Neither its line nor its column is further from the start than the
source is long. -/
structure Location.InRange (l : Location) (source : List CodeUnit) (start : Location) : Prop where
  line_le : l.line ≤ start.line + source.length
  column_le : l.column ≤ start.column + source.length
  offset_le : l.offset ≤ source.length

/-- A token from one offset of the source to another, with the text between them. -/
structure Token.IsSlice (t : Token) (source : List CodeUnit) : Prop where
  start_le : t.start.offset ≤ t.stop
  stop_le : t.stop ≤ source.length
  raw_eq {raw : String} : t.raw = some raw →
    raw = Utf16.lossy (source.extract t.start.offset t.stop)

/-- A comment from one offset of the source to another, with the text between its delimiters. -/
structure Comment.IsSlice (k : Comment) (source : List CodeUnit) : Prop where
  delimiters_le : k.start.offset + k.kind.opener.length + k.kind.closer.length ≤ k.stop.offset
  stop_le : k.stop.offset ≤ source.length
  text_eq : k.text = Utf16.lossy (k.extent.interior source)

theorem Cursor.Reaches.inRange {b : Cursor}
    (h : (Scanner.startingAt source start).cursor.Reaches b) :
    b.location.InRange source start := by
  have hle := (h.isPlaceOf (.of_startingAt source start)).offset_le
  have hlines : b.location.line + _ ≤ start.line + _ := h.line_le.2
  have hcolumns : b.location.column + _ ≤ start.column + _ := h.column_le
  exact ⟨by omega, by omega, hle⟩

section Slices
variable {a : Cursor} (ha : a.IsPlaceOf source)
include ha

theorem Token.LiesBehind.isSlice {t : Token} (h : t.LiesBehind a) : t.IsSlice source := by
  obtain ⟨b, d, hb, hd, hstart, hstop, -, hraw⟩ := h
  have hplace := hb.isPlaceOf ha
  refine ⟨?_, ?_, ?_⟩
  · rw [hstart, hstop]
    exact hd.offset_le
  · rw [hstop]
    exact (hd.isPlaceOf hplace).offset_le
  · intro raw h
    rw [hraw raw h, hplace.rest_eq, hstart, hstop, List.extract_eq_take_drop]

theorem Comment.LiesBehind.isSlice {k : Comment} (h : k.LiesBehind a) : k.IsSlice source := by
  obtain ⟨b, m, inner, piece, rest, hb, hrest, hwritten, htext, hstart, hstop⟩ := h
  have hplace := hb.isPlaceOf ha
  have hsource : source.drop b.location.offset = piece ++ rest := by rw [← hplace.rest_eq, hrest]
  have hoffset : k.stop.offset = b.location.offset + (Trivia.comment k.kind inner).length := by
    rw [hstop, Cursor.offset_advance, hrest, List.take_left, hwritten.length_eq]
  refine ⟨?_, ?_, ?_⟩
  · rw [hoffset, hstart]
    simp only [Trivia.length]
    omega
  · rw [hstop]
    exact (hplace.advance _).offset_le
  · have hinterior := Trivia.interior_of_written hsource hwritten
    rw [htext, Comment.extent, hoffset, hstart, hinterior]

end Slices

/-! ## Errors -/

/-- An error that does not say that a number has no value. If it points at a trailing separator,
this is the unit right before the cursor, which is at `l`. -/
structure LexError.Justified (l : Location) (e : LexError) : Prop where
  cause_ne : e.cause ≠ .invalidNumericLiteral
  separator : e.cause = .trailingNumericSeparator → e.location.step = l

namespace Cursor

/-- Past a unit that ends no line. -/
theorem location_advance_succ {c : Cursor} {n : Nat} {u : CodeUnit} (hu : c.rest[n]? = some u)
    (hline : u.isLineTerminator = false) :
    (c.advance (n + 1)).location = (c.advance n).location.step := by
  have htake : c.rest.take (n + 1) = c.rest.take n ++ [u] := by
    rw [List.take_add_one, hu]
    rfl
  have hcut : Text.CleanCut (c.rest.take n ++ [u]) (c.rest.take n).length := by
    refine .of_after (by simp) ?_
    rw [List.getElem?_append_right (Nat.le_refl _), Nat.sub_self]
    intro h
    obtain rfl : u = CodeUnit.lineFeed := by simpa using h
    exact absurd hline (by decide)
  rw [location_advance, location_advance, htake, Location.after_append _ _ _ hcut]
  simp [Location.after, hline]

end Cursor

namespace Scanner

/-- A call whose error, if it gives one, is justified. -/
def FailsJustly (r : Except LexError Token × Scanner) : Prop :=
  ∀ e, r.1 = .error e → e.Justified r.2.cursor.location

variable {c : Context} {s : Scanner}

/-- Errors that concern no number. -/
theorem failsJustly_of_sparesNumbers {at₀ : Cursor} {seek : Nat → Cursor} {o : Outcome Lexeme}
    (h : o.SparesNumbers) : FailsJustly (s.settle c at₀ seek o) := by
  intro e he
  cases o with
  | ok x => simp [settle] at he
  | error f =>
    obtain rfl := Except.error.inj he
    -- justified in any text, also in one that has no separator
    have hjustified : f.Justified [] := h.justified []
    refine ⟨hjustified.cause_ne, fun hcause => ?_⟩
    obtain ⟨-, hunit⟩ := hjustified.separator hcause
    simp at hunit

/-- Errors where a token should stand. -/
theorem failsJustly_of_justified {at₀ : Cursor} {o : Outcome Lexeme} (h : o.Justified at₀.rest) :
    FailsJustly (s.settle c at₀ at₀.advance o) := by
  intro e he
  cases o with
  | ok x => simp [settle] at he
  | error f =>
    obtain rfl := Except.error.inj he
    refine ⟨h.cause_ne, fun hcause => ?_⟩
    obtain ⟨hstop, hunit⟩ := h.separator hcause
    show (at₀.advance f.place).location.step = (at₀.advance f.stop).location
    rw [hstop, Cursor.location_advance_succ hunit (by decide)]

theorem failsJustly_readAfterTrivia {choose : List CodeUnit → Reader Lexeme}
    (h : ∀ text, (choose text text).Justified text) : FailsJustly (s.readAfterTrivia c choose) := by
  obtain ⟨ts, s₁, -, hcases⟩ := readAfterTrivia_cases c choose s
  rcases hcases with ⟨-, heq⟩ | ⟨-, heq⟩
  · rw [heq]
    intro e he
    obtain rfl := Except.error.inj he
    exact ⟨by simp, by simp⟩
  · rw [heq]
    exact failsJustly_of_justified (h _)

theorem failsJustly_next (c : Context) (s : Scanner) : FailsJustly (s.next c) :=
  failsJustly_readAfterTrivia fun text => Lexeme.justified_read c text

theorem failsJustly_nextJsxAttribute (c : Context) (s : Scanner) :
    FailsJustly (s.nextJsxAttribute c) := by
  refine failsJustly_readAfterTrivia fun text => ?_
  split
  · exact (Jsx.sparesNumbers_attributeValue text).justified text
  · exact Lexeme.justified_read c text

/-- **A run** stops at a justified error. It gives at most one token for each unit that is left, and
the end token. -/
theorem run_safe (c : Context) (s : Scanner) :
    (∀ e, (s.run c).error = some e → e.Justified (s.run c).final.cursor.location) ∧
      (s.run c).tokens.length ≤ s.cursor.rest.length + 1 := by
  fun_induction Scanner.run c s with
  | case1 s e s' hnext =>
    have hjust := failsJustly_next c s
    rw [hnext] at hjust
    refine ⟨?_, by simp⟩
    intro e' he
    obtain rfl := Option.some.inj he
    exact hjust e rfl
  | case2 s t s' hnext _ => exact ⟨by simp, by simp⟩
  | case3 s t s' hnext ht ih =>
    have hlt := rest_lt_of_next hnext ht
    refine ⟨ih.1, ?_⟩
    have hle := ih.2
    simp only [Run.cons, List.length_cons]
    omega

end Scanner

/-! ## Sessions -/

/-- A scanner whose places are places of the source. -/
structure Scanner.Safe (source : List CodeUnit) (start : Location) (s : Scanner) : Prop where
  tokenStart_le : s.tokenStart.location.offset ≤ s.cursor.location.offset
  isPlaceOf : s.cursor.IsPlaceOf source
  inRange : s.cursor.location.InRange source start ∧ s.tokenStart.location.InRange source start
  comments : ∀ k ∈ s.comments, k.IsSlice source

/-- A reply whose parts lie inside the source, where the cursor is left at `l`. -/
structure Reply.Safe (source : List CodeUnit) (start l : Location) (r : Reply) : Prop where
  tokens : ∀ t ∈ r.tokenList, t.IsSlice source
  tokens_le : r.tokenList.length ≤ source.length + 1
  comments : ∀ k ∈ r.commentList, k.IsSlice source
  inRange : ∀ l ∈ r.locations, l.InRange source start
  error {e : LexError} : r.error? = some e → e.Justified l

namespace Session

/-- An error of one command is justified, and tokens are no more than there are units left. -/
theorem perform_justified (s : Session) (cmd : Command) :
    (∀ e, (s.perform cmd).1.error? = some e →
        e.Justified (s.perform cmd).2.scanner.cursor.location) ∧
      (s.perform cmd).1.tokenList.length ≤ s.scanner.cursor.rest.length + 1 := by
  have htoken (r : Except LexError Token × Scanner) (hr : Scanner.FailsJustly r) :
      (∀ e, (s.withToken r).1.error? = some e →
          e.Justified (s.withToken r).2.scanner.cursor.location) ∧
        (s.withToken r).1.tokenList.length ≤ s.scanner.cursor.rest.length + 1 := by
    obtain ⟨r, s'⟩ := r
    cases r with
    | ok t => exact ⟨by simp [withToken, Reply.error?], by simp [withToken, Reply.tokenList]⟩
    | error e =>
      refine ⟨?_, by simp [withToken, Reply.tokenList]⟩
      intro e' he
      obtain rfl := Option.some.inj he
      exact hr e rfl
  cases cmd with
  | next c => exact htoken _ (Scanner.failsJustly_next c _)
  | regExp c => exact htoken _ (Scanner.failsJustly_of_sparesNumbers (RegExp.sparesNumbers_read _))
  | template c =>
    exact htoken _
      (Scanner.failsJustly_of_sparesNumbers (Template.sparesNumbers_readContinuation _ _))
  | jsxChild c =>
    exact htoken _ (Scanner.failsJustly_of_sparesNumbers (Jsx.sparesNumbers_child _))
  | jsxName c => exact htoken _ (Scanner.failsJustly_of_sparesNumbers (Jsx.sparesNumbers_name _))
  | jsxAttribute c => exact htoken _ (Scanner.failsJustly_nextJsxAttribute c _)
  | all c =>
    obtain ⟨herror, hlength⟩ := s.scanner.run_safe c
    unfold perform Scanner.tokenizeAll Run.toExcept
    dsimp only
    split
    · next e he =>
      refine ⟨?_, by simp [Reply.tokenList]⟩
      intro e' he'
      obtain rfl := Option.some.inj he'
      exact herror e he
    · exact ⟨by simp [Reply.error?], hlength⟩
  | save => exact ⟨by simp [perform, Reply.error?], by simp [perform, Reply.tokenList]⟩
  | restore slot =>
    unfold perform
    dsimp only
    split
    · exact ⟨by simp [Reply.error?], by simp [Reply.tokenList]⟩
    · exact ⟨by simp [Reply.error?], by simp [Reply.tokenList]⟩
  | comments => exact ⟨by simp [perform, Reply.error?], by simp [perform, Reply.tokenList]⟩
  | takeComments => exact ⟨by simp [perform, Reply.error?], by simp [perform, Reply.tokenList]⟩

variable {s : Session}

/-- The places of a scanner that come from the start of a scan. -/
theorem safe_of_follows {s : Scanner} (h : s.Follows (Scanner.startingAt source start).cursor) :
    s.Safe source start := by
  have hstart : (Scanner.startingAt source start).cursor.IsPlaceOf source := .of_startingAt _ _
  exact ⟨h.cursor.offset_le, h.reaches_cursor.isPlaceOf hstart,
    ⟨h.reaches_cursor.inRange, h.tokenStart.inRange⟩, fun k hk => (h.comments k hk).isSlice hstart⟩

/-- **One command.** -/
theorem Follows.perform_safe (h : s.Follows (Scanner.startingAt source start).cursor)
    (cmd : Command) :
    (s.perform cmd).2.scanner.Safe source start ∧
      (s.perform cmd).1.Safe source start (s.perform cmd).2.scanner.cursor.location := by
  obtain ⟨hstep, hreply⟩ := h.perform cmd
  obtain ⟨herror, hlength⟩ := s.perform_justified cmd
  have hstart : (Scanner.startingAt source start).cursor.IsPlaceOf source := .of_startingAt _ _
  refine ⟨safe_of_follows hstep.scanner, fun t ht => (hreply.tokens t ht).isSlice hstart, ?_,
    fun k hk => (hreply.comments k hk).isSlice hstart, ?_, fun he => herror _ he⟩
  · rw [(h.scanner.reaches_cursor.isPlaceOf hstart).rest_eq, List.length_drop] at hlength
    omega
  · intro l hl
    obtain ⟨b, hb, rfl⟩ := hreply.exists_reaches l hl
    exact hb.inRange

/-- **Any number of commands**, each with its reply. -/
theorem Follows.performAll_safe (h : s.Follows (Scanner.startingAt source start).cursor)
    (cmds : List Command) :
    (s.performAll cmds).length = cmds.length ∧
      ∀ r ∈ s.performAll cmds,
        r.2.Safe source start ∧ r.1.Safe source start r.2.cursor.location := by
  induction cmds generalizing s with
  | nil => exact ⟨rfl, by simp [Session.performAll]⟩
  | cons cmd cmds ih =>
    obtain ⟨hlength, hrest⟩ := ih (h.perform cmd).1
    refine ⟨congrArg (· + 1) hlength, ?_⟩
    intro r hr
    rcases List.mem_cons.mp hr with rfl | hr
    · exact h.perform_safe cmd
    · exact hrest r hr

end Session

end EcmaLex
