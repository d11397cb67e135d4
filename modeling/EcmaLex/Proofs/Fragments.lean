import EcmaLex.Proofs.Calls
import EcmaLex.Proofs.Places

/-!
# Scanning a fragment in place

A scan may begin anywhere in a source. What it finds there is what a scan of the rest of the source
alone would find, except that all locations are moved: `Location.inPlace start` takes a location of
the fragment to its place in the whole source, where the fragment begins at `start`.

The two scans are in lockstep. A scanner never looks at what stands before its place, readers know
nothing of locations, and moving over a text commutes with `inPlace` (`Location.inPlace_after`). The
one thing that depends on an offset is a hashbang, which only the first unit of a source can begin
(`Scanner.first?_inPlace`).

* `Scanner.readAfterTrivia_inPlace` and the lemmas after it: one call.
* `Session.perform_inPlace`: one command.
* `Session.performAll_startingAt`: any number of them.
-/

namespace EcmaLex

/-! ## Locations in place -/

/-- A location of a fragment, in the source where the fragment begins at `start`. Only on the first
line of the fragment are columns moved. -/
def Location.inPlace (start l : Location) : Location where
  line := start.line + l.line - 1
  column := if l.line = 1 then start.column + l.column else l.column
  offset := start.offset + l.offset

/-- The same for a place. What is left behind it is the same text. -/
def Cursor.inPlace (start : Location) (c : Cursor) : Cursor :=
  ⟨start.inPlace c.location, c.rest⟩

def Token.inPlace (start : Location) (t : Token) : Token :=
  { t with
    start := start.inPlace t.start
    stop := start.offset + t.stop
    endLocation := t.endLocation.map start.inPlace }

def LexError.inPlace (start : Location) (e : LexError) : LexError :=
  { e with location := start.inPlace e.location }

def Comment.inPlace (start : Location) (k : Comment) : Comment :=
  { k with start := start.inPlace k.start, stop := start.inPlace k.stop }

def Scanner.inPlace (start : Location) (s : Scanner) : Scanner :=
  { s with
    cursor := s.cursor.inPlace start
    tokenStart := s.tokenStart.inPlace start
    comments := s.comments.map (Comment.inPlace start) }

def Checkpoint.inPlace (start : Location) (k : Checkpoint) : Checkpoint :=
  { k with cursor := k.cursor.inPlace start, tokenStart := k.tokenStart.inPlace start }

/-- An answer of a fragment's scanner, in place. -/
def answerInPlace {α : Type} (start : Location) (f : α → α) : Except LexError α → Except LexError α
  | .error e => .error (e.inPlace start)
  | .ok a => .ok (f a)

def Reply.inPlace (start : Location) : Reply → Reply
  | token r => token (answerInPlace start (Token.inPlace start) r)
  | tokens r => tokens (answerInPlace start (List.map (Token.inPlace start)) r)
  | comments ks => comments (ks.map (Comment.inPlace start))
  | saved slot => saved slot
  | restored same => restored same
  | noSuchSlot => noSuchSlot

def Session.inPlace (start : Location) (s : Session) : Session :=
  ⟨s.scanner.inPlace start, s.saved.map (Checkpoint.inPlace start)⟩

/-! ## Moving commutes -/

namespace Location

variable {start l : Location}

theorem inPlace_step : start.inPlace l.step = (start.inPlace l).step := by
  unfold inPlace step
  split <;> simp [Nat.add_assoc]

/-- A new line is never the first one. -/
theorem inPlace_newLine (hl : 1 ≤ l.line) (n : Nat) :
    start.inPlace (l.newLine n) = (start.inPlace l).newLine n := by
  have hline : start.line + (l.line + 1) - 1 = start.line + l.line - 1 + 1 := by omega
  have hfirst : ¬l.line + 1 = 1 := by omega
  unfold inPlace newLine
  simp only [hline, if_neg hfirst, Nat.add_assoc]

theorem inPlace_after (hl : 1 ≤ l.line) (text : List CodeUnit) :
    start.inPlace (l.after text) = (start.inPlace l).after text := by
  induction text generalizing l with
  | nil => rfl
  | cons u rest ih =>
    rw [after_cons, after_cons]
    split
    · rw [ih (Nat.le_succ_of_le hl), inPlace_newLine hl]
    · rw [← inPlace_step]
      exact ih hl

end Location

namespace Cursor

variable {start : Location} {c : Cursor}

theorem inPlace_advance (hc : 1 ≤ c.location.line) (n : Nat) :
    (c.advance n).inPlace start = (c.inPlace start).advance n := by
  unfold advance inPlace
  rw [Location.inPlace_after hc]

theorem inPlace_stepInLine : c.stepInLine.inPlace start = (c.inPlace start).stepInLine := by
  unfold stepInLine inPlace
  dsimp only
  split
  · rfl
  · rw [Location.inPlace_step]

theorem inPlace_advancePastOpener (hc : 1 ≤ c.location.line) (n : Nat) :
    (c.advancePastOpener n).inPlace start = (c.inPlace start).advancePastOpener n := by
  cases n with
  | zero => rfl
  | succ n =>
    have hstep : 1 ≤ c.stepInLine.location.line :=
      Nat.le_trans hc (Reaches.line_le (.stepInLine .refl)).1
    rw [advancePastOpener, inPlace_advance hstep, inPlace_stepInLine]
    rfl

end Cursor

/-! ## One call -/

/-- Where no hashbang stands it does not matter whether the source begins there. -/
theorem Trivia.first?_of_not_hashbang {m : Mode} {text : List CodeUnit} {sourceStart : Bool}
    (h : ¬Comment.Kind.hashbang.opener <+: text) :
    first? { m with sourceStart } text = first? m text := by
  have hopener : Comment.Kind.hashbang.opener.isPrefixOf text = false := by
    rw [← Bool.not_eq_true, List.isPrefixOf_iff_prefix]
    exact h
  have hopening : opening? { m with sourceStart } text = opening? m text := by
    simp only [opening?, hopener, Bool.and_false]
  unfold first?
  rw [hopening]

/-- A call for a token, in place. -/
def callInPlace (start : Location) (r : Except LexError Token × Scanner) :
    Except LexError Token × Scanner :=
  (answerInPlace start (Token.inPlace start) r.1, r.2.inPlace start)

namespace Scanner

variable {start : Location} {fragment : List CodeUnit} {c : Context} {s s' : Scanner}

/-- The places of a scan of the fragment alone. -/
abbrev IsAlone (fragment : List CodeUnit) (s : Scanner) : Prop :=
  s.Follows (ofSource fragment).cursor

/-- In a scan of the fragment alone lines count from one. -/
theorem one_le_line {b : Cursor} (h : (ofSource fragment).cursor.Reaches b) :
    1 ≤ b.location.line :=
  h.line_le.1

theorem settle_inPlace {place : Cursor} {seek seek' : Nat → Cursor}
    (hseek : ∀ n, seek' n = (seek n).inPlace start) (o : Outcome Lexeme) :
    (s.inPlace start).settle c (place.inPlace start) seek' o =
      callInPlace start (s.settle c place seek o) := by
  cases o with
  | error f =>
    simp only [settle, hseek]
    rfl
  | ok x =>
    simp only [settle, hseek]
    cases c.locations <;> rfl

theorem readHere_inPlace (h : s.IsAlone fragment) (r : Reader Lexeme) :
    (s.inPlace start).readHere c r = callInPlace start (s.readHere c r) :=
  settle_inPlace (fun n => (Cursor.inPlace_advance (one_le_line h.reaches_cursor) n).symm) _

theorem readAgain_inPlace (h : s.IsAlone fragment) (r : Reader Lexeme) :
    (s.inPlace start).readAgain c r = callInPlace start (s.readAgain c r) :=
  settle_inPlace (fun n => (Cursor.inPlace_advance (one_le_line h.tokenStart) n).symm) _

theorem rescanRegExp_inPlace (h : s.IsAlone fragment) :
    (s.inPlace start).rescanRegExp c = callInPlace start (s.rescanRegExp c) :=
  settle_inPlace
    (fun n => (Cursor.inPlace_advancePastOpener (one_le_line h.tokenStart) n).symm) _

theorem continueTemplate_inPlace (h : s.IsAlone fragment) :
    (s.inPlace start).continueTemplate c = callInPlace start (s.continueTemplate c) :=
  readAgain_inPlace (h.with_flags { newLineBefore := s.flags.newLineBefore })
    (Template.readContinuation c.taggedTemplate)

theorem nextJsxChild_inPlace (h : s.IsAlone fragment) :
    (s.inPlace start).nextJsxChild c = callInPlace start (s.nextJsxChild c) :=
  readHere_inPlace (h.with_flags ∅) Jsx.child

/-! ### Trivia -/

theorem pass_inPlace (h : s.IsAlone fragment) (collect : Bool) (t : Trivia) :
    (s.inPlace start).pass collect t = (s.pass collect t).inPlace start := by
  have hcursor : (s.cursor.advance t.length).inPlace start =
      (s.cursor.inPlace start).advance t.length :=
    Cursor.inPlace_advance (one_le_line h.reaches_cursor) t.length
  unfold pass inPlace
  dsimp only
  rw [← hcursor]
  cases t with
  | comment kind text => cases collect <;> simp [Comment.inPlace, Cursor.inPlace]
  | blank => rfl
  | lineBreak crlf => rfl
  | unclosed text => rfl

/-- **Trivia in place.** The fragment begins inside a source, so there is no hashbang; and alone it
does not begin with one. -/
theorem first?_inPlace (h : s.IsAlone fragment) (hstart : 0 < start.offset)
    (hbang : ¬Comment.Kind.hashbang.opener <+: fragment) :
    Trivia.first? ((s.inPlace start).triviaMode c) (s.inPlace start).cursor.rest =
      Trivia.first? (s.triviaMode c) s.cursor.rest := by
  have hinside : (start.offset + s.cursor.location.offset == 0) = false := by
    rw [beq_eq_false_iff_ne]
    omega
  have hmode : (s.inPlace start).triviaMode c =
      { s.triviaMode c with sourceStart := false } := by
    show Trivia.Mode.mk _ _ (start.offset + s.cursor.location.offset == 0) = _
    rw [hinside]
    rfl
  rw [hmode]
  by_cases hzero : s.cursor.location.offset = 0
  · have hplace := h.reaches_cursor.isPlaceOf (.of_startingAt fragment .start)
    apply Trivia.first?_of_not_hashbang
    show ¬_ <+: s.cursor.rest
    rw [hplace.rest_eq, hzero]
    exact hbang
  · have hsame : s.triviaMode c = { s.triviaMode c with sourceStart := false } := by
      rw [triviaMode, beq_eq_false_iff_ne.mpr hzero]
    rw [← hsame]
    rfl

theorem Passes.inPlace {ts : List Trivia} (hp : Passes c s ts s') (h : s.IsAlone fragment)
    (hstart : 0 < start.offset) (hbang : ¬Comment.Kind.hashbang.opener <+: fragment) :
    Passes c (s.inPlace start) ts (s'.inPlace start) := by
  induction hp with
  | done hnone =>
    refine .done ?_
    rw [first?_inPlace h hstart hbang]
    exact hnone
  | piece ht _ ih =>
    refine .piece ?_ ?_
    · rw [first?_inPlace h hstart hbang]
      exact ht
    · rw [pass_inPlace h]
      exact ih (h.pass _ ht)

theorem readAfterTrivia_inPlace (h : s.IsAlone fragment) (hstart : 0 < start.offset)
    (hbang : ¬Comment.Kind.hashbang.opener <+: fragment)
    (choose : List CodeUnit → Reader Lexeme) :
    (s.inPlace start).readAfterTrivia c choose =
      callInPlace start (s.readAfterTrivia c choose) := by
  obtain ⟨ts, s₁, hp, hcases⟩ := readAfterTrivia_cases c choose s
  have halone := h.with_flags ∅
  have hp' : Passes c { s.inPlace start with flags := ∅ } ts (s₁.inPlace start) :=
    hp.inPlace halone hstart hbang
  rcases hcases with ⟨hunclosed, heq⟩ | ⟨hclosed, heq⟩
  · rw [heq, readAfterTrivia, hp'.skipTrivia_eq, if_pos hunclosed]
    rfl
  · rw [heq, hp'.readAfterTrivia_eq hclosed]
    exact readHere_inPlace (halone.passes hp) _

/-- Scanning to the end. -/
theorem run_inPlace (h : s.IsAlone fragment) (hstart : 0 < start.offset)
    (hbang : ¬Comment.Kind.hashbang.opener <+: fragment) :
    (s.inPlace start).run c =
      ⟨(s.run c).tokens.map (Token.inPlace start), (s.run c).error.map (LexError.inPlace start),
        (s.run c).final.inPlace start⟩ := by
  have hcall (s : Scanner) (h : s.IsAlone fragment) :
      (s.inPlace start).next c = callInPlace start (s.next c) :=
    readAfterTrivia_inPlace h hstart hbang _
  have hfollows (s : Scanner) (h : s.IsAlone fragment) : (s.next c).2.IsAlone fragment :=
    (h.readAfterTrivia _).scanner
  fun_induction Scanner.run c s with
  | case1 s e s' hnext =>
    have hmoved := hcall s h
    rw [hnext] at hmoved
    rw [run_of_error hmoved]
    rfl
  | case2 s t s' hnext ht =>
    have hmoved := hcall s h
    rw [hnext] at hmoved
    rw [run_of_eof hmoved ht]
    rfl
  | case3 s t s' hnext ht ih =>
    have hmoved := hcall s h
    have hrest := hfollows s h
    rw [hnext] at hmoved hrest
    rw [run_of_ne_eof hmoved ht, ih hrest]
    rfl

end Scanner

/-! ## Sessions -/

namespace Session

variable {start : Location} {fragment : List CodeUnit} {s : Session}

/-- Whether going back gives the same checkpoint depends on the number of comments only. -/
theorem checkpoint_restore_beq (s : Scanner) (k : Checkpoint) :
    ((s.restore k).checkpoint == k) =
      ((s.comments.take k.commentCount).size == k.commentCount) := by
  rw [Bool.eq_iff_iff, beq_iff_eq, beq_iff_eq]
  obtain ⟨cursor, tokenStart, flags, lineStart, count⟩ := k
  simp [Scanner.checkpoint, Scanner.restore]

theorem restore_inPlace (s : Scanner) (k : Checkpoint) :
    (s.inPlace start).restore (k.inPlace start) = (s.restore k).inPlace start := by
  have hcomments : (s.comments.map (Comment.inPlace start)).take k.commentCount =
      (s.comments.take k.commentCount).map (Comment.inPlace start) := by
    simp only [Array.take_eq_extract, Array.map_extract]
  show Scanner.mk _ _ _ _ ((s.comments.map (Comment.inPlace start)).take k.commentCount) = _
  rw [hcomments]
  rfl

/-- **One command.** -/
theorem perform_inPlace (h : s.Follows (Scanner.ofSource fragment).cursor)
    (hstart : 0 < start.offset) (hbang : ¬Comment.Kind.hashbang.opener <+: fragment)
    (cmd : Command) :
    (s.inPlace start).perform cmd =
      ((s.perform cmd).1.inPlace start, (s.perform cmd).2.inPlace start) := by
  have hscanner := h.scanner
  have hcall {r r' : Except LexError Token × Scanner} (hr : r' = callInPlace start r) :
      (s.inPlace start).withToken r' =
        ((s.withToken r).1.inPlace start, (s.withToken r).2.inPlace start) := by
    rw [hr]
    rfl
  cases cmd with
  | next c => exact hcall (Scanner.readAfterTrivia_inPlace hscanner hstart hbang _)
  | regExp c => exact hcall (Scanner.rescanRegExp_inPlace hscanner)
  | template c => exact hcall (Scanner.continueTemplate_inPlace hscanner)
  | jsxChild c => exact hcall (Scanner.nextJsxChild_inPlace hscanner)
  | jsxName c => exact hcall (Scanner.readAgain_inPlace hscanner _)
  | jsxAttribute c => exact hcall (Scanner.readAfterTrivia_inPlace hscanner hstart hbang _)
  | all c =>
    have hrun := Scanner.run_inPlace (c := c) hscanner hstart hbang
    show (Reply.tokens ((s.scanner.inPlace start).run c).toExcept,
      Session.mk ((s.scanner.inPlace start).run c).final _) = _
    rw [hrun]
    unfold Run.toExcept
    dsimp only [Session.perform, Scanner.tokenizeAll]
    unfold Run.toExcept
    cases (s.scanner.run c).error <;> rfl
  | save =>
    show (Reply.saved (s.saved.map (Checkpoint.inPlace start)).size,
      Session.mk _ ((s.saved.map (Checkpoint.inPlace start)).push _)) = _
    rw [Array.size_map]
    simp [Session.perform, Session.inPlace, Reply.inPlace, Scanner.checkpoint, Scanner.inPlace,
      Checkpoint.inPlace]
  | restore slot =>
    simp only [Session.perform]
    have hsaved : (s.inPlace start).saved[slot]? = s.saved[slot]?.map (Checkpoint.inPlace start) :=
      Array.getElem?_map
    rw [hsaved]
    cases s.saved[slot]? with
    | none => rfl
    | some k =>
      dsimp only [Option.map_some]
      rw [checkpoint_restore_beq, checkpoint_restore_beq]
      have hsize : ((s.inPlace start).scanner.comments.take (k.inPlace start).commentCount).size =
          (s.scanner.comments.take k.commentCount).size := by
        show ((s.scanner.comments.map _).take k.commentCount).size = _
        simp
      have hback : (s.inPlace start).scanner.restore (k.inPlace start) =
          (s.scanner.restore k).inPlace start := restore_inPlace s.scanner k
      rw [hsize, hback]
      rfl
  | comments => rfl
  | takeComments =>
    simp [Session.perform, Session.inPlace, Reply.inPlace, Scanner.takeComments, Scanner.inPlace]

/-- **Any number of commands.** -/
theorem performAll_inPlace (h : s.Follows (Scanner.ofSource fragment).cursor)
    (hstart : 0 < start.offset) (hbang : ¬Comment.Kind.hashbang.opener <+: fragment)
    (cmds : List Command) :
    (s.inPlace start).performAll cmds =
      (s.performAll cmds).map fun r => (r.1.inPlace start, r.2.inPlace start) := by
  induction cmds generalizing s with
  | nil => rfl
  | cons cmd cmds ih =>
    rw [performAll, perform_inPlace h hstart hbang]
    dsimp only
    rw [ih (h.perform cmd).1]
    rfl

/-- **A fragment in place.** Scan a source from a location inside it on, where no hashbang stands,
with any commands. All answers, and the scanners left behind, are those of a scan of the rest of the
source alone, with their locations moved: offsets by the offset of the start, lines by the lines in
front of it, and columns by its column if they are on the first line. -/
theorem performAll_startingAt (source : List CodeUnit) (start : Location) (cmds : List Command)
    (hstart : 0 < start.offset) (hle : start.offset ≤ source.length)
    (hbang : ¬Comment.Kind.hashbang.opener <+: source.drop start.offset) :
    let alone := performAll ⟨.ofSource (source.drop start.offset), #[]⟩ cmds
    performAll ⟨.startingAt source start, #[]⟩ cmds =
        alone.map (fun r => (r.1.inPlace start, r.2.inPlace start)) ∧
      ∀ r ∈ alone, ∀ l ∈ r.1.locations, 1 ≤ l.line := by
  intro alone
  have hfollows : Follows (Scanner.ofSource (source.drop start.offset)).cursor
      ⟨.ofSource (source.drop start.offset), #[]⟩ :=
    ⟨Scanner.follows_startingAt _ _, by simp⟩
  constructor
  · have hbegin : Session.mk (.startingAt source start) #[] =
        inPlace start ⟨.ofSource (source.drop start.offset), #[]⟩ := by
      simp [Session.inPlace, Scanner.inPlace, Scanner.ofSource, Scanner.startingAt,
        Cursor.inPlace, Location.inPlace, Location.start, Nat.min_eq_left hle]
    rw [hbegin]
    exact performAll_inPlace hfollows hstart hbang cmds
  · intro r hr l hl
    obtain ⟨b, hb, rfl⟩ := (hfollows.performAll cmds r hr).2.exists_reaches l hl
    exact Scanner.one_le_line hb

/-- The second half of a source, from the middle of a line on. It begins with a hash, but not with a
hashbang, so the first call fails; the name on the next line is then found in its place. -/
theorem performAll_startingAt_middle :
    let source : List CodeUnit := [0x61, 0x20, 0x23, 0x0A, 0x62]
    let start : Location := ⟨7, 4, 2⟩
    let cmds : List Command := [.save, .next {}, .next { locations := true }, .restore 0]
    0 < start.offset ∧ start.offset ≤ source.length ∧
      ¬Comment.Kind.hashbang.opener <+: source.drop start.offset ∧
      performAll ⟨.startingAt source start, #[]⟩ cmds =
        (performAll ⟨.ofSource [0x23, 0x0A, 0x62], #[]⟩ cmds).map fun r =>
          (r.1.inPlace start, r.2.inPlace start) := by
  intro source start cmds
  have hbang : ¬Comment.Kind.hashbang.opener <+: source.drop start.offset := by decide
  exact ⟨by decide, by decide, hbang,
    (performAll_startingAt source start cmds (by decide) (by decide) hbang).1⟩

end Session

end EcmaLex
