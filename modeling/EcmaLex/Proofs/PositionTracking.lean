import EcmaLex.Proofs.CleanStops
import EcmaLex.Proofs.SkippedTrivia
import EcmaLex.Proofs.TriviaGrammar
import EcmaLex.Session

/-!
# Positions are tracked exactly

A scanner never counts lines: it moves a location along with every step. Over a whole session, with
failed calls, rescans and returns to checkpoints in between, the location it ends up with is still
the one that counting the line ends of the source gives (`Location.IsCounted`).

The invariant is that every place a scanner remembers was reached from the start by moving over the
text in between, and stands at a clean cut (`Cursor.Tracks`). Readers only stop at clean cuts, so
each call keeps it (`Session.Tracks.perform`), and so does every sequence of calls.

One call is out of line: a regular expression rescan takes the unit at the token start for a slash
without a look. It has to be made where a slash stands (`Session.RegExpsAtSlashes`).
-/

namespace EcmaLex

open Text

/-! ## Counted locations -/

/-- A location in a scan of `source` from `start` on: its line is the number of line ends before its
offset, counted from the start, and its column is the distance to the last of them. -/
structure Location.IsCounted (l : Location) (source : List CodeUnit) (start : Location) :
    Prop where
  start_le : min start.offset source.length ≤ l.offset
  le_length : l.offset ≤ source.length
  line_eq : l.line =
    start.line + (lineEnds (source.extract (min start.offset source.length) l.offset)).length
  column_eq : l.column =
    lastColumn start.column (source.extract (min start.offset source.length) l.offset)

/-- A place that was reached from the start by moving over the text before it. -/
structure Cursor.Tracks (c : Cursor) (source : List CodeUnit) (start : Location) : Prop where
  exists_before : ∃ before, source.drop start.offset = before ++ c.rest ∧
    c.location =
      ({ start with offset := min start.offset source.length } : Location).after before ∧
    CleanCut (before ++ c.rest) before.length

namespace Cursor.Tracks

variable {source : List CodeUnit} {start : Location} {c : Cursor}

/-- The place where a scan starts. -/
theorem of_start (source : List CodeUnit) (start : Location) :
    (Scanner.startingAt source start).cursor.Tracks source start :=
  ⟨[], rfl, rfl, .zero _⟩

/-- Moving to a clean cut. -/
theorem advance {n : Nat} (h : c.Tracks source start) (hn : CleanCut c.rest n) :
    (c.advance n).Tracks source start := by
  obtain ⟨before, hsource, hloc, hclean⟩ := h.exists_before
  have hsplit : before ++ c.rest = (before ++ c.rest.take n) ++ c.rest.drop n := by
    rw [List.append_assoc, List.take_append_drop]
  refine ⟨before ++ c.rest.take n, ?_, ?_, ?_⟩
  · rw [rest_advance, ← hsplit, hsource]
  · have hmeet : CleanCut (before ++ c.rest.take n) before.length := by
      rw [hsplit] at hclean
      exact hclean.append_left (by simp)
    rw [location_advance, hloc, Location.after_append _ _ _ hmeet]
  · rw [rest_advance, ← hsplit, List.length_append, List.length_take, Nat.min_eq_left hn.le]
    exact hclean.add (by rw [List.drop_left]; exact hn)

/-- An offset beyond the end means the end. -/
theorem drop_min (source : List CodeUnit) (n : Nat) :
    source.drop (min n source.length) = source.drop n := by
  rcases Nat.le_total n source.length with hle | hle
  · rw [Nat.min_eq_left hle]
  · rw [Nat.min_eq_right hle, List.drop_length, List.drop_eq_nil_of_le hle]

/-- The rest is what the source has from the offset on. -/
theorem rest_eq (h : c.Tracks source start) : c.rest = source.drop c.location.offset := by
  obtain ⟨before, hsource, hloc, -⟩ := h.exists_before
  rw [hloc, Location.offset_after, ← List.drop_drop, drop_min, hsource, List.drop_left]

/-- The location is the counted one. -/
theorem isCounted (h : c.Tracks source start) : c.location.IsCounted source start := by
  obtain ⟨before, hsource, hloc, -⟩ := h.exists_before
  rw [← drop_min] at hsource
  have hoff : c.location.offset = min start.offset source.length + before.length := by
    rw [hloc, Location.offset_after]
  have hbetween : source.extract (min start.offset source.length) c.location.offset = before := by
    rw [List.extract_eq_take_drop, hoff, Nat.add_sub_cancel_left, hsource, List.take_left]
  have hlen := congrArg List.length hsource
  rw [List.length_drop, List.length_append] at hlen
  refine ⟨?_, ?_, ?_, ?_⟩
  · rw [hoff]
    exact Nat.le_add_right _ _
  · rw [hoff]
    omega
  · rw [hbetween, hloc, Location.after_eq]
  · rw [hbetween, hloc, Location.after_eq]

end Cursor.Tracks

/-! ## Scanners -/

/-- The locations a token carries. -/
def Token.locations (t : Token) : List Location := t.start :: t.endLocation.toList

/-- The locations that the result of a call carries. -/
def resultLocations : Except LexError Token → List Location
  | .ok t => t.locations
  | .error e => [e.location]

/-- Every place that a scanner remembers is tracked, and every comment is where it says. -/
structure Scanner.Tracks (s : Scanner) (source : List CodeUnit) (start : Location) : Prop where
  cursor : s.cursor.Tracks source start
  tokenStart : s.tokenStart.Tracks source start
  comments : ∀ k ∈ s.comments, k.start.IsCounted source start ∧ k.stop.IsCounted source start

/-- A call whose result carries counted locations only, and which leaves a tracked scanner. -/
structure TracksResult (source : List CodeUnit) (start : Location)
    (r : Except LexError Token × Scanner) : Prop where
  scanner : r.2.Tracks source start
  locations : ∀ l ∈ resultLocations r.1, l.IsCounted source start

namespace Scanner

variable {source : List CodeUnit} {start : Location} {c : Context} {s s' : Scanner}

theorem Tracks.of_startingAt (source : List CodeUnit) (start : Location) :
    (startingAt source start).Tracks source start :=
  ⟨.of_start source start, .of_start source start, by simp [startingAt]⟩

theorem Tracks.with_flags (h : s.Tracks source start) (flags : TokenFlags) :
    ({ s with flags } : Scanner).Tracks source start :=
  ⟨h.cursor, h.tokenStart, h.comments⟩

/-! ### Trivia -/

/-- Passing one piece of trivia. -/
theorem Tracks.pass (h : s.Tracks source start) {t : Trivia} (collect : Bool)
    (ht : CleanCut s.cursor.rest t.length) : (s.pass collect t).Tracks source start := by
  have hcursor := h.cursor.advance ht
  refine ⟨hcursor, h.tokenStart, ?_⟩
  intro k hk
  unfold Scanner.pass at hk
  dsimp only at hk
  split at hk
  · split at hk
    · rcases Array.mem_push.mp hk with hk | rfl
      · exact h.comments k hk
      · exact ⟨h.cursor.isCounted, hcursor.isCounted⟩
    · exact h.comments k hk
  · exact h.comments k hk

/-- Passing all trivia ahead. -/
theorem Tracks.passes {ts : List Trivia} (hp : Passes c s ts s') (h : s.Tracks source start) :
    s'.Tracks source start := by
  induction hp with
  | done _ => exact h
  | piece hfirst _ ih => exact ih (h.pass _ (Trivia.cleanCut_of_first? hfirst))

/-- No line terminator stands where trivia ends. -/
theorem Passes.head?_ne_return {ts : List Trivia} (hp : Passes c s ts s') :
    s'.cursor.rest.head? ≠ some CodeUnit.carriageReturn := by
  intro hcr
  refine Trivia.first?_eq_none_iff.mp hp.first?_eq_none (.inl ⟨_, hcr, .inr ?_⟩)
  decide

/-! ### Tokens -/

/-- Settling a result whose positions are clean cuts. -/
theorem Tracks.settle {at₀ : Cursor} {seek : Nat → Cursor} {o : Outcome Lexeme}
    (h : s.Tracks source start) (hat : at₀.Tracks source start)
    (hseek : ∀ n, CleanCut at₀.rest n → (seek n).Tracks source start)
    (ho : o.Clean at₀.rest) : TracksResult source start (s.settle c at₀ seek o) := by
  cases o with
  | ok x =>
    have hstop := hseek _ ho
    refine ⟨⟨hstop, hat, h.comments⟩, ?_⟩
    intro l hl
    rcases List.mem_cons.mp hl with rfl | hl
    · exact hat.isCounted
    · rw [Option.mem_toList] at hl
      dsimp only [Scanner.settle] at hl
      split at hl
      · obtain rfl := Option.some.inj hl
        exact hstop.isCounted
      · simp at hl
  | error f =>
    refine ⟨⟨hseek _ ho.2, hat, h.comments⟩, ?_⟩
    intro l hl
    obtain rfl := List.mem_singleton.mp hl
    exact (hseek _ ho.1).isCounted

theorem Tracks.readHere {r : Reader Lexeme} (h : s.Tracks source start)
    (hr : (r s.cursor.rest).Clean s.cursor.rest) :
    TracksResult source start (s.readHere c r) :=
  h.settle h.cursor (fun _ hn => h.cursor.advance hn) hr

theorem Tracks.readAgain {r : Reader Lexeme} (h : s.Tracks source start)
    (hr : (r s.tokenStart.rest).Clean s.tokenStart.rest) :
    TracksResult source start (s.readAgain c r) :=
  h.settle h.tokenStart (fun _ hn => h.tokenStart.advance hn) hr

theorem Tracks.readAfterTrivia {choose : List CodeUnit → Reader Lexeme} (h : s.Tracks source start)
    (hr : ∀ text : List CodeUnit, text.head? ≠ some CodeUnit.carriageReturn →
      (choose text text).Clean text) :
    TracksResult source start (s.readAfterTrivia c choose) := by
  obtain ⟨ts, s₁, hp, hcases⟩ := readAfterTrivia_cases c choose s
  have h₁ := (h.with_flags ∅).passes hp
  rcases hcases with ⟨-, heq⟩ | ⟨-, heq⟩
  · rw [heq]
    refine ⟨h₁, ?_⟩
    intro l hl
    obtain rfl := List.mem_singleton.mp hl
    exact h₁.cursor.isCounted
  · rw [heq]
    exact h₁.readHere (hr _ hp.head?_ne_return)

theorem Tracks.next (h : s.Tracks source start) (c : Context) :
    TracksResult source start (s.next c) :=
  h.readAfterTrivia fun _ hcr => Lexeme.clean_read c hcr

theorem Tracks.continueTemplate (h : s.Tracks source start) (c : Context) :
    TracksResult source start (s.continueTemplate c) :=
  (h.with_flags _).readAgain (Template.clean_readContinuation _ _)

theorem Tracks.of_next {r : Except LexError Token} (h : s.Tracks source start)
    (hnext : s.next c = (r, s')) : s'.Tracks source start := by
  have htracks := (h.next c).scanner
  rwa [hnext] at htracks

theorem Tracks.of_continueTemplate {r : Except LexError Token} (h : s.Tracks source start)
    (htemplate : s.continueTemplate c = (r, s')) : s'.Tracks source start := by
  have htracks := (h.continueTemplate c).scanner
  rwa [htemplate] at htracks

theorem Tracks.nextJsxChild (h : s.Tracks source start) (c : Context) :
    TracksResult source start (s.nextJsxChild c) :=
  (h.with_flags _).readHere (Jsx.clean_child _)

theorem Tracks.rescanJsxName (h : s.Tracks source start) (c : Context) :
    TracksResult source start (s.rescanJsxName c) :=
  h.readAgain (Jsx.clean_name _)

theorem Tracks.nextJsxAttribute (h : s.Tracks source start) (c : Context) :
    TracksResult source start (s.nextJsxAttribute c) := by
  apply h.readAfterTrivia
  intro text hcr
  split
  · next hq =>
    cases text with
    | nil => simp at hq
    | cons quote rest => exact Jsx.clean_attributeValue (by simpa using hcr) rest
  · exact Lexeme.clean_read c hcr

/-- A rescan as a regular expression, where a slash stands. -/
theorem Tracks.rescanRegExp (h : s.Tracks source start)
    (hslash : s.tokenStart.rest.head? = some CodeUnit.slash) (c : Context) :
    TracksResult source start (s.rescanRegExp c) := by
  refine h.settle h.tokenStart (fun n hn => ?_) ?_
  · rw [Cursor.advancePastOpener_eq hslash (by decide)]
    exact h.tokenStart.advance hn
  · obtain ⟨rest, hrest⟩ : ∃ rest, s.tokenStart.rest = CodeUnit.slash :: rest := by
      cases hr : s.tokenStart.rest with
      | nil => simp [hr] at hslash
      | cons u rest => exact ⟨rest, by rw [hr] at hslash; simpa using hslash⟩
    rw [hrest]
    exact RegExp.clean_read (by decide) rest

/-- Scanning to the end. -/
theorem Tracks.run (h : s.Tracks source start) (c : Context) :
    (s.run c).final.Tracks source start ∧
      (∀ t ∈ (s.run c).tokens, ∀ l ∈ t.locations, l.IsCounted source start) ∧
      ∀ e, (s.run c).error = some e → e.location.IsCounted source start := by
  fun_induction Scanner.run c s with
  | case1 s e s' hnext =>
    have hres := h.next c
    rw [hnext] at hres
    refine ⟨hres.scanner, by simp, ?_⟩
    intro e' he'
    obtain rfl := Option.some.inj he'
    exact hres.locations _ (List.mem_singleton.mpr rfl)
  | case2 s t s' hnext ht =>
    have hres := h.next c
    rw [hnext] at hres
    refine ⟨hres.scanner, ?_, by simp⟩
    intro t' ht'
    obtain rfl := List.mem_singleton.mp ht'
    exact hres.locations
  | case3 s t s' hnext ht ih =>
    have hres := h.next c
    rw [hnext] at hres
    obtain ⟨hfinal, htokens, herror⟩ := ih hres.scanner
    refine ⟨hfinal, ?_, herror⟩
    intro t' ht'
    rcases List.mem_cons.mp ht' with rfl | ht'
    · exact hres.locations
    · exact htokens t' ht'

end Scanner

/-! ## Sessions -/

namespace Reply

/-- All locations that a reply carries. -/
def locations : Reply → List Location
  | token r => resultLocations r
  | tokens (.ok ts) => ts.flatMap Token.locations
  | tokens (.error e) => [e.location]
  | comments ks => ks.toList.flatMap fun k => [k.start, k.stop]
  | saved _ | restored _ | noSuchSlot => []

end Reply

namespace Session

/-- Regular expression rescans are only made where the last token starts with a slash. -/
def RegExpsAtSlashes (s : Session) : List Command → Prop
  | [] => True
  | cmd :: cmds =>
    (∀ c, cmd = .regExp c → s.scanner.tokenStart.rest.head? = some CodeUnit.slash) ∧
      (s.perform cmd).2.RegExpsAtSlashes cmds

/-- The scanner of a session and all its checkpoints are tracked. -/
structure Tracks (s : Session) (source : List CodeUnit) (start : Location) : Prop where
  scanner : s.scanner.Tracks source start
  saved : ∀ k ∈ s.saved, k.cursor.Tracks source start ∧ k.tokenStart.Tracks source start

variable {source : List CodeUnit} {start : Location} {s : Session}

theorem Tracks.withToken (h : s.Tracks source start) {r : Except LexError Token × Scanner}
    (hr : TracksResult source start r) :
    (s.withToken r).2.Tracks source start ∧
      ∀ l ∈ (s.withToken r).1.locations, l.IsCounted source start :=
  ⟨⟨hr.scanner, h.saved⟩, hr.locations⟩

/-- The comments of a tracked scanner are where they say. -/
theorem isCounted_of_mem_comments {s : Scanner} (h : s.Tracks source start) :
    ∀ l ∈ (Reply.comments s.comments).locations, l.IsCounted source start := by
  intro l hl
  obtain ⟨k, hk, hl⟩ := List.mem_flatMap.mp hl
  have hcounted := h.comments k (Array.mem_toList_iff.mp hk)
  simp only [List.mem_cons, List.not_mem_nil, or_false] at hl
  rcases hl with rfl | rfl
  · exact hcounted.1
  · exact hcounted.2

/-- **One command** keeps places tracked and replies with counted locations. -/
theorem Tracks.perform (h : s.Tracks source start) (cmd : Command)
    (hcmd : ∀ c, cmd = .regExp c → s.scanner.tokenStart.rest.head? = some CodeUnit.slash) :
    (s.perform cmd).2.Tracks source start ∧
      ∀ l ∈ (s.perform cmd).1.locations, l.IsCounted source start := by
  cases cmd with
  | next c => exact h.withToken (h.scanner.next c)
  | regExp c => exact h.withToken (h.scanner.rescanRegExp (hcmd c rfl) c)
  | template c => exact h.withToken (h.scanner.continueTemplate c)
  | jsxChild c => exact h.withToken (h.scanner.nextJsxChild c)
  | jsxName c => exact h.withToken (h.scanner.rescanJsxName c)
  | jsxAttribute c => exact h.withToken (h.scanner.nextJsxAttribute c)
  | all c =>
    obtain ⟨hfinal, htokens, herror⟩ := h.scanner.run c
    refine ⟨⟨hfinal, h.saved⟩, ?_⟩
    intro l hl
    simp only [Session.perform, Scanner.tokenizeAll, Run.toExcept] at hl
    split at hl
    · next e he =>
      obtain rfl := List.mem_singleton.mp hl
      exact herror e he
    · obtain ⟨t, ht, hl⟩ := List.mem_flatMap.mp hl
      exact htokens t ht l hl
  | save =>
    refine ⟨⟨h.scanner, ?_⟩, by simp [Session.perform, Reply.locations]⟩
    intro k hk
    rcases Array.mem_push.mp hk with hk | rfl
    · exact h.saved k hk
    · exact ⟨h.scanner.cursor, h.scanner.tokenStart⟩
  | restore slot =>
    unfold Session.perform
    dsimp only
    split
    · exact ⟨h, by simp [Reply.locations]⟩
    · next k hk =>
      obtain ⟨hcursor, htoken⟩ := h.saved k (Array.mem_of_getElem? hk)
      refine ⟨⟨⟨hcursor, htoken, ?_⟩, h.saved⟩, by simp [Reply.locations]⟩
      -- of the comments the first ones are left, and these were tracked before
      intro k' hk'
      apply h.scanner.comments k'
      rw [Scanner.restore, Array.take_eq_extract, ← Array.mem_toList_iff, Array.toList_extract,
        List.extract_eq_take_drop] at hk'
      exact Array.mem_toList_iff.mp (List.mem_of_mem_drop (List.mem_of_mem_take hk'))
  | comments => exact ⟨h, isCounted_of_mem_comments h.scanner⟩
  | takeComments =>
    refine ⟨⟨⟨h.scanner.cursor, h.scanner.tokenStart, ?_⟩, h.saved⟩,
      isCounted_of_mem_comments h.scanner⟩
    simp [Session.perform, Scanner.takeComments]

/-- **Any number of commands.** -/
theorem Tracks.performAll (h : s.Tracks source start) (cmds : List Command)
    (hcmds : s.RegExpsAtSlashes cmds) :
    ∀ r ∈ s.performAll cmds,
      r.2.Tracks source start ∧ ∀ l ∈ r.1.locations, l.IsCounted source start := by
  induction cmds generalizing s with
  | nil =>
    intro r hr
    simp [Session.performAll] at hr
  | cons cmd cmds ih =>
    obtain ⟨hcmd, hrest⟩ := hcmds
    obtain ⟨hstep, hloc⟩ := h.perform cmd hcmd
    intro r hr
    rcases List.mem_cons.mp hr with rfl | hr
    · exact ⟨hstep.scanner, hloc⟩
    · exact ih hstep hrest r hr

/-- **Positions are tracked exactly.** Scan a source from any location on, with any commands,
whether they succeed or fail. After each of them the cursor stands at the location that counting the
line ends gives, and so do all collected comments, and all tokens, ends of tokens and errors
replied. -/
theorem isCounted_of_performAll (source : List CodeUnit) (start : Location) (cmds : List Command)
    (h : RegExpsAtSlashes ⟨.startingAt source start, #[]⟩ cmds) :
    ∀ r ∈ performAll ⟨.startingAt source start, #[]⟩ cmds,
      r.2.cursor.location.IsCounted source start ∧
      r.2.cursor.rest = source.drop r.2.cursor.location.offset ∧
      (∀ k ∈ r.2.comments, k.start.IsCounted source start ∧ k.stop.IsCounted source start) ∧
      ∀ l ∈ r.1.locations, l.IsCounted source start := by
  have hstart : Tracks ⟨.startingAt source start, #[]⟩ source start :=
    ⟨.of_startingAt source start, by simp⟩
  intro r hr
  obtain ⟨htracks, hloc⟩ := hstart.performAll cmds h r hr
  exact ⟨htracks.cursor.isCounted, htracks.cursor.rest_eq, htracks.comments, hloc⟩

end Session

end EcmaLex
