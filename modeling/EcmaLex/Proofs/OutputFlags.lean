import EcmaLex.Proofs.Fragments
import EcmaLex.Proofs.Tiling

/-!
# What a context asks to be shown changes nothing else

Four flags of a context only say what the caller wants to see: raw texts, ranges, end locations and
comments. `bare` takes all of that away, from a context what it asks for and from a scanner or an
answer what was given for it. A scan in bare contexts is then the bare image of the scan:

* `Scanner.settle_bare` and the lemmas after it: one call.
* `Session.perform_bare` and `TokenStream.next?_bare`: one command, and one token of a stream.

Two scans whose contexts differ in these flags have the same bare image, and so agree in everything
else. What the flags do add is in `Token.Shows`: a token has its text, and its end location, exactly
if its call asked for them. Both are said in `same_scan_of_bare_eq`.
-/

namespace EcmaLex

/-! ## Without what was asked for -/

/-- The context that asks for nothing to be shown. -/
def Context.bare (c : Context) : Context :=
  { c with raw := false, ranges := false, locations := false, collectComments := false }

/-- The token without what its context had asked for. -/
def Token.bare (t : Token) : Token := { t with raw := none, endLocation := none }

/-- The scanner without its comments. -/
def Scanner.bare (s : Scanner) : Scanner := { s with comments := #[] }

/-- The checkpoint of a scanner without comments. -/
def Checkpoint.bare (k : Checkpoint) : Checkpoint := { k with commentCount := 0 }

/-- The command with a context that asks for nothing to be shown. -/
def Command.bare : Command → Command
  | next c => next c.bare
  | regExp c => regExp c.bare
  | template c => template c.bare
  | jsxChild c => jsxChild c.bare
  | jsxName c => jsxName c.bare
  | jsxAttribute c => jsxAttribute c.bare
  | all c => all c.bare
  | save => save
  | restore slot => restore slot
  | comments => comments
  | takeComments => takeComments

/-- The reply without what its context had asked for, and without what it tells of comments: whether
as many of them were left as at the checkpoint gone back to is such a thing. -/
def Reply.bare : Reply → Reply
  | token r => token (r.map Token.bare)
  | tokens r => tokens (r.map (List.map Token.bare))
  | saved slot => saved slot
  | restored _ => restored true
  | noSuchSlot => noSuchSlot
  | comments _ => comments #[]

def Session.bare (s : Session) : Session := ⟨s.scanner.bare, s.saved.map Checkpoint.bare⟩

def TokenStream.bare (s : TokenStream) : TokenStream :=
  { s with scanner := s.scanner.bare, context := s.context.bare }

/-- A call for a token, without what its context had asked for. -/
def bareCall (r : Except LexError Token × Scanner) : Except LexError Token × Scanner :=
  (r.1.map Token.bare, r.2.bare)

/-! ## One call -/

namespace Scanner

variable {c : Context} {s s' : Scanner}

theorem settle_bare (start : Cursor) (seek : Nat → Cursor) (o : Outcome Lexeme) :
    s.bare.settle c.bare start seek o = bareCall (s.settle c start seek o) := by
  cases o <;> rfl

theorem readHere_bare (r : Reader Lexeme) :
    s.bare.readHere c.bare r = bareCall (s.readHere c r) :=
  settle_bare _ _ _

theorem readAgain_bare (r : Reader Lexeme) :
    s.bare.readAgain c.bare r = bareCall (s.readAgain c r) :=
  settle_bare _ _ _

theorem continueTemplate_bare : s.bare.continueTemplate c.bare = bareCall (s.continueTemplate c) :=
  settle_bare (s := { s with flags := { newLineBefore := s.flags.newLineBefore } }) _ _ _

/-- A comment is passed whether it is collected or not. -/
theorem pass_bare (collect : Bool) (t : Trivia) :
    s.bare.pass false t = (s.pass collect t).bare := by
  cases t <;> rfl

theorem Passes.bare {ts : List Trivia} (hp : Passes c s ts s') :
    Passes c.bare s.bare ts s'.bare := by
  induction hp with
  | done hnone => exact .done hnone
  | piece ht _ ih =>
    refine .piece ht ?_
    rw [← pass_bare] at ih
    exact ih

theorem readAfterTrivia_bare (choose : List CodeUnit → Reader Lexeme) :
    s.bare.readAfterTrivia c.bare choose = bareCall (s.readAfterTrivia c choose) := by
  obtain ⟨ts, s₁, hp, hcases⟩ := readAfterTrivia_cases c choose s
  have hp' : Passes c.bare { s.bare with flags := ∅ } ts s₁.bare := hp.bare
  rcases hcases with ⟨hunclosed, heq⟩ | ⟨hclosed, heq⟩
  · rw [heq, readAfterTrivia, hp'.skipTrivia_eq, if_pos hunclosed]
    rfl
  · rw [heq, hp'.readAfterTrivia_eq hclosed]
    exact readHere_bare _

theorem next_bare : s.bare.next c.bare = bareCall (s.next c) := readAfterTrivia_bare _

/-- Scanning to the end. -/
theorem run_bare (c : Context) (s : Scanner) :
    s.bare.run c.bare =
      ⟨(s.run c).tokens.map Token.bare, (s.run c).error, (s.run c).final.bare⟩ := by
  fun_induction Scanner.run c s with
  | case1 s e s' hnext =>
    have hbare : s.bare.next c.bare = bareCall (s.next c) := next_bare
    rw [hnext] at hbare
    rw [run_of_error hbare]
    rfl
  | case2 s t s' hnext ht =>
    have hbare : s.bare.next c.bare = bareCall (s.next c) := next_bare
    rw [hnext] at hbare
    rw [run_of_eof hbare ht]
    rfl
  | case3 s t s' hnext ht ih =>
    have hbare : s.bare.next c.bare = bareCall (s.next c) := next_bare
    rw [hnext] at hbare
    rw [run_of_ne_eof hbare ht, ih]
    rfl

end Scanner

/-! ## Sessions -/

namespace Session

/-- **One command.** -/
theorem perform_bare (s : Session) (cmd : Command) :
    s.bare.perform cmd.bare = ((s.perform cmd).1.bare, (s.perform cmd).2.bare) := by
  have hcall {r r' : Except LexError Token × Scanner} (hr : r' = bareCall r) :
      s.bare.withToken r' = ((s.withToken r).1.bare, (s.withToken r).2.bare) := by
    rw [hr]
    rfl
  cases cmd with
  | next c => exact hcall Scanner.next_bare
  | regExp c => exact hcall (Scanner.settle_bare _ _ _)
  | template c => exact hcall Scanner.continueTemplate_bare
  | jsxChild c => exact hcall (Scanner.readHere_bare (s := { s.scanner with flags := ∅ }) _)
  | jsxName c => exact hcall (Scanner.readAgain_bare _)
  | jsxAttribute c => exact hcall (Scanner.readAfterTrivia_bare _)
  | all c =>
    show (Reply.tokens (s.scanner.bare.run c.bare).toExcept,
      Session.mk (s.scanner.bare.run c.bare).final _) = _
    rw [Scanner.run_bare]
    dsimp only [Session.perform, Scanner.tokenizeAll]
    unfold Run.toExcept
    dsimp only
    cases (s.scanner.run c).error <;> rfl
  | save => simp [Command.bare, Session.perform, Session.bare, Reply.bare, Scanner.checkpoint,
      Scanner.bare, Checkpoint.bare]
  | restore slot =>
    have hsaved : s.bare.saved[slot]? = s.saved[slot]?.map Checkpoint.bare := Array.getElem?_map
    simp only [Command.bare, Session.perform]
    rw [hsaved]
    cases s.saved[slot]? with
    | none => rfl
    | some k =>
      dsimp only [Option.map_some]
      rw [checkpoint_restore_beq]
      rfl
  | comments => rfl
  | takeComments => rfl

/-- **Any number of commands.** -/
theorem performAll_bare (s : Session) (cmds : List Command) :
    s.bare.performAll (cmds.map Command.bare) =
      (s.performAll cmds).map fun r => (r.1.bare, r.2.bare) := by
  induction cmds generalizing s with
  | nil => rfl
  | cons cmd cmds ih =>
    rw [List.map_cons, performAll, perform_bare]
    dsimp only
    rw [ih]
    rfl

end Session

/-! ## Token streams -/

namespace TokenStream

theorem goal_bare (s : TokenStream) : s.bare.goal = s.goal.bare := by
  unfold goal
  show (if s.afterExpression then _ else _) = _
  split <;> rfl

theorem track_bare (s : TokenStream) (t : Token) (tagged : Bool) :
    s.bare.track t.bare tagged = (s.track t tagged).bare := by
  have hkind : t.bare.kind = t.kind := rfl
  unfold track
  rw [hkind]
  dsimp only
  split <;> rfl

theorem deliver_bare (s : TokenStream) (tagged : Bool) (r : Except LexError Token × Scanner) :
    s.bare.deliver tagged (bareCall r) =
      ((s.deliver tagged r).1.map Token.bare, (s.deliver tagged r).2.bare) := by
  obtain ⟨r, scanner⟩ := r
  cases r with
  | error e => rfl
  | ok t => exact congrArg (Prod.mk _) (track_bare { s with scanner } t tagged)

/-- **One token of a stream.** -/
theorem advance_bare (s : TokenStream) :
    s.bare.advance = (s.advance.1.map Token.bare, s.advance.2.bare) := by
  have hnext : s.bare.scanner.next s.bare.goal = bareCall (s.scanner.next s.goal) := by
    rw [goal_bare]
    exact Scanner.next_bare
  unfold advance
  rw [hnext]
  rcases s.scanner.next s.goal with ⟨r, scanner⟩
  cases r with
  | error e => rfl
  | ok t =>
    have hcloses : s.bare.closes? t.bare = s.closes? t := rfl
    dsimp only [bareCall, Except.map]
    rw [hcloses]
    cases s.closes? t with
    | none => exact deliver_bare s s.afterExpression (.ok t, scanner)
    | some sub =>
      have htemplate : scanner.bare.continueTemplate (s.bare.continuation sub) =
          bareCall (scanner.continueTemplate (s.continuation sub)) :=
        Scanner.continueTemplate_bare (c := s.continuation sub)
      dsimp only [bareCall]
      rw [htemplate]
      exact deliver_bare { s with substitutions := s.substitutions.tail } sub.tagged _

theorem next?_bare (s : TokenStream) :
    s.bare.next? = (s.next?.1.map (Except.map Token.bare), s.next?.2.bare) := by
  unfold next?
  show (if s.finished then _ else _) = _
  split
  · rfl
  · rw [advance_bare]
    rfl

/-- The answers of the first calls, each with the scanner it leaves. -/
def answers (s : TokenStream) : Nat → List (Option (Except LexError Token) × Scanner)
  | 0 => []
  | n + 1 =>
    let (answer, s) := s.next?
    (answer, s.scanner) :: s.answers n

/-- **Any number of calls.** -/
theorem answers_bare (s : TokenStream) (n : Nat) :
    s.bare.answers n =
      (s.answers n).map fun r => (r.1.map (Except.map Token.bare), r.2.bare) := by
  induction n generalizing s with
  | zero => rfl
  | succ n ih =>
    rw [answers, next?_bare]
    dsimp only
    rw [ih]
    rfl

end TokenStream

/-! ## What the flags add -/

/-- The token ends at a place, and shows what the context asked for: its text in the source, and the
location of that place. -/
structure Token.Shows (source : List CodeUnit) (c : Context) (place : Cursor) (t : Token) :
    Prop where
  stop_eq : t.stop = place.location.offset
  raw_eq : t.raw =
    if c.raw then some (Utf16.lossy (source.extract t.start.offset t.stop)) else none
  endLocation_eq : t.endLocation = if c.locations then some place.location else none

theorem Token.Shows.congr {source : List CodeUnit} {c c' : Context} {place : Cursor} {t : Token}
    (h : t.Shows source c place) (hraw : c'.raw = c.raw) (hlocations : c'.locations = c.locations) :
    t.Shows source c' place :=
  ⟨h.stop_eq, by rw [hraw, h.raw_eq], by rw [hlocations, h.endLocation_eq]⟩

namespace Scanner

/-- A call whose token, if it gives one, shows what the context asked for. -/
def ShowsResult (source : List CodeUnit) (c : Context) (r : Except LexError Token × Scanner) :
    Prop :=
  ∀ t, r.1 = .ok t → t.Shows source c r.2.cursor

variable {source : List CodeUnit} {kept : List Comment} {c : Context} {s : Scanner}

theorem showsResult_settle {start : Cursor} {seek : Nat → Cursor} (hstart : start.IsPlaceOf source)
    (hseek : ∀ n, (seek n).location.offset = start.location.offset + (start.rest.take n).length)
    (o : Outcome Lexeme) : ShowsResult source c (s.settle c start seek o) := by
  intro t ht
  cases o with
  | error f => simp [settle] at ht
  | ok x =>
    obtain rfl := Except.ok.inj ht
    have htext : start.rest.take x.length =
        source.extract start.location.offset (seek x.length).location.offset := by
      rw [List.extract_eq_take_drop, hseek, Nat.add_sub_cancel_left, ← hstart.rest_eq,
        List.length_take, ← List.take_eq_take_min]
    refine ⟨rfl, ?_, rfl⟩
    rw [← htext]

theorem Keeps.showsResult_readHere (h : s.Keeps source kept) (r : Reader Lexeme) :
    ShowsResult source c (s.readHere c r) :=
  showsResult_settle h.cursor s.cursor.offset_advance _

theorem Keeps.showsResult_readAgain (h : s.Keeps source kept) (r : Reader Lexeme) :
    ShowsResult source c (s.readAgain c r) :=
  showsResult_settle h.tokenStart s.tokenStart.offset_advance _

theorem Keeps.showsResult_readAfterTrivia (h : s.Keeps source kept)
    (choose : List CodeUnit → Reader Lexeme) :
    ShowsResult source c (s.readAfterTrivia c choose) := by
  obtain ⟨ts, s₁, hp, hcases⟩ := readAfterTrivia_cases c choose s
  rcases hcases with ⟨-, heq⟩ | ⟨-, heq⟩
  · rw [heq]
    intro t ht
    simp at ht
  · rw [heq]
    exact ((h.with_flags ∅).passes hp).showsResult_readHere _

theorem Keeps.shows_of_next {s' : Scanner} {t : Token} (h : s.Keeps source kept)
    (hnext : s.next c = (.ok t, s')) : t.Shows source c s'.cursor := by
  have hshows : ShowsResult source c (s.next c) := h.showsResult_readAfterTrivia _
  rw [hnext] at hshows
  exact hshows t rfl

/-- The tokens of a run, each with the place after its call. -/
theorem Keeps.shows_run (h : s.Keeps source kept) {k : Nat} {t : Token}
    (ht : (s.run c).tokens[k]? = some t) :
    t.Shows source c (s.afterCalls (List.replicate (k + 1) c)).cursor := by
  have hstep {s s' : Scanner} {t : Token} (hnext : s.next c = (.ok t, s')) (cs : List Context) :
      s.afterCalls (c :: cs) = s'.afterCalls cs := by
    show ((s.next c).2).afterCalls cs = s'.afterCalls cs
    rw [hnext]
  fun_induction Scanner.run c s generalizing k with
  | case1 => simp at ht
  | case2 s t' s' hnext _ =>
    cases k with
    | zero =>
      obtain rfl := Option.some.inj ht
      rw [List.replicate_succ, hstep hnext]
      exact h.shows_of_next hnext
    | succ k => simp at ht
  | case3 s t' s' hnext _ ih =>
    rw [List.replicate_succ, hstep hnext]
    cases k with
    | zero =>
      obtain rfl := Option.some.inj ht
      exact h.shows_of_next hnext
    | succ k => exact ih (h.of_next hnext) ht

end Scanner

/-- The context of a command that scans. -/
def Command.context? : Command → Option Context
  | next c | regExp c | template c | jsxChild c | jsxName c | jsxAttribute c | all c => some c
  | save | restore _ | comments | takeComments => none

/-- Every token of a reply shows what the context asked for, at the place where the scanner was left
by the call for it. `before` and `after` are the scanners around the command. -/
def Reply.Shows (source : List CodeUnit) (c : Context) (before after : Scanner) : Reply → Prop
  | token r => ∀ t : Token, r = .ok t → t.Shows source c after.cursor
  | tokens r => ∀ ts, r = .ok ts → ∀ (k : Nat) (t : Token), ts[k]? = some t →
      t.Shows source c (before.afterCalls (List.replicate (k + 1) c)).cursor
  | saved _ | restored _ | noSuchSlot | comments _ => True

namespace Session

variable {source : List CodeUnit} {slot : Nat} {kept : List Comment} {s : Session}

/-- **One command shows what it is asked for.** -/
theorem Keeps.shows_perform (h : s.Keeps source slot kept) {cmd : Command} {c : Context}
    (hc : cmd.context? = some c) :
    (s.perform cmd).1.Shows source c s.scanner (s.perform cmd).2.scanner := by
  have hscanner := h.scanner
  cases cmd with
  | next c =>
    obtain rfl := Option.some.inj hc
    exact hscanner.showsResult_readAfterTrivia _
  | regExp c =>
    obtain rfl := Option.some.inj hc
    exact Scanner.showsResult_settle hscanner.tokenStart
      s.scanner.tokenStart.offset_advancePastOpener _
  | template c =>
    obtain rfl := Option.some.inj hc
    exact (hscanner.with_flags _).showsResult_readAgain _
  | jsxChild c =>
    obtain rfl := Option.some.inj hc
    exact (hscanner.with_flags _).showsResult_readHere _
  | jsxName c =>
    obtain rfl := Option.some.inj hc
    exact hscanner.showsResult_readAgain _
  | jsxAttribute c =>
    obtain rfl := Option.some.inj hc
    exact hscanner.showsResult_readAfterTrivia _
  | all c =>
    obtain rfl := Option.some.inj hc
    intro ts hts k t ht
    obtain ⟨-, rfl⟩ := Run.toExcept_eq_ok_iff.mp hts
    exact hscanner.shows_run ht
  | save | restore _ | comments | takeComments => simp [Command.context?] at hc

end Session

namespace TokenStream

variable {source : List CodeUnit} {kept : List Comment} {s : TokenStream}

/-- A call of a stream whose token, if it gives one, shows what the stream is asked for, and which
leaves a stream that is asked for the same. -/
structure ShowsNext (source : List CodeUnit) (kept : List Comment) (c : Context)
    (r : Except LexError Token × TokenStream) : Prop where
  shows : ∀ t, r.1 = .ok t → t.Shows source c r.2.scanner.cursor
  scanner : r.2.scanner.Keeps source kept
  context : r.2.context = c

theorem showsNext_deliver {c : Context} {tagged : Bool} {r : Except LexError Token × Scanner}
    (hshows : Scanner.ShowsResult source c r) (hkeeps : r.2.Keeps source kept)
    (hraw : s.context.raw = c.raw) (hlocations : s.context.locations = c.locations) :
    ShowsNext source kept s.context (s.deliver tagged r) := by
  obtain ⟨r, scanner⟩ := r
  cases r with
  | error e => exact ⟨by simp [deliver], hkeeps, rfl⟩
  | ok t =>
    refine ⟨?_, ?_, context_track _ _ _⟩
    · intro t' ht'
      obtain rfl := Except.ok.inj ht'
      rw [deliver, scanner_track]
      exact (hshows t rfl).congr hraw hlocations
    · rw [deliver, scanner_track]
      exact hkeeps

/-- **One token of a stream.** Its call is told a goal of its own, but not what to show. -/
theorem showsNext_advance (h : s.scanner.Keeps source kept) :
    ShowsNext source kept s.context s.advance := by
  have hgoal : s.context.raw = s.goal.raw ∧ s.context.locations = s.goal.locations := by
    unfold goal
    split <;> exact ⟨rfl, rfl⟩
  have hshows : Scanner.ShowsResult source s.goal (s.scanner.next s.goal) :=
    h.showsResult_readAfterTrivia _
  have hkeeps : (s.scanner.next s.goal).2.Keeps source kept := h.readAfterTrivia _
  unfold advance
  split
  · next hnext =>
    rw [hnext] at hshows hkeeps
    exact showsNext_deliver hshows hkeeps hgoal.1 hgoal.2
  · next t scanner hnext =>
    rw [hnext] at hshows hkeeps
    split
    · exact showsNext_deliver hshows hkeeps hgoal.1 hgoal.2
    · next sub _ =>
      have hbrace := hkeeps.with_flags { newLineBefore := scanner.flags.newLineBefore }
      have htemplate : Scanner.ShowsResult source (s.continuation sub)
          (scanner.continueTemplate (s.continuation sub)) := hbrace.showsResult_readAgain _
      have hrest : (scanner.continueTemplate (s.continuation sub)).2.Keeps source kept :=
        hbrace.readAgain _
      exact showsNext_deliver (s := { s with substitutions := s.substitutions.tail }) htemplate
        hrest rfl rfl

/-- **Every token of a stream.** -/
theorem shows_of_mem_answers {n : Nat} {t : Token} {scanner : Scanner}
    (h : s.scanner.Keeps source kept) (ht : (some (.ok t), scanner) ∈ s.answers n) :
    t.Shows source s.context scanner.cursor := by
  induction n generalizing s with
  | zero => simp [answers] at ht
  | succ n ih =>
    have hadvance := showsNext_advance h
    by_cases hfinished : s.finished = true
    · have hnext : s.next? = (none, s) := if_pos hfinished
      rw [answers, hnext] at ht
      rcases List.mem_cons.mp ht with ht | ht
      · simp at ht
      · exact ih h ht
    · have hnext : s.next? = (some s.advance.1, s.advance.2) := if_neg hfinished
      rw [answers, hnext] at ht
      rcases List.mem_cons.mp ht with ht | ht
      · obtain ⟨hok, rfl⟩ := Prod.mk.inj ht
        exact hadvance.shows t (Option.some.inj hok).symm
      · rw [← hadvance.context]
        exact ih hadvance.scanner ht

end TokenStream

/-! ## Main result -/

/-- **What a context asks to be shown changes nothing else.** Two sessions whose commands differ in
that only, or two streams whose contexts do, give the same answers but for what is shown, and leave
the same scanners but for the comments, step by step. Every token has its source text exactly if its
call asked for it, and the location of its end exactly if its call asked for that. -/
theorem same_scan_of_bare_eq (source : List CodeUnit) :
    (∀ start cmds cmds', cmds.map Command.bare = cmds'.map Command.bare →
      (Session.performAll ⟨.startingAt source start, #[]⟩ cmds).map
          (fun r => (r.1.bare, r.2.bare)) =
        (Session.performAll ⟨.startingAt source start, #[]⟩ cmds').map
          (fun r => (r.1.bare, r.2.bare))) ∧
    (∀ c c' n, c.bare = c'.bare →
      ((TokenStream.ofSource source c).answers n).map
          (fun r => (r.1.map (Except.map Token.bare), r.2.bare)) =
        ((TokenStream.ofSource source c').answers n).map
          (fun r => (r.1.map (Except.map Token.bare), r.2.bare))) ∧
    (∀ start before cmd c, cmd.context? = some c →
      let s := Session.afterAll ⟨.startingAt source start, #[]⟩ before
      (s.perform cmd).1.Shows source c s.scanner (s.perform cmd).2.scanner) ∧
    (∀ c n t scanner, (some (.ok t), scanner) ∈ (TokenStream.ofSource source c).answers n →
      t.Shows source c scanner.cursor) := by
  refine ⟨?_, ?_, ?_, ?_⟩
  · intro start cmds cmds' h
    rw [← Session.performAll_bare, h, Session.performAll_bare]
  · intro c c' n h
    have hstream : (TokenStream.ofSource source c).bare =
        (TokenStream.ofSource source c').bare := by
      unfold TokenStream.bare TokenStream.ofSource
      rw [h]
    rw [← TokenStream.answers_bare, hstream, TokenStream.answers_bare]
  · intro start before cmd c hc s
    have hkeeps : s.Keeps source 0 [] :=
      (Session.Keeps.of_startingAt source start).afterAll (fun _ _ => .inl rfl) (fun _ => rfl)
    exact hkeeps.shows_perform hc
  · intro c n t scanner ht
    exact TokenStream.shows_of_mem_answers
      (Scanner.Keeps.of_startingAt source .start) ht

/-- Two names with a comment between them and a string without an end, scanned, gone back over and
scanned again to the error, with everything shown and with nothing. The second name is shown where
that was asked for. -/
theorem same_scan_of_bare_eq_after_error :
    let source : List CodeUnit := [0x61, 0x2F, 0x2A, 0x78, 0x2A, 0x2F, 0x62, 0x20, 0x27, 0x63]
    let c : Context := { raw := true, ranges := true, locations := true, collectComments := true }
    let cmds : List Command := [.next c, .save, .next c, .next {}, .restore 0, .all c]
    let cmds' : List Command := [.next {}, .save, .next {}, .next c, .restore 0, .all {}]
    let answers (cmds : List Command) := Session.performAll ⟨.startingAt source .start, #[]⟩ cmds
    let stream (c : Context) := (TokenStream.ofSource source c).answers 4
    let s := Session.afterAll ⟨.startingAt source .start, #[]⟩ [.next {}]
    (cmds.map Command.bare = cmds'.map Command.bare ∧
      (answers cmds).map (fun r => (r.1.bare, r.2.bare)) =
        (answers cmds').map (fun r => (r.1.bare, r.2.bare))) ∧
    (answers cmds).map (fun r => r.2.comments.size) = [0, 0, 1, 1, 0, 1] ∧
    (answers cmds').map (fun r => r.2.comments.size) = [0, 0, 0, 0, 0, 0] ∧
    (stream c).map (fun r => (r.1.map (Except.map Token.bare), r.2.bare)) =
      (stream {}).map (fun r => (r.1.map (Except.map Token.bare), r.2.bare)) ∧
    (s.perform (.next c)).1.Shows source c s.scanner (s.perform (.next c)).2.scanner := by
  intro source c cmds cmds' answers stream s
  have hbare : cmds.map Command.bare = cmds'.map Command.bare := by decide
  obtain ⟨hsessions, hstreams, hshows, -⟩ := same_scan_of_bare_eq source
  exact ⟨⟨hbare, hsessions .start cmds cmds' hbare⟩, by decide +kernel, by decide +kernel,
    hstreams c {} 4 rfl, hshows .start [.next {}] (.next c) c rfl⟩

end EcmaLex
