import EcmaLex.Proofs.Calls
import EcmaLex.Proofs.ExtendedTexts
import EcmaLex.Proofs.Places

/-!
# Scanning over a line break

A source that can be scanned to its end may go on behind a line feed: the tokens of the longer
source are those of its two parts. While tokens of the first part are read, the scanner of the whole
source is that of the first part with more text behind it (`Scanner.extended`). Where the first part
ends it passes the line feed, and from there on it agrees with a scanner that starts behind the line
feed (`Scanner.Agrees`), except for the comments it has already collected and the line end before
the next token.

* `Scanner.next_extended`: one call in the first part.
* `Scanner.Agrees.next` and `Scanner.Agrees.run`: calls in the second part.
* `Scanner.next_lineBreak`: the call that passes the line break.
* `Scanner.tokenizeAll_lineBreak`: the whole source.
-/

namespace EcmaLex

open Text (Stops)

/-! ## More text behind a place -/

/-- The place with more text behind what is left. -/
def Cursor.extended (after : List CodeUnit) (c : Cursor) : Cursor := ⟨c.location, c.rest ++ after⟩

theorem Cursor.advance_extended {c : Cursor} {n : Nat} (after : List CodeUnit)
    (hn : n ≤ c.rest.length) : (c.extended after).advance n = (c.advance n).extended after := by
  unfold extended advance
  rw [List.take_append_of_le_length hn, List.drop_append_of_le_length hn]

theorem Token.ofReading_extended {c : Context} {start stop : Cursor} {flags : TokenFlags}
    {x : Reading Lexeme} (after : List CodeUnit) (hx : x.length ≤ start.rest.length) :
    Token.ofReading c (start.extended after) (stop.extended after) flags x =
      Token.ofReading c start stop flags x := by
  unfold Token.ofReading Cursor.extended
  rw [List.take_append_of_le_length hx]

namespace Scanner

variable {c : Context} {s s' : Scanner} {t : Token}

/-- The scanner of a source with more text at its end. -/
def extended (after : List CodeUnit) (s : Scanner) : Scanner :=
  { s with cursor := s.cursor.extended after, tokenStart := s.tokenStart.extended after }

theorem pass_extended {p : Trivia} (after : List CodeUnit) (collect : Bool)
    (hp : p.length ≤ s.cursor.rest.length) :
    (s.extended after).pass collect p = (s.pass collect p).extended after := by
  have hcursor := Cursor.advance_extended after hp
  unfold pass extended
  dsimp only
  rw [hcursor]
  rfl

/-- **Trivia in the first part**, and then what follows it. -/
theorem Passes.extended {ts ts' : List Trivia} {s₁ : Scanner} {b : List CodeUnit}
    (hp : Passes c s ts s') (hclosed : ts.any Trivia.isUnclosed = false)
    (hreturn : s.cursor.rest.getLast? ≠ some CodeUnit.carriageReturn)
    (hrest : Passes c (s'.extended (CodeUnit.lineFeed :: b)) ts' s₁) :
    Passes c (s.extended (CodeUnit.lineFeed :: b)) (ts ++ ts') s₁ := by
  induction hp with
  | done _ => exact hrest
  | @piece s s' t ts ht _ ih =>
    rw [List.any_cons, Bool.or_eq_false_iff] at hclosed
    have hle := (Trivia.cleanCut_of_first? ht).le
    refine .piece (Trivia.first?_append ht hclosed.1 hreturn b) ?_
    rw [pass_extended _ _ hle]
    refine ih hclosed.2 ?_ hrest
    rw [cursor_pass, Cursor.rest_advance, List.getLast?_drop]
    split
    · simp
    · exact hreturn

/-- What is left of a source ends as the source does. -/
theorem Follows.getLast?_rest_ne {a : List CodeUnit} (h : s.Follows (ofSource a).cursor)
    (ha : a.getLast? ≠ some CodeUnit.carriageReturn) :
    s.cursor.rest.getLast? ≠ some CodeUnit.carriageReturn := by
  have hplace := h.reaches_cursor.isPlaceOf (.of_startingAt a .start)
  rw [hplace.rest_eq, List.getLast?_drop]
  split
  · simp
  · exact ha

/-- **A token of the first part.** -/
theorem next_extended {b : List CodeUnit} (h : s.next c = (.ok t, s')) (ht : t.kind ≠ .eof)
    (hreturn : s.cursor.rest.getLast? ≠ some CodeUnit.carriageReturn) :
    (s.extended (CodeUnit.lineFeed :: b)).next c =
      (.ok t, s'.extended (CodeUnit.lineFeed :: b)) := by
  obtain ⟨ts, s₁, x, hp, hclosed, hx, rfl, rfl⟩ := next_eq_ok_iff.mp h
  have hafter : Stops (CodeUnit.lineFeed :: b) := Text.stops_lineFeed b
  have hle : x.length ≤ s₁.cursor.rest.length := by
    have hclean := Lexeme.clean_read c hp.head?_ne_return
    rw [hx] at hclean
    exact hclean.le
  -- a token that is not the end has something left to be read from
  obtain ⟨u, rest, hrest⟩ : ∃ u rest, s₁.cursor.rest = u :: rest := by
    cases hrest : s₁.cursor.rest with
    | nil =>
      rw [hrest] at hx
      obtain rfl := Except.ok.inj hx
      exact absurd rfl ht
    | cons u rest => exact ⟨u, rest, rfl⟩
  have hnone := Trivia.first?_append_eq_none hp.first?_eq_none (by rw [hrest]; simp) hafter
  have hread : Lexeme.read c (s₁.cursor.rest ++ CodeUnit.lineFeed :: b) = .ok x := by
    rw [hrest] at hx hle ⊢
    exact Lexeme.extends_read hafter hx hle
  have hstop := Cursor.advance_extended (CodeUnit.lineFeed :: b) hle
  refine next_eq_ok_iff.mpr
    ⟨ts, s₁.extended (CodeUnit.lineFeed :: b), x, ?_, hclosed, hread, ?_, ?_⟩
  · have := hp.extended hclosed hreturn (.done hnone)
    rwa [List.append_nil] at this
  · show _ = Token.ofReading c (s₁.cursor.extended _) ((s₁.cursor.extended _).advance x.length) _ x
    rw [hstop, Token.ofReading_extended _ hle]
    rfl
  · show _ = took _ (s₁.cursor.extended _) ((s₁.cursor.extended _).advance x.length) x
    rw [hstop]
    rfl

end Scanner

/-! ## Scanners that agree in what lies ahead -/

/-- A token with more flags. -/
def Token.marked (mark : TokenFlags) (t : Token) : Token := { t with flags := mark ∪ t.flags }

@[simp] theorem Token.marked_empty : Token.marked ∅ = id := by
  funext t
  show { t with flags := ∅ ∪ t.flags } = t
  rw [TokenFlags.empty_union]

namespace Scanner

/-- What lies ahead of two scanners is the same. The first one has collected the comments `pre`
before those of the second, and has gathered the flags `mark` as well. -/
structure Agrees (pre : Array Comment) (mark : TokenFlags) (w z : Scanner) : Prop where
  cursor : w.cursor = z.cursor
  lineStart : w.lineStart = z.lineStart
  flags : w.flags = mark ∪ z.flags
  comments : w.comments = pre ++ z.comments

namespace Agrees

variable {pre : Array Comment} {mark : TokenFlags} {c : Context} {w z z' : Scanner}

theorem without_flags (h : Agrees pre mark w z) :
    Agrees pre ∅ { w with flags := ∅ } { z with flags := ∅ } :=
  ⟨h.cursor, h.lineStart, (TokenFlags.union_empty ∅).symm, h.comments⟩

theorem triviaMode_eq (h : Agrees pre mark w z) (c : Context) :
    w.triviaMode c = z.triviaMode c := by
  rw [triviaMode, triviaMode, h.cursor, h.lineStart]

theorem pass (h : Agrees pre mark w z) (collect : Bool) (t : Trivia) :
    Agrees pre mark (w.pass collect t) (z.pass collect t) := by
  refine ⟨?_, ?_, ?_, ?_⟩
  · rw [cursor_pass, cursor_pass, h.cursor]
  · rw [lineStart_pass, lineStart_pass, h.lineStart]
  · rw [flags_pass, flags_pass, h.flags, TokenFlags.union_assoc]
  · unfold Scanner.pass
    rw [h.cursor, h.comments]
    cases t with
    | comment kind text => cases collect <;> simp
    | _ => rfl

theorem passes {ts : List Trivia} (hp : Passes c z ts z') (h : Agrees pre mark w z) :
    ∃ w', Passes c w ts w' ∧ Agrees pre mark w' z' := by
  induction hp generalizing w with
  | done hnone =>
    refine ⟨w, .done ?_, h⟩
    rw [h.triviaMode_eq, h.cursor]
    exact hnone
  | piece ht _ ih =>
    obtain ⟨w', hw', hagrees⟩ := ih (h.pass c.collectComments _)
    refine ⟨w', .piece ?_ hw', hagrees⟩
    rw [h.triviaMode_eq, h.cursor]
    exact ht

theorem readHere (h : Agrees pre mark w z) (r : Reader Lexeme) :
    (w.readHere c r).1 = (z.readHere c r).1.map (Token.marked mark) ∧
      Agrees pre mark (w.readHere c r).2 (z.readHere c r).2 := by
  unfold Scanner.readHere settle
  rw [h.cursor]
  cases r z.cursor.rest with
  | error f =>
    refine ⟨rfl, rfl, h.lineStart, ?_, h.comments⟩
    show w.flags ∪ f.flags = mark ∪ (z.flags ∪ f.flags)
    rw [h.flags, TokenFlags.union_assoc]
  | ok x =>
    have hflags : w.flags ∪ x.flags = mark ∪ (z.flags ∪ x.flags) := by
      rw [h.flags, TokenFlags.union_assoc]
    refine ⟨?_, rfl, ?_, hflags, h.comments⟩
    · simp only [hflags]
      rfl
    · simp only [h.lineStart]

/-- A token read behind trivia, where the first scanner has passed other trivia before. -/
theorem readAfterTrivia {ts ts' : List Trivia} {v : Scanner}
    {choose : List CodeUnit → Reader Lexeme}
    (hw : Passes c { v with flags := ∅ } (ts ++ ts') w) (hts : ts.any Trivia.isUnclosed = false)
    (hz : Passes c { z with flags := ∅ } ts' z') (h : Agrees pre mark w z') :
    (v.readAfterTrivia c choose).1 = (z.readAfterTrivia c choose).1.map (Token.marked mark) ∧
      Agrees pre mark (v.readAfterTrivia c choose).2 (z.readAfterTrivia c choose).2 := by
  have hunclosed : (ts ++ ts').any Trivia.isUnclosed = ts'.any Trivia.isUnclosed := by
    rw [List.any_append, hts, Bool.false_or]
  cases hts' : ts'.any Trivia.isUnclosed with
  | true =>
    rw [Scanner.readAfterTrivia, Scanner.readAfterTrivia, hw.skipTrivia_eq, hz.skipTrivia_eq,
      hunclosed, hts', h.cursor]
    exact ⟨rfl, h⟩
  | false =>
    rw [hw.readAfterTrivia_eq (hunclosed.trans hts'), hz.readAfterTrivia_eq hts', h.cursor]
    exact h.readHere _

/-- **One call.** Flags are gathered anew. -/
theorem next (h : Agrees pre mark w z) (c : Context) :
    (w.next c).1 = (z.next c).1 ∧ Agrees pre ∅ (w.next c).2 (z.next c).2 := by
  have hz := passes_trivia c { z with flags := ∅ }
  obtain ⟨w', hw, hagrees⟩ := passes hz h.without_flags
  rw [← List.nil_append (Scanner.trivia c { z with flags := ∅ })] at hw
  obtain ⟨htoken, hscanner⟩ := readAfterTrivia hw rfl hz hagrees
  refine ⟨?_, hscanner⟩
  rw [Token.marked_empty, Except.map_id] at htoken
  exact htoken

/-- **Scanning to the end.** -/
theorem run (h : Agrees pre mark w z) (c : Context) :
    (w.run c).tokens = (z.run c).tokens ∧ (w.run c).error = (z.run c).error ∧
      (w.run c).final.comments = pre ++ (z.run c).final.comments := by
  fun_induction Scanner.run c z generalizing w mark with
  | case1 z e z' hz =>
    obtain ⟨hresult, hagrees⟩ := h.next c
    rw [hz] at hresult hagrees
    have hw : w.next c = (.error e, (w.next c).2) := Prod.ext hresult rfl
    rw [run_of_error hw]
    exact ⟨rfl, rfl, hagrees.comments⟩
  | case2 z t z' hz ht =>
    obtain ⟨hresult, hagrees⟩ := h.next c
    rw [hz] at hresult hagrees
    have hw : w.next c = (.ok t, (w.next c).2) := Prod.ext hresult rfl
    rw [run_of_eof hw ht]
    exact ⟨rfl, rfl, hagrees.comments⟩
  | case3 z t z' hz ht ih =>
    obtain ⟨hresult, hagrees⟩ := h.next c
    rw [hz] at hresult hagrees
    obtain ⟨htokens, herror, hcomments⟩ := ih hagrees
    have hw : w.next c = (.ok t, (w.next c).2) := Prod.ext hresult rfl
    rw [run_of_ne_eof hw ht]
    exact ⟨congrArg (t :: ·) htokens, herror, hcomments⟩

end Agrees

/-! ## Over the line break -/

variable {a b : List CodeUnit} {c : Context} {s s' z : Scanner} {e : Token}

/-- A scanner for what follows the source `a` and a line feed, where `e` is the end token of `a`. -/
structure BeginsBehind (a b : List CodeUnit) (e : Token) (z : Scanner) : Prop where
  cursor : z.cursor = ⟨⟨e.start.line + 1, 0, a.length + 1⟩, b⟩
  lineStart : z.lineStart = true
  comments : z.comments = #[]

/-- The first of the tokens is marked as one in front of which a line ended. -/
def markFirst : List Token → List Token
  | [] => []
  | t :: ts => t.marked { newLineBefore := true } :: ts

/-- **The call that passes the line break.** The first part is at its end token `e`. -/
theorem next_lineBreak (hs : s.Follows (ofSource a).cursor)
    (ha : a.getLast? ≠ some CodeUnit.carriageReturn) (h : s.next c = (.ok e, s'))
    (he : e.kind = .eof) (hz : z.BeginsBehind a b e) :
    ((s.extended (CodeUnit.lineFeed :: b)).next c).1 =
        (z.next c).1.map (Token.marked { newLineBefore := true }) ∧
      Agrees s'.comments { newLineBefore := true }
        ((s.extended (CodeUnit.lineFeed :: b)).next c).2 (z.next c).2 := by
  obtain ⟨ts, s₁, x, hp, hclosed, hx, rfl, rfl⟩ := next_eq_ok_iff.mp h
  have hrest : s₁.cursor.rest = [] := by
    cases hrest : s₁.cursor.rest with
    | nil => rfl
    | cons u rest =>
      rw [hrest] at hx
      exact absurd he (Lexeme.kind_ne_eof_of_read hx)
  have hoffset : s₁.cursor.location.offset = a.length := by
    have hplace := ((hs.with_flags ∅).passes hp).reaches_cursor.isPlaceOf
      (.of_startingAt a .start)
    have hlength := congrArg List.length hplace.rest_eq
    rw [hrest, List.length_nil, List.length_drop] at hlength
    have := hplace.offset_le
    omega
  -- behind the line feed the scanner agrees with the one that begins there
  let w := (s₁.extended (CodeUnit.lineFeed :: b)).pass c.collectComments (.lineBreak false)
  have hw : Agrees s₁.comments { newLineBefore := true } w { z with flags := ∅ } := by
    refine ⟨?_, ?_, ?_, ?_⟩
    · show (s₁.cursor.extended (CodeUnit.lineFeed :: b)).advance 1 = z.cursor
      rw [hz.cursor, Cursor.extended, hrest, ← hoffset]
      rfl
    · show (s₁.lineStart || true) = z.lineStart
      rw [hz.lineStart, Bool.or_true]
    · show s₁.flags ∪ { newLineBefore := true } = { newLineBefore := true } ∪ ∅
      rw [hp.flags_eq]
      cases ts.any Trivia.endsLine <;> rfl
    · show s₁.comments = s₁.comments ++ z.comments
      rw [hz.comments, Array.append_empty]
  have hz' := passes_trivia c { z with flags := ∅ }
  obtain ⟨w', hw', hagrees⟩ := Agrees.passes hz' hw
  have hfeed : Trivia.first? ((s₁.extended (CodeUnit.lineFeed :: b)).triviaMode c)
      (s₁.extended (CodeUnit.lineFeed :: b)).cursor.rest = some (.lineBreak false) := by
    show Trivia.first? _ (s₁.cursor.rest ++ CodeUnit.lineFeed :: b) = _
    rw [hrest]
    rfl
  have hpasses := hp.extended hclosed (hs.getLast?_rest_ne ha) (.piece hfeed hw')
  rw [List.append_cons] at hpasses
  refine Agrees.readAfterTrivia hpasses ?_ hz' hagrees
  rw [List.any_append, hclosed]
  rfl

/-- The run that begins with the line break. -/
theorem run_lineBreak (hs : s.Follows (ofSource a).cursor)
    (ha : a.getLast? ≠ some CodeUnit.carriageReturn) (h : s.next c = (.ok e, s'))
    (he : e.kind = .eof) (hz : z.BeginsBehind a b e) :
    ((s.extended (CodeUnit.lineFeed :: b)).run c).tokens = markFirst (z.run c).tokens ∧
      ((s.extended (CodeUnit.lineFeed :: b)).run c).error = (z.run c).error ∧
      ((s.extended (CodeUnit.lineFeed :: b)).run c).final.comments =
        s'.comments ++ (z.run c).final.comments := by
  obtain ⟨hresult, hagrees⟩ := next_lineBreak hs ha h he hz
  rcases hw : (s.extended (CodeUnit.lineFeed :: b)).next c with ⟨r, w'⟩
  rcases hcall : z.next c with ⟨r', z'⟩
  rw [hw, hcall] at hresult hagrees
  cases r' with
  | error err =>
    obtain rfl : r = .error err := hresult
    rw [run_of_error hw, run_of_error hcall]
    exact ⟨rfl, rfl, hagrees.comments⟩
  | ok t =>
    obtain rfl : r = .ok (t.marked { newLineBefore := true }) := hresult
    by_cases ht : t.kind = .eof
    · rw [run_of_eof hw ht, run_of_eof hcall ht]
      exact ⟨rfl, rfl, hagrees.comments⟩
    · rw [run_of_ne_eof hw ht, run_of_ne_eof hcall ht]
      obtain ⟨htokens, herror, hcomments⟩ := hagrees.run c
      exact ⟨congrArg (t.marked _ :: ·) htokens, herror, hcomments⟩

/-- **Runs over a line break.** The run of the first part gives the tokens `ts` and the end token
`e`. -/
theorem run_extended {ts : List Token} (hs : s.Follows (ofSource a).cursor)
    (ha : a.getLast? ≠ some CodeUnit.carriageReturn)
    (h : (s.run c).toExcept = .ok (ts ++ [e])) (hz : z.BeginsBehind a b e) :
    ((s.extended (CodeUnit.lineFeed :: b)).run c).tokens = ts ++ markFirst (z.run c).tokens ∧
      ((s.extended (CodeUnit.lineFeed :: b)).run c).error = (z.run c).error ∧
      ((s.extended (CodeUnit.lineFeed :: b)).run c).final.comments =
        (s.run c).final.comments ++ (z.run c).final.comments := by
  obtain ⟨herror, htokens⟩ := Run.toExcept_eq_ok_iff.mp h
  clear h
  fun_induction Scanner.run c s generalizing ts with
  | case1 s err s' hnext => simp at herror
  | case2 s t s' hnext ht =>
    obtain ⟨rfl, rfl⟩ : ts = [] ∧ e = t := by
      cases ts with
      | nil => simpa [eq_comm] using htokens
      | cons u ts => simp at htokens
    exact run_lineBreak hs ha hnext ht hz
  | case3 s t s' hnext ht ih =>
    have hs' : s'.Follows (ofSource a).cursor := by
      have hstep : FollowsResult _ (s.next c) := hs.readAfterTrivia _
      rw [hnext] at hstep
      exact hstep.scanner
    have hne : (s'.run c).tokens ≠ [] := by
      intro hnil
      exact (repeats_run c).toExcept_ne_nil (Run.toExcept_eq_ok_iff.mpr ⟨herror, hnil⟩)
    cases ts with
    | nil =>
      obtain ⟨-, hnil⟩ := List.cons.inj htokens
      exact absurd hnil hne
    | cons u ts =>
      obtain ⟨rfl, hrest⟩ := List.cons.inj htokens
      obtain ⟨htail, herror', hcomments⟩ := ih hs' herror hrest
      rw [run_of_ne_eof (next_extended hnext ht (hs.getLast?_rest_ne ha)) ht]
      exact ⟨congrArg (t :: ·) htail, herror', hcomments⟩

/-- **Sources are scanned line by line.** Let the source `a` have the tokens `ts` and the end token
`e`, and not end in a carriage return. With a line feed and any text `b` behind it, its tokens are
`ts` and then those of a scan that begins behind the line feed, in the next line, the first of them
marked as one in front of which a line ended. An error of that scan is the error of the whole. The
comments are those of `a` and then those of that scan. -/
theorem tokenizeAll_lineBreak {a : List CodeUnit} {ts : List Token} {e : Token} (c : Context)
    (h : ((ofSource a).tokenizeAll c).1 = .ok (ts ++ [e]))
    (ha : a.getLast? ≠ some CodeUnit.carriageReturn) (b : List CodeUnit) :
    let source := a ++ CodeUnit.lineFeed :: b
    let second := (startingAt source ⟨e.start.line + 1, 0, a.length + 1⟩).tokenizeAll c
    let whole := (ofSource source).tokenizeAll c
    whole.1 = second.1.map (fun us => ts ++ markFirst us) ∧
      whole.2.comments = ((ofSource a).tokenizeAll c).2.comments ++ second.2.comments := by
  intro source second whole
  have hz : (startingAt source ⟨e.start.line + 1, 0, a.length + 1⟩).BeginsBehind a b e := by
    refine ⟨?_, rfl, rfl⟩
    simp [source, startingAt, List.drop_append]
  have hextended : (ofSource a).extended (CodeUnit.lineFeed :: b) = ofSource source := by
    simp [source, ofSource, startingAt, Scanner.extended, Cursor.extended, Location.start]
  have hfollows : (ofSource a).Follows (ofSource a).cursor := follows_startingAt a .start
  obtain ⟨htokens, herror, hcomments⟩ := run_extended hfollows ha h hz
  rw [hextended] at htokens herror hcomments
  refine ⟨?_, hcomments⟩
  show ((ofSource source).run c).toExcept = ((startingAt source _).run c).toExcept.map _
  unfold Run.toExcept
  rw [herror, htokens]
  cases ((startingAt source ⟨e.start.line + 1, 0, a.length + 1⟩).run c).error <;> rfl

/-- A name and a comment that spans two lines, and behind the line feed a comment and a name. -/
theorem tokenizeAll_lineBreak_comments :
    let a : List CodeUnit := [0x61, 0x2F, 0x2A, 0x0D, 0x2A, 0x2F]
    let b : List CodeUnit := [0x2F, 0x2A, 0x78, 0x2A, 0x2F, 0x62]
    let c : Context := { collectComments := true }
    ∃ (ts : List Token) (e : Token), ((ofSource a).tokenizeAll c).1 = .ok (ts ++ [e]) ∧
      e.start.line = 2 ∧
      ((ofSource (a ++ CodeUnit.lineFeed :: b)).tokenizeAll c).1 =
        ((startingAt (a ++ CodeUnit.lineFeed :: b) ⟨3, 0, 7⟩).tokenizeAll c).1.map
          (fun us => ts ++ markFirst us) ∧
      ((ofSource (a ++ CodeUnit.lineFeed :: b)).tokenizeAll c).2.comments.size = 2 := by
  intro a b c
  let first := (ofSource a).run c
  have herror : first.error = none := by decide +kernel
  have hlast : first.tokens.getLast?.map (·.start.line) = some 2 := by decide +kernel
  obtain ⟨e, he, hline⟩ := Option.map_eq_some_iff.mp hlast
  obtain ⟨ts, htokens⟩ := List.getLast?_eq_some_iff.mp he
  have h : ((ofSource a).tokenizeAll c).1 = .ok (ts ++ [e]) :=
    Run.toExcept_eq_ok_iff.mpr ⟨herror, htokens⟩
  obtain ⟨hwhole, hcomments⟩ := tokenizeAll_lineBreak c h (by decide) b
  rw [hline] at hwhole hcomments
  refine ⟨ts, e, h, hline, hwhole, ?_⟩
  rw [hcomments, Array.size_append]
  decide +kernel

end Scanner

end EcmaLex
