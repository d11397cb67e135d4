import EcmaLex.Proofs.Restoring

/-!
# Places are reached from the start

A scanner comes to new places in two ways only: it moves over some units, or it takes one unit for a
delimiter. `Cursor.Reaches` is what these moves lead to. In a session all places that a scanner, its
checkpoints, its comments and its answers hold are reached from where the scan started
(`Session.Follows`), through failed calls, rescans and returns to checkpoints alike.

What is true of all places is then an induction over `Cursor.Reaches`: they are places of the source
(`Reaches.isPlaceOf`), and lines and columns grow no faster than offsets (`Reaches.line_le`,
`Reaches.column_le`).
-/

namespace EcmaLex

/-! ## Lines and columns grow no faster than offsets -/

namespace Location

theorem line_after_le (l : Location) (text : List CodeUnit) :
    l.line ≤ (l.after text).line ∧ (l.after text).line ≤ l.line + text.length := by
  induction text generalizing l with
  | nil => exact ⟨Nat.le_refl _, Nat.le_refl _⟩
  | cons u rest ih =>
    rw [after_cons]
    split
    · have := ih (l.newLine 1)
      simp only [newLine] at this
      simp only [List.length_cons, newLine]
      omega
    · have := ih l.step
      simp only [step] at this
      simp only [List.length_cons, step]
      omega

theorem column_after_le (l : Location) (text : List CodeUnit) :
    (l.after text).column ≤ l.column + text.length := by
  induction text generalizing l with
  | nil => exact Nat.le_refl _
  | cons u rest ih =>
    rw [after_cons]
    split
    · have := ih (l.newLine 1)
      simp only [newLine] at this
      simp only [List.length_cons, newLine]
      omega
    · have := ih l.step
      simp only [step] at this
      simp only [List.length_cons, step]
      omega

end Location

namespace Cursor

/-! ## Moves -/

/-- The places that a scanner can come to from a place. -/
inductive Reaches (a : Cursor) : Cursor → Prop
  | refl : Reaches a a
  | advance {b : Cursor} (n : Nat) (h : Reaches a b) : Reaches a (b.advance n)
  | stepInLine {b : Cursor} (h : Reaches a b) : Reaches a b.stepInLine

/-- What a unit that is taken for a delimiter does to a place. -/
theorem stepInLine_cases (a : Cursor) :
    a.rest = [] ∧ a.stepInLine = a ∨
      ∃ u rest, a.rest = u :: rest ∧ a.stepInLine = ⟨a.location.step, rest⟩ := by
  unfold stepInLine
  split
  · next h => exact .inl ⟨h, rfl⟩
  · next u rest h => exact .inr ⟨u, rest, h, rfl⟩

/-- Whether the first unit is taken for a delimiter or not, the cursor moves over as many units. -/
theorem offset_advancePastOpener (a : Cursor) (n : Nat) :
    (a.advancePastOpener n).location.offset = a.location.offset + (a.rest.take n).length := by
  cases n with
  | zero => simp [advancePastOpener]
  | succ n =>
    rw [advancePastOpener, offset_advance]
    rcases a.stepInLine_cases with ⟨hrest, hstep⟩ | ⟨u, rest, hrest, hstep⟩
    · rw [hstep, hrest, List.take_nil, List.take_nil]
    · rw [hstep, hrest]
      simp [Location.step]
      omega

namespace Reaches

variable {a b d : Cursor} {source : List CodeUnit}

theorem trans (hab : a.Reaches b) (hbd : b.Reaches d) : a.Reaches d := by
  induction hbd with
  | refl => exact hab
  | advance n _ ih => exact .advance n ih
  | stepInLine _ ih => exact .stepInLine ih

theorem advancePastOpener (n : Nat) (h : a.Reaches b) : a.Reaches (b.advancePastOpener n) := by
  cases n with
  | zero => exact h
  | succ n => exact .advance n (.stepInLine h)

/-- What is left at a place is what the source has from its offset on. -/
theorem isPlaceOf (h : a.Reaches b) (ha : a.IsPlaceOf source) : b.IsPlaceOf source := by
  induction h with
  | refl => exact ha
  | advance n _ ih => exact ih.advance n
  | stepInLine _ ih => exact ih.stepInLine

theorem offset_le (h : a.Reaches b) : a.location.offset ≤ b.location.offset := by
  induction h with
  | refl => exact Nat.le_refl _
  | @advance b n _ ih =>
    rw [offset_advance]
    omega
  | @stepInLine b _ ih =>
    rcases b.stepInLine_cases with ⟨-, hstep⟩ | ⟨u, rest, -, hstep⟩
    · rwa [hstep]
    · rw [hstep]
      exact Nat.le_succ_of_le ih

theorem line_le (h : a.Reaches b) :
    a.location.line ≤ b.location.line ∧
      b.location.line + a.location.offset ≤ a.location.line + b.location.offset := by
  induction h with
  | refl => exact ⟨Nat.le_refl _, Nat.le_refl _⟩
  | @advance b n _ ih =>
    have := b.location.line_after_le (b.rest.take n)
    rw [offset_advance, location_advance]
    omega
  | @stepInLine b _ ih =>
    rcases b.stepInLine_cases with ⟨-, hstep⟩ | ⟨u, rest, -, hstep⟩
    · rwa [hstep]
    · rw [hstep]
      exact ⟨ih.1, Nat.le_succ_of_le ih.2⟩

theorem column_le (h : a.Reaches b) :
    b.location.column + a.location.offset ≤ a.location.column + b.location.offset := by
  induction h with
  | refl => exact Nat.le_refl _
  | @advance b n _ ih =>
    have := b.location.column_after_le (b.rest.take n)
    rw [offset_advance, location_advance]
    omega
  | @stepInLine b _ ih =>
    rcases b.stepInLine_cases with ⟨-, hstep⟩ | ⟨u, rest, -, hstep⟩
    · rwa [hstep]
    · rw [hstep]
      simp only [Location.step]
      omega

end Reaches

end Cursor

/-! ## Tokens, errors and comments behind a place -/

/-- A token that reaches from one place behind `a` to another. Its raw text is what stands between
them. -/
def Token.LiesBehind (a : Cursor) (t : Token) : Prop :=
  ∃ b d : Cursor, a.Reaches b ∧ b.Reaches d ∧ t.start = b.location ∧
    t.stop = d.location.offset ∧ (∀ l, t.endLocation = some l → l = d.location) ∧
    ∀ raw, t.raw = some raw →
      raw = Utf16.lossy (b.rest.take (d.location.offset - b.location.offset))

/-- An error that points at a place behind `a`. -/
def LexError.LiesBehind (a : Cursor) (e : LexError) : Prop :=
  ∃ b : Cursor, a.Reaches b ∧ e.location = b.location

/-- A comment that is written at a place behind `a`. -/
def Comment.LiesBehind (a : Cursor) (k : Comment) : Prop :=
  ∃ (b : Cursor) (m : Trivia.Mode) (inner piece rest : List CodeUnit), a.Reaches b ∧
    b.rest = piece ++ rest ∧ Trivia.Written m (.comment k.kind inner) piece rest ∧
    k.text = Utf16.lossy inner ∧ k.start = b.location ∧
    k.stop = (b.advance piece.length).location

namespace Scanner

/-- All places that a scanner holds are reached from `a`, and the cursor from the token start. -/
structure Follows (a : Cursor) (s : Scanner) : Prop where
  tokenStart : a.Reaches s.tokenStart
  cursor : s.tokenStart.Reaches s.cursor
  comments : ∀ k ∈ s.comments, k.LiesBehind a

/-- A call that answers with a token or an error behind `a` and leaves a scanner there. -/
structure FollowsResult (a : Cursor) (r : Except LexError Token × Scanner) : Prop where
  scanner : r.2.Follows a
  token {t : Token} : r.1 = .ok t → t.LiesBehind a
  error {e : LexError} : r.1 = .error e → e.LiesBehind a

variable {a : Cursor} {c : Context} {s s' : Scanner}

theorem Follows.reaches_cursor (h : s.Follows a) : a.Reaches s.cursor :=
  h.tokenStart.trans h.cursor

theorem follows_startingAt (source : List CodeUnit) (start : Location) :
    (startingAt source start).Follows (startingAt source start).cursor :=
  ⟨.refl, .refl, by simp [startingAt]⟩

theorem Follows.with_flags (h : s.Follows a) (flags : TokenFlags) :
    ({ s with flags } : Scanner).Follows a :=
  ⟨h.tokenStart, h.cursor, h.comments⟩

/-- Passing a piece of trivia that stands at the cursor. -/
theorem Follows.pass {t : Trivia} (h : s.Follows a) (collect : Bool)
    (ht : Trivia.first? (s.triviaMode c) s.cursor.rest = some t) :
    (s.pass collect t).Follows a := by
  refine ⟨h.tokenStart, .advance _ h.cursor, ?_⟩
  intro k hk
  unfold Scanner.pass at hk
  dsimp only at hk
  split at hk
  · next kind inner =>
    split at hk
    · rcases Array.mem_push.mp hk with hk | rfl
      · exact h.comments k hk
      · obtain ⟨piece, rest, hrest, hwritten⟩ := Trivia.written_of_first? ht
        refine ⟨s.cursor, _, inner, piece, rest, h.reaches_cursor, hrest, hwritten, rfl, rfl, ?_⟩
        rw [hwritten.length_eq]
    · exact h.comments k hk
  · exact h.comments k hk

theorem Follows.passes {ts : List Trivia} (hp : Passes c s ts s') (h : s.Follows a) :
    s'.Follows a := by
  induction hp with
  | done _ => exact h
  | piece ht _ ih => exact ih (h.pass _ ht)

/-- Whatever was read at a place, and wherever reading stopped. -/
theorem Follows.settle {start : Cursor} {seek : Nat → Cursor} (h : s.Follows a)
    (hstart : a.Reaches start) (hseek : ∀ n, start.Reaches (seek n))
    (hoffset : ∀ n, (seek n).location.offset = start.location.offset + (start.rest.take n).length)
    (o : Outcome Lexeme) : FollowsResult a (s.settle c start seek o) := by
  cases o with
  | error f =>
    refine ⟨⟨hstart, hseek _, h.comments⟩, fun ht => by simp [Scanner.settle] at ht, ?_⟩
    intro e he
    obtain rfl := Except.error.inj he
    exact ⟨_, hstart.trans (hseek _), rfl⟩
  | ok x =>
    refine ⟨⟨hstart, hseek _, h.comments⟩, ?_, fun he => by simp [Scanner.settle] at he⟩
    intro t ht
    obtain rfl := Except.ok.inj ht
    refine ⟨start, seek x.length, hstart, hseek _, rfl, rfl, ?_, ?_⟩
    · intro l hl
      dsimp only at hl
      split at hl
      · exact (Option.some.inj hl).symm
      · simp at hl
    · intro raw hraw
      dsimp only at hraw
      split at hraw
      · rw [hoffset, Nat.add_sub_cancel_left, List.length_take, ← List.take_eq_take_min]
        exact (Option.some.inj hraw).symm
      · simp at hraw

theorem Follows.readHere (h : s.Follows a) (r : Reader Lexeme) :
    FollowsResult a (s.readHere c r) :=
  h.settle h.reaches_cursor (.advance · .refl) s.cursor.offset_advance _

theorem Follows.readAgain (h : s.Follows a) (r : Reader Lexeme) :
    FollowsResult a (s.readAgain c r) :=
  h.settle h.tokenStart (.advance · .refl) s.tokenStart.offset_advance _

theorem Follows.rescanRegExp (h : s.Follows a) : FollowsResult a (s.rescanRegExp c) :=
  h.settle h.tokenStart (.advancePastOpener · .refl) s.tokenStart.offset_advancePastOpener _

theorem Follows.readAfterTrivia (h : s.Follows a) (choose : List CodeUnit → Reader Lexeme) :
    FollowsResult a (s.readAfterTrivia c choose) := by
  obtain ⟨ts, s₁, hp, hcases⟩ := readAfterTrivia_cases c choose s
  have h₁ := (h.with_flags ∅).passes hp
  rcases hcases with ⟨-, heq⟩ | ⟨-, heq⟩
  · rw [heq]
    refine ⟨h₁, fun ht => by simp at ht, ?_⟩
    intro e he
    obtain rfl := Except.error.inj he
    exact ⟨_, h₁.reaches_cursor, rfl⟩
  · rw [heq]
    exact h₁.readHere _

theorem Follows.run (h : s.Follows a) (c : Context) :
    (s.run c).final.Follows a ∧ (∀ t ∈ (s.run c).tokens, t.LiesBehind a) ∧
      ∀ e, (s.run c).error = some e → e.LiesBehind a := by
  fun_induction Scanner.run c s with
  | case1 s e s' hnext =>
    have hstep : FollowsResult a (s.next c) := h.readAfterTrivia _
    rw [hnext] at hstep
    refine ⟨hstep.scanner, by simp, ?_⟩
    intro e' he
    obtain rfl := Option.some.inj he
    exact hstep.error rfl
  | case2 s t s' hnext _ =>
    have hstep : FollowsResult a (s.next c) := h.readAfterTrivia _
    rw [hnext] at hstep
    refine ⟨hstep.scanner, ?_, by simp⟩
    intro t' ht
    obtain rfl := List.mem_singleton.mp ht
    exact hstep.token rfl
  | case3 s t s' hnext _ ih =>
    have hstep : FollowsResult a (s.next c) := h.readAfterTrivia _
    rw [hnext] at hstep
    obtain ⟨hfinal, htokens, herror⟩ := ih hstep.scanner
    refine ⟨hfinal, ?_, herror⟩
    intro t' ht
    rcases List.mem_cons.mp ht with rfl | ht
    · exact hstep.token rfl
    · exact htokens t' ht

end Scanner

/-! ## Sessions -/

namespace Reply

/-- The tokens that a reply carries. -/
def tokenList : Reply → List Token
  | token (.ok t) => [t]
  | tokens (.ok ts) => ts
  | _ => []

/-- The error that a reply carries, if it does. -/
def error? : Reply → Option LexError
  | token (.error e) => some e
  | tokens (.error e) => some e
  | _ => none

/-- The comments that a reply carries. -/
def commentList : Reply → List Comment
  | comments ks => ks.toList
  | _ => []

/-- All that a reply carries lies behind `a`. -/
structure Follows (a : Cursor) (r : Reply) : Prop where
  tokens : ∀ t ∈ r.tokenList, t.LiesBehind a
  error {e : LexError} : r.error? = some e → e.LiesBehind a
  comments : ∀ k ∈ r.commentList, k.LiesBehind a

/-- All locations of a reply are those of places behind `a`. -/
theorem Follows.exists_reaches {a : Cursor} {r : Reply} (h : r.Follows a) :
    ∀ l ∈ r.locations, ∃ b : Cursor, a.Reaches b ∧ l = b.location := by
  have htoken (t : Token) (ht : t ∈ r.tokenList) (l : Location) (hl : l ∈ t.locations) :
      ∃ b : Cursor, a.Reaches b ∧ l = b.location := by
    obtain ⟨b, d, hb, hd, hstart, -, hend, -⟩ := h.tokens t ht
    rcases List.mem_cons.mp hl with rfl | hl
    · exact ⟨b, hb, hstart⟩
    · exact ⟨d, hb.trans hd, hend l (Option.mem_toList.mp hl)⟩
  intro l hl
  match r, h, htoken with
  | .token (.ok t), _, htoken => exact htoken t List.mem_cons_self l hl
  | .token (.error e), h, _ =>
    obtain ⟨b, hb, he⟩ := h.error rfl
    exact ⟨b, hb, (List.mem_singleton.mp hl).trans he⟩
  | .tokens (.ok ts), _, htoken =>
    obtain ⟨t, ht, hl⟩ := List.mem_flatMap.mp hl
    exact htoken t ht l hl
  | .tokens (.error e), h, _ =>
    obtain ⟨b, hb, he⟩ := h.error rfl
    exact ⟨b, hb, (List.mem_singleton.mp hl).trans he⟩
  | .comments ks, h, _ =>
    obtain ⟨k, hk, hl⟩ := List.mem_flatMap.mp hl
    obtain ⟨b, m, inner, piece, rest, hb, -, -, -, hstart, hstop⟩ := h.comments k hk
    simp only [List.mem_cons, List.not_mem_nil, or_false] at hl
    rcases hl with rfl | rfl
    · exact ⟨b, hb, hstart⟩
    · exact ⟨_, .advance _ hb, hstop⟩
  | .saved _, _, _ => simp [locations] at hl
  | .restored _, _, _ => simp [locations] at hl
  | .noSuchSlot, _, _ => simp [locations] at hl

/-- A reply without a token, an error or a comment. -/
theorem follows_of_bare {a : Cursor} {r : Reply} (htokens : r.tokenList = [])
    (herror : r.error? = none) (hcomments : r.commentList = []) : r.Follows a := by
  refine ⟨?_, ?_, ?_⟩
  · simp [htokens]
  · simp [herror]
  · simp [hcomments]

end Reply

namespace Session

/-- All places that a session holds are reached from `a`. -/
structure Follows (a : Cursor) (s : Session) : Prop where
  scanner : s.scanner.Follows a
  saved : ∀ k ∈ s.saved, a.Reaches k.tokenStart ∧ k.tokenStart.Reaches k.cursor

variable {a : Cursor} {s : Session}

theorem follows_withToken (h : s.Follows a) {r : Except LexError Token × Scanner}
    (hr : Scanner.FollowsResult a r) :
    (s.withToken r).2.Follows a ∧ (s.withToken r).1.Follows a := by
  obtain ⟨r, s'⟩ := r
  refine ⟨⟨hr.scanner, h.saved⟩, ?_⟩
  cases r with
  | error e =>
    refine ⟨by simp [withToken, Reply.tokenList], ?_, by simp [withToken, Reply.commentList]⟩
    intro e' he
    obtain rfl := Option.some.inj he
    exact hr.error rfl
  | ok t =>
    refine ⟨?_, by simp [withToken, Reply.error?], by simp [withToken, Reply.commentList]⟩
    intro t' ht
    obtain rfl := List.mem_singleton.mp ht
    exact hr.token rfl

theorem follows_comments {s : Scanner} (h : s.Follows a) : (Reply.comments s.comments).Follows a :=
  ⟨by simp [Reply.tokenList], by simp [Reply.error?],
    fun k hk => h.comments k (Array.mem_toList_iff.mp hk)⟩

/-- **One command.** -/
theorem Follows.perform (h : s.Follows a) (cmd : Command) :
    (s.perform cmd).2.Follows a ∧ (s.perform cmd).1.Follows a := by
  have hscanner := h.scanner
  cases cmd with
  | next c => exact follows_withToken h (hscanner.readAfterTrivia _)
  | regExp c => exact follows_withToken h hscanner.rescanRegExp
  | template c => exact follows_withToken h ((hscanner.with_flags _).readAgain _)
  | jsxChild c => exact follows_withToken h ((hscanner.with_flags _).readHere _)
  | jsxName c => exact follows_withToken h (hscanner.readAgain _)
  | jsxAttribute c => exact follows_withToken h (hscanner.readAfterTrivia _)
  | all c =>
    obtain ⟨hfinal, htokens, herror⟩ := hscanner.run c
    refine ⟨⟨hfinal, h.saved⟩, ?_⟩
    unfold Session.perform Scanner.tokenizeAll Run.toExcept
    dsimp only
    split
    · next e he =>
      refine ⟨by simp [Reply.tokenList], ?_, by simp [Reply.commentList]⟩
      intro e' he'
      obtain rfl := Option.some.inj he'
      exact herror e he
    · exact ⟨htokens, by simp [Reply.error?], by simp [Reply.commentList]⟩
  | save =>
    refine ⟨⟨hscanner, ?_⟩, Reply.follows_of_bare rfl rfl rfl⟩
    intro k hk
    rcases Array.mem_push.mp hk with hk | rfl
    · exact h.saved k hk
    · exact ⟨hscanner.tokenStart, hscanner.cursor⟩
  | restore slot =>
    unfold Session.perform
    dsimp only
    split
    · exact ⟨h, Reply.follows_of_bare rfl rfl rfl⟩
    · next k hk =>
      obtain ⟨htoken, hcursor⟩ := h.saved k (Array.mem_of_getElem? hk)
      refine ⟨⟨⟨htoken, hcursor, ?_⟩, h.saved⟩, Reply.follows_of_bare rfl rfl rfl⟩
      -- of the comments the first ones are left
      intro k' hk'
      apply hscanner.comments k'
      rw [Scanner.restore, Array.take_eq_extract, ← Array.mem_toList_iff, Array.toList_extract,
        List.extract_eq_take_drop] at hk'
      exact Array.mem_toList_iff.mp (List.mem_of_mem_drop (List.mem_of_mem_take hk'))
  | comments => exact ⟨h, follows_comments hscanner⟩
  | takeComments =>
    refine ⟨⟨⟨hscanner.tokenStart, hscanner.cursor, ?_⟩, h.saved⟩, follows_comments hscanner⟩
    simp [Session.perform, Scanner.takeComments]

theorem follows_startingAt (source : List CodeUnit) (start : Location) :
    Follows (Scanner.startingAt source start).cursor ⟨.startingAt source start, #[]⟩ :=
  ⟨Scanner.follows_startingAt source start, by simp⟩

/-- **Any number of commands.** -/
theorem Follows.performAll (h : s.Follows a) (cmds : List Command) :
    ∀ r ∈ s.performAll cmds, r.2.Follows a ∧ r.1.Follows a := by
  induction cmds generalizing s with
  | nil =>
    intro r hr
    simp [Session.performAll] at hr
  | cons cmd cmds ih =>
    obtain ⟨hstep, hreply⟩ := h.perform cmd
    intro r hr
    rcases List.mem_cons.mp hr with rfl | hr
    · exact ⟨hstep.scanner, hreply⟩
    · exact ih hstep r hr

end Session

end EcmaLex
