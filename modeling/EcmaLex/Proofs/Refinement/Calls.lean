import EcmaLex.Machine.Calls
import EcmaLex.Proofs.Calls
import EcmaLex.Proofs.Refinement.Trivia

/-!
# Calls on machine words

A machine that stands where a scanner does answers every call as the scanner does, with locations as
words hold them, and then stands where the scanner does again (`Machine.answer`). So a session of a
machine is a session of a scanner in words (`Session.performAll_image`): one command is the
simulation step, and every sequence of commands follows by induction. Nothing has to be assumed of
the calls themselves, since all places of a session are reached from where the scan started
(`Session.Follows`).
-/

namespace EcmaLex

open Text

/-! ## Answers as words hold them -/

/-- A token with its locations as words hold them. -/
def Token.wrap (t : Token) : Token :=
  { t with start := t.start.wrap, endLocation := t.endLocation.map Location.wrap }

/-- An error with its location as words hold it. -/
def LexError.wrap (e : LexError) : LexError := { e with location := e.location.wrap }

/-- The result of a call with its locations as words hold them. -/
def wrapResult {α : Type} (f : α → α) : Except LexError α → Except LexError α
  | .ok a => .ok (f a)
  | .error e => .error e.wrap

/-- A reply with its locations as words hold them. -/
def Reply.wrap : Reply → Reply
  | token r => .token (wrapResult Token.wrap r)
  | tokens r => .tokens (wrapResult (List.map Token.wrap) r)
  | comments ks => .comments (ks.map Comment.wrap)
  | saved slot => .saved slot
  | restored same => .restored same
  | noSuchSlot => .noSuchSlot

/-! ## Places of a machine -/

namespace Machine

variable {b : Build} {source : List CodeUnit} {ctx : Context} {s s' : Scanner} {c : Cursor}

/-- What a call of a scanner means for a machine that stands where the scanner does. -/
def answer {α : Type} (b : Build) (source : List CodeUnit) (f : α → α)
    (r : Except LexError α × Scanner) : Option (Except LexError α × Machine) :=
  some (wrapResult f r.1, image b source r.2)

/-- Which places a machine can be put at does not depend on where it stands. -/
theorem Admits.image (h : (image b source s).Admits c) : (image b source s').Admits c :=
  ⟨h.place, h.room⟩

/-- All places behind one that a machine can be put at. -/
theorem Admits.of_reaches {m : Machine} {a : Cursor} (h : m.Admits a) (hc : a.Reaches c) :
    m.Admits c := by
  induction hc with
  | refl => exact h
  | advance n _ ih => exact ih.advance n
  | stepInLine _ ih => exact ih.stepInLine

theorem Admits.passes {ts : List Trivia} (hp : Scanner.Passes ctx s ts s')
    (h : (Machine.image b source s).Admits s.cursor) :
    (Machine.image b source s').Admits s'.cursor := by
  induction hp with
  | done _ => exact h
  | piece _ _ ih => exact ih (h.advance _).image

theorem Admits.of_next {t : Token} (h : (Machine.image b source s).Admits s.cursor)
    (hnext : s.next ctx = (.ok t, s')) : (Machine.image b source s').Admits s'.cursor := by
  obtain ⟨ts, s₁, x, hp, -, -, -, rfl⟩ := Scanner.next_eq_ok_iff.mp hnext
  exact ((Admits.passes hp h.image).advance x.length).image

/-- Going back to the start of the last token. -/
theorem rewindToTokenStart_image (h : (image b source s).Admits s.tokenStart) :
    (image b source s).rewindToTokenStart = (image b source s).atCursor s.tokenStart := by
  have hcurrent : (image b source s).charAt s.tokenStart.location.offset =
      unitAt s.tokenStart.rest := charAt_atCursor h 0
  show ({ image b source s with
    index := s.tokenStart.location.offset
    line := .ofNat s.tokenStart.location.line
    column := .ofNat s.tokenStart.location.column
    current := (image b source s).charAt s.tokenStart.location.offset } : Machine) = _
  rw [hcurrent]
  rfl

end Machine

/-- Where trivia end no line terminator stands. -/
theorem Scanner.Passes.not_isLineTerminator {ctx : Context} {s s' : Scanner} {ts : List Trivia}
    (hp : Passes ctx s ts s') : s'.cursor.rest.head?.any CodeUnit.isLineTerminator = false := by
  cases hrest : s'.cursor.rest with
  | nil => rfl
  | cons u rest =>
    rw [List.head?_cons, Option.any_some, Bool.eq_false_iff]
    intro hu
    refine Trivia.first?_eq_none_iff.mp hp.first?_eq_none (.inl ⟨u, ?_, .inr hu⟩)
    rw [hrest, List.head?_cons]

/-! ## Calls -/

namespace Routine

open Machine

variable {b : Build} {source : List CodeUnit} {ctx : Context} {s s' : Scanner}

/-- **A token is made** of what was read between two places. -/
theorem finish_image {start : Cursor} {seek : Nat → Cursor} {o : Outcome Lexeme}
    {r : Routine LexError Lexeme} {m : Machine} (hstart : (image b source s).Admits start)
    (hseek : ∀ n, (seek n).IsPlaceOf source)
    (hoffset : ∀ n, (seek n).location.offset = start.location.offset + (start.rest.take n).length)
    (hr : r.run m = ((image b source s).marked start).carryOut seek o) :
    (r >>= finish ctx).run m = answer b source Token.wrap (s.settle ctx start seek o) := by
  cases o with
  | error f => exact run_bind_of_error hr
  | ok x =>
    rw [run_bind_of_ok hr]
    have hplace : start.rest = source.drop start.location.offset := hstart.place.rest_eq
    have hoff := hoffset x.length
    have hbounds : start.location.offset ≤ (seek x.length).location.offset ∧
        (seek x.length).location.offset ≤ source.length :=
      ⟨by omega, (hseek x.length).offset_le⟩
    have hslice : source.extract start.location.offset (seek x.length).location.offset =
        start.rest.take x.length := by
      rw [List.extract_eq_take_drop, hoff, Nat.add_sub_cancel_left, ← hplace, List.length_take,
        ← List.take_eq_take_min]
    generalize hm : (((image b source s).marked start).note x.flags).atCursor (seek x.length) = m₁
    have hrun : (slice m₁.tokenStart m₁.index : Routine LexError _).run m₁ =
        some (.ok (start.rest.take x.length), m₁) := by
      rw [← hslice, ← hm]
      exact run_slice hbounds
    unfold finish
    cases hraw : ctx.raw with
    | false =>
      subst hm
      simp only [Scanner.settle, hraw, Bool.false_eq_true, if_false]
      cases ctx.locations <;> rfl
    | true =>
      rw [run_state_bind, if_pos rfl, run_bind_assoc, run_bind_of_ok hrun]
      subst hm
      simp only [Scanner.settle, hraw, if_true]
      cases ctx.locations <;> rfl

/-- What was read at the cursor. -/
theorem finishHere_image {r : Routine LexError Lexeme} {m : Machine} (reader : Reader Lexeme)
    (h : (image b source s).Admits s.cursor)
    (hr : r.run m = ((image b source s).marked s.cursor).carryOut s.cursor.advance
      (reader s.cursor.rest)) :
    (r >>= finish ctx).run m = answer b source Token.wrap (s.readHere ctx reader) :=
  finish_image h (fun n => (h.advance n).place) s.cursor.offset_advance hr

/-- What was read at the start of the last token. -/
theorem finishAgain_image {r : Routine LexError Lexeme} {m : Machine} (reader : Reader Lexeme)
    (h : (image b source s).Admits s.tokenStart)
    (hr : r.run m = (image b source s).carryOut s.tokenStart.advance (reader s.tokenStart.rest)) :
    (r >>= finish ctx).run m = answer b source Token.wrap (s.readAgain ctx reader) :=
  finish_image h (fun n => (h.advance n).place) s.tokenStart.offset_advance hr

/-- **A call that passes trivia first**, and goes on with `next`. -/
theorem afterTrivia_image (ctx : Context) {next : Routine LexError Token}
    (choose : List CodeUnit → Reader Lexeme) (h : (image b source s).Admits s.cursor)
    (hnext : ∀ s' : Scanner, (image b source s').Admits s'.cursor →
      s'.cursor.rest.head?.any CodeUnit.isLineTerminator = false →
      next.run (image b source s') =
        answer b source Token.wrap (s'.readHere ctx (choose s'.cursor.rest))) :
    (do
      update fun m => { m with flags := ∅ }
      skipTrivia ctx
      next : Routine LexError Token).run (image b source s) =
        answer b source Token.wrap (s.readAfterTrivia ctx choose) := by
  have hp := Scanner.passes_trivia ctx { s with flags := ∅ }
  have hadmits : (image b source ({ s with flags := ∅ } : Scanner)).Admits s.cursor := h.image
  have hskip := skipTrivia_image hp hadmits
  rw [run_update_bind]
  show (skipTrivia ctx >>= _).run (image b source ({ s with flags := ∅ } : Scanner)) = _
  generalize (Scanner.trivia ctx { s with flags := ∅ }).foldl _ _ = s₁ at *
  rw [Scanner.readAfterTrivia, hp.skipTrivia_eq]
  cases hunclosed : (Scanner.trivia ctx { s with flags := ∅ }).any Trivia.isUnclosed with
  | true =>
    rw [hunclosed, if_pos rfl] at hskip
    rw [if_pos rfl, run_bind_of_error hskip]
    rfl
  | false =>
    rw [hunclosed, if_neg Bool.false_ne_true] at hskip
    rw [if_neg Bool.false_ne_true, run_bind_of_ok hskip]
    exact hnext s₁ (hadmits.passes hp) hp.not_isLineTerminator

/-- **The next token.** -/
theorem nextToken_image (ctx : Context) (h : (image b source s).Admits s.cursor) :
    (nextToken ctx).run (image b source s) = answer b source Token.wrap (s.next ctx) := by
  refine afterTrivia_image ctx (fun _ => Lexeme.read ctx) h ?_
  intro s' hs' hline
  have htoken := token_atCursor ctx hs' hline
  exact finishHere_image (Lexeme.read ctx) hs' htoken

/-- **The next token behind the equals sign of an attribute.** -/
theorem scanJsxAttributeValue_image (ctx : Context) (h : (image b source s).Admits s.cursor) :
    (scanJsxAttributeValue ctx).run (image b source s) =
      answer b source Token.wrap (s.nextJsxAttribute ctx) := by
  refine afterTrivia_image ctx
    (fun text => if text.head?.any CodeUnit.isQuote then Jsx.attributeValue else Lexeme.read ctx)
    h ?_
  intro s' hs' hline
  have hquote : ((image b source s').is CodeUnit.doubleQuote ||
      (image b source s').is CodeUnit.singleQuote) = s'.cursor.rest.head?.any CodeUnit.isQuote := by
    rw [image_eq_atCursor, is_atCursor, is_atCursor]
    cases s'.cursor.rest <;> rfl
  rw [run_state_bind, hquote]
  cases hhead : s'.cursor.rest.head?.any CodeUnit.isQuote with
  | false =>
    have htoken := token_atCursor ctx hs' hline
    exact finishHere_image (Lexeme.read ctx) hs' htoken
  | true =>
    obtain ⟨quote, hhead, hquote⟩ := (Option.any_eq_true _ _).mp hhead
    obtain ⟨rest, hrest⟩ := List.head?_eq_some_iff.mp hhead
    have hvalue := jsxString_atCursor (hs'.marked s'.cursor) hrest hquote
    exact finishHere_image Jsx.attributeValue hs' hvalue

/-- **The last token again**, as a regular expression. -/
theorem scanRegExp_image (ctx : Context) (h : (image b source s).Admits s.tokenStart) :
    (scanRegExp ctx).run (image b source s) =
      answer b source Token.wrap (s.rescanRegExp ctx) := by
  unfold scanRegExp
  rw [run_update_bind, rewindToTokenStart_image h]
  refine finish_image h (fun n => ?_) s.tokenStart.offset_advancePastOpener
    (regExp_atCursor h rfl)
  exact h.place.advancePastOpener n

/-- **The last token again**, as a name in a tag. -/
theorem rescanJsxIdentifier_image (ctx : Context) (h : (image b source s).Admits s.tokenStart) :
    (rescanJsxIdentifier ctx).run (image b source s) =
      answer b source Token.wrap (s.rescanJsxName ctx) := by
  unfold rescanJsxIdentifier
  rw [run_update_bind, rewindToTokenStart_image h]
  exact finishAgain_image Jsx.name h (jsxName_atCursor h rfl)

/-- **The next token between tags.** -/
theorem scanJsxChild_image (ctx : Context) (h : (image b source s).Admits s.cursor) :
    (scanJsxChild ctx).run (image b source s) =
      answer b source Token.wrap (s.nextJsxChild ctx) := by
  have hadmits : (image b source ({ s with flags := ∅ } : Scanner)).Admits s.cursor := h.image
  unfold scanJsxChild
  rw [run_update_bind, run_update_bind]
  exact finishHere_image Jsx.child hadmits (jsxChild_atCursor (hadmits.marked s.cursor))

/-- **The last token again**, as the continuation of a template. -/
theorem scanTemplateContinuation_image (ctx : Context)
    (h : (image b source s).Admits s.tokenStart) :
    (scanTemplateContinuation ctx).run (image b source s) =
      answer b source Token.wrap (s.continueTemplate ctx) := by
  unfold scanTemplateContinuation Scanner.continueTemplate
  rw [run_update_bind, rewindToTokenStart_image h, run_update_bind]
  -- the flags are those of the scanner that reads again
  generalize hs' : ({ s with flags := { newLineBefore := s.flags.newLineBefore } } : Scanner) = s'
  have hadmits : (image b source s').Admits s'.tokenStart := by
    rw [← hs']
    exact h.image
  have hrewound : (image b source s').atCursor s'.tokenStart =
      { (image b source s).atCursor s.tokenStart with
        flags := { newLineBefore := s.flags.newLineBefore } } := by
    rw [← hs']
    rfl
  show Routine.run _ { (image b source s).atCursor s.tokenStart with
    flags := { newLineBefore := s.flags.newLineBefore } } = _
  rw [← hrewound, run_state_bind, is_atCursor, run_ite]
  by_cases hbrace : s'.tokenStart.rest.head? = some CodeUnit.rightBrace
  · obtain ⟨rest, hrest⟩ := List.head?_eq_some_iff.mp hbrace
    rw [if_neg (by simp [hbrace]), ← run_bind_assoc]
    apply finishAgain_image (Template.readContinuation ctx.taggedTemplate) hadmits
    rw [template_atCursor hadmits hrest (by decide), Template.readContinuation, if_pos hbrace]
  · have hfail : (failHere .unterminatedTemplate : Routine LexError Lexeme).run
        ((image b source s').atCursor s'.tokenStart) =
          (image b source s').carryOut s'.tokenStart.advance
            (Template.readContinuation ctx.taggedTemplate s'.tokenStart.rest) := by
      rw [Template.readContinuation, if_neg hbrace, carryOut_failHere, run_failHere,
        location_atCursor]
      rfl
    rw [if_pos (by simpa using hbrace), run_failHere,
      ← finishAgain_image (Template.readContinuation ctx.taggedTemplate) hadmits hfail]
    exact (run_bind_of_error (run_failHere _ _)).symm

/-! ## Tokens up to the end -/

/-- A token is put before those of a run. -/
theorem wrapResult_toExcept_cons {σ : Type} (r : Run σ) (t : Token) (tokens : List Token) :
    wrapResult (fun ts => tokens ++ ts.map Token.wrap) (r.cons t).toExcept =
      wrapResult (fun ts => tokens ++ [t.wrap] ++ ts.map Token.wrap) r.toExcept := by
  obtain ⟨ts, error, final⟩ := r
  cases error with
  | some e => rfl
  | none =>
    exact congrArg Except.ok (List.append_cons tokens t.wrap (ts.map Token.wrap))

/-- The loop over tokens goes on from the tokens that it has. -/
theorem tokenizeAllLoop_image (ctx : Context) (h : (image b source s).Admits s.cursor)
    (tokens : List Token) :
    (loop (fun tokens => do
        let t ← nextToken ctx
        let tokens := tokens ++ [t]
        return if t.kind = .eof then .done tokens else .again tokens) tokens :
      Routine LexError (List Token)).run (image b source s) =
        answer b source (fun ts => tokens ++ ts.map Token.wrap)
          ((s.run ctx).toExcept, (s.run ctx).final) := by
  -- the recursion of the scanner: an error, the end token, and any other token
  fun_induction Scanner.run ctx s generalizing tokens with
  | case1 s e s' hnext =>
    have htoken := nextToken_image ctx h
    rw [hnext] at htoken
    exact run_loop_of_error (run_bind_of_error htoken)
  | case2 s t s' hnext ht =>
    have htoken := nextToken_image ctx h
    rw [hnext] at htoken
    have hkind : t.wrap.kind = .eof := ht
    apply run_loop_of_done
    rw [run_bind_of_ok htoken]
    dsimp only
    rw [if_pos hkind]
    rfl
  | case3 s t s' hnext ht ih =>
    have htoken := nextToken_image ctx h
    rw [hnext] at htoken
    have hkind : t.wrap.kind ≠ .eof := ht
    have hround : (do
        let t ← nextToken ctx
        let tokens := tokens ++ [t]
        return if t.kind = .eof then .done tokens else .again tokens :
        Routine LexError (Step (List Token) (List Token))).run (image b source s) =
          some (.ok (.again (tokens ++ [t.wrap])), image b source s') := by
      rw [run_bind_of_ok htoken]
      dsimp only
      rw [if_neg hkind]
      rfl
    rw [run_loop_of_again hround, ih (h.of_next hnext), answer, answer,
      wrapResult_toExcept_cons]
    rfl

/-- **All tokens** up to the end token, or up to an error. -/
theorem tokenizeAll_image (ctx : Context) (h : (image b source s).Admits s.cursor) :
    (tokenizeAll ctx).run (image b source s) =
      answer b source (List.map Token.wrap) (s.tokenizeAll ctx) := by
  exact tokenizeAllLoop_image ctx h []

end Routine

/-! ## Checkpoints -/

namespace Checkpoint

/-- A checkpoint as a machine keeps it. -/
def image (k : Checkpoint) : Machine.Checkpoint where
  index := k.cursor.location.offset
  line := .ofNat k.cursor.location.line
  column := .ofNat k.cursor.location.column
  tokenStart := k.tokenStart.location.offset
  tokenLine := .ofNat k.tokenStart.location.line
  tokenColumn := .ofNat k.tokenStart.location.column
  flags := k.flags
  lineStart := k.lineStart
  commentCount := k.commentCount

end Checkpoint

namespace Machine

variable {b : Build} {source : List CodeUnit} {s : Scanner} {k : EcmaLex.Checkpoint}

theorem checkpoint_image (b : Build) (source : List CodeUnit) (s : Scanner) :
    (image b source s).checkpoint = s.checkpoint.image := by
  show Checkpoint.mk _ _ _ _ _ _ _ _ (s.comments.map Comment.wrap).size = _
  rw [Array.size_map]
  rfl

/-- Going back to a place of the source. -/
theorem restore_image (h : k.cursor.IsPlaceOf source) :
    (image b source s).restore k.image = image b source (s.restore k) := by
  have hcurrent : (image b source s).charAt k.image.index = unitAt k.cursor.rest := by
    rw [unitAt, h.rest_eq, List.head?_drop]
    rfl
  have hcomments : (s.comments.map Comment.wrap).take k.commentCount =
      (s.comments.take k.commentCount).map Comment.wrap := by
    rw [Array.take_eq_extract, Array.take_eq_extract, Array.map_extract]
  show ({ image b source (s.restore k) with
    current := (image b source s).charAt k.image.index
    comments := (s.comments.map Comment.wrap).take k.commentCount } : Machine) = _
  rw [hcurrent, hcomments]
  rfl

/-- Going back gives the checkpoint again exactly if no comment is missing. -/
theorem checkpoint_restore_image (b : Build) (source : List CodeUnit) (s : Scanner)
    (k : EcmaLex.Checkpoint) :
    ((image b source (s.restore k)).checkpoint == k.image) =
      ((s.restore k).checkpoint == k) := by
  rw [checkpoint_image, Bool.eq_iff_iff, beq_iff_eq, beq_iff_eq]
  constructor
  · intro heq
    have hcount : (s.comments.take k.commentCount).size = k.commentCount :=
      congrArg Checkpoint.commentCount heq
    show EcmaLex.Checkpoint.mk _ _ _ _ (s.comments.take k.commentCount).size = k
    rw [hcount]
    rfl
  · intro heq
    rw [heq]

end Machine

/-! ## Sessions -/

namespace Session

open Machine (image answer Admits)

variable {b : Build} {source : List CodeUnit} {s : Session} {a : Cursor}

/-- The session of a machine that stands where the scanner of a session does. -/
def image (b : Build) (source : List CodeUnit) (s : Session) : Machine.Session :=
  ⟨Machine.image b source s.scanner, s.saved.map Checkpoint.image⟩

/-- A token as the answer of both. -/
theorem call_image {r : Routine LexError Token} {result : Except LexError Token × Scanner}
    (h : r.run (Machine.image b source s.scanner) = answer b source Token.wrap result) :
    (s.image b source).call r .token =
      some ((s.withToken result).1.wrap, (s.withToken result).2.image b source) := by
  show (r.run (Machine.image b source s.scanner)).map _ = _
  rw [h]
  rfl

/-- **One command** of a session, in words. -/
theorem perform_image (h : s.Follows a) (ha : (Machine.image b source s.scanner).Admits a)
    (cmd : Command) :
    (s.image b source).perform cmd =
      some ((s.perform cmd).1.wrap, (s.perform cmd).2.image b source) := by
  have hcursor := ha.of_reaches h.scanner.reaches_cursor
  have htoken := ha.of_reaches h.scanner.tokenStart
  cases cmd with
  | next c => exact call_image (Routine.nextToken_image c hcursor)
  | regExp c => exact call_image (Routine.scanRegExp_image c htoken)
  | template c => exact call_image (Routine.scanTemplateContinuation_image c htoken)
  | jsxChild c => exact call_image (Routine.scanJsxChild_image c hcursor)
  | jsxName c => exact call_image (Routine.rescanJsxIdentifier_image c htoken)
  | jsxAttribute c => exact call_image (Routine.scanJsxAttributeValue_image c hcursor)
  | all c =>
    have hall := Routine.tokenizeAll_image c hcursor
    show ((Routine.tokenizeAll c).run (Machine.image b source s.scanner)).map _ = _
    rw [hall]
    rfl
  | save =>
    show some (Reply.saved (s.saved.map Checkpoint.image).size, Machine.Session.mk _
      ((s.saved.map Checkpoint.image).push (Machine.image b source s.scanner).checkpoint)) = _
    rw [Array.size_map, Machine.checkpoint_image, ← Array.map_push]
    rfl
  -- the machine keeps no units with a checkpoint, but looks up the one at its index
  | restore slot =>
    have hslot : (s.saved.map Checkpoint.image)[slot]? = s.saved[slot]?.map Checkpoint.image :=
      Array.getElem?_map
    unfold perform Machine.Session.perform
    dsimp only [image]
    rw [hslot]
    cases hk : s.saved[slot]? with
    | none => rfl
    | some k =>
      obtain ⟨htoken, hreaches⟩ := h.saved k (Array.mem_of_getElem? hk)
      have hplace : k.cursor.IsPlaceOf source := (ha.of_reaches (htoken.trans hreaches)).place
      dsimp only [Option.map_some]
      rw [Machine.restore_image hplace, Machine.checkpoint_restore_image]
      rfl
  | comments => rfl
  | takeComments =>
    show some (_, Machine.Session.mk { Machine.image b source s.scanner with comments := #[] } _) =
      some (_, Machine.Session.mk { Machine.image b source s.scanner with
        comments := (#[] : Array Comment).map Comment.wrap } _)
    rw [Array.map_empty]
    rfl

/-- **A session in words.** Performed by a machine that stands where the scanner does, commands are
answered as the scanner answers them, and never get stuck. -/
theorem performAll_image (h : s.Follows a) (ha : (Machine.image b source s.scanner).Admits a)
    (cmds : List Command) :
    (s.image b source).performAll cmds =
      some ((s.performAll cmds).map fun r => (r.1.wrap, Machine.image b source r.2)) := by
  induction cmds generalizing s with
  | nil => rfl
  | cons cmd cmds ih =>
    obtain ⟨hstep, -⟩ := h.perform cmd
    unfold Machine.Session.performAll
    rw [perform_image h ha cmd]
    show ((Session.image b source _).performAll cmds).bind _ = _
    rw [ih hstep ha.image]
    rfl

end Session

/-! ## Machines that stand at a place -/

namespace Machine

/-- A machine that stands at a place of its source: the unit that it keeps is the one at its index,
and the locations of its comments are such as words hold. -/
structure Stands (m : Machine) : Prop where
  index_le : m.index ≤ m.source.length
  tokenStart_le : m.tokenStart ≤ m.source.length
  current : m.current = m.charAt m.index
  comments : ∀ k ∈ m.comments, k.wrap = k

/-- The text from the cursor on. -/
def rest (m : Machine) : List CodeUnit := m.source.drop m.index

/-- The text from the start of the last token on. -/
def tokenRest (m : Machine) : List CodeUnit := m.source.drop m.tokenStart

/-- The words of a machine have room for what is left of its source, also from the start of the last
token on. -/
structure Roomy (m : Machine) : Prop where
  cursor : Cursor.Roomy ⟨m.location, m.rest⟩
  tokenStart : Cursor.Roomy ⟨m.tokenLocation, m.tokenRest⟩

/-- A machine that can be called: it stands at a place, and has room if sums are checked. -/
structure Ready (m : Machine) : Prop where
  stands : m.Stands
  room : m.build = .checked → m.Roomy

/-- The scanner that stands where a machine does. -/
def scanner (m : Machine) : Scanner where
  cursor := ⟨m.location, m.rest⟩
  tokenStart := ⟨m.tokenLocation, m.tokenRest⟩
  flags := m.flags
  lineStart := m.lineStart
  comments := m.comments

variable {b : Build} {source : List CodeUnit} {m : Machine} {s : Scanner}

theorem wrap_location (m : Machine) : m.location.wrap = m.location := by
  show Location.mk _ _ _ = Location.mk _ _ _
  rw [location, UInt32.ofNat_toNat, UInt32.ofNat_toNat]

theorem wrap_tokenLocation (m : Machine) : m.tokenLocation.wrap = m.tokenLocation := by
  show Location.mk _ _ _ = Location.mk _ _ _
  rw [tokenLocation, UInt32.ofNat_toNat, UInt32.ofNat_toNat]

/-- **A machine that stands at a place** is the image of the scanner there. -/
theorem Stands.image_scanner (h : m.Stands) : image m.build m.source m.scanner = m := by
  have hcurrent : unitAt (m.source.drop m.index) = m.current := by
    rw [h.current, unitAt, List.head?_drop]
    rfl
  have hcomments : m.comments.map Comment.wrap = m.comments := by
    rw [Array.map_congr_left h.comments, Array.map_id']
  show Machine.mk m.build m.source m.index (.ofNat m.line.toNat) (.ofNat m.column.toNat)
    (unitAt (m.source.drop m.index)) m.tokenStart (.ofNat m.tokenLine.toNat)
    (.ofNat m.tokenColumn.toNat) m.flags m.lineStart (m.comments.map Comment.wrap) = m
  rw [hcurrent, hcomments]
  simp only [UInt32.ofNat_toNat]

theorem Ready.admits_cursor (h : m.Ready) :
    (image m.build m.source m.scanner).Admits m.scanner.cursor :=
  ⟨⟨h.stands.index_le, rfl⟩, fun hb => (h.room hb).cursor⟩

theorem Ready.admits_tokenStart (h : m.Ready) :
    (image m.build m.source m.scanner).Admits m.scanner.tokenStart :=
  ⟨⟨h.stands.tokenStart_le, rfl⟩, fun hb => (h.room hb).tokenStart⟩

/-- Images of scanners are machines that stand at a place. -/
theorem stands_image (hcursor : s.cursor.IsPlaceOf source)
    (htoken : s.tokenStart.IsPlaceOf source) : (image b source s).Stands := by
  refine ⟨hcursor.offset_le, htoken.offset_le, ?_, ?_⟩
  · show unitAt s.cursor.rest = (source[s.cursor.location.offset]?.map UInt16.toNat).getD _
    rw [unitAt, hcursor.rest_eq, List.head?_drop]
  · intro k hk
    obtain ⟨k, -, rfl⟩ := Array.mem_map.mp hk
    show Comment.mk _ _ k.start.wrap.wrap k.stop.wrap.wrap =
      Comment.mk _ _ k.start.wrap k.stop.wrap
    simp only [Location.wrap, UInt32.ofNat_toNat]
    rfl

/-- Images of scanners whose places a machine can be put at are ready. -/
theorem ready_image (hcursor : (image b source s).Admits s.cursor)
    (htoken : (image b source s).Admits s.tokenStart) : (image b source s).Ready := by
  have hroomy {c : Cursor} (hplace : c.IsPlaceOf source) (hc : c.Roomy) :
      Cursor.Roomy ⟨c.location.wrap, source.drop c.location.offset⟩ := by
    have hline := hc.line
    have hcolumn := hc.column
    rw [Location.wrap_eq (by omega) (by omega), ← hplace.rest_eq]
    exact hc
  refine ⟨stands_image hcursor.place htoken.place, fun hb => ⟨?_, ?_⟩⟩
  · exact hroomy hcursor.place (hcursor.room hb)
  · exact hroomy htoken.place (htoken.room hb)

theorem stands_startingAt (b : Build) (source : List CodeUnit) (line column : UInt32)
    (offset : Nat) : (startingAt b source line column offset).Stands :=
  ⟨Nat.min_le_right _ _, Nat.min_le_right _ _, rfl, by simp [startingAt]⟩

/-- A scan that starts at a location starts there in words, too. -/
theorem image_startingAt (b : Build) (source : List CodeUnit) (line column : UInt32)
    (offset : Nat) :
    image b source (Scanner.startingAt source ⟨line.toNat, column.toNat, offset⟩) =
      startingAt b source line column offset := by
  have himage := (stands_startingAt b source line column offset).image_scanner
  have hrest : source.drop (min offset source.length) = source.drop offset :=
    Cursor.Tracks.drop_min source offset
  rw [← himage]
  show Machine.mk _ _ _ _ _ (unitAt (source.drop offset)) _ _ _ _ _ _ =
    Machine.mk _ _ _ _ _ (unitAt (source.drop (min offset source.length))) _ _ _ _ _ _
  rw [hrest]
  rfl

/-- The words have room for lines and columns of a scan, and the counters for its digits. -/
structure Room (source : List CodeUnit) (line column : UInt32) : Prop where
  line : line.toNat + source.length < UInt32.size
  column : column.toNat + source.length < UInt32.size
  source : source.length < 1073741824

/-- Where a scan starts, its machine can be put. -/
theorem admits_startingAt {line column : UInt32} (offset : Nat)
    (hroom : b = .checked → Room source line column) :
    let start := Scanner.startingAt source ⟨line.toNat, column.toNat, offset⟩
    (image b source start).Admits start.cursor := by
  refine ⟨.of_startingAt source _, fun hb => ?_⟩
  obtain ⟨hline, hcolumn, hsource⟩ := hroom hb
  have hlength : (source.drop offset).length ≤ source.length :=
    (source.drop_suffix offset).length_le
  refine ⟨?_, ?_, ?_⟩
  · show line.toNat + (source.drop offset).length < _
    omega
  · show column.toNat + (source.drop offset).length < _
    omega
  · show (source.drop offset).length < _
    omega

/-- A scan can start if the words have room. -/
theorem ready_startingAt {line column : UInt32} (offset : Nat)
    (hroom : b = .checked → Room source line column) :
    (startingAt b source line column offset).Ready := by
  have hstart := admits_startingAt offset hroom
  rw [← image_startingAt]
  exact ready_image hstart hstart

/-- What is scanned from the start of a source on is all of it. -/
theorem rest_startingAt (b : Build) (source : List CodeUnit) (line column : UInt32) :
    (startingAt b source line column 0).rest = source := by
  show source.drop (min 0 source.length) = _
  rw [Nat.zero_min, List.drop_zero]

/-! ### Calls -/

/-- Where a call of a scanner is answered with a token. -/
theorem answer_eq_ok_iff {r : Except LexError Token × Scanner} {t : Token} {m' : Machine} :
    answer b source Token.wrap r = some (.ok t, m') ↔
      ∃ t' s', r = (.ok t', s') ∧ t = t'.wrap ∧ m' = image b source s' := by
  obtain ⟨r, s'⟩ := r
  cases r with
  | error e => simp [answer, wrapResult]
  | ok t' =>
    constructor
    · intro h
      obtain ⟨ht, hm⟩ := Prod.mk.inj (Option.some.inj h)
      exact ⟨t', s', rfl, (Except.ok.inj ht).symm, hm.symm⟩
    · rintro ⟨_, _, heq, rfl, rfl⟩
      obtain ⟨rfl, rfl⟩ := ok_pair_inj heq
      rfl

/-- A machine is answered with a token where its scanner is. -/
theorem exists_answer_iff {r : Except LexError Token × Scanner} :
    (∃ t m', answer b source Token.wrap r = some (.ok t, m')) ↔ ∃ t s', r = (.ok t, s') := by
  constructor
  · rintro ⟨t, m', h⟩
    obtain ⟨t', s', hr, -⟩ := answer_eq_ok_iff.mp h
    exact ⟨t', s', hr⟩
  · rintro ⟨t, s', rfl⟩
    exact ⟨t.wrap, image b source s', rfl⟩

/-- **The next token** of a machine is that of the scanner that stands there. -/
theorem Ready.nextToken (h : m.Ready) (ctx : Context) :
    (Routine.nextToken ctx).run m = answer m.build m.source Token.wrap (m.scanner.next ctx) := by
  have hcall := Routine.nextToken_image ctx h.admits_cursor
  rwa [h.stands.image_scanner] at hcall

theorem Ready.scanJsxAttributeValue (h : m.Ready) (ctx : Context) :
    (Routine.scanJsxAttributeValue ctx).run m =
      answer m.build m.source Token.wrap (m.scanner.nextJsxAttribute ctx) := by
  have hcall := Routine.scanJsxAttributeValue_image ctx h.admits_cursor
  rwa [h.stands.image_scanner] at hcall

theorem Ready.scanTemplateContinuation (h : m.Ready) (ctx : Context) :
    (Routine.scanTemplateContinuation ctx).run m =
      answer m.build m.source Token.wrap (m.scanner.continueTemplate ctx) := by
  have hcall := Routine.scanTemplateContinuation_image ctx h.admits_tokenStart
  rwa [h.stands.image_scanner] at hcall

end Machine

end EcmaLex
