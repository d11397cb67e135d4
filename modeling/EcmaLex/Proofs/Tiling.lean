import EcmaLex.Proofs.Gaps

/-!
# Tokens and trivia tile the source

A run without an error loses nothing and doubles nothing. Its tokens stand in order, the gaps
between them are filled with trivia of the call that skipped it, the comments it collected are the
comments of these gaps, and the end token stands at the end (`Tiling`).

* `Tiles` is the shape of such a run, token by token, and `Tiling` spells out what it means.
* `Scanner.Emits` is one token of a run: a call for the next token, or such a call for a closing
  brace and then one for the template that goes on there, which goes back over the brace.
* `Emits.placed` is what one token does, and `EmitsAll.tiles` what a run does.

The main result is `tiling_of_error_eq_none`.
-/

namespace EcmaLex

/-! ## Tilings -/

/-- From an offset on, where `lineStart` tells whether only trivia stands before it on its line, the
tokens and the comments cover the source. `html` tells for each token whether HTML-like comments
exist in front of it. -/
inductive Tiles (source : List CodeUnit) :
    (Nat → Bool) → Bool → Nat → List Token → List Comment.Extent → Prop
  | last {html : Nat → Bool} {lineStart : Bool} {i : Nat} {t : Token} {gap : List Trivia}
      (hgap : Trivia.Fills source ⟨html 0, lineStart, i == 0⟩ i gap t.start.offset)
      (hkind : t.kind = .eof) (hstart : t.start.offset = source.length)
      (hstop : t.stop = source.length) :
      Tiles source html lineStart i [t] (Trivia.extents i gap)
  | token {html : Nat → Bool} {lineStart : Bool} {i : Nat} {t : Token} {gap : List Trivia}
      {ts : List Token} {es : List Comment.Extent}
      (hgap : Trivia.Fills source ⟨html 0, lineStart, i == 0⟩ i gap t.start.offset)
      (hkind : t.kind ≠ .eof) (hlt : t.start.offset < t.stop) (hle : t.stop ≤ source.length)
      (hrest : Tiles source (fun n => html (n + 1)) false t.stop ts es) :
      Tiles source html lineStart i (t :: ts) (Trivia.extents i gap ++ es)

/-- The tokens and the comments of a whole run cover the source. -/
structure Tiling (source : List CodeUnit) (html : Nat → Bool) (tokens : List Token)
    (comments : Array Comment) : Prop where
  /-- All gaps are trivia, no token starts where trivia could, and the comments are those of the
  gaps. -/
  tiles : Tiles source html true 0 tokens (comments.toList.map Comment.extent)
  texts : Comment.TextsExact source comments
  nonempty : ∀ t ∈ tokens, t.kind ≠ .eof → t.start.offset < t.stop
  increasing : tokens.Pairwise fun a b => a.stop ≤ b.start.offset
  /-- The end token is the last one, and stands at the end. -/
  ends : ∃ before last, tokens = before ++ [last] ∧ (∀ t ∈ before, t.kind ≠ .eof) ∧
    last.kind = .eof ∧ last.start.offset = source.length ∧ last.stop = source.length
  length_le : tokens.length ≤ source.length + 1

namespace Tiles

variable {source : List CodeUnit} {html : Nat → Bool} {lineStart : Bool} {i : Nat}
  {ts : List Token} {es : List Comment.Extent}

theorem le_start (h : Tiles source html lineStart i ts es) : ∀ t ∈ ts, i ≤ t.start.offset := by
  induction h with
  | last hgap =>
    intro t ht
    obtain rfl := List.mem_singleton.mp ht
    exact hgap.le
  | token hgap _ hlt _ _ ih =>
    have hle := hgap.le
    intro t ht
    rcases List.mem_cons.mp ht with rfl | ht
    · exact hle
    · have := ih t ht
      omega

theorem lt_stop (h : Tiles source html lineStart i ts es) :
    ∀ t ∈ ts, t.kind ≠ .eof → t.start.offset < t.stop := by
  induction h with
  | last _ hkind =>
    intro t ht hne
    obtain rfl := List.mem_singleton.mp ht
    exact absurd hkind hne
  | token _ _ hlt _ _ ih =>
    intro t ht hne
    rcases List.mem_cons.mp ht with rfl | ht
    · exact hlt
    · exact ih t ht hne

theorem pairwise (h : Tiles source html lineStart i ts es) :
    ts.Pairwise fun a b => a.stop ≤ b.start.offset := by
  induction h with
  | last => exact List.pairwise_singleton _ _
  | token _ _ _ _ hrest ih => exact List.pairwise_cons.mpr ⟨hrest.le_start, ih⟩

theorem exists_last (h : Tiles source html lineStart i ts es) :
    ∃ before last, ts = before ++ [last] ∧ (∀ t ∈ before, t.kind ≠ .eof) ∧
      last.kind = .eof ∧ last.start.offset = source.length ∧ last.stop = source.length := by
  induction h with
  | @last _ _ _ t _ _ hkind hstart hstop => exact ⟨[], t, rfl, by simp, hkind, hstart, hstop⟩
  | @token _ _ _ t _ _ _ _ hkind _ _ _ ih =>
    obtain ⟨before, last, rfl, hbefore, hlast⟩ := ih
    refine ⟨t :: before, last, rfl, ?_, hlast⟩
    intro t' ht'
    rcases List.mem_cons.mp ht' with rfl | ht'
    · exact hkind
    · exact hbefore t' ht'

/-- Every token but the last takes a unit. -/
theorem length_le (h : Tiles source html lineStart i ts es) (hi : i ≤ source.length) :
    ts.length + i ≤ source.length + 1 := by
  induction h with
  | last =>
    rw [List.length_singleton]
    omega
  | token hgap _ hlt hle _ ih =>
    have := hgap.le
    have := ih hle
    rw [List.length_cons]
    omega

/-- A tiling from the start on. -/
theorem toTiling {comments : Array Comment}
    (h : Tiles source html true 0 ts (comments.toList.map Comment.extent))
    (htexts : Comment.TextsExact source comments) : Tiling source html ts comments :=
  ⟨h, htexts, h.lt_stop, h.pairwise, h.exists_last, h.length_le (Nat.zero_le _)⟩

end Tiles

/-! ## One token of a run -/

namespace Scanner

/-- One token of a run, with its comments collected. -/
inductive Emits (html : Bool) : Scanner → Token → Scanner → Prop
  | next {c : Context} {s s' : Scanner} {t : Token} (hhtml : c.allowsHtmlComments = html)
      (hcollect : c.collectComments = true) (hnext : s.next c = (.ok t, s')) : Emits html s t s'
  | continued {c c' : Context} {s s₁ s' : Scanner} {brace t : Token}
      (hhtml : c.allowsHtmlComments = html) (hcollect : c.collectComments = true)
      (hnext : s.next c = (.ok brace, s₁)) (hbrace : brace.kind ≠ .eof)
      (htemplate : s₁.continueTemplate c' = (.ok t, s')) : Emits html s t s'

/-- A token in its place: the gap in front of it is filled, its comments are collected, and the
cursor stands behind it. -/
structure Placed (source : List CodeUnit) (html : Bool) (s : Scanner) (t : Token) (s' : Scanner)
    (gap : List Trivia) : Prop where
  fills : Trivia.Fills source ⟨html, s.lineStart, s.cursor.location.offset == 0⟩
    s.cursor.location.offset gap t.start.offset
  eof : t.kind = .eof → t.start.offset = source.length ∧ t.stop = source.length
  nonempty : t.kind ≠ .eof → t.start.offset < t.stop ∧ s'.lineStart = false
  offset_eq : s'.cursor.location.offset = t.stop
  extents : s'.comments.toList.map Comment.extent =
    s.comments.toList.map Comment.extent ++ Trivia.extents s.cursor.location.offset gap
  texts : Comment.TextsExact source s.comments → Comment.TextsExact source s'.comments
  tracks : s'.Tracks source .start

variable {source : List CodeUnit} {html : Bool} {c : Context} {s s' : Scanner} {t : Token}

/-- Where nothing is left, the source ends. -/
theorem offset_eq_length_of_rest {a : Cursor} {start : Location} (h : a.Tracks source start)
    (hrest : a.rest = []) : a.location.offset = source.length := by
  have hle := h.isCounted.le_length
  have hge : source.length ≤ a.location.offset := by
    rw [h.rest_eq] at hrest
    exact List.drop_eq_nil_iff.mp hrest
  exact Nat.le_antisymm hle hge

/-- Moving on where something is left. -/
theorem lt_offset_advance {a : Cursor} {n : Nat} (hn : 0 < n) (hrest : a.rest ≠ []) :
    a.location.offset < (a.advance n).location.offset := by
  have := List.length_pos_iff.mpr hrest
  rw [Cursor.offset_advance, List.length_take]
  omega

/-- **The next token is in its place.** -/
theorem placed_of_next (h : s.Tracks source .start) (hhtml : c.allowsHtmlComments = html)
    (hcollect : c.collectComments = true) (hnext : s.next c = (.ok t, s')) :
    ∃ gap, Placed source html s t s' gap ∧ s'.tokenStart.location = t.start := by
  have htracks := h.of_next hnext
  obtain ⟨gap, s₁, x, hp, hclosed, hx, rfl, rfl⟩ := next_eq_ok_iff.mp hnext
  have h₀ := h.with_flags ∅
  have h₁ := h₀.passes hp
  refine ⟨gap, ⟨?_, ?_, ?_, rfl, hp.extents_eq hcollect, hp.textsExact hcollect h₀, htracks⟩, rfl⟩
  · rw [← hhtml]
    exact hp.fills h₀ hclosed
  · -- the end token is read where nothing is left
    intro heof
    have hrest : s₁.cursor.rest = [] := Lexeme.eq_nil_of_read hx heof
    have hoff := offset_eq_length_of_rest h₁.cursor hrest
    refine ⟨hoff, ?_⟩
    show (s₁.cursor.advance x.length).location.offset = source.length
    rw [Cursor.location_advance, hrest, List.take_nil, Location.after_nil, hoff]
  · intro hne
    cases hr : s₁.cursor.rest with
    | nil =>
      rw [hr] at hx
      obtain rfl := Except.ok.inj hx
      exact absurd rfl hne
    | cons u rest =>
      rw [hr] at hx
      refine ⟨lt_offset_advance (Lexeme.length_pos_of_read hx) (by simp [hr]), ?_⟩
      have hkind : x.value.kind ≠ .eof := hne
      rw [lineStart_took, beq_eq_false_iff_ne.mpr hkind, Bool.and_false]

/-- **One token of a run is in its place.** -/
theorem Emits.placed (he : Emits html s t s') (h : s.Tracks source .start) :
    ∃ gap, Placed source html s t s' gap := by
  cases he with
  | next hhtml hcollect hnext =>
    obtain ⟨gap, hplaced, -⟩ := placed_of_next h hhtml hcollect hnext
    exact ⟨gap, hplaced⟩
  | @continued c c' _ s₁ _ brace _ hhtml hcollect hnext hbrace htemplate =>
    obtain ⟨gap, hplaced, hstart⟩ := placed_of_next h hhtml hcollect hnext
    have htracks := hplaced.tracks.of_continueTemplate htemplate
    obtain ⟨x, hx, rfl, rfl⟩ := continueTemplate_eq_ok_iff.mp htemplate
    obtain ⟨⟨rest, hrest⟩, hx⟩ := Lexeme.template_of_readContinuation hx
    have hkind := Lexeme.kind_ne_eof_of_template hx
    refine ⟨gap, ⟨?_, fun heof => absurd heof hkind, fun _ => ⟨?_, ?_⟩, rfl, hplaced.extents,
      hplaced.texts, htracks⟩⟩
    · -- the template starts where the brace did, behind the same gap
      show Trivia.Fills source _ _ gap s₁.tokenStart.location.offset
      rw [hstart]
      exact hplaced.fills
    · exact lt_offset_advance (Lexeme.length_pos_of_template hx) (by simp [hrest])
    · rw [lineStart_took, (hplaced.nonempty hbrace).2, Bool.false_and]

/-! ## Whole runs -/

/-- The tokens of a run up to the end token. -/
inductive EmitsAll : (Nat → Bool) → Scanner → List Token → Scanner → Prop
  | last {html : Nat → Bool} {s s' : Scanner} {t : Token} (he : Emits (html 0) s t s')
      (hkind : t.kind = .eof) : EmitsAll html s [t] s'
  | cons {html : Nat → Bool} {s s₁ s' : Scanner} {t : Token} {ts : List Token}
      (he : Emits (html 0) s t s₁) (hkind : t.kind ≠ .eof)
      (hrest : EmitsAll (fun n => html (n + 1)) s₁ ts s') : EmitsAll html s (t :: ts) s'

/-- **A run tiles the source** from its cursor on. -/
theorem EmitsAll.tiles {html : Nat → Bool} {ts : List Token} (he : EmitsAll html s ts s')
    (h : s.Tracks source .start) (htexts : Comment.TextsExact source s.comments) :
    ∃ es, Tiles source html s.lineStart s.cursor.location.offset ts es ∧
      s'.comments.toList.map Comment.extent = s.comments.toList.map Comment.extent ++ es ∧
      Comment.TextsExact source s'.comments ∧ s'.Tracks source .start ∧
      s'.cursor.location.offset = source.length := by
  induction he with
  | last he hkind =>
    obtain ⟨gap, hplaced⟩ := he.placed h
    obtain ⟨hstart, hstop⟩ := hplaced.eof hkind
    refine ⟨_, .last hplaced.fills hkind hstart hstop, hplaced.extents, hplaced.texts htexts,
      hplaced.tracks, ?_⟩
    rw [hplaced.offset_eq, hstop]
  | cons he hkind _ ih =>
    obtain ⟨gap, hplaced⟩ := he.placed h
    obtain ⟨hlt, hline⟩ := hplaced.nonempty hkind
    obtain ⟨es, htiles, hextents, htexts', htracks, hend⟩ :=
      ih hplaced.tracks (hplaced.texts htexts)
    rw [hline, hplaced.offset_eq] at htiles
    refine ⟨_, .token hplaced.fills hkind hlt ?_ htiles, ?_, htexts', htracks, hend⟩
    · rw [← hplaced.offset_eq]
      exact hplaced.tracks.cursor.isCounted.le_length
    · rw [hextents, hplaced.extents, List.append_assoc]

/-- A run over a whole source. -/
theorem EmitsAll.tiling {html : Nat → Bool} {ts : List Token}
    (he : EmitsAll html (ofSource source) ts s') :
    Tiling source html ts s'.comments ∧ s'.Tracks source .start ∧
      s'.cursor.location.offset = source.length := by
  obtain ⟨es, htiles, hextents, htexts, htracks, hend⟩ :=
    he.tiles (.of_startingAt source .start) (by simp [Comment.TextsExact, ofSource, startingAt])
  have hes : s'.comments.toList.map Comment.extent = es := by
    simpa [ofSource, startingAt] using hextents
  have hstart : (ofSource source).cursor.location.offset = 0 := Nat.zero_min _
  rw [← hes, hstart] at htiles
  exact ⟨htiles.toTiling htexts, htracks, hend⟩

/-! ### Runs with a context for each call -/

/-- Tokens up to the end token, or up to an error, where call number `n` has the context `ctx n`. -/
def runWith (ctx : Nat → Context) (s : Scanner) : Run Scanner :=
  match _h : s.next (ctx 0) with
  | (.error e, s') => ⟨[], some e, s'⟩
  | (.ok t, s') =>
    if _ht : t.kind = .eof then ⟨[t], none, s'⟩
    else (s'.runWith fun n => ctx (n + 1)).cons t
termination_by s.cursor.rest.length
decreasing_by exact rest_lt_of_next _h _ht

theorem emitsAll_of_runWith {ctx : Nat → Context} (hctx : ∀ n, (ctx n).collectComments = true)
    (herr : (s.runWith ctx).error = none) :
    EmitsAll (fun n => (ctx n).allowsHtmlComments) s (s.runWith ctx).tokens
      (s.runWith ctx).final := by
  fun_induction runWith ctx s with
  | case1 => simp at herr
  | case2 ctx s t s' hnext ht => exact .last (.next rfl (hctx 0) hnext) ht
  | case3 ctx s t s' hnext ht ih =>
    exact .cons (.next rfl (hctx 0) hnext) ht (ih (fun n => hctx (n + 1)) herr)

/-- Where nothing is left, the next token is the end token, and the scanner stays. -/
theorem next_of_rest_eq_nil (hrest : s.cursor.rest = []) (c : Context) :
    ∃ t s', s.next c = (.ok t, s') ∧ t.kind = .eof ∧ t.start = s.cursor.location ∧
      t.stop = s.cursor.location.offset ∧ s'.cursor = s.cursor ∧ s'.comments = s.comments := by
  have hp : Passes c { s with flags := ∅ } [] { s with flags := ∅ } := by
    refine .done ?_
    rw [hrest]
    rfl
  have hread : Lexeme.read c s.cursor.rest = .ok ⟨⟨.eof, .none⟩, 0, ∅⟩ := by
    rw [hrest]
    rfl
  exact ⟨_, _, next_eq_ok_iff.mpr ⟨[], _, _, hp, rfl, hread, rfl, rfl⟩, rfl, rfl, rfl, rfl, rfl⟩

/-- The scanner after some more calls for a token. -/
def afterCalls (s : Scanner) (cs : List Context) : Scanner := cs.foldl (fun s c => (s.next c).2) s

/-- At the end, calls change neither the place nor the comments. -/
theorem afterCalls_of_rest_eq_nil (cs : List Context) (hrest : s.cursor.rest = []) :
    (s.afterCalls cs).cursor = s.cursor ∧ (s.afterCalls cs).comments = s.comments := by
  induction cs generalizing s with
  | nil => exact ⟨rfl, rfl⟩
  | cons c cs ih =>
    obtain ⟨t, s', hnext, -, -, -, hcursor, hcomments⟩ := next_of_rest_eq_nil hrest c
    have hstep : s.afterCalls (c :: cs) = s'.afterCalls cs := by
      show ((s.next c).2).afterCalls cs = s'.afterCalls cs
      rw [hnext]
    obtain ⟨hcursor', hcomments'⟩ := ih (s := s') (by rw [hcursor, hrest])
    rw [hstep]
    exact ⟨hcursor'.trans hcursor, hcomments'.trans hcomments⟩

end Scanner

/-! ### Runs of a stream -/

namespace TokenStream

theorem collectComments_goal (s : TokenStream) :
    s.goal.collectComments = s.context.collectComments := by
  unfold goal
  split <;> rfl

theorem allowsHtmlComments_goal (s : TokenStream) :
    s.goal.allowsHtmlComments = s.context.allowsHtmlComments := by
  unfold goal
  split <;> rfl

/-- **One token of a stream.** -/
theorem emits_of_advance {s s' : TokenStream} {t : Token} (h : s.advance = (.ok t, s'))
    (hc : s.context.collectComments = true) :
    Scanner.Emits s.context.allowsHtmlComments s.scanner t s'.scanner ∧
      s'.context = s.context ∧ s'.finished = (t.kind == .eof) := by
  have hcollect : s.goal.collectComments = true := by rw [collectComments_goal, hc]
  rcases advance_eq_ok_iff.mp h with
    ⟨scanner, hnext, -, rfl⟩ | ⟨brace, sub, scanner, scanner', hnext, hsub, ht, rfl⟩
  · rw [scanner_track, context_track, finished_track]
    exact ⟨.next s.allowsHtmlComments_goal hcollect hnext, rfl, rfl⟩
  · rw [scanner_track, context_track, finished_track]
    refine ⟨.continued s.allowsHtmlComments_goal hcollect hnext ?_ ht, rfl, rfl⟩
    rw [kind_of_closes? hsub]
    simp

theorem emitsAll_of_run {s : TokenStream} (hc : s.context.collectComments = true)
    (herr : s.run.error = none) :
    Scanner.EmitsAll (fun _ => s.context.allowsHtmlComments) s.scanner s.run.tokens
      s.run.final.scanner ∧ s.run.final.finished = true := by
  fun_induction TokenStream.run s with
  | case1 => simp at herr
  | case2 s t s' hadv ht =>
    obtain ⟨hemits, -, hfinished⟩ := emits_of_advance hadv hc
    refine ⟨.last hemits ht, ?_⟩
    rw [hfinished, ht]
    rfl
  | case3 s t s' hadv ht ih =>
    obtain ⟨hemits, hctx, -⟩ := emits_of_advance hadv hc
    rw [hctx] at ih
    obtain ⟨hrest, hfinished⟩ := ih hc herr
    exact ⟨.cons hemits ht hrest, hfinished⟩

end TokenStream

/-! ## Main result -/

/-- **Tokens, comments and blanks tile the source.** A run of a scanner up to the end token, with
any contexts that collect comments, covers its source, and further calls give the end token in the
same place, over and over. A run of a token stream covers its source as well, and gives nothing
afterwards. -/
theorem tiling_of_error_eq_none (source : List CodeUnit) :
    (∀ ctx : Nat → Context, (∀ n, (ctx n).collectComments = true) →
      ((Scanner.ofSource source).runWith ctx).error = none →
      Tiling source (fun n => (ctx n).allowsHtmlComments)
        ((Scanner.ofSource source).runWith ctx).tokens
        ((Scanner.ofSource source).runWith ctx).final.comments ∧
      ∀ (cs : List Context) (c : Context), ∃ t s',
        (((Scanner.ofSource source).runWith ctx).final.afterCalls cs).next c = (.ok t, s') ∧
        t.kind = .eof ∧ t.start.offset = source.length ∧ t.stop = source.length ∧
        s'.cursor = ((Scanner.ofSource source).runWith ctx).final.cursor ∧
        s'.comments = ((Scanner.ofSource source).runWith ctx).final.comments) ∧
    ∀ c : Context, c.collectComments = true →
      (TokenStream.ofSource source c).run.error = none →
      Tiling source (fun _ => c.allowsHtmlComments) (TokenStream.ofSource source c).run.tokens
        (TokenStream.ofSource source c).run.final.scanner.comments ∧
      (TokenStream.ofSource source c).run.final.next? =
        (none, (TokenStream.ofSource source c).run.final) := by
  constructor
  · intro ctx hctx herr
    obtain ⟨htiling, htracks, hend⟩ := (Scanner.emitsAll_of_runWith hctx herr).tiling
    refine ⟨htiling, ?_⟩
    intro cs c
    have hrest : ((Scanner.ofSource source).runWith ctx).final.cursor.rest = [] := by
      rw [htracks.cursor.rest_eq, hend, List.drop_length]
    obtain ⟨hcursor, hcomments⟩ := Scanner.afterCalls_of_rest_eq_nil cs hrest
    obtain ⟨t, s', hnext, hkind, hstart, hstop, hcursor', hcomments'⟩ :=
      Scanner.next_of_rest_eq_nil (by rw [hcursor, hrest]) c
    rw [hcursor] at hstart hstop
    exact ⟨t, s', hnext, hkind, by rw [hstart, hend], by rw [hstop, hend],
      hcursor'.trans hcursor, hcomments'.trans hcomments⟩
  · intro c hc herr
    obtain ⟨hemits, hfinished⟩ := TokenStream.emitsAll_of_run hc herr
    refine ⟨(Scanner.EmitsAll.tiling hemits).1, ?_⟩
    rw [TokenStream.next?, if_pos hfinished]

/-- A block comment and, where only every other call knows it, a comment that closes an HTML one. In
the stream a comment stands in a substitution, in front of the brace that is read twice. -/
theorem tiling_of_comments :
    let source : List CodeUnit := [0x61, 0x2F, 0x2A, 0x62, 0x2A, 0x2F, 0x0A, 0x2D, 0x2D, 0x3E, 0x63]
    let ctx : Nat → Context := fun n => { collectComments := true, webCompat := n % 2 == 1 }
    let template : List CodeUnit := [0x60, 0x24, 0x7B, 0x61, 0x2F, 0x2F, 0x0A, 0x7D, 0x60, 0x20]
    let run := (Scanner.ofSource source).runWith ctx
    let stream := (TokenStream.ofSource template { collectComments := true }).run
    run.error = none ∧
      Tiling source (fun n => (ctx n).allowsHtmlComments) run.tokens run.final.comments ∧
      stream.error = none ∧
      Tiling template (fun _ => false) stream.tokens stream.final.scanner.comments := by
  intro source ctx template run stream
  have hrun : run.error = none := by decide +kernel
  have hstream : stream.error = none := by decide +kernel
  exact ⟨hrun, ((tiling_of_error_eq_none source).1 ctx (fun _ => rfl) hrun).1, hstream,
    ((tiling_of_error_eq_none template).2 { collectComments := true } rfl hstream).1⟩

end EcmaLex
