import EcmaLex.Proofs.BracketMatching
import EcmaLex.Proofs.NewLines
import EcmaLex.Proofs.Tiling

/-!
# Where an HTML-like comment closes

In a script `-->` is a comment up to the end of the line, but only at the start of a line: in front
of it there may be trivia, and a block comment that spans lines counts as a new line. Anywhere else
it is a decrement and a comparison. The scanner decides by a flag that trivia set and tokens clear.
`Behind` ties the flag to the tokens: *it is set in front of the first token and cleared behind each
other*, so what is left to decide is whether a line ended in the gap.

* `Trivia.first?_htmlClose`: what is found at `-->`.
* `Scanner.Behind`: the scanner between two tokens, with one lemma for each call.
* `Scanner.Behind.exists_place`, `Scanner.Behind.takesArrow`: a single gap.
* `htmlClose_iff_lineStart`: whole runs.
-/

namespace EcmaLex

open Comment (Kind)

/-! ## At the arrow -/

/-- **The arrow** is a comment exactly if there are such comments and the line starts here. -/
theorem Trivia.first?_htmlClose {m : Mode} {text : List CodeUnit}
    (h : Kind.htmlClose.opener <+: text) :
    first? m text =
      if m.recognises .htmlClose = true then
        some (.comment .htmlClose ((text.drop 3).takeWhile fun u => !u.isLineTerminator))
      else none := by
  have hfirst : first? m text = (opening? m text).map (commentOf · text) := by
    obtain ⟨rest, rfl⟩ := h
    show first? m (CodeUnit.minus :: (CodeUnit.minus :: CodeUnit.ofChar '>' :: rest)) = _
    simp only [first?]
    rw [if_neg (by decide), if_neg (by decide)]
    rfl
  rw [hfirst]
  split
  · next hm =>
    rw [opening?_eq_some_iff.mpr ⟨hm, h⟩]
    rfl
  · next hm =>
    have hnone : opening? m text = none := by
      cases hk : opening? m text with
      | none => rfl
      | some kind =>
        obtain ⟨hkind, hopener⟩ := opening?_eq_some_iff.mp hk
        rw [opener_unique hopener h] at hkind
        exact absurd hkind hm
    rw [hnone]
    rfl

/-- An arrow that is no comment begins with a decrement. -/
theorem Lexeme.read_arrow (c : Context) {text : List CodeUnit}
    (h : Kind.htmlClose.opener <+: text) :
    read c text = .ok ⟨⟨.punctuator .decrement, .none⟩, 2, ∅⟩ := by
  obtain ⟨rest, rfl⟩ := h
  show read c (CodeUnit.minus :: CodeUnit.minus :: CodeUnit.ofChar '>' :: rest) = _
  have hname : beginsName (CodeUnit.minus :: CodeUnit.minus :: CodeUnit.ofChar '>' :: rest) =
      false := rfl
  have hnumber : beginsNumber (CodeUnit.minus :: CodeUnit.minus :: CodeUnit.ofChar '>' :: rest) =
      false := rfl
  have hpunctuator : Punctuator.ofText? c.jsx
      (CodeUnit.minus :: CodeUnit.minus :: CodeUnit.ofChar '>' :: rest) = some .decrement := rfl
  simp only [read, hname, hnumber]
  rw [if_neg (by decide), if_neg (by decide), if_neg (by decide), if_neg (by decide),
    if_neg (by decide), if_neg (fun h => absurd h.1 (by decide)), if_pos (by decide),
    readPunctuator, hpunctuator]
  rfl

namespace Scanner

variable {source : List CodeUnit} {c : Context} {s s' : Scanner} {t : Token} {prev : Option Token}

/-- A comment without an end takes all that is left. -/
theorem Passes.isUnclosed_eq_false {ts : List Trivia} (hp : Passes c s ts s')
    (hrest : s'.cursor.rest ≠ []) : ts.any Trivia.isUnclosed = false := by
  induction hp with
  | done _ => rfl
  | @piece s s' piece ts hfirst hmore ih =>
    rw [List.any_cons, ih hrest, Bool.or_false]
    obtain ⟨text, rest, htext, hwritten⟩ := Trivia.written_of_first? hfirst
    have hlength := hwritten.length_eq
    obtain ⟨gap, hgap, -⟩ := hmore.exists_gap
    rw [cursor_pass, Cursor.rest_advance, htext, ← hlength, List.drop_left] at hgap
    cases hwritten with
    | unclosed => exact absurd (List.append_eq_nil_iff.mp hgap.symm).2 hrest
    | _ => rfl

/-! ## Between tokens -/

/-- The scanner stands behind the token `prev`, or at the start of the source if there is none yet.
Nothing is left behind the end token, and behind any other the line has begun. -/
structure Behind (source : List CodeUnit) (prev : Option Token) (s : Scanner) : Prop where
  keeps : s.Keeps source []
  offset_eq : s.cursor.location.offset = prev.elim 0 Token.stop
  first : prev = none → s.lineStart = true
  later : ∀ t, prev = some t → if t.kind = .eof then s.cursor.rest = [] else s.lineStart = false

theorem behind_ofSource (source : List CodeUnit) : (ofSource source).Behind source none :=
  ⟨.of_startingAt source .start, Nat.zero_min _, fun _ => rfl, by simp⟩

/-- **One token.** -/
theorem Behind.of_next (h : s.Behind source prev) (hnext : s.next c = (.ok t, s')) :
    s'.Behind source (some t) := by
  obtain ⟨-, hstop, -⟩ := h.keeps.notesGap_of_next hnext
  refine ⟨h.keeps.of_next hnext, hstop, by simp, ?_⟩
  rintro _ ⟨⟩
  obtain ⟨ts, s₁, x, -, -, hx, rfl, rfl⟩ := next_eq_ok_iff.mp hnext
  split
  · next heof =>
    rw [cursor_took, Cursor.rest_advance, Lexeme.eq_nil_of_read hx heof, List.drop_nil]
  · next hkind =>
    have hkind : x.value.kind ≠ .eof := hkind
    rw [lineStart_took, beq_eq_false_iff_ne.mpr hkind, Bool.and_false]

/-- **The rest of a template.** -/
theorem behind_of_continueTemplate (h : s.Keeps source [])
    (htemplate : s.continueTemplate c = (.ok t, s')) : s'.Behind source (some t) := by
  refine ⟨h.of_continueTemplate htemplate, ?_, by simp, ?_⟩
  · obtain ⟨x, -, rfl, rfl⟩ := continueTemplate_eq_ok_iff.mp htemplate
    rfl
  · rintro _ ⟨⟩
    obtain ⟨x, hx, rfl, rfl⟩ := continueTemplate_eq_ok_iff.mp htemplate
    have hkind := Lexeme.kind_ne_eof_of_template (Lexeme.template_of_readContinuation hx).2
    rw [if_neg (show ¬(Token.ofReading _ _ _ _ x).kind = .eof from hkind), lineStart_took,
      beq_eq_false_iff_ne.mpr hkind, Bool.and_false]

/-- Where something is left, the line starts only in front of the first token. -/
theorem Behind.lineStart_eq (h : s.Behind source prev) (hrest : s.cursor.rest ≠ []) :
    s.lineStart = prev.isNone := by
  cases prev with
  | none => exact h.first rfl
  | some t =>
    have hlater := h.later t rfl
    split at hlater
    · exact absurd hlater hrest
    · exact hlater

/-! ## Gaps with an arrow -/

/-- How an arrow is taken that stands at the offset `p`, in the gap behind the token `prev`, where
`after` are the trivia from there on. Either it is a comment up to the end of its line, or the next
token is a decrement; `gives` tells what the next token is. -/
structure TakesArrow (source : List CodeUnit) (html : Bool) (prev : Option Token) (p : Nat)
    (after : List Trivia) (gives : Token → Prop) : Prop where
  comment_iff : (∃ text more, after = .comment .htmlClose text :: more) ↔
    html = true ∧ (prev = none ∨ ∃ t, prev = some t ∧
      ∃ u ∈ source.extract t.stop p, u ∈ [0x0A, 0x0D, 0x2028, 0x2029])
  text_eq : ∀ text more, after = .comment .htmlClose text :: more →
    text = (source.drop (p + 3)).takeWhile fun u => u ∉ [0x0A, 0x0D, 0x2028, 0x2029]
  decrement : (¬∃ text more, after = .comment .htmlClose text :: more) →
    ∃ t, gives t ∧ t.kind = .punctuator .decrement ∧ t.start.offset = p ∧ t.stop = p + 2

/-- **A place in a gap.** The line starts there in front of the first token, and else if one ended
on the way. -/
theorem Behind.exists_place (h : s.Behind source prev) {before after : List Trivia} {p : Nat}
    (htrivia : s.trivia c = before ++ after)
    (hp : p = s.cursor.location.offset + (before.map Trivia.length).sum)
    (hleft : source.drop p ≠ []) :
    ∃ s₁ s', Passes c { s with flags := ∅ } (before ++ after) s' ∧ Passes c s₁ after s' ∧
      s₁.cursor.location.offset = p ∧ s₁.cursor.rest = source.drop p ∧
      (s₁.lineStart = true ↔ prev = none ∨ ∃ t, prev = some t ∧
        ∃ u ∈ source.extract t.stop p, u ∈ [0x0A, 0x0D, 0x2028, 0x2029]) := by
  obtain ⟨s', hpasses⟩ : ∃ s', Passes c { s with flags := ∅ } (before ++ after) s' :=
    ⟨_, htrivia ▸ passes_trivia c { s with flags := ∅ }⟩
  obtain ⟨s₁, gap, hafter, hrest, hoffset, hsum, hany, hline⟩ := hpasses.exists_gap_of_append
  dsimp only at hrest hoffset hline
  rw [← hsum] at hp
  have hdrop : s₁.cursor.rest = source.drop p := by
    rw [hp, ← List.drop_drop, ← h.keeps.cursor.rest_eq, hrest, List.drop_left]
  refine ⟨s₁, s', hpasses, hafter, hoffset.trans hp.symm, hdrop, ?_⟩
  have hbegun := h.lineStart_eq (by simp [hrest, hdrop, hleft])
  have hgap := h.keeps.cursor.extract_eq hrest
  rw [← hp] at hgap
  rw [hline, hbegun, ← hany]
  cases prev with
  | none => simp
  | some t =>
    have hstop : s.cursor.location.offset = t.stop := h.offset_eq
    rw [Option.isNone_some, Bool.false_or, any_isLineTerminator_iff, ← hgap, hstop]
    simp

/-- **A gap with an arrow.** -/
theorem Behind.takesArrow (h : s.Behind source prev) {before after : List Trivia} {p : Nat}
    (htrivia : s.trivia c = before ++ after)
    (hp : p = s.cursor.location.offset + (before.map Trivia.length).sum)
    (harrow : source.extract p (p + 3) = Kind.htmlClose.opener) :
    TakesArrow source c.allowsHtmlComments prev p after (fun t => (s.next c).1 = .ok t) := by
  have hopener : Kind.htmlClose.opener <+: source.drop p := by
    rw [← harrow, List.extract_eq_take_drop]
    exact List.take_prefix _ _
  have hleft : source.drop p ≠ [] := by
    intro hnil
    rw [hnil] at hopener
    exact absurd (List.prefix_nil.mp hopener) (by decide)
  obtain ⟨s₁, s', hpasses, hafter, hoffset, hrest, hstart⟩ := h.exists_place htrivia hp hleft
  rw [← hrest] at hopener hleft
  have hfirst := Trivia.first?_htmlClose (m := s₁.triviaMode c) hopener
  have hrecognises : (s₁.triviaMode c).recognises .htmlClose = true ↔
      c.allowsHtmlComments = true ∧ s₁.lineStart = true := by
    rw [← Bool.and_eq_true]
    rfl
  rw [hstart] at hrecognises
  cases hafter with
  | done hnone =>
    -- nothing is found, so the arrow is no comment, and a token is read right there
    rw [hnone] at hfirst
    split at hfirst
    · simp at hfirst
    · next hnot =>
      have hnext : s.next c = _ := next_eq_ok_iff.mpr ⟨_, s₁, _, hpasses,
        hpasses.isUnclosed_eq_false hleft, Lexeme.read_arrow c hopener, rfl, rfl⟩
      refine ⟨⟨by simp, fun hyes => absurd (hrecognises.mpr hyes) hnot⟩, by simp, fun _ => ?_⟩
      refine ⟨_, by rw [hnext], rfl, hoffset, ?_⟩
      have hle := hopener.length_le
      have hlength : Kind.htmlClose.opener.length = 3 := rfl
      show (s₁.cursor.advance 2).location.offset = _
      rw [Cursor.offset_advance, List.length_take]
      omega
  | piece hsome =>
    rw [hsome] at hfirst
    split at hfirst
    · next hyes =>
      obtain rfl := Option.some.inj hfirst
      refine ⟨⟨fun _ => hrecognises.mp hyes, fun _ => ⟨_, _, rfl⟩⟩, ?_, ?_⟩
      · intro text more heq
        obtain ⟨-, rfl⟩ := Trivia.comment.inj (List.cons.inj heq).1
        have hends : (fun u : CodeUnit => !u.isLineTerminator) =
            fun u => decide (u ∉ [0x0A, 0x0D, 0x2028, 0x2029]) := by
          funext u
          rw [Bool.eq_iff_iff]
          simp [CodeUnit.isLineTerminator, and_assoc]
        rw [← List.drop_drop, hrest, hends]
      · intro hnot
        exact absurd ⟨_, _, rfl⟩ hnot
    · simp at hfirst

/-! ## Runs -/

theorem getLast?_cons_or (t : Token) (ts : List Token) (prev : Option Token) :
    (t :: ts).getLast?.or prev = ts.getLast?.or (some t) := by
  rw [List.getLast?_cons]
  cases ts.getLast? <;> rfl

/-- **Calls that all give a token** lead from one token to the next. -/
theorem Behind.afterCalls (h : s.Behind source prev) {cs : List Context}
    (hlength : (s.tokensWith cs).length = cs.length) :
    (s.afterCalls cs).Behind source ((s.tokensWith cs).getLast?.or prev) := by
  induction cs generalizing s prev with
  | nil => exact h
  | cons c cs ih =>
    rw [tokensWith] at hlength ⊢
    split at hlength
    · next t s' hnext =>
      have hstep : s.afterCalls (c :: cs) = s'.afterCalls cs := by
        show ((s.next c).2).afterCalls cs = _
        rw [hnext]
      rw [hstep, getLast?_cons_or]
      exact ih (h.of_next hnext) (Nat.succ.inj hlength)
    · simp at hlength

theorem TakesArrow.mono {html : Bool} {p : Nat} {after : List Trivia} {gives gives' : Token → Prop}
    (h : TakesArrow source html prev p after gives)
    (hgives : ∀ t, t.kind = .punctuator .decrement → gives t → gives' t) :
    TakesArrow source html prev p after gives' := by
  refine ⟨h.comment_iff, h.text_eq, ?_⟩
  intro hnot
  obtain ⟨t, ht, hkind, hplace⟩ := h.decrement hnot
  exact ⟨t, hgives t hkind ht, hkind, hplace⟩

end Scanner

namespace TokenStream

variable {source : List CodeUnit} {s s' : TokenStream} {t : Token} {prev : Option Token}

/-- **One token of a stream.** -/
theorem behind_of_advance (h : s.scanner.Behind source prev) (hadvance : s.advance = (.ok t, s')) :
    s'.scanner.Behind source (some t) ∧ s'.context = s.context := by
  rcases advance_eq_ok_iff.mp hadvance with
    ⟨scanner, hnext, -, rfl⟩ | ⟨brace, sub, scanner, scanner', hnext, -, htemplate, rfl⟩
  · rw [scanner_track, context_track]
    exact ⟨h.of_next hnext, rfl⟩
  · rw [scanner_track, context_track]
    exact ⟨Scanner.behind_of_continueTemplate (h.of_next hnext).keeps htemplate, rfl⟩

/-- **The tokens of a stream**, which is finished behind the end token. -/
theorem behind_of_produces {ts : List Token} (hproduces : s.Produces ts s')
    (h : s.scanner.Behind source prev) (hfinished : s.finished = prev.any (·.kind == .eof)) :
    s'.scanner.Behind source (ts.getLast?.or prev) ∧ s'.context = s.context ∧
      s'.finished = (ts.getLast?.or prev).any (·.kind == .eof) := by
  induction hproduces generalizing prev with
  | nil => exact ⟨h, rfl, hfinished⟩
  | cons hnext _ ih =>
    have hadvance := advance_of_next? hnext
    obtain ⟨hstep, hsame⟩ := behind_of_advance h hadvance
    obtain ⟨hbehind, hcontext, hend⟩ := ih hstep (finished_of_advance hadvance)
    rw [Scanner.getLast?_cons_or]
    exact ⟨hbehind, hcontext.trans hsame, hend⟩

/-- Where the scanner gives a token other than the end, and other than a closing brace, the stream
gives it. -/
theorem next?_of_next (h : s.scanner.Behind source prev)
    (hfinished : s.finished = prev.any (·.kind == .eof)) (ht : (s.scanner.next s.goal).1 = .ok t)
    (heof : t.kind ≠ .eof) (hbrace : t.kind ≠ .punctuator .rightBrace) :
    s.next?.1 = some (.ok t) := by
  rcases hnext : s.scanner.next s.goal with ⟨r, scanner⟩
  obtain rfl : r = .ok t := by rw [hnext] at ht; exact ht
  have hcloses : s.closes? t = none := by
    cases hsub : s.closes? t with
    | none => rfl
    | some sub => exact absurd (kind_of_closes? hsub) hbrace
  have hadvance := advance_eq_ok_iff.mpr (.inl ⟨scanner, hnext, hcloses, rfl⟩)
  have hopen : s.finished = false := by
    rw [hfinished, ← Bool.not_eq_true]
    intro hend
    obtain ⟨last, rfl, hlast⟩ := Option.any_eq_true _ _ |>.mp hend
    have hrest := h.later last rfl
    rw [if_pos (by simpa using hlast)] at hrest
    obtain ⟨t', s', hnext', hkind, -⟩ := Scanner.next_of_rest_eq_nil hrest s.goal
    obtain ⟨rfl, -⟩ := ok_pair_inj (hnext.symm.trans hnext')
    exact heof hkind
  rw [next?, hopen, hadvance]
  rfl

end TokenStream

/-- **An arrow closes an HTML-like comment** exactly at the start of a line. Take calls of a scanner
with any contexts, or tokens of a stream, without an error so far, and an arrow at the offset `p`
that the trivia in front of the next token lead up to. It is a comment up to the end of its line if
and only if the context has such comments, and no token came before or a line ended between the last
one and `p`. If it is none, the next token is a decrement there. -/
theorem htmlClose_iff_lineStart (source : List CodeUnit) :
    (∀ (cs : List Context) (c : Context) (before after : List Trivia) (p : Nat),
      let tokens := (Scanner.ofSource source).tokensWith cs
      let s := (Scanner.ofSource source).afterCalls cs
      tokens.length = cs.length → s.trivia c = before ++ after →
      p = s.cursor.location.offset + (before.map Trivia.length).sum →
      source.extract p (p + 3) = [0x2D, 0x2D, 0x3E] →
      Scanner.TakesArrow source (c.webCompat && !c.moduleGoal) tokens.getLast? p after
        fun t => (s.next c).1 = .ok t) ∧
    ∀ (c : Context) (tokens : List Token) (s : TokenStream) (before after : List Trivia) (p : Nat),
      (TokenStream.ofSource source c).Produces tokens s →
      s.scanner.trivia s.goal = before ++ after →
      p = s.scanner.cursor.location.offset + (before.map Trivia.length).sum →
      source.extract p (p + 3) = [0x2D, 0x2D, 0x3E] →
      Scanner.TakesArrow source (c.webCompat && !c.moduleGoal) tokens.getLast? p after
        fun t => s.next?.1 = some (.ok t) := by
  constructor
  · intro cs c before after p tokens s hlength htrivia hp harrow
    have hbehind := (Scanner.behind_ofSource source).afterCalls hlength
    rw [Option.or_none] at hbehind
    exact hbehind.takesArrow htrivia hp harrow
  · intro c tokens s before after p hproduces htrivia hp harrow
    obtain ⟨hbehind, hcontext, hfinished⟩ :=
      TokenStream.behind_of_produces hproduces (Scanner.behind_ofSource source) rfl
    rw [Option.or_none] at hbehind hfinished
    have htakes := hbehind.takesArrow htrivia hp harrow
    rw [s.allowsHtmlComments_goal, hcontext] at htakes
    refine htakes.mono ?_
    intro t hkind ht
    exact TokenStream.next?_of_next hbehind hfinished ht (by simp [hkind]) (by simp [hkind])

/-- In `a`, a new line, `-->b`, a new line and `c-->`, the first arrow is a comment and the second
begins with a decrement. -/
theorem htmlClose_iff_lineStart_both :
    let source : List CodeUnit :=
      [0x61, 0x0A, 0x2D, 0x2D, 0x3E, 0x62, 0x0A, 0x63, 0x2D, 0x2D, 0x3E]
    let c : Context := { webCompat := true }
    let s := (Scanner.ofSource source).afterCalls [c]
    let s' := (Scanner.ofSource source).afterCalls [c, c]
    (∃ more, s.trivia c = .lineBreak false :: .comment .htmlClose [0x62] :: more) ∧
      ∃ t, (s'.next c).1 = .ok t ∧ t.kind = .punctuator .decrement ∧ t.start.offset = 8 ∧
        t.stop = 10 := by
  intro source c s s'
  have harrows := (htmlClose_iff_lineStart source).1
  have hsplit : s.trivia c = [.lineBreak false] ++ (s.trivia c).drop 1 := by decide +kernel
  have hfirst := harrows [c] c _ _ 2 (by decide +kernel) hsplit (by decide +kernel)
    (by decide +kernel)
  have hsecond := harrows [c, c] c [] (s'.trivia c) 8 (by decide +kernel) rfl (by decide +kernel)
    (by decide +kernel)
  constructor
  · have hlast : (((Scanner.ofSource source).tokensWith [c]).getLast?).map Token.stop = some 1 := by
      decide +kernel
    obtain ⟨t, ht, hstop⟩ := Option.map_eq_some_iff.mp hlast
    obtain ⟨text, more, hcomment⟩ := hfirst.comment_iff.mpr
      ⟨rfl, .inr ⟨t, ht, 0x0A, by rw [hstop]; decide, by decide⟩⟩
    have htext : text = [0x62] := by
      rw [hfirst.text_eq text more hcomment]
      decide
    exact ⟨more, by rw [hsplit, hcomment, htext]; rfl⟩
  · have hlast : (((Scanner.ofSource source).tokensWith [c, c]).getLast?).map Token.stop =
        some 8 := by decide +kernel
    obtain ⟨t, ht, hstop⟩ := Option.map_eq_some_iff.mp hlast
    refine hsecond.decrement ?_
    intro hcomment
    obtain ⟨-, hnone | ⟨t', ht', u, hu, -⟩⟩ := hsecond.comment_iff.mp hcomment
    · rw [ht] at hnone
      simp at hnone
    · rw [ht] at ht'
      obtain rfl := Option.some.inj ht'
      rw [hstop] at hu
      simp at hu

end EcmaLex
