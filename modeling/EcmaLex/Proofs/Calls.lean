import EcmaLex.Proofs.SkippedTrivia
import EcmaLex.TokenStream

/-!
# What a call gives

A call succeeds exactly if a reader does, at a place that the call determines. Each call has one
equivalence that says where it reads, what token it makes of the reading and what it leaves behind:

* `Scanner.next_eq_ok_iff`, `Scanner.continueTemplate_eq_ok_iff` and
  `Scanner.rescanJsxName_eq_ok_iff` for the scanner;
* `TokenStream.advance_eq_ok_iff` for the stream, which calls for one token, or for a closing brace
  and the template that goes on there.

Everything that is proved of runs goes through them, and no proof opens a call again.
-/

namespace EcmaLex

/-- Two successful calls with the same result. -/
theorem ok_pair_inj {ε α σ : Type} {a b : α} {s s' : σ}
    (h : ((.ok a, s) : Except ε α × σ) = (.ok b, s')) : a = b ∧ s = s' := by
  obtain ⟨hab, hs⟩ := Prod.mk.inj h
  exact ⟨Except.ok.inj hab, hs⟩

/-- A call of which something is known of the token that it answers with. -/
theorem exists_ok_of_map {σ α : Type} {answer : Except LexError Token × σ} {f : Token → α} {a : α}
    (h : answer.1.toOption.map f = some a) : ∃ t s, answer = (.ok t, s) ∧ f t = a := by
  obtain ⟨result, s⟩ := answer
  cases result with
  | error e => exact nomatch h
  | ok t => exact ⟨t, s, rfl, Option.some.inj h⟩

/-- A run gives a list of tokens exactly if it has no error. -/
theorem Run.toExcept_eq_ok_iff {σ : Type} {r : Run σ} {ts : List Token} :
    r.toExcept = .ok ts ↔ r.error = none ∧ r.tokens = ts := by
  unfold toExcept
  cases r.error <;> simp

/-- The run makes one call after the other until the end token or an error. -/
structure Run.Repeats {σ : Type} (call : σ → Except LexError Token × σ) (run : σ → Run σ) :
    Prop where
  error {s s' : σ} {e : LexError} : call s = (.error e, s') → run s = ⟨[], some e, s'⟩
  eof {s s' : σ} {t : Token} : call s = (.ok t, s') → t.kind = .eof → run s = ⟨[t], none, s'⟩
  cons {s s' : σ} {t : Token} : call s = (.ok t, s') → t.kind ≠ .eof → run s = (run s').cons t

namespace Run.Repeats

variable {σ : Type} {call : σ → Except LexError Token × σ} {run : σ → Run σ} {s : σ}

/-- A run without an error gives the end token at least. -/
theorem toExcept_ne_nil (hrun : Repeats call run) : (run s).toExcept ≠ .ok [] := by
  intro h
  obtain ⟨herr, htokens⟩ := toExcept_eq_ok_iff.mp h
  rcases hcall : call s with ⟨r, s'⟩
  cases r with
  | error e => simp [hrun.error hcall] at herr
  | ok t =>
    by_cases ht : t.kind = .eof
    · simp [hrun.eof hcall ht] at htokens
    · simp [hrun.cons hcall ht, Run.cons] at htokens

/-- **The tokens of a run, call by call.** -/
theorem toExcept_cons_iff (hrun : Repeats call run) {t : Token} {ts : List Token} :
    (run s).toExcept = .ok (t :: ts) ↔
      ∃ s', call s = (.ok t, s') ∧
        if t.kind = .eof then ts = [] else (run s').toExcept = .ok ts := by
  rw [toExcept_eq_ok_iff]
  rcases hcall : call s with ⟨r, s₁⟩
  cases r with
  | error e => simp [hrun.error hcall]
  | ok u =>
    by_cases hu : u.kind = .eof
    · rw [hrun.eof hcall hu]
      constructor
      · rintro ⟨-, h⟩
        obtain ⟨rfl, rfl⟩ := List.cons.inj h
        exact ⟨s₁, rfl, by rw [if_pos hu]⟩
      · rintro ⟨s', hs', h⟩
        obtain ⟨rfl, rfl⟩ := ok_pair_inj hs'
        rw [if_pos hu] at h
        exact ⟨rfl, by rw [h]⟩
    · rw [hrun.cons hcall hu]
      constructor
      · rintro ⟨herr, h⟩
        obtain ⟨rfl, htokens⟩ := List.cons.inj h
        exact ⟨s₁, rfl, by rw [if_neg hu]; exact toExcept_eq_ok_iff.mpr ⟨herr, htokens⟩⟩
      · rintro ⟨s', hs', h⟩
        obtain ⟨rfl, rfl⟩ := ok_pair_inj hs'
        rw [if_neg hu] at h
        obtain ⟨herr, htokens⟩ := toExcept_eq_ok_iff.mp h
        exact ⟨herr, congrArg _ htokens⟩

end Run.Repeats

/-- The token that a reading between two places is, where `flags` were gathered in front of it. -/
def Token.ofReading (c : Context) (start stop : Cursor) (flags : TokenFlags)
    (x : Reading Lexeme) : Token where
  kind := x.value.kind
  value := x.value.value
  raw := if c.raw then some (Utf16.lossy (start.rest.take x.length)) else none
  start := start.location
  stop := stop.location.offset
  endLocation := if c.locations then some stop.location else none
  flags := flags ∪ x.flags

namespace Scanner

/-- The scanner after a reading between two places. -/
def took (s : Scanner) (start stop : Cursor) (x : Reading Lexeme) : Scanner :=
  { s with
    cursor := stop
    tokenStart := start
    flags := s.flags ∪ x.flags
    lineStart := s.lineStart && x.value.kind == .eof }

section Took
variable (s : Scanner) (start stop : Cursor) (x : Reading Lexeme)

@[simp] theorem cursor_took : (s.took start stop x).cursor = stop := rfl

@[simp] theorem tokenStart_took : (s.took start stop x).tokenStart = start := rfl

@[simp] theorem flags_took : (s.took start stop x).flags = s.flags ∪ x.flags := rfl

@[simp] theorem lineStart_took :
    (s.took start stop x).lineStart = (s.lineStart && x.value.kind == .eof) := rfl

@[simp] theorem comments_took : (s.took start stop x).comments = s.comments := rfl

end Took

variable {c : Context} {s s' : Scanner} {t : Token}

theorem settle_eq_ok_iff {start : Cursor} {seek : Nat → Cursor} {o : Outcome Lexeme} :
    s.settle c start seek o = (.ok t, s') ↔
      ∃ x, o = .ok x ∧ t = .ofReading c start (seek x.length) s.flags x ∧
        s' = s.took start (seek x.length) x := by
  cases o with
  | error f => simp [settle]
  | ok x =>
    constructor
    · intro h
      obtain ⟨rfl, rfl⟩ := ok_pair_inj h
      exact ⟨x, rfl, rfl, rfl⟩
    · rintro ⟨y, hy, rfl, rfl⟩
      obtain rfl := Except.ok.inj hy
      rfl

/-- **The next token.** It is read where the trivia ahead, all of it closed, ends. -/
theorem next_eq_ok_iff :
    s.next c = (.ok t, s') ↔
      ∃ ts s₁ x, Passes c { s with flags := ∅ } ts s₁ ∧ ts.any Trivia.isUnclosed = false ∧
        Lexeme.read c s₁.cursor.rest = .ok x ∧
        t = .ofReading c s₁.cursor (s₁.cursor.advance x.length) s₁.flags x ∧
        s' = s₁.took s₁.cursor (s₁.cursor.advance x.length) x := by
  constructor
  · intro h
    obtain ⟨ts, s₁, hp, ⟨-, heq⟩ | ⟨hu, heq⟩⟩ := readAfterTrivia_cases c (fun _ => Lexeme.read c) s
    · rw [next, heq] at h
      simp at h
    · rw [next, heq, readHere, settle_eq_ok_iff] at h
      obtain ⟨x, hx, ht, hs'⟩ := h
      exact ⟨ts, s₁, x, hp, hu, hx, ht, hs'⟩
  · rintro ⟨ts, s₁, x, hp, hu, hx, ht, hs'⟩
    rw [next, hp.readAfterTrivia_eq hu, readHere, settle_eq_ok_iff]
    exact ⟨x, hx, ht, hs'⟩

/-- The text from the start of the last token up to the cursor. -/
def tokenText (s : Scanner) : List CodeUnit :=
  s.tokenStart.rest.take (s.cursor.location.offset - s.tokenStart.location.offset)

theorem tokenText_took (start : Cursor) (x : Reading Lexeme) :
    (s.took start (start.advance x.length) x).tokenText = start.rest.take x.length := by
  unfold tokenText
  rw [tokenStart_took, cursor_took, Cursor.offset_advance,
    List.length_take, Nat.add_sub_cancel_left]
  rcases Nat.le_total x.length start.rest.length with h | h
  · rw [Nat.min_eq_left h]
  · rw [Nat.min_eq_right h, List.take_length, List.take_of_length_le h]

/-- **The next token is what its text reads as**, and the rest follows it. The flags are those of
the reading, and the one on the line break before the token. -/
theorem exists_read_of_next (h : s.next c = (.ok t, s')) :
    ∃ x, Lexeme.read c s'.tokenStart.rest = .ok x ∧
      s'.tokenText = s'.tokenStart.rest.take x.length ∧
      s'.cursor = s'.tokenStart.advance x.length ∧
      t.start = s'.tokenStart.location ∧ t.stop = s'.cursor.location.offset ∧
      t.kind = x.value.kind ∧ t.value = x.value.value ∧
      ∃ newLineBefore, t.flags = { newLineBefore } ∪ x.flags := by
  obtain ⟨ts, s₁, x, hp, -, hx, rfl, rfl⟩ := next_eq_ok_iff.mp h
  refine ⟨x, hx, tokenText_took _ _, rfl, rfl, rfl, rfl, rfl, ts.any Trivia.endsLine, ?_⟩
  show s₁.flags ∪ x.flags = _
  rw [hp.flags_eq, TokenFlags.empty_union]

/-- The next token where no trivia stands is read right there. -/
theorem next_eq_ok_iff_of_first? (h : Trivia.first? (s.triviaMode c) s.cursor.rest = none) :
    s.next c = (.ok t, s') ↔
      ∃ x, Lexeme.read c s.cursor.rest = .ok x ∧
        t = .ofReading c s.cursor (s.cursor.advance x.length) ∅ x ∧
        s' = ({ s with flags := ∅ } : Scanner).took s.cursor (s.cursor.advance x.length) x := by
  have hp : Passes c { s with flags := ∅ } [] { s with flags := ∅ } := .done h
  rw [next, hp.readAfterTrivia_eq rfl, readHere, settle_eq_ok_iff]

/-- There is a next token where no trivia stands exactly if one is read there. -/
theorem exists_next_iff_of_first? (h : Trivia.first? (s.triviaMode c) s.cursor.rest = none) :
    (∃ t s', s.next c = (.ok t, s')) ↔ ∃ x, Lexeme.read c s.cursor.rest = .ok x := by
  constructor
  · rintro ⟨t, s', hnext⟩
    obtain ⟨x, hx, -, -⟩ := (next_eq_ok_iff_of_first? h).mp hnext
    exact ⟨x, hx⟩
  · rintro ⟨x, hx⟩
    exact ⟨_, _, (next_eq_ok_iff_of_first? h).mpr ⟨x, hx, rfl, rfl⟩⟩

/-- What is read where no trivia stands is the next token. -/
theorem exists_next_of_read {x : Reading Lexeme}
    (h : Trivia.first? (s.triviaMode c) s.cursor.rest = none)
    (hx : Lexeme.read c s.cursor.rest = .ok x) (hlength : x.length ≤ s.cursor.rest.length) :
    ∃ t s', s.next c = (.ok t, s') ∧ t.kind = x.value.kind ∧ t.value = x.value.value ∧
      t.start = s.cursor.location ∧ t.stop = s.cursor.location.offset + x.length ∧
      s'.cursor = s.cursor.advance x.length := by
  refine ⟨_, _, (next_eq_ok_iff_of_first? h).mpr ⟨x, hx, rfl, rfl⟩, rfl, rfl, rfl, ?_, rfl⟩
  show (s.cursor.advance x.length).location.offset = _
  rw [Cursor.offset_advance, List.length_take, Nat.min_eq_left hlength]

/-- **A continued template.** It is read where the closing brace before it was. -/
theorem continueTemplate_eq_ok_iff :
    s.continueTemplate c = (.ok t, s') ↔
      ∃ x, Template.readContinuation c.taggedTemplate s.tokenStart.rest = .ok x ∧
        t = .ofReading c s.tokenStart (s.tokenStart.advance x.length)
          { newLineBefore := s.flags.newLineBefore } x ∧
        s' = ({ s with flags := { newLineBefore := s.flags.newLineBefore } } : Scanner).took
          s.tokenStart (s.tokenStart.advance x.length) x := by
  rw [continueTemplate, readAgain, settle_eq_ok_iff]

/-- **A name in a tag.** It is read where the last token was, and the flags stay. -/
theorem rescanJsxName_eq_ok_iff :
    s.rescanJsxName c = (.ok t, s') ↔
      ∃ x, Jsx.name s.tokenStart.rest = .ok x ∧
        t = .ofReading c s.tokenStart (s.tokenStart.advance x.length) s.flags x ∧
        s' = s.took s.tokenStart (s.tokenStart.advance x.length) x := by
  rw [rescanJsxName, readAgain, settle_eq_ok_iff]

/-! ## Runs, one call at a time -/

theorem run_of_error {e : LexError} (h : s.next c = (.error e, s')) :
    s.run c = ⟨[], some e, s'⟩ := by
  rw [run]
  split <;> simp_all

theorem run_of_eof (h : s.next c = (.ok t, s')) (ht : t.kind = .eof) :
    s.run c = ⟨[t], none, s'⟩ := by
  rw [run]
  split <;> simp_all

theorem run_of_ne_eof (h : s.next c = (.ok t, s')) (ht : t.kind ≠ .eof) :
    s.run c = (s'.run c).cons t := by
  rw [run]
  split <;> simp_all

theorem repeats_run (c : Context) : Run.Repeats (next c) (run c) :=
  ⟨run_of_error, run_of_eof, run_of_ne_eof⟩

end Scanner

namespace TokenStream

variable {s s' : TokenStream} {t : Token}

@[simp] theorem context_track (s : TokenStream) (t : Token) (tagged : Bool) :
    (s.track t tagged).context = s.context := by
  unfold track
  dsimp only
  split <;> rfl

@[simp] theorem finished_track (s : TokenStream) (t : Token) (tagged : Bool) :
    (s.track t tagged).finished = (t.kind == .eof) := by
  unfold track
  dsimp only
  split <;> rfl

/-- Only a brace closes a substitution. -/
theorem kind_of_closes? {sub : Substitution} (h : s.closes? t = some sub) :
    t.kind = .punctuator .rightBrace := by
  unfold closes? at h
  split at h
  · next hkind => exact hkind
  · simp at h

theorem deliver_eq_ok_iff {tagged : Bool} {r : Except LexError Token × Scanner} :
    s.deliver tagged r = (.ok t, s') ↔
      ∃ scanner, r = (.ok t, scanner) ∧
        s' = ({ s with scanner } : TokenStream).track t tagged := by
  obtain ⟨r, scanner⟩ := r
  cases r with
  | error e => simp [deliver]
  | ok u =>
    constructor
    · intro h
      obtain ⟨rfl, rfl⟩ := ok_pair_inj h
      exact ⟨scanner, rfl, rfl⟩
    · rintro ⟨scanner', hr, rfl⟩
      obtain ⟨rfl, rfl⟩ := ok_pair_inj hr
      rfl

/-- **The next token of a stream.** Either the scanner's next token closes no substitution, or it is
a brace that does, and the template goes on in its place. -/
theorem advance_eq_ok_iff :
    s.advance = (.ok t, s') ↔
      (∃ scanner, s.scanner.next s.goal = (.ok t, scanner) ∧ s.closes? t = none ∧
        s' = ({ s with scanner } : TokenStream).track t s.afterExpression) ∨
      ∃ brace sub scanner scanner', s.scanner.next s.goal = (.ok brace, scanner) ∧
        s.closes? brace = some sub ∧
        scanner.continueTemplate (s.continuation sub) = (.ok t, scanner') ∧
        s' = ({ s with substitutions := s.substitutions.tail, scanner := scanner' } :
          TokenStream).track t sub.tagged := by
  unfold advance
  -- the token decides which of the two it is, and there is only one
  rcases hn : s.scanner.next s.goal with ⟨r, scanner⟩
  cases r with
  | error e => simp [deliver]
  | ok u =>
    dsimp only
    cases hc : s.closes? u with
    | none =>
      dsimp only
      rw [deliver_eq_ok_iff]
      constructor
      · rintro ⟨scanner', hr, rfl⟩
        obtain ⟨rfl, rfl⟩ := ok_pair_inj hr
        exact .inl ⟨scanner, rfl, hc, rfl⟩
      · rintro (⟨scanner', hr, -, rfl⟩ | ⟨brace, sub, _, _, hr, hsub, -⟩)
        · exact ⟨scanner', hr, rfl⟩
        · obtain ⟨rfl, rfl⟩ := ok_pair_inj hr
          rw [hc] at hsub
          simp at hsub
    | some sub =>
      dsimp only
      rw [deliver_eq_ok_iff]
      constructor
      · rintro ⟨scanner', hr, rfl⟩
        exact .inr ⟨u, sub, scanner, scanner', rfl, hc, hr, rfl⟩
      · rintro (⟨scanner', hr, hnone, -⟩ | ⟨brace, sub', _, scanner', hr, hsub, ht, rfl⟩)
        · obtain ⟨rfl, rfl⟩ := ok_pair_inj hr
          rw [hc] at hnone
          simp at hnone
        · obtain ⟨rfl, rfl⟩ := ok_pair_inj hr
          rw [hc] at hsub
          obtain rfl := Option.some.inj hsub
          exact ⟨scanner', ht, rfl⟩

theorem run_of_error {e : LexError} (h : s.advance = (.error e, s')) :
    s.run = ⟨[], some e, s'⟩ := by
  rw [run]
  split <;> simp_all

theorem run_of_eof (h : s.advance = (.ok t, s')) (ht : t.kind = .eof) :
    s.run = ⟨[t], none, s'⟩ := by
  rw [run]
  split <;> simp_all

theorem run_of_ne_eof (h : s.advance = (.ok t, s')) (ht : t.kind ≠ .eof) :
    s.run = s'.run.cons t := by
  rw [run]
  split <;> simp_all

theorem repeats_run : Run.Repeats advance run := ⟨run_of_error, run_of_eof, run_of_ne_eof⟩

end TokenStream

end EcmaLex
