import EcmaLex.Scanner.Run

/-!
# Token streams without a parser

A scanner has to be told when a slash begins a regular expression and when a closing brace goes on
with a template. A token stream decides both from the tokens before: a slash is division after a
token that can end an expression, and a brace closes the innermost substitution if as many braces
are open as when it was opened. That is enough for listing and highlighting, though not for every
corner of the grammar: in `if (x) /re/` the slash is taken for division.
-/

namespace EcmaLex

/-- Whether a token of this kind can end an expression. -/
def Token.Kind.endsExpression : Token.Kind → Bool
  | .identifier | .escapedKeyword _ | .privateName | .numericLiteral | .stringLiteral
  | .regExpLiteral | .noSubstitutionTemplate | .templateTail => true
  | .keyword k => k.isContextual || [.thisKw, .superKw, .nullKw, .trueKw, .falseKw].contains k
  | .punctuator p =>
    [.rightParen, .rightBracket, .rightBrace, .increment, .decrement].contains p
  | _ => false

/-- An open substitution of a template. -/
structure Substitution where
  /-- The number of braces that were open when it was opened. -/
  depth : Nat
  /-- Whether the template is tagged. -/
  tagged : Bool
  deriving DecidableEq, Repr

/-- A stream of tokens. -/
structure TokenStream where
  scanner : Scanner
  context : Context
  previous : Option Token.Kind := none
  /-- The number of open braces. -/
  braces : Nat := 0
  /-- The open substitutions, the innermost first. -/
  substitutions : List Substitution := []
  /-- The end token or an error has been given. -/
  finished : Bool := false

namespace TokenStream

/-- The tokens of a source. -/
def ofSource (source : List CodeUnit) (context : Context) : TokenStream :=
  { scanner := .ofSource source, context }

/-- Whether the next token follows something that can end an expression. -/
def afterExpression (s : TokenStream) : Bool := s.previous.any Token.Kind.endsExpression

/-- The substitution that a token closes, if it closes one. -/
def closes? (s : TokenStream) (t : Token) : Option Substitution :=
  if t.kind = .punctuator .rightBrace then s.substitutions.head?.filter (·.depth == s.braces)
  else none

/-- The context in which the next token is scanned. -/
def goal (s : TokenStream) : Context :=
  if s.afterExpression then { s.context with taggedTemplate := true }
  else { s.context with allowRegExp := true }

/-- The context in which a template goes on after a substitution. -/
def continuation (s : TokenStream) (sub : Substitution) : Context :=
  { s.context with taggedTemplate := s.context.taggedTemplate || sub.tagged }

/-- Notes a token: counts braces and opens substitutions. `tagged` tells whether the token was
scanned as part of a tagged template. -/
def track (s : TokenStream) (t : Token) (tagged : Bool) : TokenStream :=
  let s := { s with previous := some t.kind, finished := t.kind == .eof }
  match t.kind with
  | .punctuator .leftBrace => { s with braces := s.braces + 1 }
  | .punctuator .rightBrace => { s with braces := s.braces - 1 }
  | .templateHead | .templateMiddle =>
    { s with substitutions := ⟨s.braces, tagged⟩ :: s.substitutions }
  | _ => s

/-- The result of a scan as the stream's next token. -/
def deliver (s : TokenStream) (tagged : Bool) (r : Except LexError Token × Scanner) :
    Except LexError Token × TokenStream :=
  match r with
  | (.error e, scanner) => (.error e, { s with scanner, finished := true })
  | (.ok t, scanner) => (.ok t, ({ s with scanner } : TokenStream).track t tagged)

/-- The next token of a stream that is not finished. A brace that closes a substitution is read
again, as the continuation of its template. -/
def advance (s : TokenStream) : Except LexError Token × TokenStream :=
  match s.scanner.next s.goal with
  | (.error e, scanner) => s.deliver false (.error e, scanner)
  | (.ok t, scanner) =>
    match s.closes? t with
    | none => s.deliver s.afterExpression (.ok t, scanner)
    | some sub =>
      ({ s with substitutions := s.substitutions.tail } : TokenStream).deliver sub.tagged
        (scanner.continueTemplate (s.continuation sub))

/-- The next token, nothing after the end token or an error. -/
def next? (s : TokenStream) : Option (Except LexError Token) × TokenStream :=
  if s.finished then (none, s)
  else
    let (r, s) := s.advance
    (some r, s)

/-! ## Runs -/

theorem scanner_track (s : TokenStream) (t : Token) (tagged : Bool) :
    (s.track t tagged).scanner = s.scanner := by
  unfold track
  dsimp only
  split <;> rfl

/-- A continued template leaves less of the source than there was at its brace. -/
theorem rest_lt_of_continueTemplate {c : Context} {s s' : Scanner} {t : Token}
    (h : s.continueTemplate c = (.ok t, s')) :
    s'.cursor.rest.length < s.tokenStart.rest.length := by
  unfold Scanner.continueTemplate Scanner.readAgain Scanner.settle at h
  split at h
  · next x hx =>
    simp only [Prod.mk.injEq, Except.ok.injEq] at h
    obtain ⟨-, rfl⟩ := h
    simp only [Template.readContinuation] at hx
    split at hx
    · next hb =>
      simp only [Template.read] at hx
      obtain ⟨z, hz, hl⟩ := Outcome.exists_of_mapValue hx
      have := Outcome.le_length_of_shift hz
      have hne : s.tokenStart.rest ≠ [] := by
        intro h0
        rw [h0] at hb
        simp at hb
      have := List.length_pos_iff.mpr hne
      simp only [Cursor.advance, List.length_drop]
      omega
    · simp [Outcome.failHere] at hx
  · simp at h

/-- A token starts within what was left of the source. -/
theorem tokenStart_le_of_next {c : Context} {s s' : Scanner} {t : Token}
    (h : s.next c = (.ok t, s')) : s'.tokenStart.rest.length ≤ s.cursor.rest.length := by
  unfold Scanner.next Scanner.readAfterTrivia at h
  have hle := Scanner.rest_skipTrivia_le c { s with flags := ∅ }
  split at h
  · simp at h
  · next s₁ hs =>
    rw [hs] at hle
    unfold Scanner.readHere Scanner.settle at h
    split at h
    · simp only [Prod.mk.injEq, Except.ok.injEq] at h
      obtain ⟨-, rfl⟩ := h
      exact hle
    · simp at h

/-- A token that is not the end leaves less of the source. -/
theorem rest_lt_of_advance {s s' : TokenStream} {t : Token} (h : s.advance = (.ok t, s'))
    (ht : t.kind ≠ .eof) : s'.scanner.cursor.rest.length < s.scanner.cursor.rest.length := by
  unfold advance at h
  split at h
  · simp [deliver] at h
  · next t₁ scanner hn =>
    split at h
    · simp only [deliver, Prod.mk.injEq, Except.ok.injEq] at h
      obtain ⟨rfl, rfl⟩ := h
      rw [scanner_track]
      exact Scanner.rest_lt_of_next hn ht
    · next sub _ =>
      unfold deliver at h
      split at h
      · simp at h
      · next hc =>
        simp only [Prod.mk.injEq, Except.ok.injEq] at h
        obtain ⟨-, rfl⟩ := h
        rw [scanner_track]
        exact Nat.lt_of_lt_of_le (rest_lt_of_continueTemplate hc) (tokenStart_le_of_next hn)

/-- Tokens up to the end token, which is included, or up to an error. -/
def run (s : TokenStream) : Run TokenStream :=
  match _h : s.advance with
  | (.error e, s') => ⟨[], some e, s'⟩
  | (.ok t, s') => if _ht : t.kind = .eof then ⟨[t], none, s'⟩ else s'.run.cons t
termination_by s.scanner.cursor.rest.length
decreasing_by exact rest_lt_of_advance _h _ht

end TokenStream

/-- All tokens of a source, the end token included, or the first error. -/
def tokenize (source : List CodeUnit) (c : Context) : Except LexError (List Token) :=
  (TokenStream.ofSource source c).run.toExcept

end EcmaLex
