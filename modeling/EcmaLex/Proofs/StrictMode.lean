import EcmaLex.Proofs.Calls
import EcmaLex.Proofs.EscapeGrammar
import EcmaLex.Proofs.Marks

/-!
# Strict mode refuses what sloppy mode marks

A parser may find out too late that code is strict, when tokens before the directive have been read
already. It then needs to know whether strict mode would have refused one of them, and that is what
the marks of tokens tell: strict mode gives a token exactly if sloppy mode gives the same token
without a mark, and then leaves the same state (`strict_iff_unmarked`).

Two spellings make the difference, octal escapes in strings (`StringLiteral.restricts_read`) and
numbers with a leading zero (`Numeric.restricts_read`). Octal escapes in templates are refused in
both modes and so never marked.
-/

namespace EcmaLex

open TokenFlags (containsLegacyOctal)

/-! ## Readers with the marked readings refused -/

/-- The first outcome is the second one, except that a reading with a mark is refused. -/
def Outcome.Restricts {α : Type} (strict sloppy : Outcome α) : Prop :=
  ∀ x, strict = .ok x ↔ sloppy = .ok x ∧ x.flags.containsLegacyOctal = false

namespace Outcome

variable {α β : Type} {strict sloppy : Outcome α}

/-- Where no mark is possible, nothing is refused. -/
theorem Unmarked.restricts {o : Outcome α} (h : o.Unmarked containsLegacyOctal) : o.Restricts o :=
  selects_self h

/-- An outcome may be refused if all its readings have a mark. -/
theorem restricts_of_marked (hstrict : ∀ x, strict ≠ .ok x)
    (hsloppy : ∀ x, sloppy = .ok x → x.flags.containsLegacyOctal = true) :
    strict.Restricts sloppy :=
  selects_of_refused hstrict fun x hx => by simp [hsloppy x hx]

theorem Restricts.shift (h : strict.Restricts sloppy) {n : Nat} {flags : TokenFlags}
    (hf : flags.containsLegacyOctal = false) :
    (strict.shift n flags).Restricts (sloppy.shift n flags) :=
  Selects.shift h fun z => by simp [hf]

theorem Restricts.mapValue (h : strict.Restricts sloppy) (f : α → β) :
    (strict.mapValue f).Restricts (sloppy.mapValue f) :=
  Selects.mapValue h fun _ => Iff.rfl

end Outcome

theorem Reader.restricts_interpret {α β : Type} {strict sloppy : Reader α} {text : List CodeUnit}
    (h : (strict text).Restricts (sloppy text))
    (f : Reading α → List CodeUnit → Except LexError.Cause β) :
    (strict.interpret f text).Restricts (sloppy.interpret f text) :=
  selects_interpret h fun _ _ _ => Iff.rfl

/-! ## Octal escapes -/

namespace Escape

/-- Whether octal escapes are refused matters where one stands, and there it is marked if not. -/
theorem body_refusal (e : EscapeError) (text : List CodeUnit) :
    body (some e) text = body none text ∨
      body (some e) text = .failHere (.invalidEscape e) ∧
        ∃ x, body none text = .ok x ∧ x.flags = { octalEscape := true } := by
  cases h : beginsOctal text with
  | true =>
    rw [body_of_beginsOctal h, body_of_beginsOctal h]
    exact .inr ⟨rfl, _, rfl, rfl⟩
  | false => exact .inl (body_of_not_beginsOctal h _ _)

theorem restricts_body (e : EscapeError) (text : List CodeUnit) :
    (body (some e) text).Restricts (body none text) := by
  have hunmarked : (body (some e)).Unmarked containsLegacyOctal :=
    unmarked_body isMark_containsLegacyOctal (by simp)
  rcases body_refusal e text with heq | ⟨hfail, y, hy, hflags⟩
  · rw [← heq]
    exact (hunmarked text).restricts
  · rw [hfail, hy]
    apply Outcome.restricts_of_marked (by simp)
    intro x hx
    obtain rfl := Except.ok.inj hx
    rw [hflags]
    rfl

end Escape

namespace StringLiteral

/-- A literal whose escape is refused. -/
theorem body_of_error (strict : Bool) {quote : CodeUnit} {rest : List CodeUnit} {f : Fault}
    (hq : CodeUnit.backslash ≠ quote)
    (hf : Escape.body (if strict then some .strictOctal else none) rest = .error f)
    (x : Reading (List CodeUnit)) : body strict quote (CodeUnit.backslash :: rest) ≠ .ok x := by
  rw [body, if_neg hq, if_neg (by decide), if_pos rfl]
  split
  · simp
  · rw [hf]
    simp

theorem restricts_body (quote : CodeUnit) (text : List CodeUnit) :
    (body true quote text).Restricts (body false quote text) := by
  fun_induction body true quote text with
  | case1 =>
    rw [body]
    exact (Outcome.unmarked_error _).restricts
  | case2 rest =>
    rw [body_quote]
    exact (Outcome.unmarked_ok rfl).restricts
  | case3 u rest hq hline =>
    rw [body, if_neg hq, if_pos hline]
    exact (Outcome.unmarked_error _).restricts
  | case4 hq hline =>
    rw [body, if_neg hq, if_neg hline, if_pos rfl, if_pos rfl]
    exact (Outcome.unmarked_error _).restricts
  | case5 rest _ f hf hq _ =>
    -- what sloppy mode reads here goes on after an escape that strict mode refuses
    apply Outcome.restricts_of_marked (by simp)
    intro x hx
    cases hsloppy : Escape.body none rest with
    | error g => exact absurd hx (body_of_error false hq hsloppy x)
    | ok e =>
      have hmark : e.flags.containsLegacyOctal = true := by
        rw [← Bool.not_eq_false]
        intro hunmarked
        have hstrict := (Escape.restricts_body .strictOctal rest e).mpr ⟨hsloppy, hunmarked⟩
        simpa using hf.symm.trans hstrict
      rw [body_escape false hq hsloppy] at hx
      obtain ⟨y, hy, rfl⟩ := Outcome.mapValue_eq_ok_iff.mp hx
      obtain ⟨z, -, rfl⟩ := Outcome.shift_eq_ok_iff.mp hy
      simp [hmark]
  | case6 rest _ e he hq _ ih =>
    obtain ⟨hsloppy, hmark⟩ := (Escape.restricts_body .strictOctal rest e).mp he
    rw [body_escape false hq hsloppy]
    exact (ih.shift hmark).mapValue _
  | case7 u rest hq hline hescape ih =>
    rw [body_unit false hq hline hescape]
    exact (ih.shift rfl).mapValue _

theorem restricts_read (strict : Bool) (text : List CodeUnit) :
    (read true text).Restricts (read strict text) := by
  cases strict with
  | true => exact (unmarked_read isMark_containsLegacyOctal (by simp) text).restricts
  | false =>
    cases text with
    | nil => exact (Outcome.unmarked_error _).restricts
    | cons quote rest =>
      unfold read
      exact ((restricts_body quote rest).shift rfl).mapValue _

end StringLiteral

/-! ## Numbers with a leading zero -/

namespace Numeric

/-- A number with a leading zero is marked wherever it is read. -/
theorem marked_of_leadingZero {m : Mode} {text : List CodeUnit} {x : Reading Form}
    (h : leadingZero m text = .ok x) : x.flags.containsLegacyOctal = true := by
  obtain ⟨z, y, -, hy, rfl⟩ := Reader.bind_eq_ok_iff.mp h
  obtain ⟨note, w, hnote, -, rfl⟩ := Reader.bind_eq_ok_iff.mp hy
  obtain rfl := Except.ok.inj hnote
  rw [TokenFlags.containsLegacyOctal_union, TokenFlags.containsLegacyOctal_union]
  simp [containsLegacyOctal]

theorem restricts_form (strict next : Bool) (text : List CodeUnit) :
    (form ⟨true, next⟩ text).Restricts (form ⟨strict, next⟩ text) := by
  have hm := isMark_containsLegacyOctal
  -- only numbers with a leading zero ask for the mode
  have hdecimal : (decimal ⟨true, next⟩ text).Restricts (decimal ⟨strict, next⟩ text) :=
    (unmarked_decimal hm (fun _ => rfl) ⟨strict, next⟩ text).restricts
  have hprefixed (radix : Radix) :
      (prefixed ⟨true, next⟩ radix text).Restricts (prefixed ⟨strict, next⟩ radix text) :=
    (unmarked_prefixed hm (fun _ => rfl) ⟨strict, next⟩ radix text).restricts
  have hzero : (leadingZero ⟨true, next⟩ text).Restricts (leadingZero ⟨strict, next⟩ text) :=
    Outcome.restricts_of_marked (fun x => leadingZero_ne_ok rfl) fun x hx =>
      marked_of_leadingZero hx
  unfold form
  split
  · split
    · split
      · exact hprefixed _
      · split
        · exact hzero
        · split
          · exact (Outcome.unmarked_error _).restricts
          · exact hdecimal
    · exact hdecimal
  · exact hdecimal

theorem restricts_read (strict next : Bool) (text : List CodeUnit) :
    (read ⟨true, next⟩ text).Restricts (read ⟨strict, next⟩ text) :=
  Reader.restricts_interpret (restricts_form strict next text) _

end Numeric

/-! ## Tokens -/

namespace Context

/-- The same circumstances in strict code. -/
def strictly (c : Context) : Context := { c with strict := true }

end Context

namespace Lexeme

/-- **Strict mode refuses exactly the tokens with a mark.** -/
theorem restricts_read (c : Context) (text : List CodeUnit) :
    (read c.strictly text).Restricts (read c text) := by
  have hm := isMark_containsLegacyOctal
  cases text with
  | nil => exact (Outcome.unmarked_ok rfl).restricts
  | cons u rest =>
    simp only [read]
    split
    · exact (Identifier.unmarked_read hm rfl _).restricts
    split
    · exact Numeric.restricts_read _ _ _
    split
    · exact StringLiteral.restricts_read _ _
    split
    · exact (Template.unmarked_read hm _ _ _).restricts
    split
    · exact (Identifier.unmarked_readPrivate hm rfl _).restricts
    by_cases hregExp : u = CodeUnit.slash ∧ c.allowRegExp = true
    · have hstrictly : u = CodeUnit.slash ∧ c.strictly.allowRegExp = true := hregExp
      rw [if_pos hregExp, if_pos hstrictly]
      exact (RegExp.unmarked_read hm _).restricts
    · have hstrictly : ¬(u = CodeUnit.slash ∧ c.strictly.allowRegExp = true) := hregExp
      rw [if_neg hregExp, if_neg hstrictly]
      split
      · exact (unmarked_readPunctuator hm _ _).restricts
      · exact (Outcome.unmarked_error _).restricts

end Lexeme

/-! ## Calls and runs -/

namespace Scanner

variable {c : Context} {s s' : Scanner} {t : Token}

/-- Trivia do not depend on the mode. -/
theorem Passes.strictly_iff {ts : List Trivia} : Passes c.strictly s ts s' ↔ Passes c s ts s' :=
  ⟨fun h => h.congr c rfl rfl, fun h => h.congr c.strictly rfl rfl⟩

/-- The mark of a token is that of its reading, whatever trivia stood before it. -/
theorem Passes.containsLegacyOctal_eq {ts : List Trivia}
    (h : Passes c { s with flags := ∅ } ts s') (flags : TokenFlags) :
    (s'.flags ∪ flags).containsLegacyOctal = flags.containsLegacyOctal := by
  rw [h.flags_eq, TokenFlags.empty_union, TokenFlags.containsLegacyOctal_union]
  rfl

/-- **One call.** -/
theorem next_strictly_iff :
    s.next c.strictly = (.ok t, s') ↔
      s.next c = (.ok t, s') ∧ t.flags.containsLegacyOctal = false := by
  simp only [next_eq_ok_iff, Passes.strictly_iff]
  constructor
  · rintro ⟨ts, s₁, x, hp, hu, hx, rfl, rfl⟩
    obtain ⟨hsloppy, hmark⟩ := (Lexeme.restricts_read c s₁.cursor.rest x).mp hx
    exact ⟨⟨ts, s₁, x, hp, hu, hsloppy, rfl, rfl⟩, (hp.containsLegacyOctal_eq _).trans hmark⟩
  · rintro ⟨⟨ts, s₁, x, hp, hu, hx, rfl, rfl⟩, hmark⟩
    have hunmarked := (hp.containsLegacyOctal_eq x.flags).symm.trans hmark
    exact ⟨ts, s₁, x, hp, hu, (Lexeme.restricts_read c _ x).mpr ⟨hx, hunmarked⟩, rfl, rfl⟩

/-- A brace is never marked. -/
theorem unmarked_of_brace {c' : Context} {s₁ : Scanner} {brace : Token}
    (hnext : s.next c = (.ok brace, s₁)) (htemplate : s₁.continueTemplate c' = (.ok t, s')) :
    brace.flags.containsLegacyOctal = false := by
  obtain ⟨ts, s₂, x, hp, -, hx, rfl, rfl⟩ := next_eq_ok_iff.mp hnext
  obtain ⟨y, hy, -, -⟩ := continueTemplate_eq_ok_iff.mp htemplate
  obtain ⟨⟨rest, hrest⟩, -⟩ := Lexeme.template_of_readContinuation hy
  rw [tokenStart_took] at hrest
  rw [hrest, Lexeme.read_rightBrace] at hx
  obtain rfl := Except.ok.inj hx
  exact hp.containsLegacyOctal_eq ∅

theorem unmarked_of_continueTemplate (h : s.continueTemplate c = (.ok t, s')) :
    t.flags.containsLegacyOctal = false := by
  obtain ⟨x, hx, rfl, rfl⟩ := continueTemplate_eq_ok_iff.mp h
  have hmark := Template.unmarked_readContinuation isMark_containsLegacyOctal _ _ x hx
  exact (TokenFlags.containsLegacyOctal_union _ _).trans (by rw [hmark]; rfl)

end Scanner

/-- From one call to all calls of a run. `f` turns the states of the sloppy run into those of the
strict one. -/
theorem Run.Repeats.toExcept_strictly_iff {σ : Type} {call call' : σ → Except LexError Token × σ}
    {run run' : σ → Run σ} (hrun : Repeats call run) (hrun' : Repeats call' run') (f : σ → σ)
    (hcall : ∀ s t s', call' (f s) = (.ok t, s') ↔
      ∃ s₁, call s = (.ok t, s₁) ∧ t.flags.containsLegacyOctal = false ∧ s' = f s₁)
    (s : σ) (ts : List Token) :
    (run' (f s)).toExcept = .ok ts ↔
      (run s).toExcept = .ok ts ∧ ∀ t ∈ ts, t.flags.containsLegacyOctal = false := by
  induction ts generalizing s with
  | nil => simp [hrun.toExcept_ne_nil, hrun'.toExcept_ne_nil]
  | cons t ts ih =>
    rw [hrun.toExcept_cons_iff, hrun'.toExcept_cons_iff, List.forall_mem_cons]
    simp only [hcall]
    constructor
    · rintro ⟨s', ⟨s₁, hs₁, ht, rfl⟩, h⟩
      split at h
      · next heof =>
        subst h
        exact ⟨⟨s₁, hs₁, by rw [if_pos heof]⟩, ht, by simp⟩
      · next heof =>
        obtain ⟨hrest, hall⟩ := (ih s₁).mp h
        exact ⟨⟨s₁, hs₁, by rwa [if_neg heof]⟩, ht, hall⟩
    · rintro ⟨⟨s₁, hs₁, h⟩, ht, hall⟩
      refine ⟨f s₁, ⟨s₁, hs₁, ht, rfl⟩, ?_⟩
      split at h
      · next heof => rwa [if_pos heof]
      · next heof =>
        rw [if_neg heof]
        exact (ih s₁).mpr ⟨h, hall⟩

namespace TokenStream

variable {s s' : TokenStream} {t : Token}

/-- The same stream over strict code. -/
def strictly (s : TokenStream) : TokenStream := { s with context := s.context.strictly }

theorem goal_strictly (s : TokenStream) : s.strictly.goal = s.goal.strictly := by
  unfold goal
  show (if s.afterExpression then _ else _) = _
  split <;> rfl

theorem track_strictly (s : TokenStream) (t : Token) (tagged : Bool) :
    s.strictly.track t tagged = (s.track t tagged).strictly := by
  unfold track
  dsimp only
  split <;> rfl

/-- **One call of a stream.** A brace in front of the rest of a template is never marked, and
neither is the rest. -/
theorem advance_strictly_iff :
    s.strictly.advance = (.ok t, s') ↔
      ∃ s₁, s.advance = (.ok t, s₁) ∧ t.flags.containsLegacyOctal = false ∧
        s' = s₁.strictly := by
  simp only [advance_eq_ok_iff, goal_strictly]
  constructor
  · rintro (⟨scanner, hnext, hc, rfl⟩ | ⟨brace, sub, scanner, scanner', hnext, hc, ht, rfl⟩)
    · obtain ⟨hsloppy, hmark⟩ := Scanner.next_strictly_iff.mp hnext
      exact ⟨_, .inl ⟨scanner, hsloppy, hc, rfl⟩, hmark, track_strictly { s with scanner } t _⟩
    · obtain ⟨hsloppy, -⟩ := Scanner.next_strictly_iff.mp hnext
      exact ⟨_, .inr ⟨brace, sub, scanner, scanner', hsloppy, hc, ht, rfl⟩,
        Scanner.unmarked_of_continueTemplate ht, track_strictly
          { s with substitutions := s.substitutions.tail, scanner := scanner' } t _⟩
  · rintro ⟨s₁, ⟨scanner, hnext, hc, rfl⟩ | ⟨brace, sub, scanner, scanner', hnext, hc, ht, rfl⟩,
      hmark, rfl⟩
    · exact .inl ⟨scanner, Scanner.next_strictly_iff.mpr ⟨hnext, hmark⟩, hc,
        (track_strictly _ _ _).symm⟩
    · have hbrace := Scanner.unmarked_of_brace hnext ht
      exact .inr ⟨brace, sub, scanner, scanner', Scanner.next_strictly_iff.mpr ⟨hnext, hbrace⟩, hc,
        ht, (track_strictly _ _ _).symm⟩

end TokenStream

/-! ## Main result -/

/-- **Strict mode refuses exactly what sloppy mode marks.** A call in strict mode gives a token
exactly if the call in sloppy mode gives it without a mark, and the states after it are the same. A
whole source is split into tokens in strict mode exactly if it is in sloppy mode and no token is
marked, and the tokens are the same. This holds for a scanner and for a token stream. -/
theorem strict_iff_unmarked (c : Context) :
    (∀ s t s', Scanner.next { c with strict := true } s = (.ok t, s') ↔
      Scanner.next c s = (.ok t, s') ∧ t.flags.containsLegacyOctal = false) ∧
    (∀ source ts, ((Scanner.ofSource source).tokenizeAll { c with strict := true }).1 = .ok ts ↔
      ((Scanner.ofSource source).tokenizeAll c).1 = .ok ts ∧
        ∀ t ∈ ts, t.flags.containsLegacyOctal = false) ∧
    (∀ source ts, tokenize source { c with strict := true } = .ok ts ↔
      tokenize source c = .ok ts ∧ ∀ t ∈ ts, t.flags.containsLegacyOctal = false) := by
  refine ⟨fun s t s' => Scanner.next_strictly_iff, fun source ts => ?_, fun source ts => ?_⟩
  · refine (Scanner.repeats_run c).toExcept_strictly_iff (Scanner.repeats_run c.strictly) id ?_ _ ts
    intro s t s'
    constructor
    · intro h
      obtain ⟨hsloppy, hmark⟩ := Scanner.next_strictly_iff.mp h
      exact ⟨s', hsloppy, hmark, rfl⟩
    · rintro ⟨s₁, hsloppy, hmark, rfl⟩
      exact Scanner.next_strictly_iff.mpr ⟨hsloppy, hmark⟩
  · exact TokenStream.repeats_run.toExcept_strictly_iff TokenStream.repeats_run
      TokenStream.strictly (fun _ _ _ => TokenStream.advance_strictly_iff) (.ofSource source c) ts

/-- An octal escape is marked, and the escape of a NUL is not. -/
example :
    let mark (source : List CodeUnit) :=
      (Scanner.next {} (.ofSource source)).1.toOption.map fun t => t.flags.containsLegacyOctal
    mark [0x27, 0x5C, 0x31, 0x27] = some true ∧ mark [0x27, 0x5C, 0x30, 0x27] = some false := by
  decide +kernel

end EcmaLex
