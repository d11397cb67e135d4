import EcmaLex.Proofs.Calls
import EcmaLex.Proofs.Marks
import EcmaLex.Proofs.NumberSpelling
import EcmaLex.Proofs.StableTokens

/-!
# Added syntax leaves the rest as it was

Two settings of a context add to the language. One adds numbers, with underscores or with the suffix
of BigInt literals, and one adds templates with invalid escapes, whose cooked value is then absent.
Neither changes what was there before: a call in the smaller language gives a token exactly if the
call in the larger one gives it and nothing of what was added is in it (`Context.Covers`), and then
both leave the same state.

* `Numeric.selects_read`, from the grammars of the two kinds of numbers.
* `Template.selects_span`, by the recursion of the reader: an invalid escape is refused by the one
  and takes the cooked value away in the other.
* `Lexeme.selects_read` and `Scanner.next_adding_iff`: tokens and calls.
-/

namespace EcmaLex

/-! ## Numbers -/

namespace Numeric

/-- A literal that is no BigInt is no BigInt token. -/
theorem Form.ne_bigInt_iff {f : Form} {text : List CodeUnit} {b : Lexeme}
    (h : f.interpret text = .ok b) :
    (∀ n literal, b.value ≠ .bigInt n literal) ↔ ∀ n, f ≠ .bigInt n := by
  obtain ⟨n, rfl, rfl⟩ | ⟨x, hx, rfl⟩ := interpret_eq_ok_iff.mp h
  · simp
  · refine iff_of_true (by simp) fun n hf => ?_
    subst hf
    simp [route?] at hx

/-- **Numbers.** -/
theorem selects_read (strict : Bool) {text : List CodeUnit}
    (hbegins : Lexeme.beginsNumber text = true) :
    (read ⟨strict, false⟩ text).Selects
      (fun x => x.flags.numericSeparator = false ∧
        ∀ n literal, x.value.value ≠ .bigInt n literal)
      (read ⟨strict, true⟩ text) :=
  Reader.selects_interpret (fun _ => form_older_iff hbegins) fun _ _ hb =>
    and_congr_right' (Form.ne_bigInt_iff hb)

end Numeric

/-! ## Templates -/

namespace Template

theorem Span.isSome_cooked_prepend (a raw : List CodeUnit) (s : Span) :
    (s.prepend (some a) raw).cooked.isSome = s.cooked.isSome := by
  unfold prepend
  cases s.cooked <;> rfl

/-- A reading of a span that has a cooked value. -/
abbrev IsCooked (x : Reading Span) : Prop := x.value.cooked.isSome = true

/-- The same piece before both spans. -/
theorem selects_prepend {o o' : Outcome Span} (h : o.Selects IsCooked o') (n : Nat)
    (a raw : List CodeUnit) :
    ((o.shift n ∅).mapValue (·.prepend (some a) raw)).Selects IsCooked
      ((o'.shift n ∅).mapValue (·.prepend (some a) raw)) := by
  have hshift : (o.shift n ∅).Selects IsCooked (o'.shift n ∅) := h.shift fun _ => Iff.rfl
  refine hshift.mapValue fun z => ?_
  rw [IsCooked, Span.isSome_cooked_prepend]

/-- **Spans.** Without a tag a span is read exactly if it is read with one and has a cooked
value. -/
theorem selects_span (text : List CodeUnit) :
    (span false text).Selects IsCooked (span true text) := by
  fun_induction span true text with
  | case1 => exact Outcome.selects_of_refused (by simp [span]) (by simp)
  | case2 rest =>
    rw [span_backtick]
    apply Outcome.selects_self
    intro x hx
    obtain rfl := Except.ok.inj hx
    rfl
  | case3 u rest htick hdollar =>
    rw [span, if_neg htick, if_pos hdollar]
    apply Outcome.selects_self
    intro x hx
    obtain rfl := Except.ok.inj hx
    rfl
  | case4 htick hdollar =>
    apply Outcome.selects_of_refused
    · intro x
      rw [span, if_neg htick, if_neg hdollar, if_pos rfl, if_pos rfl]
      simp
    · simp
  | case5 rest _ e he _ _ ih =>
    rw [span_escape he]
    exact selects_prepend ih _ _ _
  | case6 rest hne f hf _ htick hdollar =>
    -- only the tag lets the span go on after an invalid escape, without a cooked value
    apply Outcome.selects_of_refused
    · intro x
      rw [span, if_neg htick, if_neg hdollar, if_pos rfl, if_neg hne, hf]
      simp
    · intro x hx
      obtain ⟨z, -, rfl⟩ := Outcome.mapValue_shift_eq_ok_iff.mp hx
      simp [IsCooked, Span.prepend]
  | case7 _ _ _ _ htagged => exact absurd rfl htagged
  | case8 rest =>
    rename_i ih
    rw [span_return]
    exact selects_prepend ih _ _ _
  | case9 u rest htick hdollar hescape hreturn ih =>
    rw [span_unit htick hdollar hescape hreturn]
    exact selects_prepend ih _ _ _

theorem ne_absent_iff (first : Bool) (s : Span) :
    (∀ raw, (lexeme first s).value ≠ .template none raw) ↔ s.cooked.isSome = true := by
  show (∀ raw, Token.Value.template s.cooked s.raw ≠ .template none raw) ↔ _
  cases s.cooked <;> simp

/-- **Templates.** -/
theorem selects_read (first : Bool) (text : List CodeUnit) :
    (read false first text).Selects (fun x => ∀ raw, x.value.value ≠ .template none raw)
      (read true first text) := by
  have hshift : ((span false (text.drop 1)).shift 1 ∅).Selects IsCooked
      ((span true (text.drop 1)).shift 1 ∅) := (selects_span _).shift fun _ => Iff.rfl
  exact hshift.mapValue fun z => ne_absent_iff first z.value

end Template

/-! ## Tokens -/

namespace Context

/-- The context with syntax added to it. -/
def adding (c : Context) (next tagged : Bool) : Context :=
  { c with next := c.next || next, taggedTemplate := c.taggedTemplate || tagged }

/-- Nothing of what the context `c'` adds to `c` is in a token with this value and these flags:
where numbers were added it is no BigInt and has no separators, and where templates were added it is
none without a cooked value. -/
structure Covers (c c' : Context) (value : Token.Value) (flags : TokenFlags) : Prop where
  number : c.next = false → c'.next = true →
    flags.numericSeparator = false ∧ ∀ n literal, value ≠ .bigInt n literal
  template : c.taggedTemplate = false → c'.taggedTemplate = true →
    ∀ raw, value ≠ .template none raw

end Context

/-- A value that no syntax is added for. -/
def Token.Value.isPlain : Token.Value → Bool
  | .bigInt _ _ | .template _ _ => false
  | _ => true

namespace Context

variable {c c' : Context} {value : Token.Value} {flags before : TokenFlags} {next tagged : Bool}

theorem covers_of_isPlain (hvalue : value.isPlain = true)
    (hflags : flags.numericSeparator = false) : c.Covers c' value flags := by
  constructor
  · intro _ _
    refine ⟨hflags, ?_⟩
    rintro n literal rfl
    simp [Token.Value.isPlain] at hvalue
  · rintro _ _ raw rfl
    simp [Token.Value.isPlain] at hvalue

/-- A number has nothing to do with added templates. -/
theorem covers_adding_iff_of_number (hvalue : ∀ raw, value ≠ .template none raw) :
    c.Covers (c.adding next tagged) value flags ↔ (c.next = false → next = true →
      flags.numericSeparator = false ∧ ∀ n literal, value ≠ .bigInt n literal) := by
  constructor
  · intro h hc hnext
    exact h.number hc (by simp [adding, hnext])
  · intro h
    refine ⟨fun hc hadding => h hc ?_, fun _ _ => hvalue⟩
    simpa [adding, hc] using hadding

/-- A template has nothing to do with added numbers. -/
theorem covers_adding_iff_of_template (hflags : flags.numericSeparator = false)
    (hvalue : ∀ n literal, value ≠ .bigInt n literal) :
    c.Covers (c.adding next tagged) value flags ↔ (c.taggedTemplate = false → tagged = true →
      ∀ raw, value ≠ .template none raw) := by
  constructor
  · intro h hc htagged
    exact h.template hc (by simp [adding, htagged])
  · intro h
    refine ⟨fun _ _ => ⟨hflags, hvalue⟩, fun hc hadding => h hc ?_⟩
    simpa [adding, hc] using hadding

/-- What was gathered in front of a token is nothing that was added. -/
theorem covers_union_iff (hbefore : before.numericSeparator = false) :
    c.Covers c' value (before ∪ flags) ↔ c.Covers c' value flags := by
  have hunion : (before ∪ flags).numericSeparator = flags.numericSeparator := by
    show (before.numericSeparator || flags.numericSeparator) = _
    rw [hbefore, Bool.false_or]
  constructor
  · intro h
    exact ⟨by rw [← hunion]; exact h.number, h.template⟩
  · intro h
    exact ⟨by rw [hunion]; exact h.number, h.template⟩

end Context

/-- A setting that is on already, or is not added, makes no difference. -/
theorem Outcome.Selects.of_added {α : Type} {r : Bool → Outcome α} {p : Reading α → Prop}
    (h : (r false).Selects p (r true)) (setting added : Bool) :
    (r setting).Selects (fun x => setting = false → added = true → p x)
      (r (setting || added)) := by
  cases setting with
  | true => exact selects_self (by simp)
  | false =>
    cases added with
    | false => exact selects_self (by simp)
    | true => exact h.congr (by simp)

namespace Lexeme

variable {c : Context} {text : List CodeUnit} {x : Reading Lexeme}

/-- A reader that does not ask for the added syntax. -/
theorem selects_of_isPlain {r : Reader Lexeme} {c' : Context}
    (hvalue : ∀ x, r text = .ok x → x.value.value.isPlain = true)
    (hflags : r.Unmarked TokenFlags.numericSeparator) :
    (r text).Selects (fun x => c.Covers c' x.value.value x.flags) (r text) :=
  Outcome.selects_self fun x hx => Context.covers_of_isPlain (hvalue x hx) (hflags text x hx)

theorem isPlain_of_identifier (h : Identifier.read text = .ok x) :
    x.value.value.isPlain = true := by
  obtain ⟨kind, name, hvalue, -⟩ := lexeme_of_identifier h
  rw [hvalue]
  rfl

theorem isPlain_of_stringLiteral {strict : Bool} (h : StringLiteral.read strict text = .ok x) :
    x.value.value.isPlain = true := by
  obtain ⟨units, hvalue⟩ := lexeme_of_stringLiteral h
  rw [hvalue]
  rfl

theorem isPlain_of_private (h : Identifier.readPrivate text = .ok x) :
    x.value.value.isPlain = true := by
  obtain ⟨name, hvalue⟩ := lexeme_of_private h
  rw [hvalue]
  rfl

theorem isPlain_of_regExp (h : RegExp.read text = .ok x) : x.value.value.isPlain = true := by
  obtain ⟨pattern, flags, hvalue⟩ := lexeme_of_regExp h
  rw [hvalue]
  rfl

theorem selects_numeric (c : Context) (next tagged : Bool) (hbegins : beginsNumber text = true) :
    (Numeric.read ⟨c.isStrict, c.next⟩ text).Selects
      (fun x => c.Covers (c.adding next tagged) x.value.value x.flags)
      (Numeric.read ⟨c.isStrict, c.next || next⟩ text) := by
  have hadded := (Numeric.selects_read c.isStrict hbegins).of_added
    (r := fun next => Numeric.read ⟨c.isStrict, next⟩ text) c.next next
  refine hadded.congr fun x hx => Context.covers_adding_iff_of_number ?_
  rcases lexeme_of_numeric hx with ⟨b, hvalue⟩ | ⟨n, literal, hvalue⟩
  · simp [hvalue]
  · simp [hvalue]

theorem selects_template (c : Context) (next tagged first : Bool) (text : List CodeUnit) :
    (Template.read c.taggedTemplate first text).Selects
      (fun x => c.Covers (c.adding next tagged) x.value.value x.flags)
      (Template.read (c.taggedTemplate || tagged) first text) := by
  have hadded := (Template.selects_read first text).of_added
    (r := fun tagged => Template.read tagged first text) c.taggedTemplate tagged
  refine hadded.congr fun x hx => ?_
  have hflags := Template.unmarked_read isMark_numericSeparator _ first text x hx
  obtain ⟨z, -, rfl⟩ := Outcome.mapValue_eq_ok_iff.mp hx
  exact Context.covers_adding_iff_of_template hflags (by simp [Template.lexeme])

theorem selects_templateContinuation (c : Context) (next tagged : Bool) (text : List CodeUnit) :
    (Template.readContinuation c.taggedTemplate text).Selects
      (fun x => c.Covers (c.adding next tagged) x.value.value x.flags)
      (Template.readContinuation (c.taggedTemplate || tagged) text) := by
  unfold Template.readContinuation
  split
  · exact selects_template c next tagged false text
  · exact Outcome.selects_of_refused (by simp) (by simp)

/-- **Tokens.** -/
theorem selects_read (c : Context) (next tagged : Bool) (text : List CodeUnit) :
    (read c text).Selects (fun x => c.Covers (c.adding next tagged) x.value.value x.flags)
      (read (c.adding next tagged) text) := by
  have hm := isMark_numericSeparator
  cases text with
  | nil =>
    refine Outcome.selects_self fun x hx => ?_
    obtain rfl := Except.ok.inj hx
    exact Context.covers_of_isPlain rfl rfl
  | cons u rest =>
    simp only [read]
    split
    · exact selects_of_isPlain (fun _ => isPlain_of_identifier) (Identifier.unmarked_read hm rfl)
    split
    · next hbegins => exact selects_numeric c next tagged hbegins
    split
    · exact selects_of_isPlain (fun _ => isPlain_of_stringLiteral)
        (StringLiteral.unmarked_read hm fun _ => rfl)
    split
    · exact selects_template c next tagged true _
    split
    · exact selects_of_isPlain (fun _ => isPlain_of_private)
        (Identifier.unmarked_readPrivate hm rfl)
    by_cases hregExp : u = CodeUnit.slash ∧ c.allowRegExp = true
    · have hadding : u = CodeUnit.slash ∧ (c.adding next tagged).allowRegExp = true := hregExp
      rw [if_pos hregExp, if_pos hadding]
      exact selects_of_isPlain (fun _ => isPlain_of_regExp) (RegExp.unmarked_read hm)
    · have hadding : ¬(u = CodeUnit.slash ∧ (c.adding next tagged).allowRegExp = true) := hregExp
      rw [if_neg hregExp, if_neg hadding]
      split
      · refine selects_of_isPlain (fun x hx => ?_) (unmarked_readPunctuator hm _)
        obtain ⟨p, -, rfl⟩ := kind_of_punctuator hx
        rfl
      · exact Outcome.selects_of_refused (by simp [illegal]) (by simp [illegal])

end Lexeme

/-! ## Calls -/

namespace Scanner

variable {c : Context} {next tagged : Bool} {s s' : Scanner} {t : Token}

/-- **The next token.** -/
theorem next_adding_iff :
    s.next c = (.ok t, s') ↔
      s.next (c.adding next tagged) = (.ok t, s') ∧
        c.Covers (c.adding next tagged) t.value t.flags := by
  have hpasses {s s' : Scanner} {ts : List Trivia} :
      Passes (c.adding next tagged) s ts s' ↔ Passes c s ts s' :=
    ⟨fun h => h.congr c rfl rfl, fun h => h.congr _ rfl rfl⟩
  have hflags {ts : List Trivia} {s₁ : Scanner} (hp : Passes c { s with flags := ∅ } ts s₁) :
      s₁.flags.numericSeparator = false := by
    rw [hp.flags_eq]
    rfl
  simp only [next_eq_ok_iff, hpasses]
  constructor
  · rintro ⟨ts, s₁, x, hp, hu, hx, rfl, rfl⟩
    obtain ⟨hx', hcovers⟩ := (Lexeme.selects_read c next tagged _ x).mp hx
    exact ⟨⟨ts, s₁, x, hp, hu, hx', rfl, rfl⟩,
      (Context.covers_union_iff (hflags hp)).mpr hcovers⟩
  · rintro ⟨⟨ts, s₁, x, hp, hu, hx, rfl, rfl⟩, hcovers⟩
    have hcovers' := (Context.covers_union_iff (hflags hp)).mp hcovers
    exact ⟨ts, s₁, x, hp, hu, (Lexeme.selects_read c next tagged _ x).mpr ⟨hx, hcovers'⟩, rfl, rfl⟩

/-- **The rest of a template.** -/
theorem continueTemplate_adding_iff :
    s.continueTemplate c = (.ok t, s') ↔
      s.continueTemplate (c.adding next tagged) = (.ok t, s') ∧
        c.Covers (c.adding next tagged) t.value t.flags := by
  have hselects := Lexeme.selects_templateContinuation c next tagged s.tokenStart.rest
  simp only [continueTemplate_eq_ok_iff]
  constructor
  · rintro ⟨x, hx, rfl, rfl⟩
    obtain ⟨hx', hcovers⟩ := (hselects x).mp hx
    exact ⟨⟨x, hx', rfl, rfl⟩, (Context.covers_union_iff rfl).mpr hcovers⟩
  · rintro ⟨⟨x, hx, rfl, rfl⟩, hcovers⟩
    exact ⟨x, (hselects x).mpr ⟨hx, (Context.covers_union_iff rfl).mp hcovers⟩, rfl, rfl⟩

end Scanner

/-! ## Main result -/

/-- **Added syntax is conservative.** From any state, a call without the added syntax gives a token
exactly if the call with it gives the token and nothing that was added is in it. Then both leave the
same state. This holds for the next token and for the rest of a template. -/
theorem adding_syntax_conservative (c : Context) (next tagged : Bool) (s s' : Scanner) (t : Token) :
    let c' := { c with next := c.next || next, taggedTemplate := c.taggedTemplate || tagged }
    (s.next c = (.ok t, s') ↔ s.next c' = (.ok t, s') ∧ c.Covers c' t.value t.flags) ∧
    (s.continueTemplate c = (.ok t, s') ↔
      s.continueTemplate c' = (.ok t, s') ∧ c.Covers c' t.value t.flags) :=
  ⟨Scanner.next_adding_iff, Scanner.continueTemplate_adding_iff⟩

/-- A number with an underscore and a template with an invalid escape are tokens only where they
were added. -/
example :
    let value (c : Context) (source : List CodeUnit) :=
      (Scanner.next c (.ofSource source)).1.toOption.map Token.value
    value {} [0x31, 0x5F, 0x30] = none ∧
      value { next := true } [0x31, 0x5F, 0x30] = some (.number (.ofNat 10)) ∧
      value {} [0x60, 0x5C, 0x31, 0x60] = none ∧
      value { taggedTemplate := true } [0x60, 0x5C, 0x31, 0x60] =
        some (.template none [0x5C, 0x31]) := by
  decide +kernel

end EcmaLex
