import EcmaLex.Proofs.LongestNumbers

/-!
# What readers blame

A fault has a cause, and the causes that concern numbers are blamed by the readers of numbers alone
(`Outcome.SparesNumbers`). Two of these causes need a closer look (`Fault.Justified`). A trailing
separator is pointed at from one unit behind it, so there must be a unit to go back over. And a
literal without a value is blamed nowhere: what is delimited as a literal has a value
(`Numeric.exists_interpret`).

* `Escape.isInvalid_body`: faults of escapes.
* `Lexeme.justified_read`: faults where a token should stand.
* `Template.sparesNumbers_readContinuation`, `RegExp.sparesNumbers_read`, `Jsx.sparesNumbers_name`,
  …: faults of the other goals.
-/

namespace EcmaLex

/-- The causes that concern numeric literals. -/
def LexError.Cause.ofNumber : LexError.Cause → Bool
  | strictOctalLiteral | strictLeadingZero => true
  | identifierAfterNumber | missingDigits _ | missingExponent => true
  | invalidNumericSeparator | doubleNumericSeparator | trailingNumericSeparator => true
  | invalidNumericLiteral | invalidBigInt => true
  | _ => false

/-- A fault that does not say that a literal has no value. If it points at a trailing separator,
this is the unit before the one where reading stopped. -/
structure Fault.Justified (text : List CodeUnit) (f : Fault) : Prop where
  cause_ne : f.cause ≠ .invalidNumericLiteral
  separator : f.cause = .trailingNumericSeparator →
    f.stop = f.place + 1 ∧ text[f.place]? = some CodeUnit.underscore

/-! ## Combinators -/

namespace Outcome

variable {α β : Type} {P Q : Fault → Prop} {text : List CodeUnit} {o : Outcome α} {n : Nat}
  {flags : TokenFlags}

/-- Any fault has the property `P`. -/
def Faults (P : Fault → Prop) : Outcome α → Prop
  | .ok _ => True
  | .error f => P f

/-- Any fault has a cause with the property `p`. -/
def HasCause (p : LexError.Cause → Prop) (o : Outcome α) : Prop := o.Faults fun f => p f.cause

/-- No fault concerns a number. -/
def SparesNumbers (o : Outcome α) : Prop := o.Faults fun f => f.cause.ofNumber = false

/-- Any fault is a justified one of the text. -/
def Justified (text : List CodeUnit) (o : Outcome α) : Prop := o.Faults (Fault.Justified text)

theorem Faults.mapValue (g : α → β) (h : o.Faults P) : (o.mapValue g).Faults P := by
  cases o with
  | ok x => trivial
  | error f => exact h

theorem Faults.mono (hPQ : ∀ f, P f → Q f) (h : o.Faults P) : o.Faults Q := by
  cases o with
  | ok x => trivial
  | error f => exact hPQ f h

theorem SparesNumbers.mapValue (g : α → β) (h : o.SparesNumbers) : (o.mapValue g).SparesNumbers :=
  Faults.mapValue g h

/-- A fault keeps its cause when it is seen from earlier on. -/
theorem HasCause.shift {p : LexError.Cause → Prop} (h : o.HasCause p) :
    (o.shift n flags).HasCause p := by
  cases o with
  | ok x => trivial
  | error f => exact h

theorem SparesNumbers.shift (h : o.SparesNumbers) : (o.shift n flags).SparesNumbers :=
  HasCause.shift (p := fun cause => cause.ofNumber = false) h

theorem SparesNumbers.justified (h : o.SparesNumbers) (text : List CodeUnit) :
    o.Justified text := by
  refine Faults.mono (fun f hf => ⟨?_, ?_⟩) h
  · intro hcause
    simp [hcause, LexError.Cause.ofNumber] at hf
  · intro hcause
    simp [hcause, LexError.Cause.ofNumber] at hf

theorem Justified.mapValue (g : α → β) (h : o.Justified text) : (o.mapValue g).Justified text :=
  Faults.mapValue g h

/-- A fault seen from earlier on. -/
theorem Justified.shift (h : o.Justified (text.drop n)) : (o.shift n flags).Justified text := by
  cases o with
  | ok x => trivial
  | error f =>
    refine ⟨h.cause_ne, fun hcause => ?_⟩
    obtain ⟨hstop, hunit⟩ := h.separator hcause
    rw [List.getElem?_drop] at hunit
    exact ⟨(congrArg (n + ·) hstop).trans (Nat.add_assoc ..).symm, hunit⟩

/-- A fault right at the beginning of a text. -/
theorem justified_failHere {cause : LexError.Cause} (h₁ : cause ≠ .invalidNumericLiteral)
    (h₂ : cause ≠ .trailingNumericSeparator) : (failHere cause : Outcome α).Justified text :=
  ⟨h₁, fun h => absurd h h₂⟩

end Outcome

namespace Reader

variable {α β : Type} {text : List CodeUnit}

/-- A refusal of what was read points at its beginning. -/
theorem faults_interpret {P : Fault → Prop} {r : Reader α}
    {f : Reading α → List CodeUnit → Except LexError.Cause β} (hr : (r text).Faults P)
    (hf : ∀ x cause, r text = .ok x → f x (text.take x.length) = .error cause →
      P ⟨cause, 0, x.length, x.flags⟩) : (r.interpret f text).Faults P := by
  unfold interpret
  cases hx : r text with
  | error e =>
    rw [hx] at hr
    exact hr
  | ok x =>
    dsimp only
    cases hb : f x (text.take x.length) with
    | ok b => trivial
    | error cause => exact hf x cause hx hb

/-- The faults of readers one after the other are those of the first, and those of the second as
they are seen from the beginning of the first. -/
theorem faults_bind {P : Fault → Prop} {r : Reader α} {next : α → Reader β}
    (hr : (r text).Faults P)
    (hnext : ∀ x, r text = .ok x →
      ((next x.value (text.drop x.length)).shift x.length x.flags).Faults P) :
    ((r >>= next) text).Faults P := by
  show (r.andThen next text).Faults P
  unfold andThen
  cases hx : r text with
  | error f =>
    rw [hx] at hr
    exact hr
  | ok x => exact hnext x hx

theorem hasCause_bind {p : LexError.Cause → Prop} {r : Reader α} {next : α → Reader β}
    (hr : (r text).HasCause p)
    (hnext : ∀ x : Reading α, (next x.value (text.drop x.length)).HasCause p) :
    ((r >>= next) text).HasCause p :=
  faults_bind hr fun x _ => (hnext x).shift

theorem sparesNumbers_bind {r : Reader α} {next : α → Reader β} (hr : (r text).SparesNumbers)
    (hnext : ∀ x : Reading α, (next x.value (text.drop x.length)).SparesNumbers) :
    ((r >>= next) text).SparesNumbers :=
  hasCause_bind (p := fun cause => cause.ofNumber = false) hr hnext

theorem justified_bind {r : Reader α} {next : α → Reader β} (hr : (r text).Justified text)
    (hnext : ∀ x : Reading α,
      (next x.value (text.drop x.length)).Justified (text.drop x.length)) :
    ((r >>= next) text).Justified text :=
  faults_bind hr fun x _ => (hnext x).shift

end Reader

/-! ## Escapes -/

/-- The cause says that an escape could not be decoded. -/
def LexError.Cause.IsInvalidEscape (cause : LexError.Cause) : Prop := ∃ e, cause = .invalidEscape e

namespace Escape

open LexError.Cause (IsInvalidEscape)

theorem isInvalid_hexDigit (error : EscapeError) (text : List CodeUnit) :
    (hexDigit error text).HasCause IsInvalidEscape := by
  cases text with
  | nil => exact ⟨_, rfl⟩
  | cons u rest =>
    simp only [hexDigit]
    split
    · trivial
    · exact ⟨_, rfl⟩

theorem isInvalid_hexPair (text : List CodeUnit) : (hexPair text).HasCause IsInvalidEscape :=
  Reader.hasCause_bind (isInvalid_hexDigit _ _) fun _ =>
    Reader.hasCause_bind (isInvalid_hexDigit _ _) fun _ => trivial

theorem isInvalid_hexQuad (text : List CodeUnit) : (hexQuad text).HasCause IsInvalidEscape :=
  Reader.hasCause_bind (isInvalid_hexDigit _ _) fun _ =>
    Reader.hasCause_bind (isInvalid_hexDigit _ _) fun _ =>
      Reader.hasCause_bind (isInvalid_hexDigit _ _) fun _ =>
        Reader.hasCause_bind (isInvalid_hexDigit _ _) fun _ => trivial

theorem isInvalid_bracedDigits (value : Nat) (count : Int32) (text : List CodeUnit) :
    (bracedDigits value count text).HasCause IsInvalidEscape := by
  induction text generalizing value count with
  | nil => exact ⟨_, rfl⟩
  | cons u rest ih =>
    unfold bracedDigits
    split
    · split
      · exact ⟨_, rfl⟩
      · exact (ih _ _).shift
    · split
      · trivial
      · exact ⟨_, rfl⟩

theorem isInvalid_unicode (text : List CodeUnit) : (unicode text).HasCause IsInvalidEscape := by
  unfold unicode
  split
  · split
    · exact (isInvalid_bracedDigits _ _ _).shift
    · exact isInvalid_hexQuad _
  · exact isInvalid_hexQuad _

theorem isInvalid_octal (refusal : Option EscapeError) (text : List CodeUnit) :
    (octal refusal text).HasCause IsInvalidEscape := by
  cases refusal with
  | none => trivial
  | some e => exact ⟨_, rfl⟩

/-- **Nothing else is wrong with an escape.** -/
theorem isInvalid_body (refusal : Option EscapeError) (text : List CodeUnit) :
    (body refusal text).HasCause IsInvalidEscape := by
  unfold body
  split
  · exact ⟨_, rfl⟩
  · -- line terminator, control character, `x`, `u`, NUL, octal digit, other digit, code point
    split
    · trivial
    split
    · trivial
    split
    · exact (isInvalid_hexPair _).shift.mapValue _
    split
    · exact (isInvalid_unicode _).shift.mapValue _
    split
    · trivial
    split
    · exact (isInvalid_octal _ _).mapValue _
    split
    · exact ⟨_, rfl⟩
    split
    · trivial
    · exact ⟨_, rfl⟩

theorem isInvalid_of_body {refusal : Option EscapeError} {text : List CodeUnit} {f : Fault}
    (h : body refusal text = .error f) : f.cause.IsInvalidEscape := by
  have hcause := isInvalid_body refusal text
  rw [h] at hcause
  exact hcause

end Escape

/-- An escape is no number. -/
theorem LexError.Cause.IsInvalidEscape.ofNumber_eq {cause : LexError.Cause}
    (h : cause.IsInvalidEscape) : cause.ofNumber = false := by
  obtain ⟨e, rfl⟩ := h
  rfl

/-! ## Names -/

namespace Identifier

theorem sparesNumbers_item? {first : Bool} {text : List CodeUnit} {o : Outcome Char}
    (h : item? first text = some o) : o.SparesNumbers := by
  unfold item? at h
  split at h
  · split at h
    · obtain rfl := Option.some.inj h
      unfold escapedItem
      split
      · rfl
      · split
        · trivial
        · rfl
    · split at h
      · simp at h
      · obtain rfl := Option.some.inj h
        rfl
  · split at h
    · simp at h
    · obtain ⟨ch, -, rfl⟩ := Option.map_eq_some_iff.mp h
      trivial

theorem sparesNumbers_parts (text : List CodeUnit) : (parts text).SparesNumbers := by
  fun_induction parts text with
  | case1 => trivial
  | case2 text f h => exact sparesNumbers_item? h
  | case3 text x h ih => exact ih.shift.mapValue _

theorem sparesNumbers_name (text : List CodeUnit) : (name text).SparesNumbers := by
  refine Reader.sparesNumbers_bind ?_ fun _ =>
    Reader.sparesNumbers_bind (sparesNumbers_parts _) fun _ => trivial
  unfold start
  split
  · rfl
  · next h => exact sparesNumbers_item? h

theorem sparesNumbers_read (text : List CodeUnit) : (read text).SparesNumbers :=
  Reader.faults_interpret (sparesNumbers_name text) fun _ _ _ h => by simp at h

theorem sparesNumbers_readPrivate (text : List CodeUnit) : (readPrivate text).SparesNumbers := by
  unfold readPrivate
  dsimp only
  split
  · exact (sparesNumbers_name _).shift.mapValue _
  · rfl

end Identifier

/-! ## Strings, templates and regular expressions -/

namespace StringLiteral

theorem sparesNumbers_body (strict : Bool) (quote : CodeUnit) (text : List CodeUnit) :
    (body strict quote text).SparesNumbers := by
  fun_induction body strict quote text with
  | case1 => rfl
  | case2 rest => trivial
  | case3 => rfl
  | case4 => rfl
  | case5 rest _ f hf => exact (Escape.isInvalid_of_body hf).ofNumber_eq
  | case6 rest _ e he _ _ ih => exact ih.shift.mapValue _
  | case7 u rest _ hnl _ ih => exact ih.shift.mapValue _

theorem sparesNumbers_read (strict : Bool) (text : List CodeUnit) :
    (read strict text).SparesNumbers := by
  cases text with
  | nil => rfl
  | cons quote rest =>
    rw [read]
    exact (sparesNumbers_body strict quote rest).shift.mapValue _

end StringLiteral

namespace Template

theorem sparesNumbers_span (tagged : Bool) (text : List CodeUnit) :
    (span tagged text).SparesNumbers := by
  fun_induction span tagged text with
  | case1 => rfl
  | case2 rest => trivial
  | case3 u rest _ h => trivial
  | case4 => rfl
  | case5 rest _ e he _ _ ih => exact ih.shift.mapValue _
  | case6 rest _ f hf _ _ _ ih => exact ih.shift.mapValue _
  | case7 rest _ f hf _ => exact (Escape.isInvalid_of_body hf).ofNumber_eq
  | case8 rest n _ _ _ ih => exact ih.shift.mapValue _
  | case9 u rest _ _ _ hu ih => exact ih.shift.mapValue _

theorem sparesNumbers_read (tagged first : Bool) (text : List CodeUnit) :
    (read tagged first text).SparesNumbers :=
  (sparesNumbers_span tagged _).shift.mapValue _

theorem sparesNumbers_readContinuation (tagged : Bool) (text : List CodeUnit) :
    (readContinuation tagged text).SparesNumbers := by
  unfold readContinuation
  split
  · exact sparesNumbers_read tagged false text
  · rfl

end Template

namespace RegExp

theorem sparesNumbers_flags (seen : List Char) (text : List CodeUnit) :
    (flags seen text).SparesNumbers := by
  induction text generalizing seen with
  | nil => trivial
  | cons u rest ih =>
    unfold flags
    split
    · rfl
    split
    · trivial
    dsimp only
    split
    · rfl
    split
    · rfl
    exact (ih _).shift.mapValue _

theorem sparesNumbers_body (text : List CodeUnit) : (body text).SparesNumbers := by
  unfold body
  split
  · rfl
  · exact (sparesNumbers_flags _ _).shift.mapValue _

theorem sparesNumbers_read (text : List CodeUnit) : (read text).SparesNumbers := by
  refine Reader.faults_interpret (sparesNumbers_body _).shift fun x cause _ h => ?_
  -- only that `u` and `v` stand together is refused
  unfold Literal.toLexeme at h
  split at h
  · obtain rfl := Except.error.inj h
    rfl
  · simp at h

end RegExp

/-! ## Tags -/

namespace Jsx

theorem sparesNumbers_child (text : List CodeUnit) : (child text).SparesNumbers := by
  cases text with
  | nil => trivial
  | cons u rest =>
    simp only [child]
    split
    · split
      · trivial
      · trivial
    · split
      · trivial
      · trivial

theorem sparesNumbers_attributeValue (text : List CodeUnit) :
    (attributeValue text).SparesNumbers := by
  cases text with
  | nil => rfl
  | cons quote rest =>
    simp only [attributeValue]
    split
    · trivial
    · rfl

theorem sparesNumbers_name (text : List CodeUnit) : (name text).SparesNumbers := by
  unfold name
  split
  · trivial
  · rfl

end Jsx

/-! ## Numbers -/

namespace Numeric

variable (m : Mode)

/-- A separator that has been taken as the last unit of a run stands right before the place where
the run ends. -/
theorem justified_separatorFault? {run : List CodeUnit} {f : Fault}
    (h : separatorFault? run = some f) (rest : List CodeUnit) : f.Justified (run ++ rest) := by
  unfold separatorFault? at h
  split at h
  · obtain rfl := Option.some.inj h
    exact ⟨by simp, by simp⟩
  split at h
  · obtain rfl := Option.some.inj h
    exact ⟨by simp, by simp⟩
  split at h
  · next hlast =>
    obtain rfl := Option.some.inj h
    obtain ⟨front, rfl⟩ := List.getLast?_eq_some_iff.mp hlast
    exact ⟨by simp, fun _ => ⟨by simp, by simp⟩⟩
  · simp at h

theorem justified_digits (radix : Radix) (separators : Bool) (text : List CodeUnit) :
    (digits radix separators text).Justified text := by
  unfold digits
  dsimp only
  split
  · next f hf =>
    have hjustified := justified_separatorFault? hf (text.dropWhile (inRun radix separators))
    rwa [List.takeWhile_append_dropWhile] at hjustified
  · trivial

theorem justified_checkEnd (text : List CodeUnit) : (checkEnd text).Justified text := by
  unfold checkEnd
  split
  · trivial
  · split
    · exact Outcome.justified_failHere (by simp) (by simp)
    · trivial

theorem justified_numberEnd (text : List CodeUnit) : (numberEnd m text).Justified text := by
  unfold numberEnd
  split
  · exact Outcome.justified_failHere (by simp) (by simp)
  · exact justified_checkEnd text

theorem justified_bigIntEnd (text : List CodeUnit) : (bigIntEnd text).Justified text :=
  Reader.justified_bind trivial fun _ => justified_checkEnd _

theorem justified_fraction (text : List CodeUnit) : (fraction m text).Justified text := by
  unfold fraction
  split
  · exact (justified_digits _ _ _).shift.mapValue _
  · trivial

theorem justified_exponentDigits (text : List CodeUnit) :
    (exponentDigits m text).Justified text := by
  refine Reader.justified_bind (justified_digits _ _ _) fun x => ?_
  split
  · exact Outcome.justified_failHere (by simp) (by simp)
  · trivial

theorem justified_exponent (text : List CodeUnit) : (exponent m text).Justified text := by
  unfold exponent
  split
  · next u rest =>
    split
    · refine Outcome.Justified.shift ?_
      rw [Nat.add_comm, List.drop_succ_cons]
      exact justified_exponentDigits m _
    · trivial
  · trivial

theorem justified_prefixed (radix : Radix) (text : List CodeUnit) :
    (prefixed m radix text).Justified text := by
  refine Reader.justified_bind trivial fun _ =>
    Reader.justified_bind (justified_digits _ _ _) fun x => ?_
  split
  · exact Outcome.justified_failHere (by simp) (by simp)
  · refine Reader.justified_bind trivial fun _ => ?_
    split
    · exact Reader.justified_bind (justified_bigIntEnd _) fun _ => trivial
    · exact Reader.justified_bind (justified_checkEnd _) fun _ => trivial

/-- What stands after the integer part of a decimal literal that is no BigInt. -/
theorem justified_tail (form : Form) (text : List CodeUnit) :
    ((do fraction m; exponent m; numberEnd m; return form : Reader Form) text).Justified text :=
  Reader.justified_bind (justified_fraction m _) fun _ =>
    Reader.justified_bind (justified_exponent m _) fun _ =>
      Reader.justified_bind (justified_numberEnd m _) fun _ => trivial

theorem justified_leadingZero (text : List CodeUnit) : (leadingZero m text).Justified text := by
  refine Reader.justified_bind ?_ fun x => Reader.justified_bind trivial fun _ => ?_
  · refine Reader.faults_interpret trivial fun x cause _ h => ?_
    -- strict code refuses the digits, octal or not
    split at h
    · simp at h
    split at h
    · obtain rfl := Except.error.inj h
      exact ⟨by simp, by simp⟩
    · obtain rfl := Except.error.inj h
      exact ⟨by simp, by simp⟩
  · split
    · exact Reader.justified_bind (justified_numberEnd m _) fun _ => trivial
    · exact justified_tail m _ _

theorem justified_decimal (text : List CodeUnit) : (decimal m text).Justified text := by
  refine Reader.justified_bind (justified_digits _ _ _) fun x =>
    Reader.justified_bind trivial fun _ => ?_
  split
  · exact Reader.justified_bind (justified_bigIntEnd _) fun _ => trivial
  · exact justified_tail m _ _

theorem justified_form (text : List CodeUnit) : (form m text).Justified text := by
  unfold form
  split
  · split
    · split
      · exact justified_prefixed m _ _
      split
      · exact justified_leadingZero m _
      split
      · exact ⟨by simp, by simp⟩
      · exact justified_decimal m _
    · exact justified_decimal m _
  · exact justified_decimal m _

/-- **What is delimited as a literal has a value.** -/
theorem interpret_ne_error {text : List CodeUnit} {x : Reading Form} {cause : LexError.Cause}
    (hbegins : Lexeme.beginsNumber text = true) (hx : form m text = .ok x) :
    x.value.interpret (text.take x.length) ≠ .error cause := by
  obtain ⟨w, rest, rfl, hw, htakes⟩ := exists_takes_of_form hx
  obtain ⟨lexeme, hlexeme⟩ := exists_interpret (literal_of_takes_form hbegins htakes).1
  rw [← hw, List.take_left, hlexeme]
  simp

theorem justified_read {text : List CodeUnit} (hbegins : Lexeme.beginsNumber text = true) :
    (read m text).Justified text :=
  Reader.faults_interpret (justified_form m text) fun _ _ hx h =>
    absurd h (interpret_ne_error m hbegins hx)

end Numeric

/-! ## Tokens -/

/-- **Where a token should stand.** -/
theorem Lexeme.justified_read (c : Context) (text : List CodeUnit) :
    (read c text).Justified text := by
  cases text with
  | nil => trivial
  | cons u rest =>
    simp only [read]
    split
    · exact (Identifier.sparesNumbers_read _).justified _
    split
    · next hbegins => exact Numeric.justified_read _ hbegins
    split
    · exact (StringLiteral.sparesNumbers_read _ _).justified _
    split
    · exact (Template.sparesNumbers_read _ _ _).justified _
    split
    · exact (Identifier.sparesNumbers_readPrivate _).justified _
    split
    · exact (RegExp.sparesNumbers_read _).justified _
    split
    · unfold readPunctuator
      split
      · trivial
      · exact ⟨by simp, by simp⟩
    · exact Outcome.justified_failHere (by simp) (by simp)

end EcmaLex
