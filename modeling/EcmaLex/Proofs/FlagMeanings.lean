import EcmaLex.Proofs.IdentifierGrammar
import EcmaLex.Proofs.Marks
import EcmaLex.Proofs.NumberSpelling
import EcmaLex.Proofs.Restoring
import EcmaLex.Proofs.TemplateSearch

/-!
# What the flags of a token mean

A reader notes flags in passing, before it knows whether it will succeed, and for parts of a token.
This module says what is true of them in the end: apart from the line break before the token they
are a function of the token's kind and text (`Lexeme.spelling`).

* `Escape.flags_of_body`, `StringLiteral.flags_of_read`: octal escapes in strings.
* `Identifier.flags_of_read`, `Identifier.flags_of_readPrivate`: escapes in names.
* `Numeric.flags_of_read`: leading zeros and separators.
* `Scanner.flags_tell_spelling`: the flags of tokens, and that no call adds those of earlier ones.
-/

namespace EcmaLex

/-- A line break before the token changes one flag. -/
theorem TokenFlags.newLine_union (newLineBefore : Bool) (f : TokenFlags) :
    { newLineBefore } ∪ f = { f with newLineBefore := newLineBefore || f.newLineBefore } := by
  show TokenFlags.union _ f = _
  simp [TokenFlags.union]

/-- Where no flag is noted, a reading has none. -/
theorem Outcome.Unmarked.flags_eq_empty {α : Type} {o : Outcome α} {x : Reading α}
    (h : o.Unmarked (· != ∅)) (hx : o = .ok x) : x.flags = ∅ :=
  bne_eq_false_iff_eq.mp (h x hx)

/-! ## Octal escapes -/

namespace Escape

variable {refusal : Option EscapeError} {text : List CodeUnit} {e : Reading (Option CodePoint)}

/-- **The flags of an escape** tell whether it is octal. -/
theorem flags_of_body (h : body refusal text = .ok e) :
    e.flags = { octalEscape := beginsOctal text } := by
  cases hoctal : beginsOctal text with
  | true =>
    rw [body_of_beginsOctal hoctal] at h
    obtain ⟨z, hz, rfl⟩ := Outcome.mapValue_eq_ok_iff.mp h
    cases refusal with
    | some error => simp [octal] at hz
    | none =>
      obtain rfl := Except.ok.inj hz
      rfl
  | false =>
    rw [body_of_not_beginsOctal hoctal refusal (some .strictOctal)] at h
    exact (unmarked_body isMark_ne_empty (by simp) text).flags_eq_empty h

end Escape

namespace StringLiteral

open Template (escapes)

variable {strict : Bool} {quote : CodeUnit} {text : List CodeUnit}

/-- Whether an octal escape is written behind one of the backslashes in a text. -/
def hasOctalEscape (w : List CodeUnit) : Bool := (escapes false w.length w).any Escape.beginsOctal

theorem hasOctalEscape_cons {u : CodeUnit} (hu : u ≠ CodeUnit.backslash) (w : List CodeUnit) :
    hasOctalEscape (u :: w) = hasOctalEscape w := by
  rw [hasOctalEscape, List.length_cons, escapes, if_neg (by decide), if_neg hu, hasOctalEscape]

/-- An escape and what follows it. -/
theorem hasOctalEscape_escape {refusal : Option EscapeError} {rest : List CodeUnit}
    {e : Reading (Option CodePoint)} (he : Escape.body refusal rest = .ok e) {n : Nat} (hn : 0 < n)
    (hle : e.length + n ≤ rest.length) :
    hasOctalEscape (CodeUnit.backslash :: rest.take (e.length + n)) =
      (Escape.beginsOctal rest || hasOctalEscape ((rest.drop e.length).take n)) := by
  have hpos := Escape.length_pos_of_body he
  have hlength : (rest.take (e.length + n)).length = e.length + n := List.length_take_of_le hle
  have hresumes : Template.Resumes rest e.length := by
    cases rest with
    | nil => simp [Escape.body] at he
    | cons u rest =>
      have := Template.escape_resumes refusal u rest
      rwa [he] at this
  have hescapes := (Template.search_of_resumes (hresumes.take (n := e.length + n) (by omega))
    (by omega)).2 n
  rw [List.drop_take, Nat.add_sub_cancel_left] at hescapes
  rw [hasOctalEscape, List.length_cons, hlength, escapes, if_neg (by decide), if_pos rfl,
    List.any_cons, Escape.beginsOctal_take (by omega), hescapes, hasOctalEscape, List.length_take,
    List.length_drop, Nat.min_eq_left (by omega)]

theorem flags_of_body {x : Reading (List CodeUnit)} (hquote : quote ≠ CodeUnit.backslash)
    (h : body strict quote text = .ok x) :
    0 < x.length ∧ x.length ≤ text.length ∧
      x.flags = { octalEscape := hasOctalEscape (text.take x.length) } := by
  fun_induction body strict quote text generalizing x with
  | case1 => simp at h
  | case2 rest =>
    obtain rfl := Except.ok.inj h
    refine ⟨Nat.one_pos, Nat.succ_le_succ (Nat.zero_le _), ?_⟩
    dsimp only
    rw [List.take_succ_cons, hasOctalEscape_cons hquote]
    rfl
  | case3 => simp at h
  | case4 => simp at h
  | case5 => simp at h
  | case6 rest _ e he _ _ ih =>
    rw [dite_eq_ite] at he
    obtain ⟨z, hz, rfl⟩ := Outcome.mapValue_shift_eq_ok_iff.mp h
    obtain ⟨hpos, hle, hflags⟩ := ih hz
    rw [List.length_drop] at hle
    have htake : (CodeUnit.backslash :: rest).take (1 + e.length + z.length) =
        CodeUnit.backslash :: rest.take (e.length + z.length) := by
      rw [Nat.add_assoc, Nat.add_comm, List.take_succ_cons]
    refine ⟨by dsimp only; omega, by rw [List.length_cons]; dsimp only; omega, ?_⟩
    dsimp only
    rw [htake, hasOctalEscape_escape he hpos (by omega), Escape.flags_of_body he, hflags]
    rfl
  | case7 u rest hu hlines hescape ih =>
    obtain ⟨z, hz, rfl⟩ := Outcome.mapValue_shift_eq_ok_iff.mp h
    obtain ⟨hpos, hle, hflags⟩ := ih hz
    refine ⟨by dsimp only; omega, by rw [List.length_cons]; dsimp only; omega, ?_⟩
    dsimp only
    rw [TokenFlags.empty_union, Nat.add_comm, List.take_succ_cons, hasOctalEscape_cons hescape,
      hflags]

/-- **The flags of a string** tell whether it has an octal escape. -/
theorem flags_of_read {x : Reading Lexeme} (hquote : text.head?.any CodeUnit.isQuote = true)
    (h : read strict text = .ok x) :
    x.flags = { octalEscape := hasOctalEscape (text.take x.length) } := by
  cases text with
  | nil => simp [read] at h
  | cons quote rest =>
    have hne : quote ≠ CodeUnit.backslash := by
      rintro rfl
      rw [List.head?_cons, Option.any_some] at hquote
      exact absurd hquote (by decide)
    rw [read] at h
    obtain ⟨z, hz, rfl⟩ := Outcome.mapValue_shift_eq_ok_iff.mp h
    obtain ⟨-, -, hflags⟩ := flags_of_body hne hz
    dsimp only
    rw [TokenFlags.empty_union, Nat.add_comm, List.take_succ_cons, hasOctalEscape_cons hne, hflags]

end StringLiteral

/-! ## Escapes in names -/

namespace Identifier

variable {first escaped : Bool} {w rest text : List CodeUnit} {cs : List CodePoint}

/-- An item is an escape exactly if it has a backslash. -/
theorem Item.escaped_eq {c : CodePoint} (h : Item w rest c escaped)
    (hc : accepts first c = true) : escaped = w.contains CodeUnit.backslash := by
  cases h with
  | itself hhead =>
    have hne : c ≠ CodeUnit.backslash.toNat := by
      rintro rfl
      rw [accepts_backslash] at hc
      simp at hc
    rw [eq_comm, List.contains_eq_mem, decide_eq_false_iff_not,
      Utf16.mem_iff_of_head? hhead (by decide) (by decide)]
    exact hne
  | escape => rfl

theorem Items.escaped_eq (h : Items first w rest cs escaped) :
    escaped = w.contains CodeUnit.backslash := by
  induction h with
  | nil => rfl
  | cons hitem hc _ ih =>
    rw [hitem.escaped_eq hc, ih, List.contains_eq_mem, List.contains_eq_mem, List.contains_eq_mem,
      ← Bool.decide_or]
    simp only [List.mem_append]

/-- **The flags of a name** tell whether it has an escape. -/
theorem flags_of_name {x : Reading String} (h : name text = .ok x) :
    x.flags = { unicodeEscape := (text.take x.length).contains CodeUnit.backslash } := by
  obtain ⟨w, rest, cs, escaped, rfl, hlongest⟩ := exists_longest text
  obtain ⟨-, -, s, -, rfl⟩ := (name_eq_ok_iff hlongest).mp h
  dsimp only
  rw [List.take_left, hlongest.items.escaped_eq]

theorem flags_of_read {x : Reading Lexeme} (h : read text = .ok x) :
    x.flags = { unicodeEscape := (text.take x.length).contains CodeUnit.backslash } := by
  obtain ⟨z, b, hz, -, rfl⟩ := Reader.interpret_eq_ok_iff.mp h
  exact flags_of_name hz

theorem flags_of_readPrivate {x : Reading Lexeme} (hhash : text.head? = some CodeUnit.hash)
    (h : readPrivate text = .ok x) :
    x.flags = { unicodeEscape := (text.take x.length).contains CodeUnit.backslash } := by
  obtain ⟨rest, rfl⟩ := List.head?_eq_some_iff.mp hhash
  rw [readPrivate_hash] at h
  split at h
  · obtain ⟨z, hz, rfl⟩ := Outcome.mapValue_shift_eq_ok_iff.mp h
    dsimp only
    rw [TokenFlags.empty_union, flags_of_name hz, Nat.add_comm, List.take_succ_cons]
    rfl
  · simp at h

end Identifier

/-! ## Numbers -/

namespace Numeric

variable {m : Mode} {text : List CodeUnit}

/-- A zero leads another digit within the number only: behind its end there is none. -/
theorem leadsWithZero_append {w rest : List CodeUnit} (hw : w ≠ [])
    (hrest : rest.head?.any CodeUnit.isDecimalDigit = false) :
    leadsWithZero (w ++ rest) = leadsWithZero w := by
  match w with
  | [] => exact absurd rfl hw
  | [u] =>
    cases rest with
    | nil => rfl
    | cons v rest =>
      have hv : v.isDecimalDigit = false := hrest
      simp [leadsWithZero, hv]
  | u :: v :: w => rfl

/-- **The flags of a number** tell whether it has a leading zero and whether it has separators. -/
theorem flags_of_read {x : Reading Lexeme} (hbegins : Lexeme.beginsNumber text = true)
    (h : read m text = .ok x) (hpos : 0 < x.length) :
    x.flags = { legacyOctal := leadsWithZero (text.take x.length),
                numericSeparator := (text.take x.length).contains CodeUnit.underscore } := by
  obtain ⟨z, b, hz, -, rfl⟩ := Reader.interpret_eq_ok_iff.mp h
  have hflags := flags_of_form hz
  obtain ⟨w, rest, rfl, hlength, htakes⟩ := exists_takes_of_form hz
  obtain ⟨hliteral, hrest, -⟩ := literal_of_takes_form hbegins htakes
  dsimp only at hpos ⊢
  rw [← hlength] at hpos hflags ⊢
  rw [List.take_left] at hflags ⊢
  rw [hflags, leadsWithZero_append (List.length_pos_iff.mp hpos)
    (any_head?_of_not_goesOn (fun _ => continues_of_isDecimalDigit) hrest)]
  show TokenFlags.union _ (spelling w) = _
  simp [TokenFlags.union, spelling]

end Numeric

/-! ## Tokens -/

/-- The flags that a kind of token has for its text. The one on the line break is not among them. -/
def Token.Kind.spelling (kind : Token.Kind) (w : List CodeUnit) : TokenFlags where
  legacyOctal := kind == .numericLiteral && Numeric.leadsWithZero w
  octalEscape := kind == .stringLiteral && StringLiteral.hasOctalEscape w
  unicodeEscape :=
    (kind.isIdentifierName || kind == .privateName) && w.contains CodeUnit.backslash
  numericSeparator := kind == .numericLiteral && w.contains CodeUnit.underscore

theorem Token.Kind.spelling_of_isIdentifierName {kind : Token.Kind}
    (h : kind.isIdentifierName = true) (w : List CodeUnit) :
    kind.spelling w = { unicodeEscape := w.contains CodeUnit.backslash } := by
  cases kind <;> first | rfl | simp [isIdentifierName] at h

theorem Token.Kind.spelling_of_isTemplate {kind : Token.Kind} (h : kind.isTemplate = true)
    (w : List CodeUnit) : kind.spelling w = ∅ := by
  cases kind <;> first | rfl | simp [isTemplate] at h

/-- **Every flag is a function of what was read.** -/
theorem Lexeme.flags_of_read {c : Context} {text : List CodeUnit} {x : Reading Lexeme}
    (h : read c text = .ok x) : x.flags = x.value.kind.spelling (text.take x.length) := by
  cases readsAs_of_read h with
  | eof _ hx =>
    subst hx
    rfl
  | name h =>
    rw [Identifier.flags_of_read h, Token.Kind.spelling_of_isIdentifierName (kind_of_identifier h)]
  | number hbegins hnumber =>
    have hpos : 0 < x.length := by
      cases text with
      | nil => simp [beginsNumber] at hbegins
      | cons u rest => exact length_pos_of_read h
    rw [Numeric.flags_of_read hbegins hnumber hpos, kind_of_numeric hnumber]
    rfl
  | string hquote h =>
    rw [StringLiteral.flags_of_read hquote h, kind_of_stringLiteral h]
    rfl
  | template h =>
    rw [(Template.unmarked_read isMark_ne_empty _ _ text).flags_eq_empty h,
      Token.Kind.spelling_of_isTemplate (kind_of_template h)]
  | privateName hhash h =>
    rw [Identifier.flags_of_readPrivate hhash h, kind_of_private h]
    rfl
  | regExp h =>
    rw [(RegExp.unmarked_read isMark_ne_empty text).flags_eq_empty h, kind_of_regExp h]
    rfl
  | punctuator p _ hx =>
    subst hx
    rfl

namespace Scanner

/-- The text of a token is what the source has between its ends. -/
theorem tokenText_eq_extract {source : List CodeUnit} {c : Context} {s s' : Scanner} {t : Token}
    (hs : s.cursor.IsPlaceOf source) (h : s.next c = (.ok t, s')) :
    s'.tokenText = source.extract t.start.offset t.stop := by
  obtain ⟨ts, s₁, x, hp, -, -, rfl, rfl⟩ := next_eq_ok_iff.mp h
  rw [tokenText_took]
  exact ((hp.isPlaceOf (s := { s with flags := ∅ }) hs).extract_advance x.length).symm

/-- **The flags of a token tell how it is spelled**, and nothing else. Each of them is set exactly
for one kind of token with one trait of its text, whatever was noted by earlier calls; and the rest
of a template has none but the one on the line break before its brace. -/
theorem flags_tell_spelling (c : Context) (s : Scanner) :
    (∀ t s', s.next c = (.ok t, s') →
      (∀ source, s.cursor.IsPlaceOf source →
        s'.tokenText = source.extract t.start.offset t.stop) ∧
      (t.flags.legacyOctal = true ↔
        t.kind = .numericLiteral ∧ Numeric.leadsWithZero s'.tokenText = true) ∧
      (t.flags.numericSeparator = true ↔
        t.kind = .numericLiteral ∧ CodeUnit.underscore ∈ s'.tokenText) ∧
      (t.flags.unicodeEscape = true ↔
        (t.kind.isIdentifierName = true ∨ t.kind = .privateName) ∧
          CodeUnit.backslash ∈ s'.tokenText) ∧
      (t.flags.octalEscape = true ↔
        t.kind = .stringLiteral ∧ StringLiteral.hasOctalEscape s'.tokenText = true)) ∧
    (∀ flags, ({ s with flags } : Scanner).next c = s.next c) ∧
    ∀ t s', s.continueTemplate c = (.ok t, s') →
      t.flags = { newLineBefore := s.flags.newLineBefore } := by
  refine ⟨fun t s' h => ?_, fun _ => rfl, fun t s' h => ?_⟩
  · obtain ⟨x, hx, htext, -, -, -, hkind, -, newLineBefore, hflags⟩ := exists_read_of_next h
    rw [Lexeme.flags_of_read hx, ← htext, ← hkind] at hflags
    refine ⟨fun source hs => tokenText_eq_extract hs h, ?_⟩
    rw [hflags, TokenFlags.newLine_union]
    simp [Token.Kind.spelling]
  · obtain ⟨x, hx, rfl, -⟩ := continueTemplate_eq_ok_iff.mp h
    show _ ∪ x.flags = _
    rw [(Template.unmarked_readContinuation isMark_ne_empty _ _).flags_eq_empty hx,
      TokenFlags.union_empty]

/-- The flags of `08.5_0` behind two that an earlier call left, and of a template that goes on in
the second line. -/
theorem flags_tell_spelling_leadingZero :
    let s : Scanner :=
      { ofSource [0x30, 0x38, 0x2E, 0x35, 0x5F, 0x30] with
        flags := { octalEscape := true, unicodeEscape := true } }
    let brace := ((ofSource [0x0A, 0x7D, 0x60]).next {}).2
    (∃ t s', s.next { next := true } = (.ok t, s') ∧ t.stop = 6 ∧ t.flags.legacyOctal = true ∧
      t.flags.numericSeparator = true ∧ t.flags.unicodeEscape = false ∧
      t.flags.octalEscape = false) ∧
    ∃ t s', brace.continueTemplate {} = (.ok t, s') ∧ t.flags = { newLineBefore := true } := by
  intro s brace
  constructor
  · have htoken : (s.next { next := true }).1.toOption.map (fun t => (t.kind, t.stop)) =
        some (.numericLiteral, 6) := by decide +kernel
    have htext : (s.next { next := true }).2.tokenText = [0x30, 0x38, 0x2E, 0x35, 0x5F, 0x30] := by
      decide +kernel
    obtain ⟨t, s', hnext, ht⟩ := exists_ok_of_map htoken
    obtain ⟨hkind, hstop⟩ := Prod.mk.inj ht
    rw [hnext] at htext
    obtain ⟨-, hzero, hseparator, hname, hstring⟩ :=
      (flags_tell_spelling { next := true } s).1 t s' hnext
    rw [hkind, htext] at hzero hseparator
    rw [hkind] at hname hstring
    exact ⟨t, s', hnext, hstop, hzero.mpr (by decide), hseparator.mpr (by decide),
      by simpa [Token.Kind.isIdentifierName] using hname, by simpa using hstring⟩
  · have htoken : (brace.continueTemplate {}).1.toOption.map Token.stop = some 3 := by
      decide +kernel
    have hbrace : brace.flags.newLineBefore = true := by decide +kernel
    obtain ⟨t, s', hnext, -⟩ := exists_ok_of_map htoken
    have hflags := (flags_tell_spelling {} brace).2.2 t s' hnext
    rw [hbrace] at hflags
    exact ⟨t, s', hnext, hflags⟩

end Scanner

end EcmaLex
