import EcmaLex.Proofs.IdentifierGrammar
import EcmaLex.Proofs.LongestPunctuators
import EcmaLex.Proofs.Refinement.EscapeValues
import EcmaLex.Proofs.StringGrammar
import EcmaLex.Proofs.TemplateSpans

/-!
# Tokens on machine words

What the grammars say of the tokens of a scanner holds of those that a machine finds: with a chain
of decisions for each sign, with one way through a name for ASCII and another one for the rest, and
with runs of text that are copied whole. The calls of a machine are those of the scanner that stands
there (`Machine.Ready`), so each statement is carried over from the scanner.

* `Machine.nextToken_isLongest`: punctuators.
* `Machine.nextToken_iff_longestName`: names.
* `Machine.nextToken_iff_stringItems`: string literals.
* `Machine.reads_templateSpans`: spans of templates.
-/

namespace EcmaLex.Machine

variable {c : Context} {m : Machine} {u : CodeUnit} {text : List CodeUnit}

/-- **A token of the scanner** is one of the machine. -/
theorem Ready.exists_nextToken {t : Token} {s' : Scanner} (h : m.Ready)
    (hnext : m.scanner.next c = (.ok t, s')) (hstart : t.start = m.scanner.cursor.location) :
    ∃ t' m', (Routine.nextToken c).run m = some (.ok t', m') ∧ t'.kind = t.kind ∧
      t'.value = t.value ∧ t'.start = m.location ∧ t'.stop = t.stop ∧ m'.index = t.stop ∧
      m'.rest = s'.cursor.rest := by
  obtain ⟨x, -, -, -, -, hstop, -⟩ := Scanner.exists_read_of_next hnext
  have hplace := (h.admits_cursor.of_next hnext).place
  refine ⟨t.wrap, image m.build m.source s', ?_, rfl, rfl, ?_, rfl, hstop.symm, hplace.rest_eq.symm⟩
  · rw [h.nextToken c, hnext]
    rfl
  · show t.start.wrap = m.location
    rw [hstart]
    exact m.wrap_location

/-- **An error of a reader**, where no trivia stands, is one of the machine. -/
theorem Ready.exists_error {f : Fault} (h : m.Ready)
    (hfirst : Trivia.first? (m.scanner.triviaMode c) m.rest = none)
    (hread : Lexeme.read c m.rest = .error f) :
    ∃ e m', (Routine.nextToken c).run m = some (.error e, m') ∧ e.cause = f.cause := by
  have hnext : m.scanner.next c =
      ({ m.scanner with flags := ∅ } : Scanner).readHere c (Lexeme.read c) :=
    Scanner.next_eq_readHere (s := m.scanner) (Trivia.first?_eq_none_iff.mp hfirst)
  have hfail : (Lexeme.read c) m.scanner.cursor.rest = .error f := hread
  rw [h.nextToken c, hnext, Scanner.readHere, hfail]
  exact ⟨_, _, rfl, rfl⟩

/-! ## Punctuators -/

/-- The machine is on an ASCII unit that begins no trivia and no token but a punctuator. -/
structure AtSign (c : Context) (m : Machine) (u : CodeUnit) (text : List CodeUnit) : Prop
    extends Lexeme.BeginsNoOther u text where
  ready : m.Ready
  rest_eq : m.rest = u :: text
  noTrivia : ¬Trivia.CanBegin ⟨c.allowsHtmlComments, m.lineStart, m.index == 0⟩ m.rest

theorem AtSign.scanner (h : AtSign c m u text) : Scanner.AtSign c m.scanner u text :=
  ⟨h.toBeginsNoOther, h.rest_eq, h.noTrivia⟩

/-- **The longest punctuator.** At a unit that can only begin a punctuator, the chains of decisions
find the one longest punctuator that fits, and the span of the token is its spelling. If none fits,
the unit is illegal. -/
theorem nextToken_isLongest (h : AtSign c m u text) (hregexp : c.allowRegExp = false) :
    (∀ p, Punctuator.IsLongest c.jsx (u :: text) p → ∃ t m',
        (Routine.nextToken c).run m = some (.ok t, m') ∧
        t.kind = .punctuator p ∧ t.value = .none ∧ t.start = m.location ∧
        t.stop = m.index + p.units.length ∧ m'.index = t.stop ∧
        m.rest = p.units ++ m'.rest) ∧
      ((∃ p, Punctuator.Fits c.jsx (u :: text) p) →
        ∃! p, Punctuator.IsLongest c.jsx (u :: text) p) ∧
      ((∀ p, ¬Punctuator.Fits c.jsx (u :: text) p) → ∃ ch m', ch.toNat = u.toNat ∧
        (Routine.nextToken c).run m = some (.error ⟨.illegalCharacter ch, m.location⟩, m') ∧
        m'.tokenLocation = m.location) := by
  obtain ⟨hlongest, hunique, hnone⟩ := Scanner.next_isLongest h.scanner hregexp
  have hcall := h.ready.nextToken c
  refine ⟨?_, hunique, ?_⟩
  · intro p hp
    obtain ⟨t, s', hnext, hkind, hvalue, hstart, hstop, -, hrest⟩ := hlongest p hp
    obtain ⟨t', m', hrun, hkind', hvalue', hstart', hstop', hindex, hbehind⟩ :=
      h.ready.exists_nextToken hnext hstart
    refine ⟨t', m', hrun, hkind'.trans hkind, hvalue'.trans hvalue, hstart', hstop'.trans hstop,
      hindex.trans hstop'.symm, ?_⟩
    rw [hbehind]
    exact hrest
  · intro hfits
    obtain ⟨ch, s', hch, hnext, hstart⟩ := hnone hfits
    refine ⟨ch, image m.build m.source s', hch, ?_, ?_⟩
    · rw [hcall, hnext]
      show some (Except.error (LexError.mk _ m.location.wrap), _) = _
      rw [m.wrap_location]
    · show s'.tokenStart.location.wrap = m.location
      rw [hstart]
      exact m.wrap_location

/-- A shift with an assignment, a conditional with a number, a closing tag, and a unit that is not
in the language. -/
theorem nextToken_isLongest_signs :
    let m (text : String) := startingAt .checked (Utf16.ofString text) 1 0 0
    (∃ t m', (Routine.nextToken {}).run (m ">>>=>") = some (.ok t, m') ∧
      t.kind = .punctuator .unsignedRightShiftAssign ∧ t.stop = 4) ∧
    (∃ t m', (Routine.nextToken {}).run (m "?.5") = some (.ok t, m') ∧
      t.kind = .punctuator .question ∧ t.stop = 1) ∧
    (∃ t m', (Routine.nextToken { jsx := true }).run (m "</=") = some (.ok t, m') ∧
      t.kind = .punctuator .jsxClosingTagStart ∧ t.stop = 2) ∧
    ∃ ch m', ch.toNat = 0x40 ∧ (Routine.nextToken {}).run (m "@=") =
      some (.error ⟨.illegalCharacter ch, ⟨1, 0, 0⟩⟩, m') := by
  intro m
  have hat (c : Context) (text : String) (u : CodeUnit) (rest : List CodeUnit)
      (htext : Utf16.ofString text = u :: rest) (hother : Lexeme.BeginsNoOther u rest)
      (hlength : rest.length < 9)
      (hfirst : Trivia.first? ⟨c.allowsHtmlComments, true, true⟩ (u :: rest) = none) :
      AtSign c (m text) u rest := by
    have hroom : Room (Utf16.ofString text) 1 0 := by
      have hsize : UInt32.size = 4294967296 := rfl
      have hline : (1 : UInt32).toNat = 1 := rfl
      have hcolumn : (0 : UInt32).toNat = 0 := rfl
      refine ⟨?_, ?_, ?_⟩ <;> rw [htext, List.length_cons] <;> omega
    have hrest : (m text).rest = u :: rest := (rest_startingAt _ _ _ _).trans htext
    refine ⟨hother, ready_startingAt 0 fun _ => hroom, hrest, ?_⟩
    rw [hrest]
    exact Trivia.first?_eq_none_iff.mp hfirst
  have hindex (text : String) (k : Nat) : (m text).index + k = k := by
    show min 0 _ + k = k
    rw [Nat.zero_min, Nat.zero_add]
  refine ⟨?_, ?_, ?_, ?_⟩
  · have hsign := hat {} ">>>=>" 0x3E [0x3E, 0x3E, 0x3D, 0x3E] rfl
      (by decide +kernel) (by decide) (by decide +kernel)
    obtain ⟨t, m', hnext, hkind, -, -, hstop, -⟩ :=
      (nextToken_isLongest hsign rfl).1 .unsignedRightShiftAssign (by decide +kernel)
    exact ⟨t, m', hnext, hkind, hstop.trans (hindex _ _)⟩
  · have hsign := hat {} "?.5" 0x3F [0x2E, 0x35] rfl
      (by decide +kernel) (by decide) (by decide +kernel)
    obtain ⟨t, m', hnext, hkind, -, -, hstop, -⟩ :=
      (nextToken_isLongest hsign rfl).1 .question (by decide +kernel)
    exact ⟨t, m', hnext, hkind, hstop.trans (hindex _ _)⟩
  · have hsign := hat { jsx := true } "</=" 0x3C [0x2F, 0x3D] rfl
      (by decide +kernel) (by decide) (by decide +kernel)
    obtain ⟨t, m', hnext, hkind, -, -, hstop, -⟩ :=
      (nextToken_isLongest hsign rfl).1 .jsxClosingTagStart (by decide +kernel)
    exact ⟨t, m', hnext, hkind, hstop.trans (hindex _ _)⟩
  · have hsign := hat {} "@=" 0x40 [0x3D] rfl
      (by decide +kernel) (by decide) (by decide +kernel)
    obtain ⟨ch, m', hch, hnext, -⟩ := (nextToken_isLongest hsign rfl).2.2
      (Punctuator.ofText?_eq_none_iff.mp (by decide +kernel))
    exact ⟨ch, m', hch, hnext⟩

/-! ## Names -/

/-- A name may begin at the cursor, and `text` is where its items are: an identifier start or a
backslash stands there, or a number sign that opens no hashbang. -/
structure AtName (m : Machine) (isPrivate : Bool) (text : List CodeUnit) : Prop where
  ready : m.Ready
  begins : m.scanner.AtName isPrivate text

open Identifier (Longest Classifies sign) in
/-- **Names.** Where a name may begin, the longest sequence of items there decides, whichever of its
characters are ASCII: the next token is read exactly if it is not empty and no backslash follows it.
The token is then written with these items, its name is what they denote, and the name and the
escapes in it tell what it is. -/
theorem nextToken_iff_longestName {isPrivate : Bool} (hat : m.AtName isPrivate text) :
    (∃ w rest cs escaped, text = w ++ rest ∧ Longest w rest cs escaped) ∧
    ∀ w rest cs escaped, text = w ++ rest → Longest w rest cs escaped →
      ((∃ t m', (Routine.nextToken c).run m = some (.ok t, m')) ↔
        w ≠ [] ∧ rest.head? ≠ some CodeUnit.backslash) ∧
      (w ≠ [] → rest.head? ≠ some CodeUnit.backslash →
        ∃ t m' name, (Routine.nextToken c).run m = some (.ok t, m') ∧ t.start = m.location ∧
          t.stop = m.index + (sign isPrivate ++ w).length ∧ m'.index = t.stop ∧
          m'.rest = rest ∧ t.value = .name name ∧ name.toList.map Char.toNat = cs ∧
          Classifies isPrivate name escaped t.kind) := by
  obtain ⟨hexists, hall⟩ := Scanner.next_iff_longest_name (c := c) hat.begins
  have hcall := hat.ready.nextToken c
  refine ⟨hexists, ?_⟩
  intro w rest cs escaped htext hlongest
  obtain ⟨hiff, hgives⟩ := hall w rest cs escaped htext hlongest
  rw [hcall, exists_answer_iff]
  refine ⟨hiff, ?_⟩
  intro hw hbackslash
  obtain ⟨t, s', name, hnext, hstart, hstop, hrest, hvalue, hname, hkind⟩ := hgives hw hbackslash
  obtain ⟨t', m', hrun, hkind', hvalue', hstart', hstop', hindex, hbehind⟩ :=
    hat.ready.exists_nextToken hnext hstart
  exact ⟨t', m', name, hcall ▸ hrun, hstart', hstop'.trans hstop, hindex.trans hstop'.symm,
    hbehind.trans hrest, hvalue'.trans hvalue, hname, hkind' ▸ hkind⟩

/-- The keyword `var` with an escape in braces in the middle, and a semicolon behind it. -/
theorem nextToken_iff_longestName_escapedKeyword :
    let w : List CodeUnit := [0x76, 0x5C, 0x75, 0x7B, 0x36, 0x31, 0x7D, 0x72]
    let rest : List CodeUnit := [0x3B]
    let m := startingAt .checked (w ++ rest) 1 0 0
    m.AtName false (w ++ rest) ∧ Identifier.Longest w rest [0x76, 0x61, 0x72] true ∧
      ∃ t m', (Routine.nextToken {}).run m = some (.ok t, m') ∧
        t.kind = .escapedKeyword .varKw ∧ t.value = .name "var" ∧ t.stop = 8 := by
  intro w rest m
  have hready : m.Ready := ready_startingAt 0 fun _ => ⟨by decide, by decide, by decide⟩
  have hat : m.AtName false (w ++ rest) := ⟨hready, .plain rfl (by decide +kernel)⟩
  have hknown : (m.scanner.next {}).1.toOption.map
      (fun t => (t.start, t.stop, t.value, t.kind)) =
        some (m.scanner.cursor.location, 8, .name "var", .escapedKeyword .varKw) := by
    decide +kernel
  obtain ⟨t, s', hnext, ht⟩ := exists_ok_of_map hknown
  obtain ⟨hstart, hstop, hvalue, hkind⟩ : t.start = m.scanner.cursor.location ∧ t.stop = 8 ∧
      t.value = .name "var" ∧ t.kind = .escapedKeyword .varKw := by simpa using ht
  obtain ⟨t, m', hrun, hkind', hvalue', -, hstop', -⟩ := hready.exists_nextToken hnext hstart
  rw [hkind] at hkind'
  rw [hvalue] at hvalue'
  rw [hstop] at hstop'
  obtain ⟨⟨w', rest', cs, escaped, htext, hlongest⟩, hall⟩ :=
    nextToken_iff_longestName (c := {}) hat
  obtain ⟨hiff, hgives⟩ := hall w' rest' cs escaped htext hlongest
  obtain ⟨hw, hbackslash⟩ := hiff.mp ⟨t, m', hrun⟩
  obtain ⟨_, _, name, hrun', -, hend, -, -, hname, hcs, hclass⟩ := hgives hw hbackslash
  obtain ⟨hok, rfl⟩ := Prod.mk.inj (Option.some.inj (hrun.symm.trans hrun'))
  obtain rfl := Except.ok.inj hok
  -- the longest sequence ends with the token, denotes its name, and has the escape
  obtain rfl : name = "var" := by
    rw [hname] at hvalue'
    exact Token.Value.name.inj hvalue'
  have hlength : w.length = w'.length := by
    have hzero : m.index = 0 := rfl
    rw [hstop', hzero, Nat.zero_add] at hend
    exact hend
  obtain ⟨rfl, rfl⟩ := List.append_inj htext hlength
  have hescaped : escaped = true := by
    have hkeyword := hclass.keyword rfl .varKw rfl
    rw [hkind'] at hkeyword
    cases escaped with
    | true => rfl
    | false => simp at hkeyword
  obtain rfl : [0x76, 0x61, 0x72] = cs := hcs
  exact ⟨hat, hescaped ▸ hlongest, t, m', hrun, hkind', hvalue', hstop'⟩

open Escape in
/-- If the digits of a padded letter are miscounted, a name that begins with it is an error. -/
theorem nextToken_error_of_name {k : Nat} (hcount : UInt32.size ∣ k + 2) :
    let text := CodeUnit.backslash :: CodeUnit.ofChar 'u' :: paddedLetter k
    let m := startingAt .wrapping text 1 0 0
    m.AtName false text ∧ CodePointNumber (paddedLetter k) 0x61 ∧
      CodePoint.isIdentifierStart 0x61 = true ∧
      ∃ e m', (Routine.nextToken {}).run m = some (.error e, m') ∧
        e.cause = .invalidIdentifierEscape := by
  intro text m
  have hready : m.Ready := ready_startingAt 0 fun h => nomatch h
  have hrest : m.rest = text := rest_startingAt _ _ _ _
  have hbegins : Lexeme.beginsName text = true := rfl
  have hfirst : Trivia.first? (m.scanner.triviaMode {}) m.rest = none := by
    rw [hrest]
    exact Lexeme.first?_of_beginsName hbegins _
  have hescape := unicode_paddedLetter hcount []
  rw [List.append_nil] at hescape
  have hitem : Identifier.item? true text =
      some (.error ⟨.invalidIdentifierEscape, 0, 2 + (k + 3), ∅⟩) := by
    show some (Identifier.escapedItem true text) = _
    rw [Identifier.escapedItem, show text.drop 2 = paddedLetter k from rfl, hescape]
    rfl
  have hstart : Identifier.start text = .error ⟨.invalidIdentifierEscape, 0, 2 + (k + 3), ∅⟩ := by
    rw [Identifier.start, hitem]
  have hread : Lexeme.read {} m.rest = .error ⟨.invalidIdentifierEscape, 0, 2 + (k + 3), ∅⟩ := by
    rw [hrest, Lexeme.read_of_beginsName hbegins, Identifier.read, Reader.interpret,
      Identifier.name, Reader.bind_of_error hstart]
  exact ⟨⟨hready, .plain hrest hbegins⟩, codePointNumber_paddedLetter k, by decide +kernel,
    hready.exists_error hfirst hread⟩

open Escape in
/-- **A name whose digits are miscounted.** Its one item is an escape for the letter `a`. -/
theorem nextToken_miscounts_name :
    let text := CodeUnit.backslash :: CodeUnit.ofChar 'u' :: paddedLetter wordOfZeros
    let m := startingAt .wrapping text 1 0 0
    m.AtName false text ∧ CodePointNumber (paddedLetter wordOfZeros) 0x61 ∧
      CodePoint.isIdentifierStart 0x61 = true ∧
      ∃ e m', (Routine.nextToken {}).run m = some (.error e, m') ∧
        e.cause = .invalidIdentifierEscape :=
  nextToken_error_of_name dvd_wordOfZeros

/-! ## String literals -/

/-- **String literals.** On a quote the next token is read exactly if items and the same quote
follow, however the text between the escapes is copied. It is then a string literal that ends right
behind the second quote, and its value is what the items denote. -/
theorem nextToken_iff_stringItems {quote : CodeUnit} (c : Context) (hready : m.Ready)
    (hquote : quote.isQuote = true) (hrest : m.rest = quote :: text) :
    ((∃ t m', (Routine.nextToken c).run m = some (.ok t, m')) ↔
      ∃ w rest value, text = w ++ quote :: rest ∧
        StringLiteral.Items c.isStrict quote w (quote :: rest) value) ∧
    ∀ w rest value, text = w ++ quote :: rest →
      StringLiteral.Items c.isStrict quote w (quote :: rest) value →
      ∃ t m', (Routine.nextToken c).run m = some (.ok t, m') ∧ t.kind = .stringLiteral ∧
        t.value = .string value ∧ t.start = m.location ∧ t.stop = m.index + (w.length + 2) ∧
        m'.index = t.stop ∧ m'.rest = rest := by
  obtain ⟨hiff, hgives⟩ := Scanner.next_iff_items (s := m.scanner) c hquote hrest
  have hcall := hready.nextToken c
  rw [hcall, exists_answer_iff]
  refine ⟨hiff, ?_⟩
  intro w rest value htext hitems
  obtain ⟨t, s', hnext, hkind, hvalue, hstart, hstop, hcursor⟩ := hgives w rest value htext hitems
  obtain ⟨t', m', hrun, hkind', hvalue', hstart', hstop', hindex, hbehind⟩ :=
    hready.exists_nextToken hnext hstart
  refine ⟨t', m', hcall ▸ hrun, hkind'.trans hkind, hvalue'.trans hvalue, hstart',
    hstop'.trans hstop, hindex.trans hstop'.symm, ?_⟩
  have hwritten : m.scanner.cursor.rest = quote :: (w ++ quote :: rest) := by
    rw [← htext]
    exact hrest
  have hlength : (quote :: (w ++ [quote])).length = w.length + 2 := by simp
  have hsplit : quote :: (w ++ quote :: rest) = quote :: (w ++ [quote]) ++ rest := by simp
  rw [hbehind, hcursor, Cursor.rest_advance, hwritten, hsplit, ← hlength, List.drop_left]

/-- A literal with an escaped code point in braces, an octal escape and a line continuation of two
units. -/
theorem nextToken_iff_stringItems_escapes :
    let text : List CodeUnit := [0x5C, 0x75, 0x7B, 0x31, 0x46, 0x36, 0x30, 0x30, 0x7D, 0x5C, 0x31,
      0x30, 0x31, 0x5C, 0x0D, 0x0A, 0x27]
    let m := startingAt .checked (CodeUnit.singleQuote :: text) 1 0 0
    m.Ready ∧ CodeUnit.singleQuote.isQuote = true ∧ m.rest = CodeUnit.singleQuote :: text ∧
      ∃ t m', (Routine.nextToken {}).run m = some (.ok t, m') ∧
        t.value = .string [0xD83D, 0xDE00, 0x41] ∧ t.stop = 18 := by
  intro text m
  have hready : m.Ready := ready_startingAt 0 fun _ => ⟨by decide, by decide, by decide⟩
  have hquote : CodeUnit.singleQuote.isQuote = true := by decide
  have hcodePoint : Escape.CodePointNumber [0x7B, 0x31, 0x46, 0x36, 0x30, 0x30, 0x7D] 0x1F600 :=
    @Escape.CodePointNumber.braced [0x31, 0x46, 0x36, 0x30, 0x30] (List.all_eq_true.mp rfl)
      (by decide) (by decide)
  have hcount : ¬Escape.Miscounted [0x7B, 0x31, 0x46, 0x36, 0x30, 0x30, 0x7D] :=
    @Escape.not_miscounted_of_length_lt [0x31, 0x46, 0x36, 0x30, 0x30] (by decide) (by decide)
  have hoctal : Escape.Written (!false) [0x31, 0x30, 0x31]
      ([0x5C, 0x0D, 0x0A] ++ [CodeUnit.singleQuote]) [0x41] :=
    .octal rfl (List.all_eq_true.mp rfl) (by decide) (by decide)
  have hitems : StringLiteral.Items false CodeUnit.singleQuote (text.take 16)
      [CodeUnit.singleQuote] [0xD83D, 0xDE00, 0x41] :=
    .escape (.unicode hcodePoint hcount) (.escape hoctal (.escape .crlf .nil))
  obtain ⟨t, m', hrun, -, hvalue, -, hstop, -⟩ :=
    (nextToken_iff_stringItems {} hready hquote rfl).2 _ [] _ rfl hitems
  exact ⟨hready, hquote, rfl, t, m', hrun, hvalue, hstop⟩

open Escape in
/-- If the digits of a padded letter are miscounted, a string literal of it is an error. -/
theorem nextToken_error_of_string {k : Nat} (hcount : UInt32.size ∣ k + 2) :
    let escape := CodeUnit.backslash :: CodeUnit.ofChar 'u' :: paddedLetter k
    let text := escape ++ [CodeUnit.singleQuote]
    let m := startingAt .wrapping (CodeUnit.singleQuote :: text) 1 0 0
    m.Ready ∧ m.rest = CodeUnit.singleQuote :: text ∧ CodePointNumber (paddedLetter k) 0x61 ∧
      ∃ e m', (Routine.nextToken {}).run m = some (.error e, m') ∧
        e.cause = .invalidEscape .invalidUnicode := by
  intro escape text m
  have hready : m.Ready := ready_startingAt 0 fun h => nomatch h
  have hrest : m.rest = CodeUnit.singleQuote :: text := rest_startingAt _ _ _ _
  have hquote : CodeUnit.singleQuote.isQuote = true := by decide
  obtain ⟨hlexeme, -, htrivia⟩ := StringLiteral.read_quote {} text hquote
  have hfirst : Trivia.first? (m.scanner.triviaMode {}) m.rest = none := by
    rw [hrest]
    exact htrivia _
  have hbody : StringLiteral.body false CodeUnit.singleQuote text =
      .error ⟨.invalidEscape .invalidUnicode, 0, 1 + (k + 4), ∅⟩ := by
    have hescape := body_paddedLetter hcount none [CodeUnit.singleQuote]
    show StringLiteral.body false CodeUnit.singleQuote (CodeUnit.backslash :: CodeUnit.ofChar 'u' ::
      (paddedLetter k ++ [CodeUnit.singleQuote])) = _
    rw [StringLiteral.body, if_neg (by decide), if_neg (by decide), if_pos rfl,
      if_neg (List.cons_ne_nil _ _), if_neg (by decide), hescape]
  have hread : Lexeme.read {} m.rest =
      .error ⟨.invalidEscape .invalidUnicode, 1 + 0, 1 + (1 + (k + 4)), ∅⟩ := by
    have hstrict : ({} : Context).isStrict = false := rfl
    rw [hrest, hlexeme, hstrict, StringLiteral.read, hbody]
    rfl
  exact ⟨hready, hrest, codePointNumber_paddedLetter k, hready.exists_error hfirst hread⟩

open Escape in
/-- **A string literal whose digits are miscounted.** Its one item is an escape for the letter
`a`. -/
theorem nextToken_miscounts_string :
    let escape := CodeUnit.backslash :: CodeUnit.ofChar 'u' :: paddedLetter wordOfZeros
    let text := escape ++ [CodeUnit.singleQuote]
    let m := startingAt .wrapping (CodeUnit.singleQuote :: text) 1 0 0
    m.Ready ∧ m.rest = CodeUnit.singleQuote :: text ∧
      CodePointNumber (paddedLetter wordOfZeros) 0x61 ∧
      ∃ e m', (Routine.nextToken {}).run m = some (.error e, m') ∧
        e.cause = .invalidEscape .invalidUnicode :=
  nextToken_error_of_string dvd_wordOfZeros

/-! ## Templates -/

open Template in
/-- A call scans the span that begins with the one unit at `start` and goes on with `text`: it
succeeds if the search comes upon an end, unless there is an invalid escape in front of it and the
template has no tag, and the token is what the search says. -/
structure ScansSpan (c : Context) (first : Bool) (start : Location) (text : List CodeUnit)
    (call : Option (Except LexError Token × Machine)) : Prop where
  ok_iff : (∃ t m', call = some (.ok t, m')) ↔
    ∃ e, search false text = some e ∧
      (c.taggedTemplate = true ∨ ¬HasInvalidEscape e.length text)
  place {e : Ending} {t : Token} {m' : Machine} : call = some (.ok t, m') →
    search false text = some e →
    t.start = start ∧ t.stop = start.offset + (1 + (e.length + e.width)) ∧ m'.index = t.stop ∧
      m'.rest = text.drop (e.length + e.width)
  kind {e : Ending} {t : Token} {m' : Machine} : call = some (.ok t, m') →
    search false text = some e → t.kind = kindOf first e.last
  value {e : Ending} {t : Token} {m' : Machine} : call = some (.ok t, m') →
    search false text = some e →
    ∃ cooked, t.value = .template cooked (normalize (text.take e.length)) ∧
      (cooked = none ↔ HasInvalidEscape e.length text) ∧
      (∀ units, cooked = some units ↔
        Items (text.take e.length) (text.drop e.length) units) ∧
      (CodeUnit.backslash ∉ text.take e.length →
        cooked = some (normalize (text.take e.length)))

/-- A span that a scanner scans is one for the machine that stands there. -/
theorem scansSpan_answer {b : Build} {source : List CodeUnit} {first : Bool} {start : Cursor}
    {r : Except LexError Token × Scanner} (h : EcmaLex.ScansSpan c first start text r)
    (hplace : start.IsPlaceOf source) (hrest : start.rest = u :: text) :
    ScansSpan c first start.location.wrap text (answer b source Token.wrap r) := by
  refine ⟨exists_answer_iff.trans h.ok_iff, ?_, ?_, ?_⟩
  · intro e t m' hcall he
    obtain ⟨t, s', hr, rfl, rfl⟩ := answer_eq_ok_iff.mp hcall
    obtain ⟨hstart, hstop, hcursor⟩ := h.place hr he
    have hle := Template.length_le_of_search he
    have hoffset : s'.cursor.location.offset = t.stop := by
      rw [hcursor, Cursor.offset_advance, hstop, hrest, List.length_take, List.length_cons,
        Nat.min_eq_left (by omega)]
    have hbehind : s'.cursor.rest = text.drop (e.length + e.width) := by
      rw [hcursor, Cursor.rest_advance, hrest, Nat.add_comm 1, List.drop_succ_cons]
    have hplace' : s'.cursor.IsPlaceOf source := by
      rw [hcursor]
      exact hplace.advance _
    refine ⟨congrArg Location.wrap hstart, hstop, hoffset, ?_⟩
    exact hplace'.rest_eq.symm.trans hbehind
  · intro e t m' hcall he
    obtain ⟨t, s', hr, rfl, rfl⟩ := answer_eq_ok_iff.mp hcall
    have hkind := h.kind hr he
    exact hkind
  · intro e t m' hcall he
    obtain ⟨t, s', hr, rfl, rfl⟩ := answer_eq_ok_iff.mp hcall
    have hvalue := h.value hr he
    exact hvalue

/-- Where a machine passes trivia, its scanner does. -/
theorem Ready.exists_skipTrivia {m₁ : Machine} (h : m.Ready)
    (hskip : (Routine.skipTrivia c).run { m with flags := ∅ } = some (.ok (), m₁)) :
    ∃ s₁, ({ m.scanner with flags := ∅ } : Scanner).skipTrivia c = (.ok (), s₁) ∧
      m₁ = image m.build m.source s₁ ∧ s₁.cursor.IsPlaceOf m.source := by
  have hp := Scanner.passes_trivia c { m.scanner with flags := ∅ }
  have hadmits : (image m.build m.source ({ m.scanner with flags := ∅ } : Scanner)).Admits
      m.scanner.cursor := h.admits_cursor.image
  have hrun := Routine.skipTrivia_image hp hadmits
  have hmachine : image m.build m.source ({ m.scanner with flags := ∅ } : Scanner) =
      { m with flags := ∅ } := by
    have himage := h.stands.image_scanner
    show ({ image m.build m.source m.scanner with flags := ∅ } : Machine) = _
    rw [himage]
  rw [hmachine, hskip] at hrun
  obtain ⟨hresult, rfl⟩ := Prod.mk.inj (Option.some.inj hrun)
  have hclosed :
      ¬(Scanner.trivia c { m.scanner with flags := ∅ }).any Trivia.isUnclosed = true := by
    intro hunclosed
    rw [if_pos hunclosed] at hresult
    exact nomatch hresult
  refine ⟨_, ?_, rfl, (hadmits.passes hp).place⟩
  rw [hp.skipTrivia_eq, if_neg hclosed]

/-- **Template spans.** The spans of templates that a machine reads, the first one from a backtick
behind trivia, the others from the brace before the cursor, are what a search for their end says:
joined from runs of text that are copied whole, from escapes and from line ends. -/
theorem reads_templateSpans (c : Context) (h : m.Ready) (text : List CodeUnit) :
    (∀ m₁, (Routine.skipTrivia c).run { m with flags := ∅ } = some (.ok (), m₁) →
      m₁.rest = CodeUnit.backtick :: text →
      ScansSpan c true m₁.location text ((Routine.nextToken c).run m) ∧
        ScansSpan c true m₁.location text ((Routine.scanJsxAttributeValue c).run m)) ∧
    (m.tokenRest = CodeUnit.rightBrace :: text →
      ScansSpan c false m.tokenLocation text ((Routine.scanTemplateContinuation c).run m)) := by
  obtain ⟨hhead, hcontinuation⟩ := Scanner.scansSpan c m.scanner text
  constructor
  · intro m₁ hskip hrest
    obtain ⟨s₁, htrivia, rfl, hplace⟩ := h.exists_skipTrivia hskip
    have htext : s₁.cursor.rest = CodeUnit.backtick :: text := hplace.rest_eq.trans hrest
    obtain ⟨hnext, hattribute⟩ := hhead s₁ htrivia htext
    rw [h.nextToken c, h.scanJsxAttributeValue c]
    exact ⟨scansSpan_answer hnext hplace htext, scansSpan_answer hattribute hplace htext⟩
  · intro hrest
    have hspan := scansSpan_answer (b := m.build) (hcontinuation hrest)
      h.admits_tokenStart.place hrest
    rw [h.scanTemplateContinuation c, ← m.wrap_tokenLocation]
    exact hspan

/-- A tagged template with an invalid escape in front of its end, and the middle of a template with
an escaped backtick and a lone carriage return. -/
theorem reads_templateSpans_invalidEscape :
    let head : List CodeUnit := [0x5C, 0x75, 0x7B, 0x0D, 0x0A, 0x60]
    let middle : List CodeUnit := [0x5C, 0x60, 0x0D, 0x24, 0x24, 0x7B]
    let atHead := startingAt .checked (CodeUnit.backtick :: head) 1 0 0
    let atBrace := startingAt .checked (CodeUnit.rightBrace :: middle) 1 0 0
    (atHead.Ready ∧ ∃ t m', (Routine.nextToken { taggedTemplate := true }).run atHead =
        some (.ok t, m') ∧ t.stop = 7 ∧ t.value = .template none [0x5C, 0x75, 0x7B, 0x0A]) ∧
    atBrace.Ready ∧ ∃ t m', (Routine.scanTemplateContinuation {}).run atBrace = some (.ok t, m') ∧
      t.kind = .templateMiddle ∧
      t.value = .template (some [0x60, 0x0A, 0x24]) [0x5C, 0x60, 0x0A, 0x24] := by
  intro head middle atHead atBrace
  constructor
  · have hready : atHead.Ready := ready_startingAt 0 fun _ => ⟨by decide, by decide, by decide⟩
    have hskip : (Routine.skipTrivia { taggedTemplate := true }).run { atHead with flags := ∅ } =
        some (.ok (), atHead) := by
      have hp : Scanner.Passes { taggedTemplate := true } atHead.scanner [] atHead.scanner :=
        .done rfl
      have hrun := Routine.skipTrivia_image hp hready.admits_cursor
      rw [hready.stands.image_scanner] at hrun
      exact hrun
    have hspan := ((reads_templateSpans { taggedTemplate := true } hready head).1 _ hskip rfl).1
    have hsearch : Template.search false head = some ⟨5, true⟩ := rfl
    have hpiece : Template.IsPiece head 3 none :=
      Template.isPiece_invalid (f := ⟨.invalidEscape .invalidUnicode, 2, 2, ∅⟩)
        (List.cons_ne_nil _ _) rfl
    obtain ⟨t, m', hcall⟩ := hspan.ok_iff.mpr ⟨_, hsearch, .inl rfl⟩
    obtain ⟨cooked, hvalue, hnone, -⟩ := hspan.value hcall hsearch
    refine ⟨hready, t, m', hcall, (hspan.place hcall hsearch).2.1, ?_⟩
    rw [hvalue, hnone.mpr ((hpiece.invalid_iff 2).mpr (.inl rfl))]
    rfl
  · have hready : atBrace.Ready := ready_startingAt 0 fun _ => ⟨by decide, by decide, by decide⟩
    have hspan := (reads_templateSpans {} hready middle).2 rfl
    have hsearch : Template.search false middle = some ⟨4, false⟩ := rfl
    have hbacktick : Escape.Written false [0x60] ([0x0D, 0x24] ++ [0x24, 0x7B]) [0x60] :=
      .itself (c := 0x60) (by simp [Escape.IsReserved, Escape.controls]; decide) rfl
    have hitems : Template.Items (middle.take 4) (middle.drop 4) [0x60, 0x0A, 0x24] :=
      .escape hbacktick (.carriageReturn (by decide)
        (.unit (by decide) (by decide) (by decide) (by decide) .nil))
    have hescapes : Template.escapes false 4 middle = [middle.tail] := rfl
    have hvalid : ¬Template.HasInvalidEscape 4 middle := by
      rintro ⟨t, ht, hnot⟩
      rw [hescapes, List.mem_singleton] at ht
      exact hnot ⟨_, _, _, ht, hbacktick⟩
    obtain ⟨t, m', hcall⟩ := hspan.ok_iff.mpr ⟨_, hsearch, .inr hvalid⟩
    obtain ⟨cooked, hvalue, -, hsome, -⟩ := hspan.value hcall hsearch
    refine ⟨hready, t, m', hcall, hspan.kind hcall hsearch, ?_⟩
    rw [hvalue, (hsome _).mpr hitems]
    rfl

open Escape in
/-- A search for the end of a template passes a padded letter. -/
theorem search_paddedLetter (k : Nat) :
    let escape := CodeUnit.backslash :: CodeUnit.ofChar 'u' :: paddedLetter k
    Template.search false (escape ++ [CodeUnit.backtick]) = some ⟨escape.length, true⟩ := by
  intro escape
  have hinert : ∀ u ∈ paddedLetter k, Template.Inert u := by
    rw [paddedLetter, List.forall_mem_cons, List.forall_mem_append, List.forall_mem_singleton]
    refine ⟨⟨by decide, by decide, by decide⟩, ?_, ⟨by decide, by decide, by decide⟩⟩
    intro u hu
    obtain ⟨d, hd⟩ := isDigit_hexadecimal_iff.mp (isDigit_paddedLetter k u hu)
    exact Template.inert_of_hexDigit? hd
  have hrest := Template.search_append_of_inert hinert [CodeUnit.backtick]
  show ((Template.search false (paddedLetter k ++ [CodeUnit.backtick])).map
    (Template.Ending.after 1)).map (Template.Ending.after 1) = _
  rw [hrest]
  show some (Template.Ending.mk (1 + (1 + ((paddedLetter k).length + 0))) true) = _
  rw [List.length_cons, List.length_cons, Nat.add_zero, Nat.add_comm 1, Nat.add_comm 1]

open Escape in
/-- If the digits of a padded letter are miscounted, a template of it without a tag is an error. -/
theorem nextToken_error_of_template {k : Nat} (hcount : UInt32.size ∣ k + 2) :
    let escape := CodeUnit.backslash :: CodeUnit.ofChar 'u' :: paddedLetter k
    let text := escape ++ [CodeUnit.backtick]
    let m := startingAt .wrapping (CodeUnit.backtick :: text) 1 0 0
    m.Ready ∧ m.rest = CodeUnit.backtick :: text ∧
      Template.search false text = some ⟨escape.length, true⟩ ∧
      CodePointNumber (paddedLetter k) 0x61 ∧
      ∃ e m', (Routine.nextToken {}).run m = some (.error e, m') ∧
        e.cause = .invalidEscape .invalidUnicode := by
  intro escape text m
  have hready : m.Ready := ready_startingAt 0 fun h => nomatch h
  have hrest : m.rest = CodeUnit.backtick :: text := rest_startingAt _ _ _ _
  have hfirst : Trivia.first? (m.scanner.triviaMode {}) m.rest = none := by
    rw [hrest]
    apply Trivia.first?_cons_eq_none
    · decide
    · decide
    · intro kind
      cases kind <;> decide
  have hspan : Template.span false text =
      .error ⟨.invalidEscape .invalidUnicode, 0, 1 + (k + 4), ∅⟩ := by
    have hescape := body_paddedLetter hcount (some .templateOctal) [CodeUnit.backtick]
    show Template.span false (CodeUnit.backslash :: CodeUnit.ofChar 'u' ::
      (paddedLetter k ++ [CodeUnit.backtick])) = _
    rw [Template.span, if_neg (by decide), if_neg fun h => absurd h.1 (by decide), if_pos rfl,
      if_neg (List.cons_ne_nil _ _), hescape]
    rfl
  have hread : Lexeme.read {} m.rest =
      .error ⟨.invalidEscape .invalidUnicode, 1 + 0, 1 + (1 + (k + 4)), ∅⟩ := by
    rw [hrest, Template.read_backtick]
    show ((Template.span false text).shift 1 ∅).mapValue _ = _
    rw [hspan]
    rfl
  exact ⟨hready, hrest, search_paddedLetter k, codePointNumber_paddedLetter k,
    hready.exists_error hfirst hread⟩

open Escape in
/-- **A template whose digits are miscounted.** In front of its end there is but an escape for the
letter `a`. -/
theorem nextToken_miscounts_template :
    let escape := CodeUnit.backslash :: CodeUnit.ofChar 'u' :: paddedLetter wordOfZeros
    let text := escape ++ [CodeUnit.backtick]
    let m := startingAt .wrapping (CodeUnit.backtick :: text) 1 0 0
    m.Ready ∧ m.rest = CodeUnit.backtick :: text ∧
      Template.search false text = some ⟨escape.length, true⟩ ∧
      CodePointNumber (paddedLetter wordOfZeros) 0x61 ∧
      ∃ e m', (Routine.nextToken {}).run m = some (.error e, m') ∧
        e.cause = .invalidEscape .invalidUnicode :=
  nextToken_error_of_template dvd_wordOfZeros

end EcmaLex.Machine
