import EcmaLex.Proofs.Calls
import EcmaLex.Proofs.EscapeGrammar
import EcmaLex.Proofs.TriviaGrammar

/-!
# The grammar of string literals

Between its quotes a literal is a sequence of *items*: units that denote themselves, and escapes.
`StringLiteral.Items strict quote w after value` says that `w`, in front of `after`, is such a
sequence and that its items denote `value` together.

* `StringLiteral.exists_items_of_body` and `StringLiteral.exists_body_of_items`: a literal is read
  exactly where one is written.
* `Scanner.next_iff_items`: the same for the next token of a scanner, with its place and its value.
-/

namespace EcmaLex

namespace StringLiteral

/-- In front of `after`, the items of a literal between `quote`s are written `w` and denote `value`.
An item ends where the next one begins, so an escape knows all that follows it. -/
inductive Items (strict : Bool) (quote : CodeUnit) :
    List CodeUnit → List CodeUnit → List CodeUnit → Prop
  | nil {after : List CodeUnit} : Items strict quote [] after []
  | unit {u : CodeUnit} {w after value : List CodeUnit} (hquote : u ≠ quote)
      (hescape : u ≠ CodeUnit.backslash) (hlf : u ≠ CodeUnit.lineFeed)
      (hcr : u ≠ CodeUnit.carriageReturn) (hrest : Items strict quote w after value) :
      Items strict quote (u :: w) after (u :: value)
  | escape {e w after units value : List CodeUnit}
      (hescape : Escape.Written (!strict) e (w ++ after) units)
      (hrest : Items strict quote w after value) :
      Items strict quote (CodeUnit.backslash :: (e ++ w)) after (units ++ value)

variable {strict : Bool} {quote : CodeUnit}

/-- Octal escapes are refused in strict code only. -/
theorem isNone_refusal (strict : Bool) :
    (if strict then some EscapeError.strictOctal else none).isNone = !strict := by
  cases strict <;> rfl

/-- **What is read is written there.** -/
theorem exists_items_of_body {text : List CodeUnit} {x : Reading (List CodeUnit)}
    (h : body strict quote text = .ok x) :
    ∃ w rest, text = w ++ quote :: rest ∧ Items strict quote w (quote :: rest) x.value ∧
      x.length = w.length + 1 := by
  fun_induction body strict quote text generalizing x with
  | case1 => simp at h
  | case2 rest =>
    obtain rfl := Except.ok.inj h
    exact ⟨[], rest, rfl, .nil, rfl⟩
  | case3 => simp at h
  | case4 => simp at h
  | case5 => simp at h
  | case6 rest _ e he _ _ ih =>
    rw [dite_eq_ite] at he
    obtain ⟨z, hz, rfl⟩ := Outcome.mapValue_shift_eq_ok_iff.mp h
    obtain ⟨spelled, after, rfl, hescape, hlength⟩ := Escape.exists_written_of_body he
    rw [hlength, List.drop_left] at ih hz
    obtain ⟨w, rest, rfl, hitems, hz'⟩ := ih hz
    rw [isNone_refusal] at hescape
    refine ⟨_, rest, ?_, .escape hescape hitems, ?_⟩
    · simp
    · simp only [hlength, hz', List.length_cons, List.length_append]
      omega
  | case7 u rest hquote hlines hescape ih =>
    obtain ⟨z, hz, rfl⟩ := Outcome.mapValue_shift_eq_ok_iff.mp h
    obtain ⟨w, rest, rfl, hitems, hz'⟩ := ih hz
    rw [not_or] at hlines
    refine ⟨u :: w, rest, rfl, .unit hquote hescape hlines.1 hlines.2 hitems, ?_⟩
    simp only [hz', List.length_cons]
    omega

/-- **What is written is read, all of it.** -/
theorem exists_body_of_items {w after value rest : List CodeUnit}
    (hquote : quote ≠ CodeUnit.backslash) (h : Items strict quote w after value)
    (hafter : after = quote :: rest) :
    ∃ flags, body strict quote (w ++ after) = .ok ⟨value, w.length + 1, flags⟩ := by
  induction h with
  | nil =>
    subst hafter
    exact ⟨∅, body_quote strict quote rest⟩
  | @unit u w after value hu hescape hlf hcr _ ih =>
    obtain ⟨flags, hbody⟩ := ih hafter
    refine ⟨∅ ∪ flags, ?_⟩
    rw [List.cons_append, body_unit strict hu (not_or.mpr ⟨hlf, hcr⟩) hescape, hbody]
    simp [Outcome.shift, Outcome.mapValue, Nat.add_comm]
  | @escape e w after units value hescape _ ih =>
    obtain ⟨flags, hbody⟩ := ih hafter
    rw [← isNone_refusal] at hescape
    obtain ⟨x, hx, hunits, hlength⟩ := Escape.exists_body_of_written hescape
    refine ⟨x.flags ∪ flags, ?_⟩
    rw [List.cons_append, List.append_assoc, body_escape strict hquote.symm hx, hlength,
      List.drop_left, hbody]
    simp [Outcome.shift, Outcome.mapValue, contribution, hunits]
    omega

/-- A quote begins neither trivia nor a name nor a number. -/
theorem read_quote (c : Context) (text : List CodeUnit) (hquote : quote.isQuote = true) :
    Lexeme.read c (quote :: text) = read c.isStrict (quote :: text) ∧
      quote ≠ CodeUnit.backslash ∧ ∀ m, Trivia.first? m (quote :: text) = none := by
  have hquotes : quote = CodeUnit.doubleQuote ∨ quote = CodeUnit.singleQuote := by
    simpa [CodeUnit.isQuote] using hquote
  have hname : Lexeme.beginsName (quote :: text) = false := by
    rcases hquotes with rfl | rfl <;> cases text <;> rfl
  have hnumber : Lexeme.beginsNumber (quote :: text) = false := by
    rcases hquotes with rfl | rfl <;> rfl
  refine ⟨?_, ?_, ?_⟩
  · simp [Lexeme.read, hname, hnumber, hquote]
  · rcases hquotes with rfl | rfl <;> decide
  · intro m
    apply Trivia.first?_cons_eq_none
    · rcases hquotes with rfl | rfl <;> decide
    · rcases hquotes with rfl | rfl <;> decide
    · intro kind
      rcases hquotes with rfl | rfl <;> cases kind <;> decide

end StringLiteral

/-- **String literals.** On a quote the next token is read exactly if items and the same quote
follow. It is then a string literal that ends right behind the second quote, and its value is what
the items denote. -/
theorem Scanner.next_iff_items {s : Scanner} {quote : CodeUnit} {text : List CodeUnit}
    (c : Context) (hquote : quote.isQuote = true) (hrest : s.cursor.rest = quote :: text) :
    ((∃ t s', s.next c = (.ok t, s')) ↔
      ∃ w rest value, text = w ++ quote :: rest ∧
        StringLiteral.Items c.isStrict quote w (quote :: rest) value) ∧
    ∀ w rest value, text = w ++ quote :: rest →
      StringLiteral.Items c.isStrict quote w (quote :: rest) value →
      ∃ t s', s.next c = (.ok t, s') ∧ t.kind = .stringLiteral ∧ t.value = .string value ∧
        t.start = s.cursor.location ∧ t.stop = s.cursor.location.offset + (w.length + 2) ∧
        s'.cursor = s.cursor.advance (w.length + 2) := by
  obtain ⟨hread, hbackslash, htrivia⟩ := StringLiteral.read_quote c text hquote
  have hnone : Trivia.first? (s.triviaMode c) s.cursor.rest = none := by
    rw [hrest]
    exact htrivia _
  have hcomplete : ∀ w rest value, text = w ++ quote :: rest →
      StringLiteral.Items c.isStrict quote w (quote :: rest) value →
      ∃ t s', s.next c = (.ok t, s') ∧ t.kind = .stringLiteral ∧ t.value = .string value ∧
        t.start = s.cursor.location ∧ t.stop = s.cursor.location.offset + (w.length + 2) ∧
        s'.cursor = s.cursor.advance (w.length + 2) := by
    intro w rest value htext hitems
    obtain ⟨flags, hbody⟩ := StringLiteral.exists_body_of_items hbackslash hitems rfl
    have hx : Lexeme.read c s.cursor.rest =
        .ok ⟨⟨.stringLiteral, .string value⟩, w.length + 2, ∅ ∪ flags⟩ := by
      rw [hrest, hread, StringLiteral.read, htext, hbody]
      simp [Outcome.shift, Outcome.mapValue]
      omega
    exact Scanner.exists_next_of_read hnone hx (by rw [hrest, htext]; simp)
  refine ⟨⟨?_, ?_⟩, hcomplete⟩
  · rintro ⟨t, s', hnext⟩
    obtain ⟨x, hx, -, -⟩ := (Scanner.next_eq_ok_iff_of_first? hnone).mp hnext
    rw [hrest, hread, StringLiteral.read] at hx
    obtain ⟨z, hz, -⟩ := Outcome.mapValue_shift_eq_ok_iff.mp hx
    obtain ⟨w, rest, htext, hitems, -⟩ := StringLiteral.exists_items_of_body hz
    exact ⟨w, rest, z.value, htext, hitems⟩
  · rintro ⟨w, rest, value, htext, hitems⟩
    obtain ⟨t, s', hnext, -⟩ := hcomplete w rest value htext hitems
    exact ⟨t, s', hnext⟩

end EcmaLex
