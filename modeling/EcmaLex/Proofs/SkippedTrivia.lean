import EcmaLex.Proofs.LineEnds
import EcmaLex.Proofs.Readings
import EcmaLex.Scanner.Run

/-!
# Skipped trivia

The scanner reads all trivia ahead and then passes the pieces. `Scanner.Passes` says the same one
piece at a time: *a piece that the grammar sees at the cursor is passed, until it sees none*. What
has to be known of a single piece is proved once, by `cases` on the step, and what holds before a
token follows by induction.

* `passes_trivia` and `Passes.trivia_eq`: skipping trivia is such a sequence of steps, and the only
  one.
* `readAfterTrivia_cases`: what the calls that skip trivia first can do.
-/

namespace EcmaLex

namespace Trivia

theorem read_of_none {m : Mode} {text : List CodeUnit} (h : first? m text = none) :
    read m text = [] := by
  rw [read]
  split
  · rfl
  · next t ht => rw [h] at ht; exact absurd ht (by simp)

theorem read_of_some {m : Mode} {text : List CodeUnit} {t : Trivia} (h : first? m text = some t) :
    read m text = t :: read (m.after t) (text.drop t.length) := by
  rw [read]
  split
  · next hn => rw [h] at hn; exact absurd hn (by simp)
  · next t' ht =>
    rw [h] at ht
    cases ht
    rfl

end Trivia

namespace Scanner

/-- The circumstances of the trivia at the cursor. -/
def triviaMode (c : Context) (s : Scanner) : Trivia.Mode :=
  ⟨c.allowsHtmlComments, s.lineStart, s.cursor.location.offset == 0⟩

/-- Passing the trivia at the cursor piece by piece, until there is none. -/
inductive Passes (c : Context) : Scanner → List Trivia → Scanner → Prop
  | done {s : Scanner} : Trivia.first? (s.triviaMode c) s.cursor.rest = none → Passes c s [] s
  | piece {s s' : Scanner} {t : Trivia} {ts : List Trivia} :
      Trivia.first? (s.triviaMode c) s.cursor.rest = some t →
      Passes c (s.pass c.collectComments t) ts s' → Passes c s (t :: ts) s'

/-! ## What passing a piece does -/

section Pass
variable (collect : Bool) (s : Scanner) (t : Trivia)

@[simp] theorem cursor_pass : (s.pass collect t).cursor = s.cursor.advance t.length := rfl

@[simp] theorem tokenStart_pass : (s.pass collect t).tokenStart = s.tokenStart := rfl

@[simp] theorem lineStart_pass : (s.pass collect t).lineStart = (s.lineStart || t.endsLine) := rfl

@[simp] theorem flags_pass :
    (s.pass collect t).flags = s.flags ∪ { newLineBefore := t.endsLine } := rfl

end Pass

/-- After a piece the circumstances are the next ones. The source no longer begins here, because a
piece takes at least one unit. -/
theorem triviaMode_pass {c : Context} {s : Scanner} {t : Trivia} (collect : Bool)
    (h : Trivia.first? (s.triviaMode c) s.cursor.rest = some t) :
    (s.pass collect t).triviaMode c = (s.triviaMode c).after t := by
  have hpos := t.length_pos
  have hrest := List.length_pos_iff.mpr (Trivia.ne_nil_of_first? h)
  have hoff : s.cursor.location.offset + (s.cursor.rest.take t.length).length ≠ 0 := by
    rw [List.length_take]
    omega
  simp only [triviaMode, Trivia.Mode.after, lineStart_pass, cursor_pass, Cursor.location_advance,
    Location.offset_after, beq_eq_false_iff_ne.mpr hoff]

/-! ## Skipping is passing -/

/-- The trivia ahead are a piece and the trivia after it. -/
theorem trivia_eq_cons {c : Context} {s : Scanner} {t : Trivia}
    (h : Trivia.first? (s.triviaMode c) s.cursor.rest = some t) :
    s.trivia c = t :: (s.pass c.collectComments t).trivia c := by
  have := Trivia.read_of_some h
  rw [← triviaMode_pass c.collectComments h] at this
  exact this

theorem passes_trivia (c : Context) (s : Scanner) :
    Passes c s (s.trivia c) ((s.trivia c).foldl (pass c.collectComments) s) := by
  induction hn : s.cursor.rest.length using Nat.strongRecOn generalizing s with
  | ind n ih =>
    cases h : Trivia.first? (s.triviaMode c) s.cursor.rest with
    | none =>
      have hnil : s.trivia c = [] := Trivia.read_of_none h
      rw [hnil]
      exact .done h
    | some t =>
      have hlt : (s.pass c.collectComments t).cursor.rest.length < n := by
        have := t.length_pos
        have := List.length_pos_iff.mpr (Trivia.ne_nil_of_first? h)
        rw [cursor_pass, Cursor.rest_advance, List.length_drop]
        omega
      rw [trivia_eq_cons h]
      exact .piece h (ih _ hlt _ rfl)

/-- There is one way to pass the trivia ahead. -/
theorem Passes.trivia_eq {c : Context} {s s' : Scanner} {ts : List Trivia}
    (h : Passes c s ts s') :
    s.trivia c = ts ∧ ts.foldl (pass c.collectComments) s = s' := by
  induction h with
  | done h => exact ⟨Trivia.read_of_none h, rfl⟩
  | piece h _ ih => exact ⟨by rw [trivia_eq_cons h, ih.1], ih.2⟩

/-- Skipping trivia passes pieces, and fails if one of them is a comment without an end. -/
theorem Passes.skipTrivia_eq {c : Context} {s s' : Scanner} {ts : List Trivia}
    (h : Passes c s ts s') :
    s.skipTrivia c =
      (if ts.any Trivia.isUnclosed then .error ⟨.unterminatedComment, s'.cursor.location⟩
        else .ok (), s') := by
  obtain ⟨hts, hs'⟩ := h.trivia_eq
  rw [← hs', ← hts]
  rfl

/-- A token read after trivia is read where no more trivia begins. -/
theorem Passes.readAfterTrivia_eq {c : Context} {s s₁ : Scanner} {ts : List Trivia}
    (h : Passes c { s with flags := ∅ } ts s₁) (hu : ts.any Trivia.isUnclosed = false)
    (choose : List CodeUnit → Reader Lexeme) :
    s.readAfterTrivia c choose = s₁.readHere c (choose s₁.cursor.rest) := by
  simp [readAfterTrivia, h.skipTrivia_eq, hu]

/-- **The calls that skip trivia.** Such a call passes trivia, with the flags cleared. Then either a
comment was not closed, or a token is read where no more trivia begins. -/
theorem readAfterTrivia_cases (c : Context) (choose : List CodeUnit → Reader Lexeme) (s : Scanner) :
    ∃ ts s₁, Passes c { s with flags := ∅ } ts s₁ ∧
      (ts.any Trivia.isUnclosed = true ∧ s.readAfterTrivia c choose =
          (.error ⟨.unterminatedComment, s₁.cursor.location⟩, s₁) ∨
        ts.any Trivia.isUnclosed = false ∧
          s.readAfterTrivia c choose = s₁.readHere c (choose s₁.cursor.rest)) := by
  have hp := passes_trivia c { s with flags := ∅ }
  refine ⟨_, _, hp, ?_⟩
  cases hu : (Scanner.trivia c { s with flags := ∅ }).any Trivia.isUnclosed with
  | true => exact .inl ⟨rfl, by simp only [readAfterTrivia, hp.skipTrivia_eq, hu, if_true]⟩
  | false => exact .inr ⟨rfl, hp.readAfterTrivia_eq hu choose⟩

namespace Passes

variable {c : Context} {s s' : Scanner} {ts : List Trivia}

/-- All that trivia depend on in a context is which comments there are and whether to collect
them. -/
theorem congr (h : Passes c s ts s') (c' : Context)
    (hhtml : c'.allowsHtmlComments = c.allowsHtmlComments)
    (hcollect : c'.collectComments = c.collectComments) : Passes c' s ts s' := by
  have hmode (s : Scanner) : s.triviaMode c' = s.triviaMode c := by
    unfold triviaMode
    rw [hhtml]
  induction h with
  | done h => exact .done (by rwa [hmode])
  | piece h _ ih => exact .piece (by rwa [hmode]) (by rwa [hcollect])

/-- Where passing stops, no trivia begins. -/
theorem first?_eq_none (h : Passes c s ts s') :
    Trivia.first? (s'.triviaMode c) s'.cursor.rest = none := by
  induction h with
  | done h => exact h
  | piece _ _ ih => exact ih

/-- Passing trivia notes whether a line ended in one of the pieces. -/
theorem flags_eq (h : Passes c s ts s') :
    s'.flags = s.flags ∪ { newLineBefore := ts.any Trivia.endsLine } := by
  induction h with
  | done _ => exact (TokenFlags.union_empty _).symm
  | piece _ _ ih =>
    rw [ih, flags_pass, TokenFlags.union_assoc]
    rfl

theorem lineStart_eq (h : Passes c s ts s') :
    s'.lineStart = (s.lineStart || ts.any Trivia.endsLine) := by
  induction h with
  | done _ => simp
  | piece _ _ ih => rw [ih, lineStart_pass, List.any_cons, Bool.or_assoc]

end Passes

end Scanner

end EcmaLex
