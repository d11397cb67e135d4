import EcmaLex.Scanner.Basic

/-!
# Scanning to the end

`Scanner.run` calls for tokens until the end token or an error. It comes to an end because every
token but the last leaves less of the source (`rest_lt_of_next`).
-/

namespace EcmaLex

/-- Tokens up to the end token or up to an error, and the state left behind. -/
structure Run (σ : Type) where
  tokens : List Token
  error : Option LexError
  final : σ

namespace Run

/-- The tokens of a run without an error, or the error. -/
def toExcept {σ : Type} (r : Run σ) : Except LexError (List Token) :=
  match r.error with
  | some e => .error e
  | none => .ok r.tokens

/-- The run with one more token before it. -/
def cons {σ : Type} (t : Token) (r : Run σ) : Run σ := { r with tokens := t :: r.tokens }

end Run

namespace Scanner

/-! ## The rest of the source never grows -/

theorem rest_pass_le (collect : Bool) (s : Scanner) (t : Trivia) :
    (s.pass collect t).cursor.rest.length ≤ s.cursor.rest.length := by
  simp [pass, Cursor.advance]

theorem rest_foldl_pass_le (collect : Bool) (pieces : List Trivia) (s : Scanner) :
    (pieces.foldl (pass collect) s).cursor.rest.length ≤ s.cursor.rest.length := by
  induction pieces generalizing s with
  | nil => exact Nat.le_refl _
  | cons t ts ih => exact Nat.le_trans (ih (s.pass collect t)) (rest_pass_le collect s t)

theorem rest_skipTrivia_le (c : Context) (s : Scanner) :
    (s.skipTrivia c).2.cursor.rest.length ≤ s.cursor.rest.length :=
  rest_foldl_pass_le c.collectComments (s.trivia c) s

/-- A token read here that is not the end leaves less of the source. -/
theorem rest_lt_of_readHere {c : Context} {s s' : Scanner} {t : Token}
    (h : s.readHere c (Lexeme.read c) = (.ok t, s')) (ht : t.kind ≠ .eof) :
    s'.cursor.rest.length < s.cursor.rest.length := by
  unfold readHere settle at h
  split at h
  · next x hx =>
    simp only [Prod.mk.injEq, Except.ok.injEq] at h
    obtain ⟨rfl, rfl⟩ := h
    cases hr : s.cursor.rest with
    | nil =>
      rw [hr] at hx
      simp only [Lexeme.read, Except.ok.injEq] at hx
      subst hx
      exact absurd rfl ht
    | cons u rest =>
      rw [hr] at hx
      have := Lexeme.length_pos_of_read hx
      simp only [Cursor.advance, List.length_drop, hr, List.length_cons]
      omega
  · simp at h

/-- A token that is not the end leaves less of the source. -/
theorem rest_lt_of_next {c : Context} {s s' : Scanner} {t : Token}
    (h : s.next c = (.ok t, s')) (ht : t.kind ≠ .eof) :
    s'.cursor.rest.length < s.cursor.rest.length := by
  unfold next readAfterTrivia at h
  have hle := rest_skipTrivia_le c { s with flags := ∅ }
  split at h
  · simp at h
  · next s₁ hs =>
    rw [hs] at hle
    exact Nat.lt_of_lt_of_le (rest_lt_of_readHere h ht) hle

/-! ## Runs -/

/-- Tokens up to the end token, which is included, or up to an error. -/
def run (c : Context) (s : Scanner) : Run Scanner :=
  match _h : s.next c with
  | (.error e, s') => ⟨[], some e, s'⟩
  | (.ok t, s') => if _ht : t.kind = .eof then ⟨[t], none, s'⟩ else (s'.run c).cons t
termination_by s.cursor.rest.length
decreasing_by exact rest_lt_of_next _h _ht

/-- All tokens up to and including the end token. -/
def tokenizeAll (c : Context) (s : Scanner) : Except LexError (List Token) × Scanner :=
  let r := s.run c
  (r.toExcept, r.final)

end Scanner

end EcmaLex
