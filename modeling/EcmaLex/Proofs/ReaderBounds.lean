import EcmaLex.Proofs.CodePoints
import EcmaLex.Proofs.StableReaders
import EcmaLex.Proofs.TriviaGrammar

/-!
# Readers stay inside their texts

Every position that a reader reports lies inside the text before it. Where a reader stops at clean
cuts only, this is part of what a clean cut is; a reader of tokens does so whatever the text begins
with (`Lexeme.inside_read`).
-/

namespace EcmaLex

/-- All positions of a result lie inside the text. -/
def Outcome.Inside {α : Type} (text : List CodeUnit) : Outcome α → Prop
  | .ok x => x.length ≤ text.length
  | .error f => f.place ≤ text.length ∧ f.stop ≤ text.length

theorem Outcome.Clean.inside {α : Type} {text : List CodeUnit} {o : Outcome α}
    (h : o.Clean text) : o.Inside text := by
  cases o with
  | ok x => exact h.le
  | error f => exact ⟨h.1.le, h.2.le⟩

theorem Outcome.Inside.shift_one {α : Type} {u : CodeUnit} {rest : List CodeUnit} {o : Outcome α}
    {flags : TokenFlags} (h : o.Inside rest) : (o.shift 1 flags).Inside (u :: rest) := by
  have hsucc {n : Nat} (hn : n ≤ rest.length) : 1 + n ≤ (u :: rest).length := by
    rw [List.length_cons]
    omega
  cases o with
  | ok x => exact hsucc h
  | error f => exact ⟨hsucc h.1, hsucc h.2⟩

theorem Reader.inside_interpret {α β : Type} {text : List CodeUnit} {r : Reader α}
    {f : Reading α → List CodeUnit → Except LexError.Cause β} (hr : (r text).Inside text) :
    (r.interpret f text).Inside text := by
  unfold interpret
  cases hx : r text with
  | error e =>
    rw [hx] at hr
    exact hr
  | ok x =>
    rw [hx] at hr
    dsimp only
    cases f x (text.take x.length) with
    | ok b => exact hr
    | error cause => exact ⟨Nat.zero_le _, hr⟩

/-- Whatever stands where the opening slash should. -/
theorem RegExp.inside_read (u : CodeUnit) (rest : List CodeUnit) :
    (read (u :: rest)).Inside (u :: rest) :=
  Reader.inside_interpret (clean_body rest).inside.shift_one

theorem Lexeme.inside_readPunctuator (jsx : Bool) (u : CodeUnit) (rest : List CodeUnit) :
    (readPunctuator jsx (u :: rest)).Inside (u :: rest) := by
  unfold readPunctuator
  split
  · next p hp =>
    have hmatch := List.find?_some hp
    rw [Punctuator.matchesAt, Bool.and_eq_true, List.isPrefixOf_iff_prefix] at hmatch
    exact hmatch.1.length_le
  · exact ⟨Nat.zero_le _, Nat.succ_le_succ (Nat.zero_le _)⟩

/-- Whatever the text begins with. -/
theorem Lexeme.inside_read (c : Context) (text : List CodeUnit) : (read c text).Inside text := by
  cases text with
  | nil => exact Nat.le_refl 0
  | cons u rest =>
    simp only [read]
    split
    · exact (Identifier.clean_read _).inside
    split
    · exact (Numeric.clean_read _ _).inside
    split
    · next hquote =>
      refine (StringLiteral.clean_read _ ?_ rest).inside
      rintro rfl
      exact absurd hquote (by decide)
    split
    · next hu =>
      subst hu
      exact (Template.clean_read _ _ (by decide) rest).inside
    split
    · next hu =>
      subst hu
      exact (Identifier.clean_readPrivate (by decide) rest).inside
    split
    · exact RegExp.inside_read u rest
    split
    · exact inside_readPunctuator _ u rest
    · exact ⟨Nat.zero_le _, Nat.zero_le _⟩

end EcmaLex
