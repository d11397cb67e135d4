import EcmaLex.LexError
import EcmaLex.Token.Flags

/-!
# Readers

A reader looks at the text before it and either takes a number of units or fails. It knows nothing
of where in the source it stands: all its positions count from the beginning of the text it was
given, and `shift` moves them when readers follow one another.

A failure has two positions. `place` is what the error points at, and `stop` is how far reading had
come: scanning goes on from there. The flags gathered before the failure are kept as well.
-/

namespace EcmaLex

/-- What a reader took: a value, the number of units it stands for, and facts about its spelling. -/
structure Reading (α : Type) where
  value : α
  length : Nat
  flags : TokenFlags := ∅
  deriving Repr

/-- Why and where a reader failed. -/
structure Fault where
  cause : LexError.Cause
  /-- The position the error points at. -/
  place : Nat
  /-- The position where reading stopped. -/
  stop : Nat
  flags : TokenFlags := ∅
  deriving DecidableEq, Repr

/-- The result of reading a text. -/
abbrev Outcome (α : Type) := Except Fault (Reading α)

namespace Outcome

/-- The same result seen from `n` units earlier, where facts `flags` about these units are
known. -/
def shift {α : Type} (n : Nat) (flags : TokenFlags) : Outcome α → Outcome α
  | .ok x => .ok { x with length := n + x.length, flags := flags ∪ x.flags }
  | .error f =>
    .error { f with place := n + f.place, stop := n + f.stop, flags := flags ∪ f.flags }

/-- The result with its value changed. -/
def mapValue {α β : Type} (f : α → β) : Outcome α → Outcome β
  | .ok x => .ok ⟨f x.value, x.length, x.flags⟩
  | .error e => .error e

/-- Failure right at the beginning of the text. -/
def failHere {α : Type} (cause : LexError.Cause) : Outcome α := .error ⟨cause, 0, 0, ∅⟩

/-! ## Lengths -/

variable {α β : Type} {x : Reading α} {y : Reading β} {n : Nat} {flags : TokenFlags}

/-- Shifting a result adds to its length. -/
theorem le_length_of_shift {o : Outcome α} (h : o.shift n flags = .ok x) : n ≤ x.length := by
  cases o with
  | error f => simp [shift] at h
  | ok z => simp [shift] at h; subst h; simp

/-- A shifted result comes from a result. -/
theorem exists_of_shift {o : Outcome α} (h : o.shift n flags = .ok x) :
    ∃ z, o = .ok z ∧ x.length = n + z.length := by
  cases o with
  | error f => simp [shift] at h
  | ok z => simp [shift] at h; subst h; exact ⟨z, rfl, rfl⟩

/-- Changing the value does not change the length. -/
theorem exists_of_mapValue {o : Outcome α} {f : α → β} (h : o.mapValue f = .ok y) :
    ∃ z, o = .ok z ∧ y.length = z.length := by
  cases o with
  | error f => simp [mapValue] at h
  | ok z => simp [mapValue] at h; subst h; exact ⟨z, rfl, rfl⟩

end Outcome

/-- A way to read the beginning of a text. -/
def Reader (α : Type) := List CodeUnit → Outcome α

namespace Reader

variable {α β : Type}

/-- Takes nothing. -/
def done (a : α) : Reader α := fun _ => .ok ⟨a, 0, ∅⟩

/-- Reads with `r`, then the rest with the reader that its value chooses. -/
def andThen (r : Reader α) (next : α → Reader β) : Reader β := fun text =>
  match r text with
  | .error f => .error f
  | .ok x => (next x.value (text.drop x.length)).shift x.length x.flags

instance : Monad Reader where
  pure := done
  bind := andThen

/-- Fails before taking anything. -/
def fail (cause : LexError.Cause) : Reader α := fun _ => .failHere cause

/-- The text ahead, of which nothing is taken. -/
def ahead : Reader (List CodeUnit) := fun text => .ok ⟨text, 0, ∅⟩

/-- Notes facts about the spelling. -/
def note (flags : TokenFlags) : Reader Unit := fun _ => .ok ⟨(), 0, flags⟩

/-- Takes `n` units, or all that are left. -/
def take (n : Nat) : Reader (List CodeUnit) := fun text =>
  .ok ⟨text.take n, (text.take n).length, ∅⟩

/-- Takes the longest run of units with the property `p`. -/
def takeWhile (p : CodeUnit → Bool) : Reader (List CodeUnit) := fun text =>
  .ok ⟨text.takeWhile p, (text.takeWhile p).length, ∅⟩

/-- Turns what was read, and its text, into a value. A refusal points at the beginning, but all
that was read stays behind. -/
def interpret (r : Reader α) (f : Reading α → List CodeUnit → Except LexError.Cause β) :
    Reader β := fun text =>
  match r text with
  | .error e => .error e
  | .ok x =>
    match f x (text.take x.length) with
    | .ok b => .ok ⟨b, x.length, x.flags⟩
    | .error cause => .error ⟨cause, 0, x.length, x.flags⟩

/-! ## Lengths -/

variable {x : Reading α} {y : Reading β} {text : List CodeUnit}

/-- A sequence of readers takes what the first takes and then what the second takes. -/
theorem exists_of_bind {r : Reader α} {next : α → Reader β}
    (h : (r >>= next) text = .ok y) :
    ∃ z w, r text = .ok z ∧ next z.value (text.drop z.length) = .ok w ∧
      y.length = z.length + w.length := by
  change r.andThen next text = .ok y at h
  unfold andThen at h
  split at h
  · simp at h
  · next z hz =>
    obtain ⟨w, hw, hy⟩ := Outcome.exists_of_shift h
    exact ⟨z, w, hz, hw, hy⟩

/-- Interpreting what was read does not change its length. -/
theorem exists_of_interpret {r : Reader α} {f : Reading α → List CodeUnit → Except _ β}
    (h : r.interpret f text = .ok y) : ∃ z, r text = .ok z ∧ y.length = z.length := by
  unfold interpret at h
  split at h
  · simp at h
  · next z hz =>
    split at h
    · simp at h; subst h; exact ⟨z, hz, rfl⟩
    · simp at h

end Reader

end EcmaLex
