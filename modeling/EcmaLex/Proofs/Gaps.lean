import EcmaLex.Proofs.Calls
import EcmaLex.Proofs.PositionTracking

/-!
# Gaps

What stands between two tokens is trivia and nothing else. `Trivia.Fills source m i ts j` says that
the pieces `ts`, each spelled as `Trivia.Written` has it, fill the source from `i` to `j` without a
hole, and that no further piece could begin at `j`. Passing trivia fills a gap (`Passes.fills`) and
collects its comments, with their extents (`Passes.extents_eq`) and texts (`Passes.textsExact`).
-/

namespace EcmaLex

/-! ## Extents of comments -/

/-- Where a comment stands in its source, delimiters included. -/
structure Comment.Extent where
  kind : Comment.Kind
  start : Nat
  stop : Nat
  deriving DecidableEq, Repr

namespace Comment

/-- The extent of a collected comment. -/
def extent (k : Comment) : Extent := ⟨k.kind, k.start.offset, k.stop.offset⟩

/-- What a source has between the delimiters of a comment. -/
def Extent.interior (source : List CodeUnit) (e : Extent) : List CodeUnit :=
  source.extract (e.start + e.kind.opener.length) (e.stop - e.kind.closer.length)

/-- The texts of comments are what the source has between their delimiters. -/
def TextsExact (source : List CodeUnit) (ks : Array Comment) : Prop :=
  ∀ k ∈ ks, k.text = Utf16.lossy (k.extent.interior source)

end Comment

namespace Trivia

/-- The extent of a piece at an offset, if it is a comment. -/
def extent? (i : Nat) : Trivia → Option Comment.Extent
  | .comment kind text => some ⟨kind, i, i + (Trivia.comment kind text).length⟩
  | _ => none

/-- The extents of the comments among pieces from an offset on. -/
def extents (i : Nat) : List Trivia → List Comment.Extent
  | [] => []
  | t :: ts => (t.extent? i).toList ++ extents (i + t.length) ts

/-! ## Filled gaps -/

/-- The pieces fill the source from one offset to another, and no piece can begin after them. -/
inductive Fills (source : List CodeUnit) : Mode → Nat → List Trivia → Nat → Prop
  | done {m : Mode} {i : Nat} (hend : ¬CanBegin m (source.drop i)) : Fills source m i [] i
  | piece {m : Mode} {i j : Nat} {t : Trivia} {ts : List Trivia} {text rest : List CodeUnit}
      (hsource : source.drop i = text ++ rest) (hwritten : Written m t text rest)
      (hclosed : t.isUnclosed = false) (hrest : Fills source (m.after t) (i + t.length) ts j) :
      Fills source m i (t :: ts) j

theorem Fills.le {source : List CodeUnit} {m : Mode} {i j : Nat} {ts : List Trivia}
    (h : Fills source m i ts j) : i ≤ j := by
  induction h with
  | done _ => exact Nat.le_refl _
  | piece _ _ _ _ ih => omega

/-- A comment is written with its delimiters around its text. -/
theorem Written.eq_append_of_comment {m : Mode} {kind : Comment.Kind}
    {inner text rest : List CodeUnit} (h : Written m (.comment kind inner) text rest) :
    text = kind.opener ++ (inner ++ kind.closer) := by
  cases h with
  | lineComment hkind =>
    have hcloser : kind.closer = [] := by cases kind <;> simp_all [Comment.Kind.closer]
    rw [hcloser, List.append_nil]
  | block => rfl

/-- The interior of a comment that is written at an offset is its text. -/
theorem interior_of_written {source : List CodeUnit} {m : Mode} {i : Nat} {kind : Comment.Kind}
    {inner text rest : List CodeUnit} (hsource : source.drop i = text ++ rest)
    (h : Written m (.comment kind inner) text rest) :
    (Comment.Extent.mk kind i (i + (Trivia.comment kind inner).length)).interior source =
      inner := by
  have hdrop : source.drop (i + kind.opener.length) = inner ++ (kind.closer ++ rest) := by
    rw [← List.drop_drop, hsource, h.eq_append_of_comment]
    simp
  have hlen : i + (Trivia.comment kind inner).length - kind.closer.length -
      (i + kind.opener.length) = inner.length := by
    simp only [Trivia.length]
    omega
  rw [Comment.Extent.interior, List.extract_eq_take_drop, hdrop, hlen, List.take_left]

end Trivia

/-! ## Passing trivia fills a gap -/

namespace Scanner

variable {source : List CodeUnit} {start : Location} {c : Context} {s s' : Scanner} {t : Trivia}

/-- A piece that is found at the cursor is written in the source, right there. -/
theorem Tracks.written (h : s.Tracks source start)
    (ht : Trivia.first? (s.triviaMode c) s.cursor.rest = some t) :
    ∃ text rest, source.drop s.cursor.location.offset = text ++ rest ∧
      Trivia.Written (s.triviaMode c) t text rest := by
  rw [← h.cursor.rest_eq]
  exact Trivia.written_of_first? ht

/-- The cursor moves over a piece by the length of the piece. -/
theorem offset_pass (collect : Bool)
    (ht : Trivia.first? (s.triviaMode c) s.cursor.rest = some t) :
    (s.pass collect t).cursor.location.offset = s.cursor.location.offset + t.length := by
  have hle := (Trivia.cleanCut_of_first? ht).le
  rw [cursor_pass, Cursor.offset_advance, List.length_take, Nat.min_eq_left hle]

/-- Passing a piece collects its comment, if it is one. -/
theorem extents_pass (ht : Trivia.first? (s.triviaMode c) s.cursor.rest = some t) :
    (s.pass true t).comments.toList.map Comment.extent =
      s.comments.toList.map Comment.extent ++ (t.extent? s.cursor.location.offset).toList := by
  have hle := (Trivia.cleanCut_of_first? ht).le
  cases t with
  | comment kind text => simp [pass, Trivia.extent?, Comment.extent, hle]
  | blank => simp [pass, Trivia.extent?]
  | lineBreak crlf => simp [pass, Trivia.extent?]
  | unclosed text => simp [pass, Trivia.extent?]

theorem textsExact_pass (h : s.Tracks source start)
    (ht : Trivia.first? (s.triviaMode c) s.cursor.rest = some t)
    (hs : Comment.TextsExact source s.comments) :
    Comment.TextsExact source (s.pass true t).comments := by
  have hoff := offset_pass true ht
  cases t with
  | comment kind inner =>
    intro k hk
    rcases Array.mem_push.mp hk with hk | rfl
    · exact hs k hk
    · obtain ⟨text, rest, hsource, hwritten⟩ := h.written ht
      rw [cursor_pass] at hoff
      show Utf16.lossy inner = Utf16.lossy (Comment.Extent.interior source ⟨_, _, _⟩)
      rw [hoff, Trivia.interior_of_written hsource hwritten]
  | blank => exact hs
  | lineBreak crlf => exact hs
  | unclosed text => exact hs

namespace Passes

variable {ts : List Trivia}

/-- **Passed trivia fills the source** from where the cursor was to where it is. -/
theorem fills (hp : Passes c s ts s') (h : s.Tracks source start)
    (hclosed : ts.any Trivia.isUnclosed = false) :
    Trivia.Fills source (s.triviaMode c) s.cursor.location.offset ts
      s'.cursor.location.offset := by
  induction hp with
  | done hnone =>
    refine .done ?_
    rw [← h.cursor.rest_eq]
    exact Trivia.first?_eq_none_iff.mp hnone
  | piece ht _ ih =>
    obtain ⟨text, rest, hsource, hwritten⟩ := h.written ht
    rw [List.any_cons, Bool.or_eq_false_iff] at hclosed
    refine .piece hsource hwritten hclosed.1 ?_
    rw [← offset_pass c.collectComments ht, ← triviaMode_pass c.collectComments ht]
    exact ih (h.pass _ (Trivia.cleanCut_of_first? ht)) hclosed.2

/-- The comments of the passed trivia are collected, in order. -/
theorem extents_eq (hp : Passes c s ts s') (hc : c.collectComments = true) :
    s'.comments.toList.map Comment.extent =
      s.comments.toList.map Comment.extent ++ Trivia.extents s.cursor.location.offset ts := by
  induction hp with
  | done _ => simp [Trivia.extents]
  | piece ht _ ih =>
    rw [ih, offset_pass c.collectComments ht, hc, extents_pass ht, Trivia.extents,
      List.append_assoc]

theorem textsExact (hp : Passes c s ts s') (hc : c.collectComments = true)
    (h : s.Tracks source start) (hs : Comment.TextsExact source s.comments) :
    Comment.TextsExact source s'.comments := by
  induction hp with
  | done _ => exact hs
  | piece ht _ ih =>
    refine ih (h.pass _ (Trivia.cleanCut_of_first? ht)) ?_
    rw [hc]
    exact textsExact_pass h ht hs

end Passes

end Scanner

end EcmaLex
