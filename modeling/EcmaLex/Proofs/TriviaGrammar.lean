import EcmaLex.Proofs.LineEnds
import EcmaLex.Trivia

/-!
# The grammar of trivia

`Trivia.first?` looks at a text and finds the piece of trivia that it begins with. This module says
what such pieces *are*: `Written m t piece rest` gives the spelling of each, together with what must
and must not follow it, and `CanBegin` tells where a piece begins at all.

* `written_of_first?`: what is found is written there.
* `first?_eq_none_iff`: nothing is found exactly where no piece can begin.
* `Written.cleanCut`: a piece never ends between a carriage return and its line feed.
-/

namespace EcmaLex.Trivia

open Comment (Kind)

/-! ## Spellings -/

/-- Whether comments of a kind exist in the circumstances. HTML-like comments depend on the context,
their closing form also on the line, and a hashbang on the source. -/
def Mode.recognises (m : Mode) : Kind → Bool
  | .singleLine | .multiLine => true
  | .htmlOpen => m.html
  | .htmlClose => m.html && m.lineStart
  | .hashbang => m.sourceStart

/-- A piece of trivia begins with the text. -/
def CanBegin (m : Mode) (text : List CodeUnit) : Prop :=
  (∃ u, text.head? = some u ∧ (u.isBlank = true ∨ u.isLineTerminator = true)) ∨
    ∃ kind, m.recognises kind = true ∧ kind.opener <+: text

/-- In front of `rest`, the piece `t` is written `piece`. A comment that ends with its line reaches
up to a line terminator, and a block comment ends at its first closing delimiter. -/
inductive Written (m : Mode) : Trivia → List CodeUnit → List CodeUnit → Prop
  | blank {u : CodeUnit} {rest : List CodeUnit} (hu : u.isBlank = true) :
      Written m .blank [u] rest
  | lineBreak {u : CodeUnit} {rest : List CodeUnit} (hu : u.isLineTerminator = true)
      (halone : ¬(u = CodeUnit.carriageReturn ∧ rest.head? = some CodeUnit.lineFeed)) :
      Written m (.lineBreak false) [u] rest
  | crlf {rest : List CodeUnit} :
      Written m (.lineBreak true) [CodeUnit.carriageReturn, CodeUnit.lineFeed] rest
  | lineComment {kind : Kind} {inner rest : List CodeUnit} (hkind : kind ≠ .multiLine)
      (hm : m.recognises kind = true) (hinner : ∀ u ∈ inner, u.isLineTerminator = false)
      (hrest : ∀ u, rest.head? = some u → u.isLineTerminator = true) :
      Written m (.comment kind inner) (kind.opener ++ inner) rest
  | block {inner rest : List CodeUnit}
      (hfirst : ∀ i < inner.length,
        ¬Kind.multiLine.closer <+: (inner ++ Kind.multiLine.closer).drop i) :
      Written m (.comment .multiLine inner)
        (Kind.multiLine.opener ++ (inner ++ Kind.multiLine.closer)) rest
  | unclosed {inner : List CodeUnit} (hopen : ∀ i, ¬Kind.multiLine.closer <+: inner.drop i) :
      Written m (.unclosed inner) (Kind.multiLine.opener ++ inner) []

namespace Written

variable {m : Mode} {t : Trivia} {piece rest : List CodeUnit}

theorem length_eq (h : Written m t piece rest) : piece.length = t.length := by
  cases h with
  | blank => rfl
  | lineBreak => rfl
  | crlf => rfl
  | lineComment hkind =>
    rename_i kind inner _ _ _
    cases kind <;> simp_all [Trivia.length, Kind.closer]
  | block => simp [Trivia.length, Nat.add_assoc]
  | unclosed => simp [Trivia.length]

/-- No delimiter of a comment contains a line terminator. -/
theorem return_not_mem_opener (kind : Kind) : CodeUnit.carriageReturn ∉ kind.opener := by
  cases kind <;> decide

/-- A piece does not end between a carriage return and its line feed. -/
theorem cleanCut (h : Written m t piece rest) : Text.CleanCut (piece ++ rest) piece.length := by
  cases h with
  | blank hu =>
    refine .one ?_
    rintro rfl
    exact absurd hu (by decide)
  | lineBreak hu halone =>
    refine ⟨by simp, ?_⟩
    simpa [Text.SplitsLineEnd, List.head?_eq_getElem?] using halone
  | crlf => exact Text.CleanCut.of_before (n := 1) (by simp) (by simp; decide)
  | lineComment _ _ hinner _ =>
    apply Text.CleanCut.of_isPrefixOf (List.prefix_append _ _)
    rw [List.mem_append]
    rintro (hmem | hmem)
    · exact return_not_mem_opener _ hmem
    · exact absurd (hinner _ hmem) (by decide)
  | @block inner _ _ =>
    -- the unit before the cut is the slash that closes the comment
    have hlen : (Kind.multiLine.opener ++ (inner ++ Kind.multiLine.closer)).length =
        inner.length + 3 + 1 := by
      simp [Kind.opener, Kind.closer]
    rw [hlen]
    refine .of_before ?_ ?_
    · simp [Kind.opener, Kind.closer]
    · simp [Kind.opener, Kind.closer]
      decide
  | unclosed =>
    rw [List.append_nil]
    exact .length _

end Written

/-! ## What is found -/

/-- Two different opening delimiters differ in one of their first two units. -/
theorem opener_unique {a b : Kind} {text : List CodeUnit} (ha : a.opener <+: text)
    (hb : b.opener <+: text) : a = b := by
  have htwo : a.opener.take 2 = b.opener.take 2 := by
    have hlen (kind : Kind) : 2 ≤ kind.opener.length := by cases kind <;> decide
    have htake {kind : Kind} (h : kind.opener <+: text) : kind.opener.take 2 = text.take 2 := by
      rw [List.prefix_iff_eq_take.mp h, List.take_take, Nat.min_eq_left (hlen kind)]
    rw [htake ha, htake hb]
  clear ha hb
  revert htwo
  cases a <;> cases b <;> decide

/-- A comment is found exactly where one of a kind that exists begins. -/
theorem opening?_eq_some_iff {m : Mode} {text : List CodeUnit} {kind : Kind} :
    opening? m text = some kind ↔ m.recognises kind = true ∧ kind.opener <+: text := by
  have hsound {k : Kind} (h : opening? m text = some k) :
      m.recognises k = true ∧ k.opener <+: text := by
    unfold opening? at h
    simp only [Bool.and_eq_true, List.isPrefixOf_iff_prefix] at h
    split_ifs at h with h₁ h₂ h₃ h₄ h₅ <;> obtain rfl := Option.some.inj h
    · exact ⟨rfl, h₁⟩
    · exact ⟨rfl, h₂⟩
    · exact h₃
    · exact ⟨by simp [Mode.recognises, h₄.1.1, h₄.1.2], h₄.2⟩
    · exact h₅
  refine ⟨hsound, ?_⟩
  rintro ⟨hm, hpre⟩
  cases hk : opening? m text with
  | some k => rw [opener_unique (hsound hk).2 hpre]
  | none =>
    unfold opening? at hk
    simp only [Bool.and_eq_true, List.isPrefixOf_iff_prefix] at hk
    split_ifs at hk with h₁ h₂ h₃ h₄ h₅
    cases kind <;> simp_all [Mode.recognises]

theorem closer_prefix_cons {u : CodeUnit} {text : List CodeUnit} :
    Kind.multiLine.closer <+: u :: text ↔
      u = CodeUnit.star ∧ text.head? = some CodeUnit.slash := by
  cases text with
  | nil => simp [Kind.closer]
  | cons v rest => simp [Kind.closer, List.cons_prefix_cons, eq_comm]

/-- The text of a block comment ends at the first closing delimiter. -/
theorem eq_append_of_blockText? {text inner : List CodeUnit} (h : blockText? text = some inner) :
    ∃ rest, text = inner ++ Kind.multiLine.closer ++ rest ∧
      ∀ i < inner.length, ¬Kind.multiLine.closer <+: (inner ++ Kind.multiLine.closer).drop i := by
  fun_induction blockText? text generalizing inner with
  | case1 u v rest huv =>
    obtain rfl := Option.some.inj h
    exact ⟨rest, by simp [Kind.closer, huv], by simp⟩
  | case2 u v rest huv ih =>
    obtain ⟨inner, hinner, rfl⟩ := Option.map_eq_some_iff.mp h
    obtain ⟨rest', heq, hfirst⟩ := ih hinner
    refine ⟨rest', by rw [heq]; simp, ?_⟩
    intro i hi
    cases i with
    | zero =>
      -- the unit after the first is the same with the rest of the text cut off
      have hhead : (inner ++ Kind.multiLine.closer).head? = some v := by
        have := congrArg List.head? heq
        cases inner <;> simpa [Kind.closer, eq_comm] using this
      rw [List.drop_zero, List.cons_append, closer_prefix_cons, hhead, Option.some.injEq]
      exact huv
    | succ i => exact hfirst i (by simpa using hi)
  | case3 => simp at h

/-- A comment without a closing delimiter. -/
theorem not_closer_of_blockText? {text : List CodeUnit} (h : blockText? text = none) (i : Nat) :
    ¬Kind.multiLine.closer <+: text.drop i := by
  fun_induction blockText? text generalizing i with
  | case1 => simp at h
  | case2 u v rest huv ih =>
    cases i with
    | zero =>
      rw [List.drop_zero, closer_prefix_cons, List.head?_cons, Option.some.injEq]
      exact huv
    | succ i => exact ih (by simpa using h) i
  | case3 text hshort =>
    match text with
    | [] => simp [Kind.closer]
    | [u] => cases i <;> simp [Kind.closer]
    | u :: v :: rest => exact absurd rfl (hshort u v rest)

/-- A comment that is found is written there. -/
theorem written_commentOf {m : Mode} {text : List CodeUnit} {kind : Kind}
    (hm : m.recognises kind = true) (hpre : kind.opener <+: text) :
    ∃ piece rest, text = piece ++ rest ∧ Written m (commentOf kind text) piece rest := by
  obtain ⟨inner, rfl⟩ := hpre
  by_cases hkind : kind = .multiLine
  · subst hkind
    simp only [commentOf, List.drop_left]
    cases hb : blockText? inner with
    | some t =>
      obtain ⟨rest, rfl, hfirst⟩ := eq_append_of_blockText? hb
      exact ⟨_, rest, by simp, .block hfirst⟩
    | none =>
      exact ⟨_, [], by simp, .unclosed (not_closer_of_blockText? hb)⟩
  · have hof : commentOf kind (kind.opener ++ inner) =
        .comment kind (inner.takeWhile fun u => !u.isLineTerminator) := by
      cases kind <;> simp_all [commentOf]
    rw [hof]
    refine ⟨_, inner.dropWhile fun u => !u.isLineTerminator, ?_, .lineComment hkind hm ?_ ?_⟩
    · rw [List.append_assoc, List.takeWhile_append_dropWhile]
    · intro u hu
      simpa using List.mem_takeWhile_imp hu
    · intro u hu
      have hnot := List.head?_dropWhile_not (fun u => !u.isLineTerminator) inner
      rw [hu] at hnot
      simpa using hnot

/-- **What is found is written there.** -/
theorem written_of_first? {m : Mode} {text : List CodeUnit} {t : Trivia}
    (h : first? m text = some t) : ∃ piece rest, text = piece ++ rest ∧ Written m t piece rest := by
  unfold first? at h
  split at h
  · simp at h
  · next u rest =>
    split_ifs at h with hb hl
    · obtain rfl := Option.some.inj h
      exact ⟨[u], rest, rfl, .blank hb⟩
    · obtain rfl := Option.some.inj h
      by_cases hcr : u = CodeUnit.carriageReturn ∧ rest.head? = some CodeUnit.lineFeed
      · obtain ⟨rfl, hlf⟩ := hcr
        cases rest with
        | nil => simp at hlf
        | cons v rest =>
          obtain rfl : v = CodeUnit.lineFeed := by simpa using hlf
          exact ⟨_, rest, rfl, .crlf⟩
      · have hfalse : (u == CodeUnit.carriageReturn && rest.head? == some CodeUnit.lineFeed) =
            false := by simpa using hcr
        rw [hfalse]
        exact ⟨[u], rest, rfl, .lineBreak hl hcr⟩
    · obtain ⟨kind, hkind, rfl⟩ := Option.map_eq_some_iff.mp h
      obtain ⟨hm, hpre⟩ := opening?_eq_some_iff.mp hkind
      exact written_commentOf hm hpre

/-- **Nothing is found exactly where no piece begins.** -/
theorem first?_eq_none_iff {m : Mode} {text : List CodeUnit} :
    first? m text = none ↔ ¬CanBegin m text := by
  cases text with
  | nil =>
    have hopener (kind : Kind) : kind.opener ≠ [] := by cases kind <;> simp [Kind.opener]
    simp [first?, CanBegin, hopener]
  | cons u rest =>
    have hopening : opening? m (u :: rest) = none ↔
        ∀ kind, ¬(m.recognises kind = true ∧ kind.opener <+: u :: rest) := by
      rw [Option.eq_none_iff_forall_ne_some]
      exact forall_congr' fun kind => not_congr opening?_eq_some_iff
    unfold CanBegin
    simp only [first?]
    split_ifs with hb hl
    · simp [hb]
    · simp [hl]
    · rw [Option.map_eq_none_iff, hopening]
      simp [hb, hl]

/-- Nothing is found at a unit that is neither blank, nor ends a line, nor opens a comment. -/
theorem first?_cons_eq_none {m : Mode} {u : CodeUnit} {rest : List CodeUnit}
    (hblank : u.isBlank = false) (hline : u.isLineTerminator = false)
    (hopener : ∀ kind : Kind, kind.opener.head? ≠ some u) : first? m (u :: rest) = none := by
  rw [first?_eq_none_iff]
  rintro (⟨v, hv, h⟩ | ⟨kind, -, hpre⟩)
  · obtain rfl : u = v := by simpa using hv
    simp [hblank, hline] at h
  · apply hopener kind
    rw [List.prefix_iff_eq_append] at hpre
    cases hk : kind.opener with
    | nil => cases kind <;> simp [Kind.opener] at hk
    | cons v more =>
      rw [hk] at hpre
      exact congrArg some (List.cons.inj hpre).1

/-- Where a piece is found, it ends at a clean cut. -/
theorem cleanCut_of_first? {m : Mode} {text : List CodeUnit} {t : Trivia}
    (h : first? m text = some t) : Text.CleanCut text t.length := by
  obtain ⟨piece, rest, rfl, hw⟩ := written_of_first? h
  rw [← hw.length_eq]
  exact hw.cleanCut

end EcmaLex.Trivia
