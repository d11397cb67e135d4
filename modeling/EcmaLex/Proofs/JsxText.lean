import Mathlib.Data.Nat.Find
import Mathlib.Tactic.Choose
import EcmaLex.Proofs.Calls
import EcmaLex.Proofs.Restoring

/-!
# JSX text and attribute strings

Between tags nothing is trivia: comments, blanks, line ends and backslashes are text like any other,
and in a quoted attribute value all is text up to the same quote. So nothing of the source is lost
there, and nothing read twice.

* `Jsx.exists_written`: a token stands at the beginning of every text.
* `Scanner.exists_jsxChild`: what one call between tags does.
* `Scanner.exists_jsxPieces`: any number of calls.
* `Scanner.nextJsxAttribute_of_quote`: a quoted attribute value.

The main result is `Scanner.jsx_verbatim`.
-/

namespace EcmaLex

namespace Jsx

/-- In front of `rest`, a token between tags is written `w`. Text takes all that is text. -/
inductive Written : Lexeme → List CodeUnit → List CodeUnit → Prop
  | eof : Written ⟨.eof, .none⟩ [] []
  | closingTag {rest : List CodeUnit} :
      Written ⟨.punctuator .jsxClosingTagStart, .none⟩ [CodeUnit.lessThan, CodeUnit.slash] rest
  | openingTag {rest : List CodeUnit} :
      Written ⟨.punctuator .lessThan, .none⟩ [CodeUnit.lessThan] rest
  | brace {rest : List CodeUnit} :
      Written ⟨.punctuator .leftBrace, .none⟩ [CodeUnit.leftBrace] rest
  | text {u : CodeUnit} {w rest : List CodeUnit} (htext : ∀ v ∈ u :: w, isText v = true)
      (hend : rest.head?.any isText = false) : Written ⟨.jsxText, .string (u :: w)⟩ (u :: w) rest

/-- **A token stands at the beginning of every text.** -/
theorem exists_written (text : List CodeUnit) :
    ∃ x w rest, text = w ++ rest ∧ Written x w rest ∧ child text = .ok ⟨x, w.length, ∅⟩ := by
  cases text with
  | nil => exact ⟨_, _, _, rfl, .eof, rfl⟩
  | cons u rest =>
    rw [child]
    by_cases hless : u = CodeUnit.lessThan
    · subst hless
      rw [if_pos rfl]
      by_cases hslash : rest.head? = some CodeUnit.slash
      · obtain ⟨rest, rfl⟩ := List.head?_eq_some_iff.mp hslash
        exact ⟨_, _, rest, rfl, .closingTag, if_pos rfl⟩
      · exact ⟨_, _, rest, rfl, .openingTag, if_neg hslash⟩
    · rw [if_neg hless]
      by_cases hbrace : u = CodeUnit.leftBrace
      · subst hbrace
        exact ⟨_, _, rest, rfl, .brace, if_pos rfl⟩
      · rw [if_neg hbrace]
        have htext : isText u = true := by simp [isText, hless, hbrace]
        have hsplit : rest.takeWhile isText ++ rest.dropWhile isText = rest :=
          List.takeWhile_append_dropWhile
        obtain ⟨hall, hend⟩ := Text.takeWhile_append_eq_left_iff.mp
          (congrArg (List.takeWhile isText) hsplit)
        refine ⟨_, u :: rest.takeWhile isText, rest.dropWhile isText, ?_, .text ?_ hend, rfl⟩
        · rw [List.cons_append, hsplit]
        · exact List.forall_mem_cons.mpr ⟨htext, hall⟩

namespace Written

variable {x : Lexeme} {w rest : List CodeUnit}

theorem eof_iff (h : Written x w rest) : x.kind = .eof ↔ w ++ rest = [] := by
  cases h <;> simp

theorem ne_nil (h : Written x w rest) (hne : w ++ rest ≠ []) : w ≠ [] := by
  cases h with
  | eof => exact absurd rfl hne
  | closingTag | openingTag | brace | text => exact List.cons_ne_nil _ _

/-- Text begins where there is text. -/
theorem head?_of_jsxText (h : Written x w rest) (hx : x.kind = .jsxText) :
    (w ++ rest).head?.any isText = true ∧ rest.head?.any isText = false := by
  cases h with
  | eof | closingTag | openingTag | brace => exact nomatch hx
  | text htext hend => exact ⟨htext _ List.mem_cons_self, hend⟩

end Written

/-! ## Attribute values -/

variable {quote : CodeUnit} {inner after rest : List CodeUnit}

/-- The value ends at the next quote of its kind. -/
theorem attributeValue_append (h : quote ∉ inner) :
    attributeValue (quote :: (inner ++ quote :: after)) =
      .ok ⟨⟨.stringLiteral, .string inner⟩, inner.length + 2, ∅⟩ := by
  have hrun : (inner ++ quote :: after).takeWhile (· != quote) = inner := by
    refine Text.takeWhile_append_eq_left_iff.mpr ⟨fun u hu => ?_, by simp⟩
    rw [bne_iff_ne]
    rintro rfl
    exact h hu
  rw [attributeValue, hrun]
  exact if_pos (by simp)

/-- Where there is no such quote, there is no value. -/
theorem attributeValue_of_not_mem (h : quote ∉ rest) :
    attributeValue (quote :: rest) =
      .error ⟨.unterminatedString, rest.length + 1, rest.length + 1, ∅⟩ := by
  have hrun : rest.takeWhile (· != quote) = rest := by
    refine List.takeWhile_eq_self_iff.mpr fun u hu => ?_
    rw [bne_iff_ne]
    rintro rfl
    exact h hu
  rw [attributeValue, hrun]
  exact if_neg (Nat.lt_irrefl _)

end Jsx

/-- A token of a source that stands between tags: text, or what text ends at. -/
inductive Token.IsJsxPiece (source : List CodeUnit) (t : Token) : Prop
  | text {w : List CodeUnit} (hkind : t.kind = .jsxText) (hvalue : t.value = .string w)
      (hunits : source.extract t.start.offset t.stop = w) (hne : w ≠ [])
      (hless : CodeUnit.lessThan ∉ w) (hbrace : CodeUnit.leftBrace ∉ w)
  | delimiter {p : Punctuator} (hp : p ∈ [.lessThan, .jsxClosingTagStart, .leftBrace])
      (hkind : t.kind = .punctuator p) (hunits : source.extract t.start.offset t.stop = p.units)

theorem Token.IsJsxPiece.of_written {source : List CodeUnit} {t : Token} {x : Lexeme}
    {w rest : List CodeUnit} (h : Jsx.Written x w rest) (hne : x.kind ≠ .eof)
    (hkind : t.kind = x.kind) (hvalue : t.value = x.value)
    (hunits : source.extract t.start.offset t.stop = w) : t.IsJsxPiece source := by
  cases h with
  | eof => exact absurd rfl hne
  | closingTag => exact .delimiter (by decide) hkind hunits
  | openingTag => exact .delimiter (by decide) hkind hunits
  | brace => exact .delimiter (by decide) hkind hunits
  | text htext hend =>
    refine .text hkind hvalue hunits (List.cons_ne_nil _ _) ?_ ?_
    · exact fun hmem => absurd (htext _ hmem) (by decide)
    · exact fun hmem => absurd (htext _ hmem) (by decide)

/-- The token of a quoted attribute value that stands at a place. -/
structure Token.IsJsxString (t : Token) (a : Cursor) (inner : List CodeUnit) : Prop where
  kind : t.kind = .stringLiteral
  value : t.value = .string inner
  start : t.start = a.location
  /-- The quotes are part of it. -/
  stop : t.stop = a.location.offset + inner.length + 2

namespace Scanner

variable {source : List CodeUnit} {s s' s₁ : Scanner} {c : Context} {t : Token}

/-! ## Between tags -/

/-- What a call between tags does with a source. -/
structure GivesJsxPiece (source : List CodeUnit) (s : Scanner) (t : Token) (s' : Scanner) :
    Prop where
  start : t.start = s.cursor.location
  stop : t.stop = s'.cursor.location.offset
  place : s'.cursor.IsPlaceOf source
  eof_iff : t.kind = .eof ↔ s.cursor.rest = []
  rest_le : s'.cursor.rest.length ≤ s.cursor.rest.length
  rest_lt : s.cursor.rest ≠ [] → s'.cursor.rest.length < s.cursor.rest.length
  piece : t.kind ≠ .eof → t.IsJsxPiece source
  /-- Text begins where there is text, and ends where there is none. -/
  maximal : t.kind = .jsxText → s.cursor.rest.head?.any Jsx.isText = true ∧
    s'.cursor.rest.head?.any Jsx.isText = false

/-- **One call between tags.** It does not fail. -/
theorem exists_jsxChild (h : s.cursor.IsPlaceOf source) (c : Context) :
    ∃ t s', s.nextJsxChild c = (.ok t, s') ∧ s.GivesJsxPiece source t s' := by
  obtain ⟨x, w, rest, htext, hwritten, hread⟩ := Jsx.exists_written s.cursor.rest
  have htake : s.cursor.rest.take w.length = w := by rw [htext, List.take_left]
  have hdrop : s.cursor.rest.drop w.length = rest := by rw [htext, List.drop_left]
  refine ⟨_, _, settle_eq_ok_iff.mpr ⟨_, hread, rfl, rfl⟩, ?_⟩
  exact {
    start := rfl
    stop := rfl
    place := h.advance w.length
    eof_iff := by
      rw [htext]
      exact hwritten.eof_iff
    rest_le := by
      rw [cursor_took, Cursor.rest_advance, List.length_drop]
      exact Nat.sub_le _ _
    rest_lt := by
      intro hne
      have hpos := List.length_pos_iff.mpr (hwritten.ne_nil (by rwa [← htext]))
      rw [cursor_took, Cursor.rest_advance, hdrop, htext, List.length_append]
      omega
    piece := by
      intro hne
      exact .of_written hwritten hne rfl rfl ((h.extract_advance w.length).trans htake)
    maximal := by
      intro hx
      rw [cursor_took, Cursor.rest_advance, hdrop, htext]
      exact hwritten.head?_of_jsxText hx }

/-- The scanner after `n` calls between tags, where call number `i` has the context `ctx i`. -/
def afterJsxChildren (ctx : Nat → Context) (s : Scanner) : Nat → Scanner
  | 0 => s
  | n + 1 => ((s.afterJsxChildren ctx n).nextJsxChild (ctx n)).2

/-- The calls between tags give `token`, where call number `last` is the first to give the end
token. -/
structure JsxPieces (source : List CodeUnit) (ctx : Nat → Context) (s : Scanner)
    (token : Nat → Token) (last : Nat) : Prop where
  answers : ∀ n, ((s.afterJsxChildren ctx n).nextJsxChild (ctx n)).1 = .ok (token n)
  start : ∀ n, (token n).start = (s.afterJsxChildren ctx n).cursor.location
  eof_iff : ∀ n, (token n).kind = .eof ↔ last ≤ n
  last_le : last ≤ s.cursor.rest.length
  contiguous : ∀ n, (token n).stop = (token (n + 1)).start.offset
  covers : (token 0).start.offset = s.cursor.location.offset ∧
    (token last).start.offset = source.length ∧ (token last).stop = source.length
  piece : ∀ n < last, (token n).IsJsxPiece source
  maximal : ∀ n, (token n).kind = .jsxText → (token (n + 1)).kind ≠ .jsxText

theorem isPlaceOf_afterJsxChildren (h : s.cursor.IsPlaceOf source) (ctx : Nat → Context)
    (n : Nat) : (s.afterJsxChildren ctx n).cursor.IsPlaceOf source := by
  induction n with
  | zero => exact h
  | succ n ih =>
    obtain ⟨t, s', hcall, hgives⟩ := exists_jsxChild ih (ctx n)
    rw [afterJsxChildren, hcall]
    exact hgives.place

/-- Every call does what one call does. -/
theorem exists_afterJsxChildren (h : s.cursor.IsPlaceOf source) (ctx : Nat → Context) (n : Nat) :
    ∃ t, ((s.afterJsxChildren ctx n).nextJsxChild (ctx n)).1 = .ok t ∧
      (s.afterJsxChildren ctx n).GivesJsxPiece source t (s.afterJsxChildren ctx (n + 1)) := by
  obtain ⟨t, s', hcall, hgives⟩ := exists_jsxChild (isPlaceOf_afterJsxChildren h ctx n) (ctx n)
  refine ⟨t, by rw [hcall], ?_⟩
  rw [afterJsxChildren, hcall]
  exact hgives

/-- As many calls as there are units left reach the end. -/
theorem length_afterJsxChildren_le (h : s.cursor.IsPlaceOf source) (ctx : Nat → Context) (n : Nat) :
    (s.afterJsxChildren ctx n).cursor.rest.length ≤ s.cursor.rest.length - n := by
  induction n with
  | zero => exact Nat.le_refl _
  | succ n ih =>
    obtain ⟨t, -, hgives⟩ := exists_afterJsxChildren h ctx n
    by_cases hnil : (s.afterJsxChildren ctx n).cursor.rest = []
    · have hle := hgives.rest_le
      rw [hnil] at hle
      exact Nat.le_trans hle (Nat.zero_le _)
    · have hlt := hgives.rest_lt hnil
      omega

/-- From the end on, all calls are at the end. -/
theorem afterJsxChildren_of_le (h : s.cursor.IsPlaceOf source) (ctx : Nat → Context) {m n : Nat}
    (hm : (s.afterJsxChildren ctx m).cursor.rest = []) (hle : m ≤ n) :
    (s.afterJsxChildren ctx n).cursor.rest = [] := by
  induction hle with
  | refl => exact hm
  | step _ ih =>
    obtain ⟨t, -, hgives⟩ := exists_afterJsxChildren h ctx _
    have hle := hgives.rest_le
    rw [ih] at hle
    exact List.eq_nil_of_length_eq_zero (Nat.le_zero.mp hle)

/-- **Any number of calls between tags.** -/
theorem exists_jsxPieces (h : s.cursor.IsPlaceOf source) (ctx : Nat → Context) :
    ∃ token last, s.JsxPieces source ctx token last := by
  choose token hanswer hgives using exists_afterJsxChildren h ctx
  have hnil : (s.afterJsxChildren ctx s.cursor.rest.length).cursor.rest = [] := by
    have hle := length_afterJsxChildren_le h ctx s.cursor.rest.length
    exact List.eq_nil_of_length_eq_zero (by omega)
  have hends : ∃ n, (s.afterJsxChildren ctx n).cursor.rest = [] := ⟨_, hnil⟩
  have heof (n : Nat) : (token n).kind = .eof ↔ Nat.find hends ≤ n := by
    rw [(hgives n).eof_iff]
    exact ⟨fun hnil => Nat.find_min' hends hnil,
      fun hle => afterJsxChildren_of_le h ctx (Nat.find_spec hends) hle⟩
  have hlast := Nat.find_spec hends
  refine ⟨token, Nat.find hends, ?_⟩
  exact {
    answers := hanswer
    start := fun n => (hgives n).start
    eof_iff := heof
    last_le := Nat.find_min' hends hnil
    contiguous := fun n => by rw [(hgives n).stop, (hgives (n + 1)).start]
    covers := by
      refine ⟨congrArg Location.offset (hgives 0).start, ?_, ?_⟩
      · rw [(hgives _).start]
        exact (isPlaceOf_afterJsxChildren h ctx _).offset_eq_length hlast
      · rw [(hgives _).stop]
        exact (hgives _).place.offset_eq_length
          (afterJsxChildren_of_le h ctx hlast (Nat.le_succ _))
    piece := fun n hn => (hgives n).piece fun hkind => absurd ((heof n).mp hkind) (by omega)
    maximal := by
      intro n hn hnext
      have hend := ((hgives n).maximal hn).2
      rw [((hgives (n + 1)).maximal hnext).1] at hend
      exact absurd hend (by decide) }

/-! ## Attribute values -/

/-- What the call for an attribute value does where `quote` and `rest` stand at `a`, behind the
trivia: it succeeds if the quote is closed, and gives all that stands in front of the closing
quote. -/
structure ReadsJsxString (c : Context) (s : Scanner) (a : Cursor) (quote : CodeUnit)
    (rest : List CodeUnit) : Prop where
  succeeds_iff : (∃ t s', s.nextJsxAttribute c = (.ok t, s')) ↔ quote ∈ rest
  verbatim : ∀ inner after, rest = inner ++ quote :: after → quote ∉ inner →
    ∃ t s', s.nextJsxAttribute c = (.ok t, s') ∧ t.IsJsxString a inner ∧ s'.cursor.rest = after

section AttributeValue

variable {quote : CodeUnit} {inner after rest : List CodeUnit}
  (hskip : ({ s with flags := ∅ } : Scanner).skipTrivia c = (.ok (), s₁))
  (hquote : quote.isQuote = true)
include hskip hquote

theorem nextJsxAttribute_eq (hrest : s₁.cursor.rest = quote :: rest) :
    s.nextJsxAttribute c =
      s₁.settle c s₁.cursor s₁.cursor.advance (Jsx.attributeValue (quote :: rest)) := by
  rw [nextJsxAttribute, readAfterTrivia, hskip]
  dsimp only
  rw [if_pos (by rw [hrest]; exact hquote), readHere, hrest]

theorem exists_nextJsxAttribute (hrest : s₁.cursor.rest = quote :: (inner ++ quote :: after))
    (hinner : quote ∉ inner) :
    ∃ t s', s.nextJsxAttribute c = (.ok t, s') ∧ t.IsJsxString s₁.cursor inner ∧
      s'.cursor.rest = after := by
  rw [nextJsxAttribute_eq hskip hquote hrest]
  refine ⟨_, _, settle_eq_ok_iff.mpr ⟨_, Jsx.attributeValue_append hinner, rfl, rfl⟩,
    ⟨rfl, rfl, rfl, ?_⟩, ?_⟩
  · show (s₁.cursor.advance (inner.length + 2)).location.offset = _
    rw [Cursor.offset_advance, hrest, List.length_take, List.length_cons, List.length_append,
      List.length_cons]
    omega
  · rw [cursor_took, Cursor.rest_advance, hrest]
    simp

/-- **A quoted attribute value.** -/
theorem nextJsxAttribute_of_quote (hrest : s₁.cursor.rest = quote :: rest) :
    s.ReadsJsxString c s₁.cursor quote rest where
  succeeds_iff := by
    constructor
    · rintro ⟨t, s', hok⟩
      refine Decidable.byContradiction fun hmem => ?_
      rw [nextJsxAttribute_eq hskip hquote hrest, Jsx.attributeValue_of_not_mem hmem] at hok
      exact nomatch (Prod.mk.inj hok).1
    · intro hmem
      obtain ⟨inner, after, rfl, hinner⟩ := List.eq_append_cons_of_mem hmem
      obtain ⟨t, s', hok, -⟩ := exists_nextJsxAttribute hskip hquote hrest hinner
      exact ⟨t, s', hok⟩
  verbatim := by
    rintro inner after rfl hinner
    exact exists_nextJsxAttribute hskip hquote hrest hinner

end AttributeValue

/-- **JSX text and attribute strings are read as they stand.** From any place of a source, calls
between tags, each in a context of its own, read the rest of it to the end. And where a quote
stands behind trivia, an attribute value is read up to the same quote. -/
theorem jsx_verbatim (h : s.cursor.IsPlaceOf source) :
    (∀ ctx, ∃ token last, s.JsxPieces source ctx token last) ∧
    ∀ c s₁ quote rest, ({ s with flags := ∅ } : Scanner).skipTrivia c = (.ok (), s₁) →
      s₁.cursor.rest = quote :: rest → quote.isQuote = true →
      s.ReadsJsxString c s₁.cursor quote rest :=
  ⟨exists_jsxPieces h, fun _ _ _ _ hskip hrest hquote =>
    nextJsxAttribute_of_quote hskip hquote hrest⟩

/-- In ` "\"/<`, a backslash in front of a quote escapes nothing, be it text or a string. -/
theorem jsx_verbatim_backslash :
    let source : List CodeUnit := [0x20, 0x22, 0x5C, 0x22, 0x2F, 0x3C]
    let s := ofSource source
    s.cursor.IsPlaceOf source ∧
      (∃ token, s.JsxPieces source (fun _ => {}) token 2 ∧ (token 0).stop = 5) ∧
      ∃ s₁, ({ s with flags := ∅ } : Scanner).skipTrivia {} = (.ok (), s₁) ∧
        s₁.cursor.rest = 0x22 :: [0x5C, 0x22, 0x2F, 0x3C] ∧ CodeUnit.isQuote 0x22 = true ∧
        ∃ t s', s.nextJsxAttribute {} = (.ok t, s') ∧ t.IsJsxString s₁.cursor [0x5C] ∧
          s'.cursor.rest = [0x2F, 0x3C] := by
  intro source s
  have hplace : s.cursor.IsPlaceOf source := .of_startingAt source .start
  obtain ⟨hchildren, hstrings⟩ := jsx_verbatim hplace
  refine ⟨hplace, ?_, ?_⟩
  · obtain ⟨token, last, hpieces⟩ := hchildren fun _ => {}
    have hkind (n : Nat) : some (token n).kind =
        ((s.afterJsxChildren (fun _ => {}) n).nextJsxChild {}).1.toOption.map Token.kind := by
      rw [hpieces.answers n]
      rfl
    have hone : (token 1).kind = .punctuator .lessThan :=
      Option.some.inj ((hkind 1).trans (by decide +kernel))
    have htwo : (token 2).kind = .eof := Option.some.inj ((hkind 2).trans (by decide +kernel))
    obtain rfl : last = 2 := by
      have hle := (hpieces.eof_iff 2).mp htwo
      have hlt : ¬last ≤ 1 := by
        rw [← hpieces.eof_iff 1, hone]
        exact nofun
      omega
    refine ⟨token, hpieces, ?_⟩
    rw [hpieces.contiguous 0, hpieces.start 1]
    decide +kernel
  · have hskip : (({ s with flags := ∅ } : Scanner).skipTrivia {}).1.toOption = some () := by
      decide +kernel
    have hrest : (({ s with flags := ∅ } : Scanner).skipTrivia {}).2.cursor.rest =
        0x22 :: [0x5C, 0x22, 0x2F, 0x3C] := by decide +kernel
    rcases hs₁ : ({ s with flags := ∅ } : Scanner).skipTrivia {} with ⟨_ | _, s₁⟩
    · rw [hs₁] at hskip
      exact nomatch hskip
    · rw [hs₁] at hrest
      exact ⟨s₁, rfl, hrest, by decide,
        (hstrings {} s₁ _ _ hs₁ hrest (by decide)).verbatim [0x5C] _ rfl (by decide)⟩

end Scanner

end EcmaLex
