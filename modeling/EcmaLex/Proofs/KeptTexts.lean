import EcmaLex.Proofs.BigIntLiterals
import EcmaLex.Proofs.BracketMatching
import EcmaLex.Proofs.FlagMeanings
import EcmaLex.Proofs.NewLines
import EcmaLex.Proofs.RegExpLiterals
import EcmaLex.Proofs.StringGrammar
import EcmaLex.Proofs.SurrogatePairs
import EcmaLex.Proofs.Tiling

/-!
# Texts that are kept

Tokens and comments hold texts of their source as strings, and a string has no room for a lone
surrogate. So it matters that nothing is cut out of a source in the middle of a surrogate pair. Most
readers go on unit by unit and know nothing of pairs, but *what they take begins and ends with a
character* (`Lexeme.isWhole_of_read`), and so do the delimiters of comments. In a well-formed source
every text is therefore kept as it is.

* `Lexeme.keepsText_of_read`: names, BigInt literals and regular expressions.
* `Scanner.KeepsTexts`: the comments of a scanner, with one lemma for each call.
* `texts_of_wellFormed_source`: whole runs.
-/

namespace EcmaLex

open Utf16 (IsWhole isWellFormed isWhole_of_isWellFormed isWhole_of_ends ofString)

/-! ## Tokens begin and end with a character -/

theorem Utf16.isWellFormed_of_ascii {w : List CodeUnit} (h : ∀ u ∈ w, u.toNat < 0x80) :
    isWellFormed w = true :=
  isWellFormed_iff.mpr (exists_toChar?_of_ascii h)

theorem Utf16.IsWhole.of_ascii {w : List CodeUnit} (h : ∀ u ∈ w, u.toNat < 0x80) : IsWhole w :=
  isWhole_of_isWellFormed (isWellFormed_of_ascii h)

theorem Utf16.lt_of_all_isAscii {w : List CodeUnit} (h : w.all CodeUnit.isAscii = true) :
    ∀ u ∈ w, u.toNat < 0x80 := by
  intro u hu
  have hu := List.all_eq_true.mp h u hu
  rwa [CodeUnit.isAscii, decide_eq_true_eq, UInt16.lt_iff_toNat_lt] at hu

/-- The last unit that is taken. -/
theorem Text.getLast?_take {text : List CodeUnit} {n : Nat} {u : CodeUnit}
    (hn : 0 < n) (h : text[n - 1]? = some u) : (text.take n).getLast? = some u := by
  rw [List.getLast?_take, if_neg (by omega), h]
  rfl

/-- A code point is escaped in ASCII. -/
theorem Escape.CodePointNumber.lt {w : List CodeUnit} {c : CodePoint}
    (h : CodePointNumber w c) : ∀ u ∈ w, u.toNat < 0x80 := by
  have hdigit {u : CodeUnit} (hu : Radix.hexadecimal.isDigit u = true) : u.toNat < 0x80 :=
    Numeric.lt_of_continues (Numeric.continues_of_isDigit hu)
  cases h with
  | quad hds => exact fun u hu => hdigit (hds u hu)
  | braced hds =>
    refine List.forall_mem_cons.mpr ⟨by decide, List.forall_mem_append.mpr ⟨?_, by simp; decide⟩⟩
    exact fun u hu => hdigit (hds u hu)

namespace Identifier

variable {first escaped : Bool} {w rest : List CodeUnit} {c : CodePoint} {cs : List CodePoint}

theorem Item.isWellFormed (h : Item w rest c escaped) (hc : accepts first c = true) :
    Utf16.isWellFormed w = true := by
  cases h with
  | itself hhead =>
    have hpoints := Utf16.codePoints_append (Utf16.head?_append_take hhead 0)
    rw [List.take_zero, List.append_nil] at hpoints
    rw [Utf16.isWellFormed_iff, hpoints]
    intro d hd
    obtain rfl : d = c := by simpa [Utf16.codePoints] using hd
    exact CodePoint.exists_toChar?_of_accepts hc
  | escape hnumber =>
    refine Utf16.isWellFormed_of_ascii (List.forall_mem_cons.mpr ⟨by decide,
      List.forall_mem_cons.mpr ⟨by decide, hnumber.lt⟩⟩)

/-- **The items of a name** are well-formed. -/
theorem Items.isWellFormed (h : Items first w rest cs escaped) : Utf16.isWellFormed w = true := by
  induction h with
  | nil => rfl
  | cons hitem hc _ ih =>
    have hw := hitem.isWellFormed hc
    exact (Utf16.isWellFormed_append_iff
      ((isWhole_of_isWellFormed hw).not_joinsPair _)).mpr ⟨hw, ih⟩

/-- Without escapes, a name is written as it is spelled. -/
theorem Items.encodeAll_eq (h : Items first w rest cs escaped)
    (hplain : CodeUnit.backslash ∉ w) : Utf16.encodeAll cs = w := by
  induction h with
  | nil => rfl
  | cons hitem _ _ ih =>
    rw [List.mem_append, not_or] at hplain
    cases hitem with
    | itself hhead =>
      rw [Utf16.encodeAll, List.flatMap_cons, CodePoint.encode_of_head? hhead]
      exact congrArg _ (ih hplain.2)
    | escape => exact absurd List.mem_cons_self hplain.1

end Identifier

namespace Template

/-- A span ends with a backtick or with a brace. -/
theorem getElem?_of_span {tagged : Bool} {text : List CodeUnit} {x : Reading Span}
    (h : span tagged text = .ok x) :
    ∃ u ∈ [CodeUnit.backtick, CodeUnit.leftBrace], text[x.length - 1]? = some u := by
  -- the last unit of a span is the last one of what is left of it behind `1 + k` units
  have hbehind {u : CodeUnit} {rest : List CodeUnit} {k : Nat} {z : Reading Span}
      (hz : span tagged (rest.drop k) = .ok z) :
      (u :: rest)[1 + k + z.length - 1]? = (rest.drop k)[z.length - 1]? := by
    have hpos := (length_of_span hz).1
    rw [List.getElem?_drop, show 1 + k + z.length - 1 = k + (z.length - 1) + 1 by omega,
      List.getElem?_cons_succ]
  fun_induction span tagged text generalizing x with
  | case1 => simp at h
  | case2 rest =>
    obtain rfl := Except.ok.inj h
    exact ⟨_, by simp, rfl⟩
  | case3 u rest _ hdollar =>
    obtain rfl := Except.ok.inj h
    exact ⟨CodeUnit.leftBrace, by simp, by simpa [List.head?_eq_getElem?] using hdollar.2⟩
  | case4 => simp at h
  | case5 rest _ e _ _ _ ih =>
    obtain ⟨z, hz, rfl⟩ := Outcome.mapValue_shift_eq_ok_iff.mp h
    dsimp only
    rw [hbehind hz]
    exact ih hz
  | case6 rest _ f _ _ _ _ ih =>
    obtain ⟨z, hz, rfl⟩ := Outcome.mapValue_shift_eq_ok_iff.mp h
    dsimp only
    rw [hbehind hz]
    exact ih hz
  | case7 => simp at h
  | case8 rest =>
    rename_i ih
    obtain ⟨z, hz, rfl⟩ := Outcome.mapValue_shift_eq_ok_iff.mp h
    dsimp only
    rw [hbehind hz]
    exact ih hz
  | case9 u rest _ _ _ _ ih =>
    obtain ⟨z, hz, rfl⟩ := Outcome.mapValue_shift_eq_ok_iff.mp h
    obtain ⟨v, hv, hlast⟩ := ih hz
    exact ⟨v, hv, (hbehind (k := 0) hz).trans hlast⟩

theorem isWhole_of_read {tagged first : Bool} {u : CodeUnit} {rest : List CodeUnit}
    {x : Reading Lexeme} (hu : u.isTrail = false) (h : read tagged first (u :: rest) = .ok x) :
    IsWhole ((u :: rest).take x.length) := by
  obtain ⟨z, hz, rfl⟩ := Outcome.mapValue_shift_eq_ok_iff.mp h
  rw [List.drop_succ_cons, List.drop_zero] at hz
  have hpos := (length_of_span hz).1
  obtain ⟨v, hv, hlast⟩ := getElem?_of_span hz
  have hlead : v.isLead = false := by
    rw [List.mem_cons, List.mem_singleton] at hv
    rcases hv with rfl | rfl <;> decide
  refine isWhole_of_ends (u := u) (v := v) ?_ ?_ hu hlead
  · rw [List.head?_take, if_neg (by dsimp only; omega)]
    rfl
  · refine Text.getLast?_take (by dsimp only; omega) ?_
    dsimp only
    rw [show 1 + z.length - 1 = z.length - 1 + 1 by omega, List.getElem?_cons_succ, hlast]

end Template

theorem StringLiteral.isWhole_of_read {strict : Bool} {quote : CodeUnit} {rest : List CodeUnit}
    {x : Reading Lexeme} (hquote : quote.isQuote = true)
    (h : read strict (quote :: rest) = .ok x) : IsWhole ((quote :: rest).take x.length) := by
  rw [read] at h
  obtain ⟨z, hz, rfl⟩ := Outcome.mapValue_shift_eq_ok_iff.mp h
  obtain ⟨w, after, rfl, -, hlength⟩ := exists_items_of_body hz
  have hplain : quote.isTrail = false ∧ quote.isLead = false := by
    rw [CodeUnit.isQuote, Bool.or_eq_true, beq_iff_eq, beq_iff_eq] at hquote
    rcases hquote with rfl | rfl <;> decide
  have htake : (quote :: (w ++ quote :: after)).take (1 + z.length) =
      (quote :: w) ++ [quote] := by
    rw [hlength, Nat.add_comm, List.take_succ_cons, List.take_length_add_append]
    rfl
  dsimp only
  rw [htake]
  exact isWhole_of_ends rfl List.getLast?_concat hplain.1 hplain.2

namespace RegExp

variable {text : List CodeUnit} {n : Nat} {fs : List Char}

/-- Each flag is a unit in ASCII, and none is a slash. -/
theorem plain_of_mem_letters {f : Char} (h : f ∈ ['d', 'g', 'i', 'm', 's', 'u', 'v', 'y']) :
    (CodeUnit.ofChar f).toNat < 0x80 ∧ CodePoint.encode f.toNat = [CodeUnit.ofChar f] ∧
      CodeUnit.slash ≠ CodeUnit.ofChar f := by
  simp only [List.mem_cons, List.not_mem_nil, or_false] at h
  rcases h with rfl | rfl | rfl | rfl | rfl | rfl | rfl | rfl <;> decide

theorem ProperFlags.lt (h : ProperFlags text fs) :
    ∀ u ∈ fs.map CodeUnit.ofChar, u.toNat < 0x80 := by
  intro u hu
  obtain ⟨f, hf, rfl⟩ := List.mem_map.mp hu
  exact (plain_of_mem_letters (h.letters f hf)).1

/-- The flags as a string are the flags again, and no slash is one of them. -/
theorem ProperFlags.ofString_eq (h : ProperFlags text fs) :
    ofString (String.ofList fs) = fs.map CodeUnit.ofChar ∧
      CodeUnit.slash ∉ fs.map CodeUnit.ofChar := by
  constructor
  · rw [ofString, String.toList_ofList, List.map_eq_flatMap]
    exact List.flatMap_congr fun f hf => (plain_of_mem_letters (h.letters f hf)).2.1
  · intro hmem
    obtain ⟨f, hf, heq⟩ := List.mem_map.mp hmem
    exact (plain_of_mem_letters (h.letters f hf)).2.2 heq.symm

theorem Literal.isWhole (pattern : List CodeUnit)
    (hfs : ∀ u ∈ fs.map CodeUnit.ofChar, u.toNat < 0x80) :
    IsWhole (Literal.mk pattern fs).units := by
  have hend : IsWhole (CodeUnit.slash :: fs.map CodeUnit.ofChar) :=
    .of_ascii (List.forall_mem_cons.mpr ⟨by decide, hfs⟩)
  rw [Literal.units]
  refine ⟨by simp; decide, ?_⟩
  rw [← List.cons_append, List.getLast?_append_of_ne_nil _ (List.cons_ne_nil _ _)]
  exact hend.last

end RegExp

theorem Punctuator.units_lt (p : Punctuator) : ∀ u ∈ p.units, u.toNat < 0x80 :=
  Utf16.lt_of_all_isAscii (by cases p <;> decide)

namespace Lexeme

variable {c : Context} {text : List CodeUnit} {x : Reading Lexeme}

/-- **Every token begins and ends with a character**, if it takes anything. -/
theorem isWhole_of_read (h : read c text = .ok x) : IsWhole (text.take x.length) := by
  have hname {text : List CodeUnit} {z : Reading String} (hz : Identifier.name text = .ok z) :
      isWellFormed (text.take z.length) = true := by
    obtain ⟨w, rest, cs, escaped, rfl, hlongest⟩ := Identifier.exists_longest text
    obtain ⟨-, -, s, -, rfl⟩ := (Identifier.name_eq_ok_iff hlongest).mp hz
    rw [List.take_left]
    exact hlongest.items.isWellFormed
  cases text with
  | nil =>
    rw [List.take_nil]
    exact Utf16.isWhole_nil
  | cons u rest =>
    simp only [read] at h
    split at h
    · obtain ⟨z, b, hz, -, rfl⟩ := Reader.interpret_eq_ok_iff.mp h
      exact isWhole_of_isWellFormed (hname hz)
    split at h
    · next hbegins =>
      obtain ⟨z, b, hz, -, rfl⟩ := Reader.interpret_eq_ok_iff.mp h
      obtain ⟨w, rest', htext, hlength, htakes⟩ := Numeric.exists_takes_of_form hz
      rw [htext] at hbegins ⊢
      dsimp only
      rw [← hlength, List.take_left]
      exact .of_ascii (Numeric.literal_of_takes_form hbegins htakes).1.lt
    split at h
    · next hquote => exact StringLiteral.isWhole_of_read hquote h
    split at h
    · next htick => exact Template.isWhole_of_read (by rw [htick]; decide) h
    split at h
    · next hhash =>
      subst hhash
      rw [Identifier.readPrivate_hash] at h
      split at h
      · obtain ⟨z, hz, rfl⟩ := Outcome.mapValue_shift_eq_ok_iff.mp h
        dsimp only
        rw [Nat.add_comm, List.take_succ_cons]
        exact IsWhole.append (.of_ascii (w := [CodeUnit.hash]) (by simp; decide))
          (isWhole_of_isWellFormed (hname hz))
      · simp at h
    split at h
    · next hslash =>
      obtain ⟨n, fs, hdelimits, hproper, rfl⟩ := RegExp.read_eq_ok_iff.mp h
      rw [hslash.1]
      dsimp only
      rw [RegExp.take_eq_units hdelimits hproper]
      exact RegExp.Literal.isWhole _ hproper.lt
    split at h
    · obtain ⟨p, hp, rfl⟩ := kind_of_punctuator h
      have hmatch := List.find?_some hp
      rw [Punctuator.matchesAt, Bool.and_eq_true, List.isPrefixOf_iff_prefix] at hmatch
      dsimp only
      rw [← List.prefix_iff_eq_take.mp hmatch.1]
      exact .of_ascii p.units_lt
    · simp [illegal] at h

/-! ## Values -/

/-- The strings of a token that is written `w` are parts of `w`. A name is all of it, apart from the
sign of a private one and unless it has an escape; a BigInt literal is all of it; and a regular
expression is its pattern and its flags, of which no slash is one. -/
structure KeepsText (w : List CodeUnit) (l : Lexeme) : Prop where
  name : l.kind.isIdentifierName = true →
    ∃ n, l.value = .name n ∧ (CodeUnit.backslash ∉ w → ofString n = w)
  privateName : l.kind = .privateName →
    ∃ n, l.value = .name n ∧ (CodeUnit.backslash ∉ w → CodeUnit.hash :: ofString n = w)
  bigInt : ∀ n literal, l.value = .bigInt n literal → ofString literal = w
  regExp : l.kind = .regExpLiteral → ∃ pattern flags, l.value = .regExp pattern flags ∧
    CodeUnit.slash ∉ ofString flags ∧
    CodeUnit.slash :: (ofString pattern ++ CodeUnit.slash :: ofString flags) = w

/-- A name without escapes is the text of its items. -/
theorem ofString_of_name {z : Reading String} (hz : Identifier.name text = .ok z)
    (hplain : CodeUnit.backslash ∉ text.take z.length) :
    ofString z.value = text.take z.length := by
  obtain ⟨w, rest, cs, escaped, rfl, hlongest⟩ := Identifier.exists_longest text
  obtain ⟨-, -, s, hs, rfl⟩ := (Identifier.name_eq_ok_iff hlongest).mp hz
  dsimp only at hplain ⊢
  rw [List.take_left] at hplain ⊢
  rw [← hlongest.items.encodeAll_eq hplain, ← hs, Utf16.encodeAll, List.flatMap_map]
  rfl

/-- Private names are read behind a number sign. -/
theorem private_of_read (h : read c text = .ok x) (hx : x.value.kind = .privateName) :
    text.head? = some CodeUnit.hash ∧ Identifier.readPrivate text = .ok x := by
  cases readsAs_of_read h with
  | privateName hhash h => exact ⟨hhash, h⟩
  | eof _ heq =>
    subst heq
    simp at hx
  | name h => simpa [hx, Token.Kind.isIdentifierName] using kind_of_identifier h
  | number _ h => simp [kind_of_numeric h] at hx
  | string _ h => simp [kind_of_stringLiteral h] at hx
  | template h => simpa [hx, Token.Kind.isTemplate] using kind_of_template h
  | regExp h => simp [kind_of_regExp h] at hx
  | punctuator p _ heq =>
    subst heq
    simp at hx

/-- Regular expressions are read at a slash. -/
theorem regExp_of_read (h : read c text = .ok x) (hx : x.value.kind = .regExpLiteral) :
    ∃ rest, text = CodeUnit.slash :: rest ∧ RegExp.read text = .ok x := by
  cases text with
  | nil =>
    obtain rfl := Except.ok.inj h
    simp at hx
  | cons u rest =>
    simp only [read] at h
    split at h
    · simpa [hx, Token.Kind.isIdentifierName] using kind_of_identifier h
    split at h
    · simp [kind_of_numeric h] at hx
    split at h
    · simp [kind_of_stringLiteral h] at hx
    split at h
    · simpa [hx, Token.Kind.isTemplate] using kind_of_template h
    split at h
    · simp [kind_of_private h] at hx
    split at h
    · next hslash => exact ⟨rest, by rw [hslash.1], h⟩
    split at h
    · obtain ⟨p, -, rfl⟩ := kind_of_punctuator h
      simp at hx
    · simp [illegal] at h

/-- **The strings of a token** are parts of its text, if that is well-formed. -/
theorem keepsText_of_read (h : read c text = .ok x)
    (hw : isWellFormed (text.take x.length) = true) :
    x.value.KeepsText (text.take x.length) where
  name hkind := by
    obtain ⟨z, b, hz, hb, rfl⟩ := Reader.interpret_eq_ok_iff.mp (identifier_of_read h hkind)
    obtain rfl := Except.ok.inj hb
    exact ⟨z.value, rfl, ofString_of_name hz⟩
  privateName hkind := by
    obtain ⟨hhash, hread⟩ := private_of_read h hkind
    obtain ⟨rest, rfl⟩ := List.head?_eq_some_iff.mp hhash
    rw [Identifier.readPrivate_hash] at hread
    split at hread
    · obtain ⟨z, hz, rfl⟩ := Outcome.mapValue_shift_eq_ok_iff.mp hread
      refine ⟨z.value, rfl, ?_⟩
      dsimp only
      rw [Nat.add_comm, List.take_succ_cons, List.mem_cons, not_or]
      rintro ⟨-, hplain⟩
      rw [ofString_of_name hz hplain]
    · simp at hread
  bigInt n literal hvalue := by
    have hkind := kind_of_number h (.inr ⟨n, literal, hvalue⟩)
    obtain ⟨-, hread⟩ := numeric_of_read h hkind
    obtain ⟨z, b, -, hb, rfl⟩ := Reader.interpret_eq_ok_iff.mp hread
    dsimp only at hvalue hw ⊢
    obtain ⟨m, -, rfl⟩ | ⟨y, -, rfl⟩ := Numeric.Form.interpret_eq_ok_iff.mp hb
    · obtain ⟨-, rfl⟩ := Token.Value.bigInt.inj hvalue
      exact Utf16.ofString_lossy_of_isWellFormed hw
    · simp at hvalue
  regExp hkind := by
    obtain ⟨rest, rfl, hread⟩ := regExp_of_read h hkind
    obtain ⟨n, fs, hdelimits, hproper, rfl⟩ := RegExp.read_eq_ok_iff.mp hread
    dsimp only at hw ⊢
    rw [RegExp.take_eq_units hdelimits hproper, RegExp.Literal.units] at hw ⊢
    obtain ⟨hflags, hslash⟩ := hproper.ofString_eq
    -- on both sides of the pattern stands a slash
    have hopen : IsWhole [CodeUnit.slash] := .of_ascii (by simp; decide)
    have hclose : ¬Utf16.JoinsPair (rest.take n) (CodeUnit.slash :: fs.map CodeUnit.ofChar) :=
      Utf16.not_joinsPair_of_head (by simp; decide)
    rw [← List.singleton_append, Utf16.isWellFormed_append_iff (hopen.not_joinsPair _),
      Utf16.isWellFormed_append_iff hclose] at hw
    refine ⟨_, _, rfl, by rwa [hflags], ?_⟩
    rw [hflags, Utf16.ofString_lossy_of_isWellFormed hw.2.1]

/-- A template has none of these strings. -/
theorem keepsText_of_template {tagged first : Bool} {w : List CodeUnit}
    (h : Template.read tagged first text = .ok x) : x.value.KeepsText w := by
  have hkind := kind_of_template h
  obtain ⟨z, -, rfl⟩ := Outcome.mapValue_eq_ok_iff.mp h
  dsimp only at hkind ⊢
  refine ⟨fun hname => ?_, fun hprivate => ?_, by simp [Template.lexeme], fun hregExp => ?_⟩
  · cases hz : (Template.lexeme first z.value).kind <;>
      simp [hz, Token.Kind.isIdentifierName, Token.Kind.isTemplate] at hname hkind
  · rw [hprivate] at hkind
    exact absurd hkind (by decide)
  · rw [hregExp] at hkind
    exact absurd hkind (by decide)

end Lexeme

/-! ## Tokens and comments -/

/-- No end of the token falls into a surrogate pair, and all its strings are what the source has
there. -/
structure Token.KeepsText (source : List CodeUnit) (t : Token) : Prop where
  start_whole : ¬Text.SplitsPair source t.start.offset
  stop_whole : ¬Text.SplitsPair source t.stop
  raw_eq : ∀ raw, t.raw = some raw → ofString raw = source.extract t.start.offset t.stop
  value : Lexeme.KeepsText (source.extract t.start.offset t.stop) ⟨t.kind, t.value⟩

/-- No end of the comment falls into a surrogate pair, and its text is what the source has between
its delimiters. -/
structure Comment.KeepsText (source : List CodeUnit) (k : Comment) : Prop where
  start_whole : ¬Text.SplitsPair source k.start.offset
  stop_whole : ¬Text.SplitsPair source k.stop.offset
  text_eq : ofString k.text = k.extent.interior source

/-- The interior of a comment ends in front of its closing delimiter or of a line end, and the
comment ends there or behind the delimiter. -/
theorem Trivia.Written.whole_of_comment {m : Mode} {kind : Comment.Kind}
    {inner piece rest : List CodeUnit} (h : Written m (.comment kind inner) piece rest) :
    (∀ v ∈ (kind.closer ++ rest).head?, v.isTrail = false) ∧ ¬Utf16.JoinsPair piece rest := by
  cases h with
  | lineComment hkind _ _ hrest =>
    have hcloser : kind.closer = [] := by cases kind <;> simp_all [Comment.Kind.closer]
    have hhead : ∀ v ∈ rest.head?, v.isTrail = false := by
      intro v hv
      have hline := hrest v hv
      simp only [CodeUnit.isLineTerminator, Bool.or_eq_true, beq_iff_eq] at hline
      rcases hline with ((rfl | rfl) | rfl) | rfl <;> decide
    rw [hcloser, List.nil_append]
    exact ⟨hhead, Utf16.not_joinsPair_of_head hhead⟩
  | block =>
    refine ⟨by simp [Comment.Kind.closer]; decide, ?_⟩
    rintro ⟨u, hu, -, -, hlead, -⟩
    rw [List.getLast?_append_of_ne_nil _ (by simp [Comment.Kind.closer]),
      List.getLast?_append_of_ne_nil _ (by simp [Comment.Kind.closer])] at hu
    obtain rfl := Option.some.inj hu
    exact absurd hlead (by decide)

section Source
variable {source : List CodeUnit} (hsource : isWellFormed source = true)
include hsource

/-- **A token that was read at a place of the source.** -/
theorem Token.keepsText_ofReading {c : Context} {start : Cursor} {flags : TokenFlags}
    {x : Reading Lexeme} (hstart : start.IsPlaceOf source)
    (hwhole : IsWhole (start.rest.take x.length))
    (hend : start.rest.take x.length = [] → start.rest = [])
    (hvalue : isWellFormed (start.rest.take x.length) = true →
      x.value.KeepsText (start.rest.take x.length)) :
    (Token.ofReading c start (start.advance x.length) flags x).KeepsText source := by
  have hslice := hstart.extract_advance x.length
  have hdrop : source.drop start.location.offset =
      start.rest.take x.length ++ start.rest.drop x.length := by
    rw [List.take_append_drop, hstart.rest_eq]
  have hcuts : ¬Text.SplitsPair source start.location.offset ∧
      ¬Text.SplitsPair source (start.advance x.length).location.offset := by
    rw [Cursor.offset_advance]
    by_cases hnil : start.rest.take x.length = []
    · have hhead : ¬Text.SplitsPair source start.location.offset :=
        Text.not_splitsPair_of_head (hstart.rest_eq.symm.trans (hend hnil)) (by simp)
      rw [hnil]
      exact ⟨hhead, hhead⟩
    · exact Text.not_splitsPair_of_isWhole hdrop hnil hwhole
  have hw := Text.isWellFormed_of_drop_eq hsource hdrop hcuts.1 (hwhole.not_joinsPair _)
  refine ⟨hcuts.1, hcuts.2, ?_, ?_⟩
  · intro raw hraw
    have hlossy : some (Utf16.lossy (start.rest.take x.length)) = some raw := by
      unfold Token.ofReading at hraw
      dsimp only at hraw
      split at hraw
      · exact hraw
      · simp at hraw
    rw [← Option.some.inj hlossy, Utf16.ofString_lossy_of_isWellFormed hw]
    exact hslice.symm
  · show Lexeme.KeepsText (source.extract start.location.offset
      (start.advance x.length).location.offset) x.value
    rw [hslice]
    exact hvalue hw

/-- **A comment that is written in the source.** -/
theorem Comment.keepsText_of_written {m : Trivia.Mode} {kind : Comment.Kind}
    {inner piece rest : List CodeUnit} {start stop : Location}
    (hdrop : source.drop start.offset = piece ++ rest)
    (hwritten : Trivia.Written m (.comment kind inner) piece rest)
    (hstop : stop.offset = start.offset + piece.length) :
    (Comment.mk kind (Utf16.lossy inner) start stop).KeepsText source := by
  obtain ⟨hafter, hjoin⟩ := hwritten.whole_of_comment
  have hopener : IsWhole kind.opener ∧ kind.opener ≠ [] := by
    refine ⟨.of_ascii (Utf16.lt_of_all_isAscii ?_), ?_⟩ <;> cases kind <;> decide
  have hinterior := Trivia.interior_of_written hdrop hwritten
  rw [← hwritten.length_eq, ← hstop] at hinterior
  have heq := hwritten.eq_append_of_comment
  have hne : piece ≠ [] := by simp [heq, hopener.2]
  refine ⟨?_, ?_, ?_⟩
  · rw [heq, List.append_assoc] at hdrop
    exact (Text.not_splitsPair_of_isWhole hdrop hopener.2 hopener.1).1
  · rw [hstop]
    exact Text.not_splitsPair_of_last hdrop hne hjoin
  · rw [heq, List.append_assoc] at hdrop
    have hinner := Text.drop_of_drop_eq hdrop
    rw [List.append_assoc] at hinner
    have hw := Text.isWellFormed_of_drop_eq hsource hinner
      (Text.not_splitsPair_of_isWhole hdrop hopener.2 hopener.1).2
      (Utf16.not_joinsPair_of_head hafter)
    exact (Utf16.ofString_lossy_of_isWellFormed hw).trans hinterior.symm

end Source

/-! ## Calls -/

namespace Scanner

/-- The scanner remembers places of the source, and its comments keep their texts. -/
structure KeepsTexts (s : Scanner) (source : List CodeUnit) : Prop where
  keeps : s.Keeps source []
  comments : ∀ k ∈ s.comments, k.KeepsText source

variable {source : List CodeUnit} {c : Context} {s s' : Scanner} {t : Token}

theorem keepsTexts_ofSource (source : List CodeUnit) : (ofSource source).KeepsTexts source :=
  ⟨.of_startingAt source .start, by simp [ofSource, startingAt]⟩

theorem KeepsTexts.with_flags (h : s.KeepsTexts source) (flags : TokenFlags) :
    ({ s with flags } : Scanner).KeepsTexts source :=
  ⟨h.keeps.with_flags flags, h.comments⟩

theorem comments_settle (start : Cursor) (seek : Nat → Cursor) (o : Outcome Lexeme) :
    (s.settle c start seek o).2.comments = s.comments := by
  cases o <;> rfl

section Source
variable (hsource : isWellFormed source = true)
include hsource

/-- **One piece of trivia.** -/
theorem KeepsTexts.pass {piece : Trivia} (h : s.KeepsTexts source) (collect : Bool)
    (hpiece : Trivia.first? (s.triviaMode c) s.cursor.rest = some piece) :
    (s.pass collect piece).KeepsTexts source := by
  refine ⟨h.keeps.pass collect piece, ?_⟩
  intro k hk
  unfold Scanner.pass at hk
  dsimp only at hk
  split at hk
  · next kind inner =>
    split at hk
    · rcases Array.mem_push.mp hk with hk | rfl
      · exact h.comments k hk
      · obtain ⟨text, rest, htext, hwritten⟩ := Trivia.written_of_first? hpiece
        refine Comment.keepsText_of_written hsource ?_ hwritten ?_
        · rw [← h.keeps.cursor.rest_eq, htext]
        · rw [Cursor.offset_advance, htext, ← hwritten.length_eq, List.take_left]
    · exact h.comments k hk
  · exact h.comments k hk

theorem KeepsTexts.passes {ts : List Trivia} (hp : Passes c s ts s') (h : s.KeepsTexts source) :
    s'.KeepsTexts source := by
  induction hp with
  | done _ => exact h
  | piece hpiece _ ih => exact ih (h.pass hsource _ hpiece)

/-- A call leaves the comments that were there when the trivia had been passed. -/
theorem KeepsTexts.next (h : s.KeepsTexts source) (c : Context) :
    (s.next c).2.KeepsTexts source := by
  obtain ⟨ts, s₁, hp, hcases⟩ := readAfterTrivia_cases c (fun _ => Lexeme.read c) s
  have h₁ := (h.with_flags ∅).passes hsource hp
  refine ⟨h.keeps.of_next rfl, ?_⟩
  rcases hcases with ⟨-, heq⟩ | ⟨-, heq⟩
  · rw [Scanner.next, heq]
    exact h₁.comments
  · rw [Scanner.next, heq, readHere, comments_settle]
    exact h₁.comments

/-- **One token.** -/
theorem KeepsTexts.token_of_next (h : s.KeepsTexts source) (hnext : s.next c = (.ok t, s')) :
    t.KeepsText source := by
  obtain ⟨ts, s₁, x, hp, -, hx, rfl, -⟩ := next_eq_ok_iff.mp hnext
  have hplace := ((h.with_flags ∅).passes hsource hp).keeps.cursor
  refine Token.keepsText_ofReading hsource hplace (Lexeme.isWhole_of_read hx) ?_
    (Lexeme.keepsText_of_read hx)
  intro hnil
  cases hrest : s₁.cursor.rest with
  | nil => rfl
  | cons u rest =>
    -- only the end token takes nothing
    rw [hrest] at hx hnil
    have hpos := Lexeme.length_pos_of_read hx
    rcases List.take_eq_nil_iff.mp hnil with hzero | hnil
    · omega
    · simp at hnil

/-- **The rest of a template.** -/
theorem KeepsTexts.of_continueTemplate (h : s.KeepsTexts source)
    (htemplate : s.continueTemplate c = (.ok t, s')) :
    t.KeepsText source ∧ s'.KeepsTexts source := by
  have hkeeps := h.keeps.of_continueTemplate htemplate
  obtain ⟨x, hx, rfl, rfl⟩ := continueTemplate_eq_ok_iff.mp htemplate
  obtain ⟨⟨rest, hbrace⟩, hread⟩ := Lexeme.template_of_readContinuation hx
  refine ⟨Token.keepsText_ofReading hsource h.keeps.tokenStart ?_ ?_
    fun _ => Lexeme.keepsText_of_template hread, hkeeps, h.comments⟩
  · rw [hbrace] at hread ⊢
    exact Template.isWhole_of_read (by decide) hread
  · have hpos := Lexeme.length_pos_of_template hread
    rw [List.take_eq_nil_iff]
    rintro (hzero | hnil)
    · omega
    · exact hnil

/-! ## Runs -/

/-- **Calls with any contexts.** The comments keep their texts even behind an error. -/
theorem KeepsTexts.calls (h : s.KeepsTexts source) (cs : List Context) :
    (∀ t ∈ s.tokensWith cs, t.KeepsText source) ∧ (s.afterCalls cs).KeepsTexts source := by
  induction cs generalizing s with
  | nil => exact ⟨by simp [tokensWith], h⟩
  | cons c cs ih =>
    have hstep := h.next hsource c
    refine ⟨?_, (ih hstep).2⟩
    rw [tokensWith]
    split
    · next t s' hnext =>
      rw [hnext] at hstep
      exact List.forall_mem_cons.mpr ⟨h.token_of_next hsource hnext, (ih hstep).1⟩
    · simp

end Source

end Scanner

namespace TokenStream

variable {source : List CodeUnit} {s s' : TokenStream} {t : Token}

section Source
variable (hsource : isWellFormed source = true)
include hsource

/-- **One token of a stream.** -/
theorem keepsText_of_advance (h : s.scanner.KeepsTexts source)
    (hadvance : s.advance = (.ok t, s')) :
    t.KeepsText source ∧ s'.scanner.KeepsTexts source := by
  have hstep := h.next hsource s.goal
  rcases advance_eq_ok_iff.mp hadvance with
    ⟨scanner, hnext, -, rfl⟩ | ⟨brace, sub, scanner, scanner', hnext, -, htemplate, rfl⟩
  · rw [hnext] at hstep
    rw [scanner_track]
    exact ⟨h.token_of_next hsource hnext, hstep⟩
  · rw [hnext] at hstep
    rw [scanner_track]
    exact hstep.of_continueTemplate hsource htemplate

/-- **The tokens of a stream.** -/
theorem keepsText_of_produces {ts : List Token} (hproduces : s.Produces ts s')
    (h : s.scanner.KeepsTexts source) :
    (∀ t ∈ ts, t.KeepsText source) ∧ s'.scanner.KeepsTexts source := by
  induction hproduces with
  | nil => exact ⟨by simp, h⟩
  | cons hnext _ ih =>
    obtain ⟨ht, hstep⟩ := keepsText_of_advance hsource h (advance_of_next? hnext)
    obtain ⟨hts, hend⟩ := ih hstep
    exact ⟨List.forall_mem_cons.mpr ⟨ht, hts⟩, hend⟩

end Source

end TokenStream

/-- **Nothing is lost of a well-formed source.** Take calls of a scanner with any contexts, or
tokens of a stream. No token and no comment begins or ends within a surrogate pair, and the strings
that are copied from the source are, as code units, what the source has there: raw texts, names
without escapes, BigInt literals, patterns and flags of regular expressions, and the insides of
comments. -/
theorem texts_of_wellFormed_source {source : List CodeUnit}
    (hsource : isWellFormed source = true) :
    (∀ cs, (∀ t ∈ (Scanner.ofSource source).tokensWith cs, t.KeepsText source) ∧
      ∀ k ∈ ((Scanner.ofSource source).afterCalls cs).comments, k.KeepsText source) ∧
    ∀ c ts s, (TokenStream.ofSource source c).Produces ts s →
      (∀ t ∈ ts, t.KeepsText source) ∧ ∀ k ∈ s.scanner.comments, k.KeepsText source := by
  have hstart := Scanner.keepsTexts_ofSource source
  constructor
  · intro cs
    obtain ⟨htokens, hend⟩ := hstart.calls hsource cs
    exact ⟨htokens, hend.comments⟩
  · intro c ts s hproduces
    obtain ⟨htokens, hend⟩ := TokenStream.keepsText_of_produces hsource hproduces hstart
    exact ⟨htokens, hend.comments⟩

/-- A comment, a private name and a regular expression, with emoji in the comment and in the
pattern. -/
theorem texts_of_wellFormed_source_emoji :
    let source : List CodeUnit := [0x2F, 0x2A, 0xD83D, 0xDE00, 0x2A, 0x2F, 0x23, 0x61, 0x2F,
      0xD83D, 0xDE00, 0x2F, 0x75]
    let c : Context := { raw := true, allowRegExp := true, collectComments := true }
    ∃ name regExp k, (Scanner.ofSource source).tokensWith [c, c] = [name, regExp] ∧
      ((Scanner.ofSource source).afterCalls [c, c]).comments = #[k] ∧
      name.KeepsText source ∧ regExp.KeepsText source ∧ k.KeepsText source ∧
      (∃ n, name.value = .name n ∧ ofString n = [0x61]) ∧
      (∃ raw, regExp.raw = some raw ∧ ofString raw = [0x2F, 0xD83D, 0xDE00, 0x2F, 0x75]) ∧
      ofString k.text = [0xD83D, 0xDE00] := by
  intro source c
  have hsource : isWellFormed source = true := by decide
  obtain ⟨htokens, hcomments⟩ := (texts_of_wellFormed_source hsource).1 [c, c]
  have hplaces : ((Scanner.ofSource source).tokensWith [c, c]).map
      (fun t => (t.kind, t.start.offset, t.stop, t.raw.isSome)) =
      [(.privateName, 6, 8, true), (.regExpLiteral, 8, 13, true)] := by decide +kernel
  obtain ⟨name, more, heq, hname, hmore⟩ := List.map_eq_cons_iff.mp hplaces
  obtain ⟨regExp, more, rfl, hregExp, hnil⟩ := List.map_eq_cons_iff.mp hmore
  obtain rfl := List.map_eq_nil_iff.mp hnil
  have hextents : ((Scanner.ofSource source).afterCalls [c, c]).comments.toList.map
      Comment.extent = [⟨.multiLine, 0, 6⟩] := by decide +kernel
  obtain ⟨k, none, hk, hextent, hnil⟩ := List.map_eq_cons_iff.mp hextents
  obtain rfl := List.map_eq_nil_iff.mp hnil
  rw [heq, List.forall_mem_cons, List.forall_mem_singleton] at htokens
  have hmem : k ∈ ((Scanner.ofSource source).afterCalls [c, c]).comments :=
    Array.mem_toList_iff.mp (by rw [hk]; exact List.mem_cons_self)
  obtain ⟨hkind, hstart, hstop, -⟩ := by simpa only [Prod.mk.injEq] using hname
  obtain ⟨-, hstart', hstop', hraw⟩ := by simpa only [Prod.mk.injEq] using hregExp
  refine ⟨name, regExp, k, heq, Array.toList_inj.mp hk, htokens.1, htokens.2, hcomments k hmem,
    ?_, ?_, ?_⟩
  · obtain ⟨n, hvalue, hn⟩ := htokens.1.value.privateName hkind
    rw [hstart, hstop] at hn
    exact ⟨n, hvalue, List.tail_eq_of_cons_eq (hn (by decide))⟩
  · obtain ⟨raw, hsome⟩ := Option.isSome_iff_exists.mp hraw
    exact ⟨raw, hsome, by rw [htokens.2.raw_eq raw hsome, hstart', hstop']; decide⟩
  · rw [(hcomments k hmem).text_eq, hextent]
    decide

end EcmaLex
