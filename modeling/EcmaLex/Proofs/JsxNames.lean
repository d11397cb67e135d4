import EcmaLex.Proofs.FlagMeanings
import EcmaLex.Proofs.Places

/-!
# Names in tags

A parser that meets a name in a tag has already called for a token, and asks for the same name again
with other rules: hyphens belong to it, and escapes do not. `Jsx.isNamePart` are the code points of
such names.

* `Jsx.codePoints_nameLength`: a name is the longest run of these code points.
* `Identifier.Items.nameLength_eq`: a name without escapes is part of such a run.
* `Scanner.rescanJsxName_of_next`: the name in place of the token. It covers the token exactly if
  the token is written without escapes. Otherwise it ends in front of the first one, and keeps the
  flag that says there was one.
-/

namespace EcmaLex

/-! ## Runs -/

namespace Jsx

/-- Whether a code point may stand in a name in a tag. -/
def isNamePart (c : CodePoint) : Bool := c == CodeUnit.minus.toNat || c.isIdentifierPart

variable {w rest text : List CodeUnit} {c : CodePoint}

/-- The first code point decides whether the run goes on. -/
theorem nameLength_append (h : Utf16.head? (w ++ rest) = some (c, w.length)) :
    nameLength (w ++ rest) = if isNamePart c then w.length + nameLength rest else 0 := by
  have hpart (u : CodeUnit) :
      isNamePart u.toNat = true ↔ u = CodeUnit.minus ∨ CodePoint.isIdentifierPart u.toNat := by
    rw [isNamePart, Bool.or_eq_true, beq_iff_eq, UInt16.toNat_inj]
  match w, rest with
  | [], _ => exact absurd (Identifier.width_pos h) (by decide)
  | [u], [] =>
    obtain ⟨rfl, -⟩ := Prod.mk.inj (Option.some.inj h)
    rw [List.append_nil, nameLength]
    simp only [hpart]
    rfl
  | [u], v :: rest =>
    rw [List.singleton_append, Utf16.head?] at h
    split at h
    · simp at h
    · next hpair =>
      obtain ⟨rfl, -⟩ := Prod.mk.inj (Option.some.inj h)
      rw [Bool.and_eq_true] at hpair
      rw [List.singleton_append, nameLength, if_neg hpair]
      simp only [hpart]
      rfl
  | u :: v :: w, rest =>
    have hminus := Utf16.eq_toNat_iff_of_head? h (v := CodeUnit.minus) (by decide)
    rw [List.cons_append, List.cons_append, Utf16.head?] at h
    split at h
    · next hpair =>
      rw [Bool.and_eq_true] at hpair
      obtain ⟨rfl, hlength⟩ := Prod.mk.inj (Option.some.inj h)
      obtain rfl : w = [] := by simpa using hlength
      -- a pair denotes no hyphen
      have hne : CodePoint.ofPair u v ≠ CodeUnit.minus.toNat := by
        intro hc
        rw [hminus.mp hc] at hpair
        exact absurd hpair.1 (by decide)
      rw [isNamePart, beq_eq_false_iff_ne.mpr hne, Bool.false_or, List.cons_append,
        List.singleton_append, nameLength, if_pos hpair]
      rfl
    · simp at h

/-- **A name is the longest run** of name parts that the text begins with. -/
theorem codePoints_nameLength (text : List CodeUnit) :
    nameLength text ≤ text.length ∧
      Utf16.codePoints (text.take (nameLength text)) =
        (Utf16.codePoints text).takeWhile isNamePart ∧
      Utf16.codePoints (text.drop (nameLength text)) =
        (Utf16.codePoints text).dropWhile isNamePart := by
  induction text using Utf16.induction with
  | nil => exact ⟨Nat.le_refl 0, rfl, rfl⟩
  | cons w rest c hc ih =>
    obtain ⟨hle, htake, hdrop⟩ := ih
    rw [nameLength_append hc, Utf16.codePoints_append hc]
    cases hpart : isNamePart c with
    | true =>
      rw [if_pos rfl, List.takeWhile_cons_of_pos hpart, List.dropWhile_cons_of_pos hpart]
      refine ⟨by rw [List.length_append]; omega, ?_, ?_⟩
      · rw [List.take_length_add_append, Utf16.codePoints_append (Utf16.head?_append_take hc _),
          htake]
      · rw [List.drop_length_add_append, hdrop]
    | false =>
      have hnot : ¬isNamePart c = true := by simp [hpart]
      rw [if_neg (by decide), List.takeWhile_cons_of_neg hnot, List.dropWhile_cons_of_neg hnot]
      exact ⟨Nat.zero_le _, rfl, Utf16.codePoints_append hc⟩

/-- Every name part is a character. -/
theorem exists_toChar?_of_isNamePart (h : isNamePart c = true) : ∃ ch, c.toChar? = some ch := by
  rw [isNamePart, Bool.or_eq_true, beq_iff_eq] at h
  rcases h with rfl | h
  · exact CodePoint.exists_toChar?_of_lt (by decide)
  · refine CodePoint.exists_toChar?_of_accepts (?_ : Identifier.accepts false c = true)
    rwa [Identifier.accepts, if_neg (by decide)]

/-- The code points of a name are name parts. -/
theorem isNamePart_of_mem (h : c ∈ Utf16.codePoints (text.take (nameLength text))) :
    isNamePart c = true := by
  rw [(codePoints_nameLength text).2.1] at h
  exact List.mem_takeWhile_imp h

/-- No name has a backslash. -/
theorem backslash_not_mem_take_nameLength (text : List CodeUnit) :
    CodeUnit.backslash ∉ text.take (nameLength text) := by
  intro hmem
  exact absurd (isNamePart_of_mem (Utf16.toNat_mem_codePoints hmem (by decide) (by decide)))
    (by decide)

/-- Behind the end of a name stands no name part. -/
theorem isNamePart_eq_false_of_mem_head?
    (h : c ∈ (Utf16.codePoints (text.drop (nameLength text))).head?) : isNamePart c = false := by
  rw [(codePoints_nameLength text).2.2] at h
  have hhead := List.head?_dropWhile_not isNamePart (Utf16.codePoints text)
  rw [Option.mem_def.mp h] at hhead
  simpa using hhead

/-- A name is kept as a string. -/
theorem ofString_lossy_take_nameLength (text : List CodeUnit) :
    Utf16.ofString (Utf16.lossy (text.take (nameLength text))) = text.take (nameLength text) :=
  Utf16.ofString_lossy fun _ hc => exists_toChar?_of_isNamePart (isNamePart_of_mem hc)

theorem name_eq_ok_iff {x : Reading Lexeme} :
    name text = .ok x ↔
      ((Utf16.head? text).any fun (c, _) => c.isIdentifierStart) = true ∧
        x = ⟨⟨.identifier, .name (Utf16.lossy (text.take (nameLength text)))⟩,
          nameLength text, ∅⟩ := by
  unfold name
  split
  · next h => simp [h, eq_comm]
  · next h => simp [h, Lexeme.illegal]

end Jsx

/-! ## Names without escapes -/

namespace Identifier

/-- What the grammar adds to XID_Start is among what it adds to XID_Continue, or has that
property. -/
theorem isPart_of_mem_idStartNotXid :
    ∀ c ∈ CodePoint.idStartNotXid, (CodePoint.idContinueNotXid.contains c ||
      CodePointSet.isOutsideAsciiWith Unicode.isXidContinue c) = true := by
  decide +kernel

/-- What begins a name may go on it. -/
theorem isIdentifierPart_of_accepts {first : Bool} {c : CodePoint} (h : accepts first c = true) :
    c.isIdentifierPart = true := by
  cases first with
  | false => rwa [accepts, if_neg (by decide)] at h
  | true =>
    rw [accepts, if_pos rfl] at h
    by_cases hc : c < 0x80
    · rw [CodePoint.isIdentifierStart, CodePoint.isStartBy, if_pos hc] at h
      rw [CodePoint.isIdentifierPart, CodePoint.isPartBy, if_pos hc,
        CodePoint.isAsciiIdentifierPart, h, Bool.true_or]
    · rw [CodePoint.isIdentifierStart, CodePoint.identifierStarts, CodePoint.isStartBy_eq _ hc,
        Bool.or_eq_true, List.contains_iff_mem] at h
      rw [CodePoint.isIdentifierPart, CodePoint.identifierParts, CodePoint.isPartBy_eq _ hc]
      rcases h with h | h
      · rw [isPart_of_mem_idStartNotXid c h, Bool.or_true]
      · rw [CodePointSet.isOutsideAsciiWith, Bool.and_eq_true, Option.any_eq_true] at h
        obtain ⟨hc', ch, hch, hstart⟩ := h
        rw [CodePointSet.isOutsideAsciiWith, hc', hch, Option.any_some, Unicode.isXidContinue,
          hstart]
        simp

/-- **A name without escapes** is a run of name parts, though perhaps not the longest one. -/
theorem Items.nameLength_eq {first escaped : Bool} {w rest : List CodeUnit}
    {cs : List CodePoint} (h : Items first w rest cs escaped) (hescaped : escaped = false) :
    Jsx.nameLength (w ++ rest) = w.length + Jsx.nameLength rest := by
  induction h with
  | nil => rw [List.nil_append, List.length_nil, Nat.zero_add]
  | cons hitem hc _ ih =>
    rw [Bool.or_eq_false_iff] at hescaped
    cases hitem with
    | itself hhead =>
      rw [List.append_assoc, Jsx.nameLength_append hhead, Jsx.isNamePart,
        isIdentifierPart_of_accepts hc, Bool.or_true, if_pos rfl, ih hescaped.2,
        List.length_append, Nat.add_assoc]
    | escape => simp at hescaped

/-- The run at the beginning of a name covers the name exactly if there are no escapes in it. -/
theorem length_le_nameLength_iff {text : List CodeUnit} {x : Reading Lexeme}
    (h : read text = .ok x) :
    x.length ≤ text.length ∧
      (x.length ≤ Jsx.nameLength text ↔ CodeUnit.backslash ∉ text.take x.length) := by
  obtain ⟨y, b, hy, -, rfl⟩ := Reader.interpret_eq_ok_iff.mp h
  obtain ⟨w, rest, cs, escaped, rfl, hlongest⟩ := exists_longest text
  obtain ⟨-, -, s, -, rfl⟩ := (name_eq_ok_iff hlongest).mp hy
  dsimp only
  rw [List.take_left]
  refine ⟨by simp, ?_, ?_⟩
  · intro hle hmem
    -- a longer run would have the backslash as well
    apply Jsx.backslash_not_mem_take_nameLength (w ++ rest)
    rw [List.take_append, List.take_of_length_le hle]
    exact List.mem_append_left _ hmem
  · intro hmem
    have hescaped := hlongest.items.escaped_eq
    rw [List.contains_eq_mem, decide_eq_false hmem] at hescaped
    rw [hlongest.items.nameLength_eq hescaped]
    exact Nat.le_add_right _ _

end Identifier

/-! ## Tokens -/

namespace Scanner

/-- **The name in place of a token.** A name, read again as the name of a tag, is the longest run of
name parts from its start on, whatever the token was. Nothing of the token is given back exactly if
it is written without escapes; an escape ends the name in front of it, and its flag stays. -/
theorem rescanJsxName_of_next {source : List CodeUnit} {c c' : Context} {s s₁ s₂ : Scanner}
    {t t' : Token} (hs : s.cursor.IsPlaceOf source) (hnext : s.next c = (.ok t, s₁))
    (hkind : t.kind.isIdentifierName = true) (hrescan : s₁.rescanJsxName c' = (.ok t', s₂)) :
    let text := source.extract t'.start.offset t'.stop
    let escapes := CodeUnit.backslash ∈ source.extract t.start.offset t.stop
    t'.kind = .identifier ∧ t'.start = t.start ∧
      Utf16.codePoints text =
        (Utf16.codePoints (source.drop t.start.offset)).takeWhile Jsx.isNamePart ∧
      (∀ d ∈ (Utf16.codePoints (source.drop t'.stop)).head?, Jsx.isNamePart d = false) ∧
      (∃ name, t'.value = .name name ∧ Utf16.ofString name = text) ∧
      t'.flags.newLineBefore = t.flags.newLineBefore ∧
      (t.stop ≤ t'.stop ↔ ¬escapes) ∧ (t'.flags.unicodeEscape = true ↔ escapes) := by
  obtain ⟨ts, s₀, x, hp, -, hx, rfl, rfl⟩ := next_eq_ok_iff.mp hnext
  obtain ⟨y, hy, rfl, -⟩ := rescanJsxName_eq_ok_iff.mp hrescan
  obtain ⟨-, rfl⟩ := Jsx.name_eq_ok_iff.mp hy
  have hplace := hp.isPlaceOf (s := { s with flags := ∅ }) hs
  have hread := Lexeme.identifier_of_read hx hkind
  obtain ⟨hlength, hcovers⟩ := Identifier.length_le_nameLength_iff hread
  obtain ⟨hle, hrun, -⟩ := Jsx.codePoints_nameLength s₀.cursor.rest
  simp only [Token.ofReading, tokenStart_took, flags_took, hplace.extract_advance,
    TokenFlags.union_empty, true_and]
  refine ⟨?_, ?_, ⟨_, rfl, Jsx.ofString_lossy_take_nameLength _⟩, ?_, ?_⟩
  · rw [← hplace.rest_eq, hrun]
  · intro d hd
    rw [← (hplace.advance _).rest_eq, Cursor.rest_advance] at hd
    exact Jsx.isNamePart_eq_false_of_mem_head? hd
  · rw [Cursor.offset_advance, Cursor.offset_advance, Nat.add_le_add_iff_left,
      List.length_take_of_le hlength, List.length_take_of_le hle, hcovers]
  · rw [hp.flags_eq, Identifier.flags_of_read hread, TokenFlags.empty_union,
      TokenFlags.newLine_union]
    simp

/-- In a second line, `class-name=` has a keyword in front that is no name of its own. -/
theorem rescanJsxName_of_next_hyphen :
    let source : List CodeUnit :=
      [0x0A, 0x63, 0x6C, 0x61, 0x73, 0x73, 0x2D, 0x6E, 0x61, 0x6D, 0x65, 0x3D]
    ∃ t s₁ t' s₂, (ofSource source).next {} = (.ok t, s₁) ∧ t.kind = .keyword .classKw ∧
      t.stop = 6 ∧ s₁.rescanJsxName {} = (.ok t', s₂) ∧ t'.kind = .identifier ∧ t'.stop = 11 ∧
      t'.flags.newLineBefore = true ∧ t'.flags.unicodeEscape = false ∧
      ∃ name, t'.value = .name name ∧ Utf16.ofString name = (source.drop 1).take 10 := by
  intro source
  have htoken : ((ofSource source).next {}).1.toOption.map
      (fun t => (t.kind, t.start.offset, t.stop, t.flags.newLineBefore)) =
      some (.keyword .classKw, 1, 6, true) := by decide +kernel
  have hname : (((ofSource source).next {}).2.rescanJsxName {}).1.toOption.map Token.stop =
      some 11 := by decide +kernel
  obtain ⟨t, s₁, hnext, ht⟩ := exists_ok_of_map htoken
  obtain ⟨hkind, hoffset, hstop, hline⟩ : _ ∧ _ ∧ _ ∧ _ := by simpa using ht
  rw [hnext] at hname
  obtain ⟨t', s₂, hrescan, hstop'⟩ := exists_ok_of_map hname
  obtain ⟨hkind', hstart, -, -, hvalue, hline', -, hescape⟩ :=
    rescanJsxName_of_next (.of_startingAt source .start) hnext (by rw [hkind]; rfl) hrescan
  rw [hoffset, hstop] at hescape
  rw [hstart, hoffset, hstop'] at hvalue
  exact ⟨t, s₁, t', s₂, hnext, hkind, hstop, hrescan, hkind', hstop', hline'.trans hline,
    Bool.eq_false_iff.mpr (hescape.not.mpr (by decide)), hvalue⟩

/-- Of `a\u0062`, read as one name, the `b` is given back. What is left has no escape and keeps the
flag of one. -/
theorem rescanJsxName_gives_back :
    let source : List CodeUnit := [0x61, 0x5C, 0x75, 0x30, 0x30, 0x36, 0x32]
    ∃ t s₁ t' s₂, (ofSource source).next {} = (.ok t, s₁) ∧ t.kind = .identifier ∧
      s₁.rescanJsxName {} = (.ok t', s₂) ∧ ¬t.stop ≤ t'.stop ∧
      t'.flags.unicodeEscape = true ∧
      CodeUnit.backslash ∉ source.extract t'.start.offset t'.stop := by
  intro source
  have htoken : ((ofSource source).next {}).1.toOption.map (fun t => (t.kind, t.stop)) =
      some (.identifier, 7) := by decide +kernel
  have hname : (((ofSource source).next {}).2.rescanJsxName {}).1.toOption.map
      (fun t => (t.start.offset, t.stop, t.flags.unicodeEscape)) = some (0, 1, true) := by
    decide +kernel
  obtain ⟨t, s₁, hnext, ht⟩ := exists_ok_of_map htoken
  obtain ⟨hkind, hstop⟩ := Prod.mk.inj ht
  rw [hnext] at hname
  obtain ⟨t', s₂, hrescan, ht'⟩ := exists_ok_of_map hname
  obtain ⟨hstart', hstop', hflag⟩ : _ ∧ _ ∧ _ := by simpa using ht'
  refine ⟨t, s₁, t', s₂, hnext, hkind, hrescan, ?_, hflag, ?_⟩
  · rw [hstop', hstop]
    decide
  · rw [hstart', hstop']
    decide

end Scanner

end EcmaLex
