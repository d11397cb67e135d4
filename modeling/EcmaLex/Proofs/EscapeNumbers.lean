import EcmaLex.Proofs.CleanStops
import EcmaLex.Proofs.EscapeGrammar

/-!
# Numbers of Unicode escapes

The number of a Unicode escape has any number of digits, and the digit with which it denotes no code
point any more is not taken. This module says where reading a number ends, and with which result.

* `exists_number_or_leavesOff`: a text begins with a number, or one is left off in it.
* `unicode_eq_error_iff`: where one is left off, reading stops right there. So it does in front of a
  closing brace if the digits are miscounted (`Miscounts`).
* `outOfRange_iff`: which numbers are refused for their value.
* `exists_passed`: what reading has passed stands on one line.
-/

namespace EcmaLex

/-- The position from which the text is read on, behind what was read or where nothing fitted. -/
def Outcome.stop {α : Type} : Outcome α → Nat
  | .ok x => x.length
  | .error f => f.stop

theorem Outcome.shift_shift {α : Type} (o : Outcome α) (n k : Nat) :
    (o.shift n ∅).shift k ∅ = o.shift (k + n) ∅ := by
  cases o <;> simp [shift, Nat.add_assoc]

/-- A text without line terminators is passed on its line. -/
theorem Location.after_of_inLine {text : List CodeUnit}
    (h : ∀ u ∈ text, u.isLineTerminator = false) (l : Location) :
    l.after text = ⟨l.line, l.column + text.length, l.offset + text.length⟩ := by
  induction text generalizing l with
  | nil => rfl
  | cons u rest ih =>
    rw [List.forall_mem_cons] at h
    have hends : Text.endsLineAt (u :: rest) 0 = false := by simp [Text.endsLineAt, h.1]
    rw [after_cons, hends, if_neg (by decide), ih h.2, step, List.length_cons]
    simp only [Nat.add_assoc, Nat.add_comm 1]

namespace Escape

variable {ds w rest text : List CodeUnit} {u : CodeUnit} {n d : Nat}

/-! ## Beginnings of numbers -/

/-- The text begins a number. It may be all of it. -/
def Begins (w : List CodeUnit) : Prop := ∃ more c, CodePointNumber (w ++ more) c

/-- A number goes on behind `w`, but not with what is there: neither with the next unit, nor at the
end. -/
structure LeavesOff (w rest : List CodeUnit) : Prop where
  goesOn : ∃ more c, more ≠ [] ∧ CodePointNumber (w ++ more) c
  unfit : ∀ u ∈ rest.head?, ¬Begins (w ++ [u])

/-- The digits in braces denote a code point up to here, and none with the next digit. -/
def Exceeds (w rest : List CodeUnit) : Prop :=
  ∃ ds d more, w = CodeUnit.leftBrace :: ds ∧ rest = d :: more ∧
    (∀ u ∈ ds ++ [d], Radix.hexadecimal.isDigit u = true) ∧
    Radix.hexadecimal.valueOf ds ≤ CodePoint.max ∧
    CodePoint.max < Radix.hexadecimal.valueOf (ds ++ [d])

theorem isLineTerminator_of_isDigit (h : Radix.hexadecimal.isDigit u = true) :
    u.isLineTerminator = false := by
  rw [← Bool.not_eq_true]
  intro hline
  simp only [CodeUnit.isLineTerminator, Bool.or_eq_true, beq_iff_eq] at hline
  rcases hline with ((rfl | rfl) | rfl) | rfl <;> exact absurd h (by decide)

theorem valueAfter_append (n : Nat) (ds es : List CodeUnit) :
    valueAfter n (ds ++ es) = valueAfter (valueAfter n ds) es :=
  List.foldl_append

theorem valueOf_le_append (ds es : List CodeUnit) :
    Radix.hexadecimal.valueOf ds ≤ Radix.hexadecimal.valueOf (ds ++ es) := by
  rw [← valueAfter_zero, ← valueAfter_zero, valueAfter_append]
  exact le_valueAfter _ es

theorem valueOf_concat (hd : u.hexDigit? = some d) :
    Radix.hexadecimal.valueOf (ds ++ [u]) = 16 * Radix.hexadecimal.valueOf ds + d := by
  rw [← valueAfter_zero, ← valueAfter_zero, valueAfter_append, valueAfter_cons hd]
  rfl

theorem begins_of_digits (hw : ∀ u ∈ w, Radix.hexadecimal.isDigit u = true)
    (hlength : w.length ≤ 4) : Begins w := by
  refine ⟨List.replicate (4 - w.length) CodeUnit.zero, _, .quad ?_ ?_⟩
  · refine List.forall_mem_append.mpr ⟨hw, ?_⟩
    intro u hu
    rw [List.eq_of_mem_replicate hu]
    decide
  · rw [List.length_append, List.length_replicate]
    omega

theorem begins_of_braced (hds : ∀ u ∈ ds, Radix.hexadecimal.isDigit u = true)
    (hmax : Radix.hexadecimal.valueOf ds ≤ CodePoint.max) :
    Begins (CodeUnit.leftBrace :: ds) := by
  cases ds with
  | nil =>
    have hdigits : ∀ u ∈ [CodeUnit.zero], Radix.hexadecimal.isDigit u = true :=
      List.forall_mem_singleton.mpr (by decide)
    exact ⟨[CodeUnit.zero, CodeUnit.rightBrace], _,
      .braced hdigits (List.cons_ne_nil _ _) (Nat.zero_le _)⟩
  | cons u ds => exact ⟨[CodeUnit.rightBrace], _, .braced hds (List.cons_ne_nil u ds) hmax⟩

/-- **Where a number goes on** there are less than four digits, or a brace and digits in range. -/
theorem LeavesOff.cases (h : LeavesOff w rest) :
    (∀ u ∈ w, Radix.hexadecimal.isDigit u = true) ∧ w.length < 4 ∨
      ∃ ds, (∀ u ∈ ds, Radix.hexadecimal.isDigit u = true) ∧
        Radix.hexadecimal.valueOf ds ≤ CodePoint.max ∧ w = CodeUnit.leftBrace :: ds := by
  obtain ⟨more, c, hmore, hnumber⟩ := h.goesOn
  have hpos := List.length_pos_iff.mpr hmore
  generalize hwhole : w ++ more = whole at hnumber
  cases hnumber with
  | quad hds hlength =>
    subst hwhole
    rw [List.length_append] at hlength
    exact .inl ⟨fun u hu => hds u (List.mem_append_left _ hu), by omega⟩
  | @braced ds hds hne hmax =>
    cases w with
    | nil => exact .inl ⟨by simp, by decide⟩
    | cons u w =>
      obtain ⟨rfl, hrest⟩ := List.cons.inj hwhole
      refine .inr ⟨w, ?_⟩
      rcases List.prefix_concat_iff.mp (Exists.intro more hrest) with rfl | ⟨es, rfl⟩
      · -- nothing stands behind the closing brace
        simp [hmore] at hrest
      · exact ⟨fun u hu => hds u (List.mem_append_left _ hu),
          Nat.le_trans (valueOf_le_append w es) hmax, rfl⟩

/-- **A text begins with a number, or leaves one off.** -/
theorem exists_number_or_leavesOff (text : List CodeUnit) :
    (∃ w rest c, text = w ++ rest ∧ CodePointNumber w c) ∨
      ∃ w rest, text = w ++ rest ∧ LeavesOff w rest := by
  have hempty : Begins [] := begins_of_digits (by simp) (by decide)
  obtain ⟨w, rest, rfl, ⟨more, c, hnumber⟩, hlast⟩ := Text.exists_last_beginning hempty text
  by_cases hmore : more = []
  · subst hmore
    rw [List.append_nil] at hnumber
    exact .inl ⟨w, rest, c, rfl, hnumber⟩
  · exact .inr ⟨w, rest, rfl, ⟨more, c, hmore, hnumber⟩, hlast⟩

/-! ## Readers -/

/-- The result of reading a number where nothing fits behind `n` units. -/
def misfit (e : EscapeError) (n : Nat) : Outcome CodePoint := .error ⟨.invalidEscape e, n, n, ∅⟩

/-- The reader of `k` digits stops where there are not as many. -/
def StopsShort (k : Nat) (r : Reader CodePoint) : Prop :=
  ∀ ds rest, (∀ u ∈ ds, Radix.hexadecimal.isDigit u = true) → ds.length < k →
    rest.head?.any Radix.hexadecimal.isDigit = false →
    r (ds ++ rest) = misfit .invalidUnicode ds.length

theorem hexDigit_bind_cons {next : Nat → Reader CodePoint} {error : EscapeError}
    (hd : u.hexDigit? = some d) (rest : List CodeUnit) :
    (hexDigit error >>= next) (u :: rest) = (next d rest).shift 1 ∅ := by
  show Reader.andThen (hexDigit error) next (u :: rest) = _
  rw [Reader.andThen, hexDigit, hd]
  rfl

theorem hexDigit_bind_of_head? {next : Nat → Reader CodePoint} {error : EscapeError}
    (h : text.head?.any Radix.hexadecimal.isDigit = false) :
    (hexDigit error >>= next) text = misfit error 0 := by
  show Reader.andThen (hexDigit error) next text = _
  cases text with
  | nil => rfl
  | cons u rest =>
    have hd : u.hexDigit? = none := by
      rw [List.head?_cons, Option.any_some, Radix.isDigit, digit?_hexadecimal] at h
      simpa using h
    rw [Reader.andThen, hexDigit, hd]
    rfl

theorem shift_misfit (e : EscapeError) (n k : Nat) : (misfit e n).shift k ∅ = misfit e (k + n) := by
  rw [misfit, Outcome.shift, TokenFlags.empty_union]
  rfl

/-- One digit more. -/
theorem StopsShort.bind {k : Nat} {next : Nat → Reader CodePoint}
    (h : ∀ d, StopsShort k (next d)) :
    StopsShort (k + 1) (hexDigit .invalidUnicode >>= next) := by
  intro ds rest hds hlength hrest
  cases ds with
  | nil => exact hexDigit_bind_of_head? hrest
  | cons u ds =>
    rw [List.forall_mem_cons] at hds
    obtain ⟨d, hd⟩ := isDigit_hexadecimal_iff.mp hds.1
    rw [List.cons_append, hexDigit_bind_cons hd, h d ds rest hds.2 (by simpa using hlength) hrest,
      shift_misfit, List.length_cons, Nat.add_comm]

theorem stopsShort_hexQuad : StopsShort 4 hexQuad := by
  refine .bind fun a => .bind fun b => .bind fun c => .bind fun d => ?_
  intro ds rest _ hlength
  exact absurd hlength (Nat.not_lt_zero _)

/-- Digits in range are passed. -/
theorem bracedDigits_append {count : Int32} (hds : ∀ u ∈ ds, Radix.hexadecimal.isDigit u = true)
    (hmax : valueAfter n ds ≤ CodePoint.max) :
    bracedDigits n count (ds ++ rest) =
      (bracedDigits (valueAfter n ds) (count + Int32.ofNat ds.length) rest).shift ds.length ∅ := by
  induction ds generalizing n count with
  | nil => simp [valueAfter]
  | cons u ds ih =>
    rw [List.forall_mem_cons] at hds
    obtain ⟨d, hd⟩ := isDigit_hexadecimal_iff.mp hds.1
    rw [valueAfter_cons hd] at hmax ⊢
    have hle : 16 * n + d ≤ CodePoint.max := Nat.le_trans (le_valueAfter _ ds) hmax
    rw [List.cons_append, bracedDigits, hd]
    dsimp only
    rw [if_neg (Nat.not_lt.mpr hle), ih hds.2 hmax, Outcome.shift_shift, add_ofNat_length_cons,
      List.length_cons, Nat.add_comm]

/-- In braces, digits in range are passed. -/
theorem unicode_braced (hds : ∀ u ∈ ds, Radix.hexadecimal.isDigit u = true)
    (hmax : Radix.hexadecimal.valueOf ds ≤ CodePoint.max) (rest : List CodeUnit) :
    unicode (CodeUnit.leftBrace :: ds ++ rest) =
      (bracedDigits (Radix.hexadecimal.valueOf ds) (Int32.ofNat ds.length) rest).shift
        (ds.length + 1) ∅ := by
  rw [List.cons_append, unicode, if_pos rfl, bracedDigits_append hds (by rwa [valueAfter_zero]),
    valueAfter_zero, Int32.zero_add, Outcome.shift_shift, Nat.add_comm]

theorem shift_failHere (e : EscapeError) (n : Nat) :
    Outcome.shift n ∅ (.failHere (.invalidEscape e)) = misfit e n :=
  shift_misfit e 0 n

/-- The digit with which the value is out of range is not taken. -/
theorem unicode_of_exceeds (h : Exceeds w rest) :
    unicode (w ++ rest) = misfit .outOfRange w.length := by
  obtain ⟨ds, u, more, rfl, rfl, hdigits, hmax, hlt⟩ := h
  obtain ⟨hds, hu⟩ := List.forall_mem_append.mp hdigits
  obtain ⟨d, hd⟩ := isDigit_hexadecimal_iff.mp (hu u List.mem_cons_self)
  rw [valueOf_concat hd] at hlt
  rw [unicode_braced hds hmax, bracedDigits, hd]
  dsimp only
  rw [if_pos hlt, shift_failHere, List.length_cons]

/-- **Where no number goes on, reading stops.** It is the value of the digits that is refused where
the next digit would fit, were it not for the value. -/
theorem unicode_of_leavesOff (h : LeavesOff w rest) :
    Exceeds w rest ∧ unicode (w ++ rest) = misfit .outOfRange w.length ∨
      ¬Exceeds w rest ∧ unicode (w ++ rest) = misfit .invalidUnicode w.length := by
  rcases h.cases with ⟨hw, hlength⟩ | ⟨ds, hds, hmax, rfl⟩
  · have hdigit : rest.head?.any Radix.hexadecimal.isDigit = false := by
      rw [← Bool.not_eq_true, Option.any_eq_true]
      rintro ⟨u, hu, hdigit⟩
      refine h.unfit u hu (begins_of_digits ?_ ?_)
      · exact List.forall_mem_append.mpr ⟨hw, List.forall_mem_singleton.mpr hdigit⟩
      · rw [List.length_append, List.length_singleton]
        exact hlength
    have hbrace : (w ++ rest).head? ≠ some CodeUnit.leftBrace := by
      cases w with
      | nil =>
        intro hhead
        exact h.unfit _ hhead (begins_of_braced (by simp) (by decide))
      | cons u w =>
        intro hhead
        obtain rfl : u = CodeUnit.leftBrace := Option.some.inj hhead
        exact absurd (hw _ List.mem_cons_self) (by decide)
    refine .inr ⟨?_, ?_⟩
    · rintro ⟨ds, d, more, rfl, -⟩
      exact hbrace rfl
    · rw [← stopsShort_hexQuad w rest hw hlength hdigit]
      cases hwhole : w ++ rest with
      | nil => rfl
      | cons u more =>
        rw [unicode, if_neg]
        rintro rfl
        exact hbrace (by rw [hwhole]; rfl)
  · by_cases hexceeds : Exceeds (CodeUnit.leftBrace :: ds) rest
    · exact .inl ⟨hexceeds, unicode_of_exceeds hexceeds⟩
    refine .inr ⟨hexceeds, ?_⟩
    rw [unicode_braced hds hmax, List.length_cons, ← shift_failHere]
    cases rest with
    | nil => rfl
    | cons u rest =>
      have hunfit := h.unfit u rfl
      have hdigit : u.hexDigit? = none := by
        rw [← Option.not_isSome_iff_eq_none, ← digit?_hexadecimal]
        intro hu
        have hdigits : ∀ v ∈ ds ++ [u], Radix.hexadecimal.isDigit v = true :=
          List.forall_mem_append.mpr ⟨hds, List.forall_mem_singleton.mpr hu⟩
        exact hexceeds ⟨ds, u, rest, rfl, rfl, hdigits, hmax,
          Nat.lt_of_not_le fun hle => hunfit (begins_of_braced hdigits hle)⟩
      have hend : ¬(Int32.ofNat ds.length != 0 && u == CodeUnit.rightBrace) = true := by
        rw [Bool.and_eq_true, bne_iff_ne, beq_iff_eq]
        rintro ⟨hcount, rfl⟩
        have hne : ds ≠ [] := by
          rintro rfl
          exact hcount rfl
        exact hunfit ⟨[], _, by rw [List.append_nil]; exact .braced hds hne hmax⟩
      rw [bracedDigits, hdigit]
      dsimp only
      rw [if_neg hend]

/-- The first digit with which the value is out of range. -/
theorem exists_exceeds (hds : ∀ u ∈ ds, Radix.hexadecimal.isDigit u = true)
    (h : CodePoint.max < Radix.hexadecimal.valueOf ds) (rest : List CodeUnit) :
    ∃ w more, CodeUnit.leftBrace :: (ds ++ rest) = w ++ more ∧ Exceeds w more := by
  obtain ⟨es, more, rfl, hmax, hlast⟩ := Text.exists_last_beginning
    (p := fun es => Radix.hexadecimal.valueOf es ≤ CodePoint.max) (Nat.zero_le _) ds
  cases more with
  | nil =>
    rw [List.append_nil] at h
    exact absurd h (Nat.not_lt.mpr hmax)
  | cons u more =>
    have hdigits : ∀ v ∈ es ++ [u], Radix.hexadecimal.isDigit v = true := by
      intro v hv
      refine hds v ?_
      rw [← List.singleton_append, ← List.append_assoc]
      exact List.mem_append_left _ hv
    exact ⟨CodeUnit.leftBrace :: es, u :: (more ++ rest), by simp,
      es, u, more ++ rest, rfl, rfl, hdigits, hmax, Nat.lt_of_not_le (hlast u rfl)⟩

/-- Where the digits are miscounted, nothing is taken for the closing brace. -/
theorem unicode_of_miscounted (hds : ∀ u ∈ ds, Radix.hexadecimal.isDigit u = true)
    (hmax : Radix.hexadecimal.valueOf ds ≤ CodePoint.max) (hcount : UInt32.size ∣ ds.length)
    (rest : List CodeUnit) :
    unicode (CodeUnit.leftBrace :: ds ++ CodeUnit.rightBrace :: rest) =
      misfit .invalidUnicode (ds.length + 1) := by
  have hbrace : CodeUnit.rightBrace.hexDigit? = none := by decide
  rw [unicode_braced hds hmax, (ofNat_eq_zero_iff _).mpr hcount, ← shift_failHere, bracedDigits,
    hbrace]
  rfl

/-- The closing brace of a number is not taken: its digits are miscounted. -/
def Miscounts (w rest : List CodeUnit) : Prop :=
  ∃ ds more c, w = CodeUnit.leftBrace :: ds ∧ rest = CodeUnit.rightBrace :: more ∧
    CodePointNumber (CodeUnit.leftBrace :: (ds ++ [CodeUnit.rightBrace])) c ∧
    UInt32.size ∣ ds.length

theorem digits_of_number {c : CodePoint}
    (h : CodePointNumber (CodeUnit.leftBrace :: (ds ++ [CodeUnit.rightBrace])) c) :
    (∀ u ∈ ds, Radix.hexadecimal.isDigit u = true) ∧
      Radix.hexadecimal.valueOf ds ≤ CodePoint.max := by
  generalize hw : CodeUnit.leftBrace :: (ds ++ [CodeUnit.rightBrace]) = w at h
  cases h with
  | quad hds =>
    subst hw
    exact absurd (hds _ List.mem_cons_self) (by decide)
  | braced hds _ hmax =>
    obtain rfl := List.append_cancel_right (List.cons.inj hw).2
    exact ⟨hds, hmax⟩

theorem unicode_of_miscounts (h : Miscounts w rest) :
    unicode (w ++ rest) = misfit .invalidUnicode w.length := by
  obtain ⟨ds, more, c, rfl, rfl, hc, hcount⟩ := h
  obtain ⟨hds, hmax⟩ := digits_of_number hc
  exact unicode_of_miscounted hds hmax hcount more

/-- **There is an error exactly where a number is left off** or miscounted, and it is there that
reading stops. -/
theorem unicode_eq_error_iff {f : Fault} :
    unicode text = .error f ↔ ∃ w rest, text = w ++ rest ∧
      (LeavesOff w rest ∧ Exceeds w rest ∧
          f = ⟨.invalidEscape .outOfRange, w.length, w.length, ∅⟩ ∨
        (LeavesOff w rest ∧ ¬Exceeds w rest ∨ Miscounts w rest) ∧
          f = ⟨.invalidEscape .invalidUnicode, w.length, w.length, ∅⟩) := by
  constructor
  · intro hread
    rcases exists_number_or_leavesOff text with ⟨w, rest, c, rfl, hc⟩ | ⟨w, rest, rfl, h⟩
    · by_cases hcount : Miscounted w
      · obtain ⟨ds, rfl, hdvd⟩ := hcount
        have hmiscounts : Miscounts (CodeUnit.leftBrace :: ds) (CodeUnit.rightBrace :: rest) :=
          ⟨ds, rest, c, rfl, rfl, hc, hdvd⟩
        have hwhole : CodeUnit.leftBrace :: (ds ++ [CodeUnit.rightBrace]) ++ rest =
            CodeUnit.leftBrace :: ds ++ CodeUnit.rightBrace :: rest := by simp
        rw [hwhole] at hread ⊢
        exact ⟨_, _, rfl, .inr ⟨.inr hmiscounts,
          Except.error.inj (hread.symm.trans (unicode_of_miscounts hmiscounts))⟩⟩
      · rw [unicode_eq_ok_iff.mpr ⟨w, rest, c, rfl, hc, hcount, rfl⟩] at hread
        exact nomatch hread
    · refine ⟨w, rest, rfl, ?_⟩
      rcases unicode_of_leavesOff h with ⟨hexceeds, hstop⟩ | ⟨hexceeds, hstop⟩
      · exact .inl ⟨h, hexceeds, Except.error.inj (hread.symm.trans hstop)⟩
      · exact .inr ⟨.inl ⟨h, hexceeds⟩, Except.error.inj (hread.symm.trans hstop)⟩
  · rintro ⟨w, rest, rfl, ⟨h, hexceeds, rfl⟩ | ⟨⟨h, hexceeds⟩ | h, rfl⟩⟩
    · exact unicode_of_exceeds hexceeds
    · rcases unicode_of_leavesOff h with ⟨hexceeds', -⟩ | ⟨-, hstop⟩
      · exact absurd hexceeds' hexceeds
      · exact hstop
    · exact unicode_of_miscounts h

/-- **A value is out of range** exactly if that of some digits in braces is. -/
theorem outOfRange_iff :
    (∃ f, unicode text = .error f ∧ f.cause = .invalidEscape .outOfRange) ↔
      ∃ ds rest, text = CodeUnit.leftBrace :: (ds ++ rest) ∧
        (∀ u ∈ ds, Radix.hexadecimal.isDigit u = true) ∧
        CodePoint.max < Radix.hexadecimal.valueOf ds := by
  constructor
  · rintro ⟨f, hread, hcause⟩
    obtain ⟨w, rest, rfl, ⟨-, hexceeds, -⟩ | ⟨-, rfl⟩⟩ := unicode_eq_error_iff.mp hread
    · obtain ⟨ds, u, more, rfl, rfl, hdigits, -, hlt⟩ := hexceeds
      exact ⟨ds ++ [u], more, by simp, hdigits, hlt⟩
    · exact nomatch hcause
  · rintro ⟨ds, rest, rfl, hds, hlt⟩
    obtain ⟨w, more, hwhole, hexceeds⟩ := exists_exceeds hds hlt rest
    rw [hwhole]
    exact ⟨_, unicode_of_exceeds hexceeds, rfl⟩

/-! ## Lines -/

/-- A number stands on one line. -/
theorem CodePointNumber.inLine {c : CodePoint} (h : CodePointNumber w c) :
    ∀ u ∈ w, u.isLineTerminator = false := by
  cases h with
  | quad hds => exact fun u hu => isLineTerminator_of_isDigit (hds u hu)
  | @braced ds hds =>
    rw [List.forall_mem_cons, List.forall_mem_append, List.forall_mem_singleton]
    exact ⟨by decide, fun u hu => isLineTerminator_of_isDigit (hds u hu), by decide⟩

theorem LeavesOff.inLine (h : LeavesOff w rest) : ∀ u ∈ w, u.isLineTerminator = false := by
  obtain ⟨more, c, -, hc⟩ := h.goesOn
  exact fun u hu => hc.inLine u (List.mem_append_left _ hu)

/-- What reading has passed stands on one line. -/
theorem exists_passed (text : List CodeUnit) :
    ∃ w rest, text = w ++ rest ∧ (unicode text).stop = w.length ∧
      ∀ u ∈ w, u.isLineTerminator = false := by
  cases hread : unicode text with
  | ok x =>
    obtain ⟨w, rest, c, rfl, hc, -, rfl⟩ := unicode_eq_ok_iff.mp hread
    exact ⟨w, rest, rfl, rfl, hc.inLine⟩
  | error f =>
    obtain ⟨w, rest, rfl, ⟨h, -, rfl⟩ | ⟨⟨h, -⟩ | h, rfl⟩⟩ := unicode_eq_error_iff.mp hread
    · exact ⟨w, rest, rfl, rfl, h.inLine⟩
    · exact ⟨w, rest, rfl, rfl, h.inLine⟩
    · obtain ⟨ds, more, c, rfl, -, hc, -⟩ := h
      refine ⟨_, rest, rfl, rfl, fun u hu => hc.inLine u ?_⟩
      rw [← List.cons_append]
      exact List.mem_append_left _ hu

end Escape

end EcmaLex
