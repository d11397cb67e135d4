import EcmaLex.Machine.Literals
import EcmaLex.Proofs.Faults
import EcmaLex.Proofs.NumeralValues
import EcmaLex.Proofs.Refinement.Moves

/-!
# Escapes on machine words

The routines for escapes carry out what the readers for escapes say. The value of a Unicode escape
stays below the last code point, so no word for it overflows; the counter of its digits is the same
word in the routine and in the reader.
-/

namespace EcmaLex.Routine

open Machine Text

variable {m : Machine} {c : Cursor} {u : CodeUnit} {rest : List CodeUnit}

/-- A fault at the cursor. -/
theorem carryOut_invalid {α β : Type} (e : EscapeError) (f : α → β) :
    m.carryOut c.advance ((Outcome.failHere (.invalidEscape e)).mapValue f) =
      some ((.error e : Except EscapeError β), m.atCursor c) :=
  carryOut_failHere (.invalidEscape e)

/-! ## Digits -/

theorem isLineTerminator_of_hexDigit? {d : Nat} (h : u.hexDigit? = some d) :
    u.isLineTerminator = false :=
  CodeUnit.isLineTerminator_of_class (p := fun u => u.hexDigit?.isSome) (by rw [h]; rfl)
    (by decide)

/-- The digit at the cursor. -/
theorem digit?_hexadecimal_unitAt (text : List CodeUnit) :
    (unitAt text).digit? .hexadecimal = (text.head?.bind CodeUnit.hexDigit?).map UInt32.ofNat := by
  rw [digit?_unitAt]
  cases text with
  | nil => rfl
  | cons u rest => simp

/-- One more digit of a number that stays within its word. -/
theorem run_push_digit {α : Type} (b : Build) {base : UInt32} {k v d : Nat} (hbase : base.toNat = k)
    (h : k * v + d < UInt32.size) (hv : v ≤ k * v + d) (next : UInt32 → Routine EscapeError α)
    (m : Machine) :
    (require (b.mul (.ofNat v) base) >>= fun scaled =>
      require (b.add scaled (.ofNat d)) >>= next).run m = (next (.ofNat (k * v + d))).run m := by
  have hk : k < UInt32.size := by
    rw [← hbase]
    exact base.toNat_lt
  have hword : base = .ofNat k := by rw [← hbase, UInt32.ofNat_toNat]
  rw [Nat.mul_comm] at h hv ⊢
  rw [hword, b.mul_ofNat fun _ => ⟨by omega, hk, by omega⟩, run_require_bind,
    b.add_ofNat fun _ => h, run_require_bind]

theorem expectHexDigit_atCursor (h : m.Admits c) (e : EscapeError) :
    (expectHexDigit e).run (m.atCursor c) =
      m.carryOut c.advance ((Escape.hexDigit e c.rest).mapValue UInt32.ofNat) := by
  unfold expectHexDigit
  rw [run_state_bind, current_atCursor, digit?_hexadecimal_unitAt]
  cases hrest : c.rest with
  | nil => exact (carryOut_invalid e _).symm
  | cons u rest =>
    cases hd : u.hexDigit? with
    | none =>
      simp only [List.head?_cons, Option.bind_some, hd, Option.map_none, run_fail, Escape.hexDigit]
      exact (carryOut_invalid e _).symm
    | some d =>
      simp only [List.head?_cons, Option.bind_some, hd, Option.map_some, Escape.hexDigit]
      rw [run_bind_of_ok (advance_atCursor h hrest (isLineTerminator_of_hexDigit? hd)), run_pure,
        Outcome.mapValue, carryOut_ok, note_empty]

theorem quadDigit_atCursor (h : m.Admits c) {v : Nat} (hv : v < 0x1000) :
    (quadDigit (.ofNat v)).run (m.atCursor c) =
      m.carryOut c.advance
        ((Escape.hexDigit .invalidUnicode c.rest).mapValue fun d => .ofNat (16 * v + d)) := by
  unfold quadDigit
  rw [run_state_bind, current_atCursor, digit?_hexadecimal_unitAt]
  cases hrest : c.rest with
  | nil => exact (carryOut_invalid _ _).symm
  | cons u rest =>
    cases hd : u.hexDigit? with
    | none =>
      simp only [List.head?_cons, Option.bind_some, hd, Option.map_none, run_fail, Escape.hexDigit]
      exact (carryOut_invalid _ _).symm
    | some d =>
      have hlt : d < 16 := Escape.lt_of_hexDigit? hd
      have hfits : 16 * v + d < UInt32.size := Nat.lt_trans (by omega : _ < 0x10000) (by decide)
      simp only [List.head?_cons, Option.bind_some, hd, Option.map_some, Escape.hexDigit]
      rw [run_push_digit _ (by decide) hfits (by omega),
        run_bind_of_ok (advance_atCursor h hrest (isLineTerminator_of_hexDigit? hd)), run_pure,
        Outcome.mapValue, carryOut_ok, note_empty]

/-! ## Unicode escapes -/

/-- The digits in braces end where no digit follows. -/
theorem run_bracedDigit_done (s : BracedDigits) (hd : c.rest.head?.bind CodeUnit.hexDigit? = none) :
    (bracedDigit s).run (m.atCursor c) = some (.ok (.done s), m.atCursor c) := by
  unfold bracedDigit
  rw [run_state_bind, current_atCursor, digit?_hexadecimal_unitAt, hd]
  rfl

theorem closeBraces_atCursor (h : m.Admits c) (s : BracedDigits) :
    (closeBraces s).run (m.atCursor c) =
      if s.count ≠ 0 ∧ c.rest.head? = some CodeUnit.rightBrace then
        some (.ok s.value, m.atCursor (c.advance 1))
      else some (.error .invalidUnicode, m.atCursor c) := by
  unfold closeBraces
  rw [run_ite]
  by_cases hcount : s.count = 0
  · rw [if_pos hcount, if_neg fun hand => hand.1 hcount, run_fail]
  · have heat := eat_atCursor (ε := EscapeError) h (u := CodeUnit.rightBrace) (by decide)
    rw [if_neg hcount]
    by_cases hclosed : c.rest.head? = some CodeUnit.rightBrace
    · rw [if_pos hclosed] at heat
      rw [if_pos ⟨hcount, hclosed⟩, run_bind_of_ok heat]
      rfl
    · rw [if_neg hclosed] at heat
      rw [if_neg fun hand => hclosed hand.2, run_bind_of_ok heat]
      rfl

theorem succ_ofNat (b : Build) {n : Nat} (h : b = .checked → n < 1073741824) :
    b.succ (.ofNat n) = some (.ofNat (n + 1)) := by
  cases b with
  | wrapping => rw [Build.succ, Build.settle, Int32.ofNat_add]; rfl
  | checked =>
    have hlt := h rfl
    have hne : (Int32.ofNat n != Int32.maxValue) = true := by
      rw [bne_iff_ne]
      intro heq
      have hint := congrArg Int32.toInt heq
      rw [Int32.toInt_ofNat_of_lt (Nat.lt_trans hlt (by decide))] at hint
      have : Int32.maxValue.toInt = 2147483647 := by decide
      omega
    simp only [Build.succ, Build.settle, hne, if_true, Int32.ofNat_add]
    rfl

/-- One more digit, or one too many. -/
theorem run_bracedDigit {value count d : Nat} (h : m.Admits c) (hvalue : value ≤ CodePoint.max)
    (hcount : m.build = .checked → count < 1073741824) (hrest : c.rest = u :: rest)
    (hd : u.hexDigit? = some d) :
    (bracedDigit ⟨.ofNat value, .ofNat count⟩).run (m.atCursor c) =
      if CodePoint.max < 16 * value + d then some (.error .outOfRange, m.atCursor c)
      else some (.ok (.again ⟨.ofNat (16 * value + d), .ofNat (count + 1)⟩),
        m.atCursor (c.advance 1)) := by
  have hlt : d < 16 := Escape.lt_of_hexDigit? hd
  have hmax : value ≤ 0x10FFFF := hvalue
  have hfits : 16 * value + d < UInt32.size := Nat.lt_trans (by omega : _ < 0x1100000) (by decide)
  have hline := isLineTerminator_of_hexDigit? hd
  unfold bracedDigit
  rw [run_state_bind, current_atCursor, digit?_hexadecimal_unitAt, hrest]
  simp only [List.head?_cons, Option.bind_some, hd, Option.map_some]
  rw [run_push_digit _ (by decide) hfits (by omega), run_ite, UInt32.toNat_ofNat_of_lt' hfits]
  split
  · rw [run_fail]
  · rw [build_atCursor, succ_ofNat _ hcount, run_require_bind,
      run_bind_of_ok (advance_atCursor h hrest hline), run_pure]

/-- **The digits in braces.** The value stays below the last code point, and no word overflows. -/
theorem bracedDigits_atCursor {value count : Nat} (h : m.Admits c) (hvalue : value ≤ CodePoint.max)
    (hcount : m.build = .checked → count + c.rest.length < 1073741824) :
    (loop bracedDigit ⟨.ofNat value, .ofNat count⟩ >>= closeBraces).run (m.atCursor c) =
      m.carryOut c.advance
        ((Escape.bracedDigits value (.ofNat count) c.rest).mapValue UInt32.ofNat) := by
  -- the value stays a code point from round to round, so that its product with the base fits
  induction hrest : c.rest generalizing c value count with
  | nil =>
    have hdone := run_bracedDigit_done (m := m) (c := c) ⟨.ofNat value, .ofNat count⟩
      (by rw [hrest]; rfl)
    rw [run_bind_of_ok (run_loop_of_done hdone), closeBraces_atCursor h, hrest,
      if_neg (by simp)]
    exact (carryOut_invalid _ _).symm
  | cons u rest ih =>
    cases hd : u.hexDigit? with
    | none =>
      have hdone := run_bracedDigit_done (m := m) (c := c) ⟨.ofNat value, .ofNat count⟩
        (by rw [hrest]; exact hd)
      rw [run_bind_of_ok (run_loop_of_done hdone), closeBraces_atCursor h, hrest]
      simp only [Escape.bracedDigits, hd, List.head?_cons, Option.some.injEq, Bool.and_eq_true,
        bne_iff_ne, beq_iff_eq]
      split
      · rw [Outcome.mapValue, carryOut_ok, note_empty]
      · exact (carryOut_invalid _ _).symm
    | some d =>
      have hcount' : m.build = .checked → count + 1 + rest.length < 1073741824 := by
        intro hb
        have := hcount hb
        rw [hrest, List.length_cons] at this
        omega
      have hcount₀ : m.build = .checked → count < 1073741824 := by
        intro hb
        have := hcount hb
        omega
      have hround := run_bracedDigit h hvalue hcount₀ hrest hd
      rw [run_bind]
      simp only [Escape.bracedDigits, hd]
      split at hround
      · next hover =>
        rw [run_loop_of_error hround, if_pos hover]
        exact (carryOut_invalid _ _).symm
      · next hover =>
        have hadvance : (c.advance 1).rest = rest := Cursor.rest_advance_one hrest
        have hih := ih (h.advance 1) (Nat.le_of_not_lt hover) (by rw [hadvance]; exact hcount')
          hadvance
        rw [run_loop_of_again hround, if_neg hover, ← run_bind, hih, carryOut_mapValue,
          carryOut_mapValue, carryOut_shift_one hrest (isLineTerminator_of_hexDigit? hd),
          Int32.ofNat_add]
        rfl

theorem lt_of_hexDigit {e : EscapeError} {text : List CodeUnit} {x : Reading Nat}
    (hx : Escape.hexDigit e text = .ok x) : x.value < 16 := by
  obtain ⟨u, rest, d, -, hd, rfl⟩ := Escape.hexDigit_eq_ok_iff.mp hx
  exact Escape.lt_of_hexDigit? hd

/-- The four digits without braces. -/
theorem hexQuad_atCursor (h : m.Admits c) :
    (quadDigit 0 >>= fun value => quadDigit value >>= fun value => quadDigit value >>=
        quadDigit).run (m.atCursor c) =
      m.carryOut c.advance ((Escape.hexQuad c.rest).mapValue UInt32.ofNat) := by
  unfold Escape.hexQuad
  refine run_bind_carryOut (fun a => .ofNat (16 * 0 + a)) _ (quadDigit_atCursor h (by decide))
    (Escape.clean_hexDigit _ _) ?_
  intro a ha
  have ha' := lt_of_hexDigit ha
  have h₁ := (h.note a.flags).advance a.length
  refine run_bind_carryOut (fun b => .ofNat (16 * (16 * 0 + a.value) + b)) _
    (quadDigit_atCursor h₁ (by omega)) (Escape.clean_hexDigit _ _) ?_
  intro b hb
  have hb' := lt_of_hexDigit hb
  have h₂ := (h₁.note b.flags).advance b.length
  refine run_bind_carryOut (fun c => .ofNat (16 * (16 * (16 * 0 + a.value) + b.value) + c)) _
    (quadDigit_atCursor h₂ (by omega)) (Escape.clean_hexDigit _ _) ?_
  intro d hd
  have hd' := lt_of_hexDigit hd
  have h₃ := (h₂.note d.flags).advance d.length
  rw [quadDigit_atCursor h₃ (by omega), Reader.bind_pure_apply, Outcome.mapValue_mapValue]
  simp only [Nat.mul_zero, Nat.zero_add]
  rfl

/-- **The value of a Unicode escape.** -/
theorem unicodeEscapeValue_atCursor (h : m.Admits c) :
    unicodeEscapeValue.run (m.atCursor c) =
      m.carryOut c.advance ((Escape.unicode c.rest).mapValue UInt32.ofNat) := by
  have heat := eat_atCursor (ε := EscapeError) h (u := CodeUnit.leftBrace) (by decide)
  unfold unicodeEscapeValue
  by_cases hopen : c.rest.head? = some CodeUnit.leftBrace
  · obtain ⟨rest, hrest⟩ := List.head?_eq_some_iff.mp hopen
    have hadvance : (c.advance 1).rest = rest := Cursor.rest_advance_one hrest
    have hcount : m.build = .checked → 0 + (c.advance 1).rest.length < 1073741824 := by
      intro hb
      have := ((h.advance 1).room hb).rest
      omega
    rw [if_pos hopen] at heat
    rw [run_bind_of_ok heat, if_pos rfl]
    show (loop bracedDigit ⟨.ofNat 0, .ofNat 0⟩ >>= closeBraces).run _ = _
    rw [bracedDigits_atCursor (h.advance 1) (Nat.zero_le _) hcount, hadvance, hrest,
      Escape.unicode, if_pos rfl, Outcome.mapValue_shift, carryOut_shift_one hrest (by decide)]
    rfl
  · rw [if_neg hopen] at heat
    rw [run_bind_of_ok heat, if_neg (by decide), hexQuad_atCursor h]
    cases hrest : c.rest with
    | nil => rfl
    | cons u rest =>
      have hu : u ≠ CodeUnit.leftBrace := by
        rintro rfl
        exact hopen (by rw [hrest]; rfl)
      rw [Escape.unicode, if_neg hu]

/-! ## Other escapes -/

/-- The two digits after `\x`. -/
theorem hexPair_atCursor (h : m.Admits c) :
    (expectHexDigit .invalidHex >>= fun high => expectHexDigit .invalidHex >>= fun low =>
        pure (some ((high <<< 4) ||| low).toNat)).run (m.atCursor c) =
      m.carryOut c.advance ((Escape.hexPair c.rest).mapValue some) := by
  have hword : ∀ a < 16, ∀ b < 16,
      ((UInt32.ofNat a <<< 4) ||| UInt32.ofNat b).toNat = 16 * a + b := by
    decide +kernel
  unfold Escape.hexPair
  refine run_bind_carryOut UInt32.ofNat _ (expectHexDigit_atCursor h _)
    (Escape.clean_hexDigit _ _) ?_
  intro a ha
  have h₁ := (h.note a.flags).advance a.length
  refine run_bind_carryOut UInt32.ofNat _ (expectHexDigit_atCursor h₁ _)
    (Escape.clean_hexDigit _ _) ?_
  intro b hb
  rw [hword _ (lt_of_hexDigit ha) _ (lt_of_hexDigit hb)]
  show _ = some _
  rw [run_pure, note_empty]
  rfl

theorem isOctalDigit_iff : u.isOctalDigit = true ↔ 0x30 ≤ u.toNat ∧ u.toNat ≤ 0x37 := by
  simp [CodeUnit.isOctalDigit, UInt16.le_iff_toNat_le]

theorem minus?_zero (h : 0x30 ≤ u.toNat) :
    minus? u.toNat CodeUnit.zero.toNat = some (u.toNat - 0x30) := minus?_of_le h

/-- The value of an octal digit. -/
theorem digit?_of_isOctalDigit (hu : u.isOctalDigit = true) :
    Radix.octal.digit? u = some (u.toNat - 0x30) := by
  obtain ⟨hle, hge⟩ := isOctalDigit_iff.mp hu
  have hdecimal : (0x30 ≤ u && u ≤ 0x39) = true := by
    simp only [Bool.and_eq_true, decide_eq_true_eq, UInt16.le_iff_toNat_le, UInt16.reduceToNat]
    omega
  have hlt : u.toNat - 0x30 < Radix.octal.base :=
    Nat.lt_of_le_of_lt (Nat.sub_le_sub_right hge _) (by decide)
  simp [Radix.digit?, CodeUnit.hexDigit?, hdecimal, hlt]

/-- The digits of an octal escape that are still to be read, of at most `j`. -/
theorem octalDigits_atCursor {most count j v : Nat} (h : m.Admits c) (hj : count + j = most)
    (hmost : most ≤ 3) (hv : v < 8 ^ count) :
    (loop (octalDigit most) ⟨.ofNat v, count⟩).run (m.atCursor c) =
      some (.ok (.ofNat (((c.rest.take j).takeWhile CodeUnit.isOctalDigit).foldl
          (fun n u => n * 8 + (Radix.octal.digit? u).getD 0) v)),
        m.atCursor (c.advance ((c.rest.take j).takeWhile CodeUnit.isOctalDigit).length)) := by
  -- `j` more digits may come; the value is below the power of eight for those that have
  induction j generalizing c count v with
  | zero =>
    apply run_loop_of_done
    unfold octalDigit
    rw [run_state_bind, run_ite, if_neg (by simp; omega), run_pure, List.take_zero]
    rfl
  | succ j ih =>
    cases hrest : c.rest with
    | nil =>
      apply run_loop_of_done
      unfold octalDigit
      rw [run_state_bind, run_ite, current_atCursor, isUnit_unitAt, hrest]
      rw [if_neg (by simp), run_pure]
      rfl
    | cons u rest =>
      by_cases hu : u.isOctalDigit = true
      · obtain ⟨hle, hge⟩ := isOctalDigit_iff.mp hu
        have hsmall : 8 ^ count ≤ 8 ^ 2 := Nat.pow_le_pow_right (by decide) (by omega)
        have hround : (octalDigit most ⟨.ofNat v, count⟩).run (m.atCursor c) =
            some (.ok (.again ⟨.ofNat (8 * v + (u.toNat - 0x30)), count + 1⟩),
              m.atCursor (c.advance 1)) := by
          have hfits : 8 * v + (u.toNat - 0x30) < UInt32.size :=
            Nat.lt_trans (by omega : _ < 520) (by decide)
          unfold octalDigit
          rw [run_state_bind, run_ite, current_atCursor, isUnit_unitAt, hrest]
          rw [if_pos (by simp [hu]; omega), unitAt_cons, minus?_zero hle, run_require_bind]
          rw [run_push_digit _ (by decide) hfits (by omega),
            run_bind_of_ok (advance_atCursor h hrest (Escape.plain_of_isOctalDigit hu).1), run_pure]
        have hadvance : (c.advance 1).rest = rest := Cursor.rest_advance_one hrest
        have hpow : 8 ^ (count + 1) = 8 * 8 ^ count := Nat.pow_succ'
        rw [run_loop_of_again hround, ih (h.advance 1) (by omega) (by omega), hadvance,
          List.take_succ_cons, List.takeWhile_cons_of_pos hu, List.foldl_cons, List.length_cons,
          digit?_of_isOctalDigit hu, Option.getD_some, Nat.mul_comm v 8,
          Cursor.advance_one_advance hrest (Escape.plain_of_isOctalDigit hu).1]
      · apply run_loop_of_done
        unfold octalDigit
        rw [run_state_bind, run_ite, current_atCursor, isUnit_unitAt, hrest]
        rw [if_neg (by simp [hu]), run_pure, List.take_succ_cons, List.takeWhile_cons_of_neg hu]
        rfl

/-- The first digit of an octal escape tells how many may follow. -/
theorem exists_octalDigits (hu : u.isOctalDigit = true) (rest : List CodeUnit) :
    ∃ j ≤ 2, 1 + j = (if u.toNat - 0x30 ≤ 3 then 3 else 2) ∧
      Escape.octalDigits (u :: rest) = u :: (rest.take j).takeWhile CodeUnit.isOctalDigit := by
  obtain ⟨hle, -⟩ := isOctalDigit_iff.mp hu
  have hlimit (n : Nat) : ((u :: rest).take (n + 1)).takeWhile CodeUnit.isOctalDigit =
      u :: (rest.take n).takeWhile CodeUnit.isOctalDigit := by
    rw [List.take_succ_cons, List.takeWhile_cons_of_pos hu]
  unfold Escape.octalDigits
  by_cases hfirst : u.toNat - 0x30 ≤ 3
  · have hword : u ≤ 0x33 := by
      simp only [UInt16.le_iff_toNat_le, UInt16.reduceToNat]
      omega
    refine ⟨2, Nat.le_refl 2, by rw [if_pos hfirst], ?_⟩
    rw [List.head?_cons, Option.any_some, decide_eq_true hword, if_pos rfl]
    exact hlimit 2
  · have hword : ¬u ≤ 0x33 := by
      simp only [UInt16.le_iff_toNat_le, UInt16.reduceToNat]
      omega
    refine ⟨1, by decide, by rw [if_neg hfirst], ?_⟩
    rw [List.head?_cons, Option.any_some, decide_eq_false hword, if_neg (by decide)]
    exact hlimit 1

/-- The error that octal escapes raise, if they are refused. -/
def octalRefusal (strict : Bool) : EscapeMode → Option EscapeError
  | .template => some .templateOctal
  | .string => if strict then some .strictOctal else none

theorem legacyOctalEscape_atCursor (h : m.Admits c) (hrest : c.rest = u :: rest)
    (hu : u.isOctalDigit = true) (strict : Bool) (mode : EscapeMode) :
    (legacyOctalEscape strict mode).run (m.atCursor c) =
      m.carryOut c.advance
        ((Escape.octal (octalRefusal strict mode) c.rest).mapValue UInt32.ofNat) := by
  obtain ⟨hle, hge⟩ := isOctalDigit_iff.mp hu
  have hline := (Escape.plain_of_isOctalDigit hu).1
  unfold legacyOctalEscape
  rw [run_state_bind, run_ite, run_ite]
  cases mode with
  | template =>
    rw [if_pos rfl, run_fail]
    exact (carryOut_invalid _ _).symm
  | string =>
    rw [if_neg (by decide)]
    cases strict with
    | true =>
      rw [if_pos rfl, run_fail]
      exact (carryOut_invalid _ _).symm
    | false =>
      rw [if_neg (by decide), current_atCursor, hrest, unitAt_cons, minus?_zero hle,
        run_require_bind, run_bind_of_ok (advance_atCursor h hrest hline)]
      obtain ⟨j, hj, hlimit, hdigits⟩ := exists_octalDigits hu rest
      have hloop := octalDigits_atCursor (h.advance 1) hlimit (by omega)
        (by omega : u.toNat - 0x30 < 8 ^ 1)
      rw [Cursor.rest_advance_one hrest] at hloop
      rw [run_bind_of_ok hloop, run_update_bind, run_pure, note_atCursor,
        Cursor.advance_one_advance hrest hline]
      show _ = m.carryOut c.advance
        (Outcome.mapValue UInt32.ofNat (.ok ⟨Radix.octal.valueOf _, _, { octalEscape := true }⟩))
      rw [hdigits, Outcome.mapValue, carryOut_ok, List.length_cons, Radix.valueOf, List.foldl_cons,
        digit?_of_isOctalDigit hu, Option.getD_some, Nat.zero_mul, Nat.zero_add]
      rfl

/-! ## Any escape -/

theorem toNat_ofNat_of_unicode {text : List CodeUnit} {x : Reading CodePoint}
    (hx : Escape.unicode text = .ok x) : (UInt32.ofNat x.value).toNat = x.value := by
  obtain ⟨ds, rest, n, -, hn, -, rfl⟩ := Escape.unicode_eq_ok_iff.mp hx
  apply UInt32.toNat_ofNat_of_lt'
  cases hn with
  | quad hds hlength =>
    have hlt := Radix.hexadecimal.valueOf_lt ds
    rw [hlength] at hlt
    exact Nat.lt_trans hlt (by decide)
  | braced hds hne hmax => exact Nat.lt_of_le_of_lt hmax (by decide)

theorem toNat_ofNat_of_octal {refusal : Option EscapeError} {text : List CodeUnit}
    {x : Reading CodePoint} (hx : Escape.octal refusal text = .ok x) :
    (UInt32.ofNat x.value).toNat = x.value := by
  cases refusal with
  | some e => simp [Escape.octal, Outcome.failHere] at hx
  | none =>
    obtain rfl := Except.ok.inj hx
    apply UInt32.toNat_ofNat_of_lt'
    have hlt := Radix.octal.valueOf_lt (Escape.octalDigits text)
    have hlength : (Escape.octalDigits text).length ≤ 3 := by
      unfold Escape.octalDigits
      apply Nat.le_trans (List.takeWhile_prefix _).length_le
      rw [List.length_take]
      split <;> omega
    have hpow : 8 ^ (Escape.octalDigits text).length ≤ 8 ^ 3 :=
      Nat.pow_le_pow_right (by decide) hlength
    exact Nat.lt_of_lt_of_le hlt (Nat.le_trans hpow (by decide))

/-- A routine for a code point in a word. -/
theorem run_bind_toNat {r : Routine EscapeError UInt32} {o : Outcome CodePoint} {m₀ : Machine}
    {seek : Nat → Cursor} (h : r.run m₀ = m.carryOut seek (o.mapValue UInt32.ofNat))
    (ho : ∀ x, o = .ok x → (UInt32.ofNat x.value).toNat = x.value) :
    (r >>= fun value => pure (some value.toNat)).run m₀ = m.carryOut seek (o.mapValue some) := by
  rw [run_bind_pure h, Outcome.mapValue_mapValue]
  cases o with
  | error f => rfl
  | ok x =>
    simp only [Outcome.mapValue, Function.comp_apply, ho x rfl]

/-- An eight or a nine is what is left of the decimal digits. -/
theorem isDecimalDigit_of_not_isOctalDigit (hu : u.isOctalDigit = false) :
    (u == CodeUnit.ofChar '8' || u == CodeUnit.ofChar '9') = u.isDecimalDigit := by
  have h8 : (CodeUnit.ofChar '8').toNat = 56 := by decide
  have h9 : (CodeUnit.ofChar '9').toNat = 57 := by decide
  rw [← Bool.not_eq_true, isOctalDigit_iff] at hu
  rw [Bool.eq_iff_iff]
  simp only [Bool.or_eq_true, beq_iff_eq, ← UInt16.toNat_inj, h8, h9, CodeUnit.isDecimalDigit,
    Bool.and_eq_true, decide_eq_true_eq, UInt16.le_iff_toNat_le, UInt16.reduceToNat]
  omega

/-- **Any escape.** -/
theorem escape_atCursor (h : m.Admits c) (hne : c.rest ≠ []) (strict : Bool) (mode : EscapeMode) :
    (escape strict mode).run (m.atCursor c) =
      m.carryOut c.advance (Escape.body (octalRefusal strict mode) c.rest) := by
  obtain ⟨u, rest, hrest⟩ := List.exists_cons_of_ne_nil hne
  have hpeek : (m.atCursor c).peek = unitAt rest := by
    rw [peek_atCursor h, hrest]
    rfl
  unfold escape Escape.body
  simp only [run_state_bind, run_ite, current_atCursor, isUnit_unitAt, unit?_unitAt, hpeek, hrest,
    is_atCursor, List.head?_cons, Option.any_some, Option.bind_some, Option.some_beq_some]
  -- both sides ask for the same things in the same order
  by_cases hline : u.isLineTerminator = true
  · rw [if_pos hline, if_pos hline, run_bind_of_ok (consumeLineTerminator_atCursor h hrest hline),
      run_pure, carryOut_ok, note_empty, hrest]
  rw [if_neg hline, if_neg hline]
  rw [Bool.not_eq_true] at hline
  have hadvance := advance_atCursor (ε := EscapeError) h hrest hline
  have hbehind := Cursor.rest_advance_one hrest
  cases hcontrol : Escape.control? u with
  | some p =>
    simp only
    rw [run_bind_of_ok hadvance, run_pure, carryOut_ok, note_empty]
  | none =>
  simp only [run_ite, beq_iff_eq]
  by_cases hx : u = CodeUnit.ofChar 'x'
  · rw [if_pos hx, if_pos hx, run_bind_of_ok hadvance, hexPair_atCursor (h.advance 1), hbehind,
      Outcome.mapValue_shift, carryOut_shift_one hrest hline]
  rw [if_neg hx, if_neg hx]
  by_cases hu : u = CodeUnit.ofChar 'u'
  · rw [if_pos hu, if_pos hu, run_bind_of_ok hadvance,
      run_bind_toNat (unicodeEscapeValue_atCursor (h.advance 1)) fun x => toNat_ofNat_of_unicode,
      hbehind, Outcome.mapValue_shift, carryOut_shift_one hrest hline]
  rw [if_neg hu, if_neg hu]
  by_cases hnul : u = CodeUnit.zero ∧ (!rest.head?.any CodeUnit.isDecimalDigit) = true
  · rw [if_pos (by simpa using hnul), if_pos hnul, run_bind_of_ok hadvance, run_pure, carryOut_ok,
      note_empty]
  rw [if_neg (by simpa using hnul), if_neg hnul]
  by_cases hoctal : u.isOctalDigit = true
  · rw [if_pos hoctal, if_pos hoctal,
      run_bind_toNat (legacyOctalEscape_atCursor h hrest hoctal strict mode)
        fun x => toNat_ofNat_of_octal, hrest]
  rw [if_neg hoctal, if_neg hoctal]
  rw [Bool.not_eq_true] at hoctal
  -- of the decimal digits only 8 and 9 are left
  rw [isDecimalDigit_of_not_isOctalDigit hoctal]
  by_cases hdigit : u.isDecimalDigit = true
  · rw [if_pos hdigit, if_pos hdigit, run_fail]
    exact (carryOut_failHere (ε := EscapeError) (.invalidEscape .eightOrNine)).symm
  rw [if_neg hdigit, if_neg hdigit, run_bind_of_ok (currentCodePoint_atCursor h), hrest]
  obtain ⟨p, width, hhead⟩ := Utf16.exists_head?_cons u rest
  have hinline := Utf16.inLine_of_head? hhead (by simpa using hline)
  rw [← hrest] at hinline
  simp only [hhead, Option.getD_some]
  rw [run_bind_of_ok (advanceBy_atCursor h hinline), run_pure, carryOut_ok, note_empty]

end EcmaLex.Routine
