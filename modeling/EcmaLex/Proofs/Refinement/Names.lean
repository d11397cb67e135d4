import EcmaLex.Machine.Names
import EcmaLex.Proofs.JsxNames
import EcmaLex.Proofs.Refinement.Literals

/-!
# Names on machine words

A name is taken in two ways: up to its first unit that is no ASCII identifier part in one run, and
item by item from there. Each unit of the run is an item of its own (`Identifier.item?_part`), and
the second loop takes exactly the items that the reader takes, its first one included if there was
no run (`nameStep_atCursor`). So it makes no difference where a name passes from one way to the
other.
-/

namespace EcmaLex

/-! ## Values with flags -/

namespace Outcome

variable {α β : Type}

/-- The result with the flags of a value beside it. -/
def withFlags : Outcome α → Outcome (α × TokenFlags)
  | .ok x => .ok ⟨(x.value, x.flags), x.length, x.flags⟩
  | .error f => .error f

theorem withFlags_shift (o : Outcome α) (n : Nat) (flags : TokenFlags) :
    (o.shift n flags).withFlags =
      (o.withFlags.mapValue fun x => (x.1, flags ∪ x.2)).shift n flags := by
  cases o <;> rfl

theorem withFlags_mapValue (o : Outcome α) (f : α → β) :
    (o.mapValue f).withFlags = o.withFlags.mapValue fun x => (f x.1, x.2) := by
  cases o <;> rfl

end Outcome

/-- Interpreting a value and its flags. -/
theorem Reader.interpret_apply {α β : Type} (r : Reader α) (g : α → TokenFlags → β)
    (text : List CodeUnit) :
    r.interpret (fun x _ => .ok (g x.value x.flags)) text =
      (r text).withFlags.mapValue fun x => g x.1 x.2 := by
  unfold interpret
  cases r text <;> rfl

/-! ## Characters of names -/

namespace Identifier

variable {u : CodeUnit} {rest text : List CodeUnit} {p : CodePoint} {width : Nat}

theorem plain_of_part (h : CodePoint.isAsciiIdentifierPart u.toNat = true) :
    u.toNat < 0x80 ∧ u ≠ CodeUnit.backslash ∧ u.isLead = false ∧ u.isLineTerminator = false := by
  have hclass : ∀ n < 0x80, CodePoint.isAsciiIdentifierPart n = true →
      UInt16.ofNat n ≠ CodeUnit.backslash ∧ CodeUnit.isLead (UInt16.ofNat n) = false ∧
        CodeUnit.isLineTerminator (UInt16.ofNat n) = false := by
    decide
  have hbounds : (((0x61 ≤ u.toNat ∧ u.toNat ≤ 0x7A) ∨ 0x41 ≤ u.toNat ∧ u.toNat ≤ 0x5A) ∨
      u.toNat = 0x24 ∨ u.toNat = 0x5F) ∨ 0x30 ≤ u.toNat ∧ u.toNat ≤ 0x39 := by
    simpa [CodePoint.isAsciiIdentifierPart, CodePoint.isAsciiIdentifierStart, or_assoc] using h
  have hlt : u.toNat < 0x80 := by omega
  have hu := hclass u.toNat hlt h
  rw [UInt16.ofNat_toNat] at hu
  exact ⟨hlt, hu⟩

/-- **A unit of the run** is an item. -/
theorem item?_part (h : CodePoint.isAsciiIdentifierPart u.toNat = true) (rest : List CodeUnit) :
    item? false (u :: rest) = some (.ok ⟨CodePoint.toChar u.toNat, 1, ∅⟩) := by
  obtain ⟨hlt, hbackslash, hlead, -⟩ := plain_of_part h
  obtain ⟨ch, hch⟩ := CodePoint.exists_toChar?_of_lt (Nat.lt_trans hlt (by decide))
  have haccepts : accepts false u.toNat = true := by
    rw [accepts, if_neg (by decide), CodePoint.isIdentifierPart, CodePoint.isPartBy, if_pos hlt, h]
  rw [item?, if_neg (by simpa using hbackslash), Utf16.head?_cons_of_not_isLead hlead]
  simp only [nameChar?, haccepts, if_true, hch, Option.map_some, CodePoint.toChar, Option.getD_some]

/-- No other ASCII character stands in a name. -/
theorem nameChar?_of_not_part {c : CodePoint} (hlt : c < 0x80)
    (h : c.isAsciiIdentifierPart = false) (first : Bool) : nameChar? first c = none := by
  have haccepts : accepts first c = false := by
    cases first with
    | true =>
      rw [CodePoint.isAsciiIdentifierPart, Bool.or_eq_false_iff] at h
      rw [accepts, if_pos rfl, CodePoint.isIdentifierStart, CodePoint.isStartBy, if_pos hlt, h.1]
    | false =>
      rw [accepts, if_neg (by decide), CodePoint.isIdentifierPart, CodePoint.isPartBy, if_pos hlt,
        h]
  rw [nameChar?, haccepts, if_neg (by decide)]

theorem not_part_of_isLineTerminator (h : u.isLineTerminator = true) :
    CodePoint.isIdentifierPart u.toNat = false := by
  have hascii : ∀ c ∈ [0x0A, 0x0D], CodePoint.isIdentifierPart c = false := by decide
  have hothers : ∀ c ∈ [0x2028, 0x2029], ¬c < 0x80 ∧ (c == 0x200C || c == 0x200D ||
      (CodePoint.idContinueNotXid.contains c ||
        CodePointSet.isOutsideAsciiWith Unicode.isXidContinue c)) = false := by
    decide +kernel
  have hmem : u.toNat ∈ [0x0A, 0x0D] ++ [0x2028, 0x2029] := by
    simp only [CodeUnit.isLineTerminator, CodeUnit.lineFeed, CodeUnit.carriageReturn,
      CodeUnit.lineSeparator, CodeUnit.paragraphSeparator, Bool.or_eq_true, beq_iff_eq,
      ← UInt16.toNat_inj, UInt16.reduceToNat] at h
    simpa [or_assoc] using h
  rcases List.mem_append.mp hmem with hmem | hmem
  · exact hascii _ hmem
  · obtain ⟨hbig, hout⟩ := hothers _ hmem
    rw [CodePoint.isIdentifierPart, CodePoint.identifierParts, CodePoint.isPartBy_eq _ hbig, hout]

/-- An identifier part stands on one line. -/
theorem inLine_of_part (hhead : Utf16.head? text = some (p, width))
    (hp : p.isIdentifierPart = true) : ∀ u ∈ text.take width, u.isLineTerminator = false := by
  apply Utf16.inLine_of_head? hhead
  cases text with
  | nil => rfl
  | cons u rest =>
    rw [List.head?_cons, Option.any_some, ← Bool.not_eq_true]
    intro hu
    rw [Utf16.head?_cons_of_not_isLead (CodeUnit.isLead_of_separates (.inr hu)), Option.some.injEq,
      Prod.mk.injEq] at hhead
    rw [← hhead.1, not_part_of_isLineTerminator hu] at hp
    exact nomatch hp

end Identifier

/-! ## Names as lists of items -/

namespace Identifier

variable {u : CodeUnit} {text : List CodeUnit} {x : Reading Char} {f : Fault}

/-- The characters of a name. -/
def chars : Reader (List Char) := do
  let first ← start
  let rest ← parts
  return first :: rest

theorem chars_of_start (h : start text = .ok x) :
    chars text =
      ((parts (text.drop x.length)).mapValue (x.value :: ·)).shift x.length x.flags := by
  unfold chars
  rw [Reader.bind_of_ok h]
  exact congrArg _ (Reader.bind_pure_apply parts _ _)

theorem chars_of_error (h : start text = .error f) : chars text = .error f := by
  unfold chars
  rw [Reader.bind_of_error h]

theorem name_apply (text : List CodeUnit) : name text = (chars text).mapValue String.ofList := by
  unfold name
  cases h : start text with
  | error f => rw [chars_of_error h, Reader.bind_of_error h, Outcome.mapValue]
  | ok x =>
    rw [chars_of_start h, Reader.bind_of_ok h, Outcome.mapValue_shift, Outcome.mapValue_mapValue]
    exact congrArg _ (Reader.bind_pure_apply parts _ _)

theorem parts_of_item (h : item? false text = some (.ok x)) :
    parts text = ((parts (text.drop x.length)).shift x.length x.flags).mapValue (x.value :: ·) := by
  rw [parts]
  split <;> simp_all

/-- The items of a run are its units. -/
theorem parts_append {w : List CodeUnit}
    (hw : ∀ u ∈ w, CodePoint.isAsciiIdentifierPart u.toNat = true) (rest : List CodeUnit) :
    parts (w ++ rest) =
      ((parts rest).shift w.length ∅).mapValue (w.map (CodePoint.toChar ·.toNat) ++ ·) := by
  induction w with
  | nil =>
    rw [List.length_nil, Outcome.shift_zero_empty]
    exact (Outcome.mapValue_id _).symm
  | cons u w ih =>
    rw [List.forall_mem_cons] at hw
    rw [List.cons_append, parts_of_item (item?_part hw.1 _), List.drop_succ_cons, List.drop_zero,
      ih hw.2, List.length_cons, Nat.add_comm, ← Outcome.shift_shift]
    cases (parts rest).shift w.length ∅ <;> rfl

/-- Behind a run a name ends unless a backslash or a unit outside ASCII follows. -/
theorem parts_of_stop (h : ∀ u ∈ text.head?, CodePoint.isAsciiIdentifierPart u.toNat = false ∧
    u ≠ CodeUnit.backslash ∧ u.toNat < 0x80) : parts text = .ok ⟨[], 0, ∅⟩ := by
  have hnone : item? false text = none := by
    cases text with
    | nil => rfl
    | cons u rest =>
      obtain ⟨hpart, hbackslash, hlt⟩ := h u rfl
      rw [item?, if_neg (by simpa using hbackslash),
        Utf16.head?_cons_of_not_isLead (Numeric.isLead_eq_false hlt)]
      simp only [nameChar?_of_not_part hlt hpart, Option.map_none]
  rw [parts]
  split <;> simp_all

end Identifier

namespace Routine

open Machine Text Identifier

variable {m : Machine} {c : Cursor} {u : CodeUnit} {rest : List CodeUnit}

/-! ## One item -/

namespace NameSoFar

/-- The name with one more item. -/
def add (s : NameSoFar) (x : Char × TokenFlags) : NameSoFar :=
  ⟨s.chars ++ [x.1], s.escaped || x.2.unicodeEscape⟩

/-- The name with all its later items. -/
def append (s : NameSoFar) (x : List Char × TokenFlags) : NameSoFar :=
  ⟨s.chars ++ x.1, s.escaped || x.2.unicodeEscape⟩

theorem add_plain (s : NameSoFar) (ch : Char) : s.add (ch, ∅) = s.push ch := by
  show (⟨_, s.escaped || false⟩ : NameSoFar) = _
  rw [Bool.or_false]
  rfl

theorem append_nil (s : NameSoFar) : s.append ([], ∅) = s := by
  show (⟨s.chars ++ [], s.escaped || false⟩ : NameSoFar) = s
  rw [Bool.or_false, List.append_nil]

theorem append_add (s : NameSoFar) (ch : Char) (flags : TokenFlags) :
    (s.add (ch, flags)).append = fun x => s.append (ch :: x.1, flags ∪ x.2) := by
  funext x
  show (⟨s.chars ++ [ch] ++ x.1, s.escaped || flags.unicodeEscape || x.2.unicodeEscape⟩ :
    NameSoFar) = ⟨s.chars ++ ch :: x.1, s.escaped || (flags.unicodeEscape || x.2.unicodeEscape)⟩
  rw [List.append_assoc, List.singleton_append, Bool.or_assoc]

end NameSoFar

/-- An escape in a name. -/
theorem escapedChar_atCursor (h : m.Admits c) (hrest : c.rest = CodeUnit.backslash :: rest)
    (s : NameSoFar) :
    (escapedChar s).run (m.atCursor c) =
      match item? s.chars.isEmpty c.rest with
      | none => some (.error ⟨.illegalCharacter '\\', c.location.wrap⟩, m.atCursor c)
      | some o => m.carryOut c.advance (o.withFlags.mapValue s.add) := by
  have hchar : CodePoint.toChar CodeUnit.backslash.toNat = '\\' := by decide
  unfold escapedChar item?
  rw [run_state_bind, peekIs_atCursor h, run_ite, run_ite, hrest, if_pos List.head?_cons,
    List.drop_succ_cons, List.drop_zero]
  by_cases hu : rest.head? = some (CodeUnit.ofChar 'u')
  · obtain ⟨rest, rfl⟩ := List.head?_eq_some_iff.mp hu
    have hline : ∀ u ∈ c.rest.take 2, u.isLineTerminator = false := by
      rw [hrest, List.take_succ_cons, List.take_succ_cons, List.take_zero]
      exact Text.inLine_of_all rfl
    have hcut : CleanCut c.rest 2 := by
      rw [hrest]
      exact .cons (by decide) (.one (by decide))
    have hbehind : (c.advance 2).rest = rest := by
      rw [Cursor.rest_advance, hrest]
      rfl
    have hvalue := unicodeEscapeValue_atCursor (h.advance 2)
    rw [if_neg (by simp), if_pos hu, run_bind_of_ok (advanceBy_atCursor h hline)]
    unfold escapedItem
    simp only [List.drop_succ_cons, List.drop_zero]
    rw [hbehind] at hvalue
    -- an escape that is wrong and one that denotes no part of a name give the same error
    cases hread : Escape.unicode rest with
    | error f =>
      have hbare := Escape.failsBare_unicode rest
      rw [hread] at hbare
      have hflags : f.flags = ∅ := hbare
      rw [hread, Outcome.mapValue, carryOut_error, hflags, note_empty,
        Cursor.advance_advance hcut f.stop] at hvalue
      rw [run_bind_of_ok (run_attempt hvalue)]
      show some _ = m.carryOut c.advance (.error _)
      rw [carryOut_error, note_empty]
      rfl
    | ok x =>
      have hword := toNat_ofNat_of_unicode hread
      obtain ⟨w, more, n, -, -, -, rfl⟩ := Escape.unicode_eq_ok_iff.mp hread
      rw [hread, Outcome.mapValue, carryOut_ok, note_empty, Cursor.advance_advance hcut] at hvalue
      rw [run_bind_of_ok (run_attempt hvalue)]
      simp only [hword]
      cases hname : nameChar? s.chars.isEmpty n with
      | none =>
        show some _ = m.carryOut c.advance (.error _)
        rw [carryOut_error, note_empty]
        rfl
      | some ch =>
        rw [run_update_bind, run_pure, note_atCursor]
        show some _ = m.carryOut c.advance (.ok _)
        rw [carryOut_ok]
        simp only [NameSoFar.push, NameSoFar.add, Bool.or_true]
  · rw [if_pos (by simpa using hu), if_neg hu]
    cases hs : s.chars.isEmpty with
    | true =>
      rw [if_pos rfl, if_pos rfl, run_illegalCharacter, hchar, location_atCursor]
    | false =>
      rw [if_neg (by decide), if_neg (by decide), run_failAt, location_atCursor]
      exact (carryOut_failHere _).symm

/-- At the end of the source a name ends. -/
theorem nameStep_nil (hrest : c.rest = []) (s : NameSoFar) :
    (nameStep s).run (m.atCursor c) = some (.ok (.done s), m.atCursor c) := by
  have hpart : CodePoint.isAsciiIdentifierPart CodePoint.endOfSource = false := by decide
  unfold nameStep
  simp only [run_state_bind, run_ite, current_atCursor, is_atCursor, isAtEnd_atCursor, hrest,
    unitAt_nil, hpart]
  rfl

/-- An ASCII identifier part goes on a name. -/
theorem nameStep_part (h : m.Admits c) (hrest : c.rest = u :: rest)
    (hu : CodePoint.isAsciiIdentifierPart u.toNat = true) (s : NameSoFar) :
    (nameStep s).run (m.atCursor c) =
      some (.ok (.again (s.push (CodePoint.toChar u.toNat))), m.atCursor (c.advance 1)) := by
  obtain ⟨-, -, -, hline⟩ := plain_of_part hu
  unfold nameStep
  rw [run_state_bind, current_atCursor, hrest, unitAt_cons, if_pos hu,
    run_bind_of_ok (advance_atCursor h hrest hline), run_pure]

theorem nameStep_backslash (hrest : c.rest = CodeUnit.backslash :: rest) (s : NameSoFar) :
    (nameStep s).run (m.atCursor c) =
      (escapedChar s >>= fun s => pure (.again s)).run (m.atCursor c) := by
  unfold nameStep
  rw [run_state_bind, current_atCursor, hrest, unitAt_cons, if_neg (by decide), is_atCursor, hrest,
    if_pos (beq_iff_eq.mpr List.head?_cons)]

/-- Any other code point goes on a name if it may stand in one. -/
theorem nameStep_codePoint (h : m.Admits c) (hrest : c.rest = u :: rest)
    (hu : CodePoint.isAsciiIdentifierPart u.toNat = false) (hbackslash : u ≠ CodeUnit.backslash)
    {p : CodePoint} {width : Nat} (hhead : Utf16.head? c.rest = some (p, width)) (s : NameSoFar) :
    (nameStep s).run (m.atCursor c) =
      match nameChar? s.chars.isEmpty p with
      | some ch => some (.ok (.again (s.push ch)), m.atCursor (c.advance width))
      | none => some (.ok (.done s), m.atCursor c) := by
  have hcodePoint := currentCodePoint_atCursor (ε := LexError) h
  rw [hhead, Option.getD_some] at hcodePoint
  unfold nameStep
  simp only [run_state_bind, run_ite, current_atCursor, is_atCursor, isAtEnd_atCursor, hrest,
    unitAt_cons, List.head?_cons, List.isEmpty_cons, Bool.not_false, Bool.and_true, hu,
    Bool.false_eq_true, if_false, Option.some_beq_some, beq_iff_eq, decide_eq_true_eq]
  rw [if_neg hbackslash]
  by_cases hascii : 0x80 ≤ u.toNat
  · rw [if_pos hascii, run_bind_of_ok hcodePoint]
    cases hname : nameChar? s.chars.isEmpty p with
    | none => rw [run_pure]
    | some ch =>
      have hline := inLine_of_part hhead (isIdentifierPart_of_accepts (accepts_of_nameChar? hname))
      rw [run_bind_of_ok (advanceBy_atCursor h hline), run_pure]
  · have hlt : u.toNat < 0x80 := Nat.lt_of_not_le hascii
    rw [hrest, Utf16.head?_cons_of_not_isLead (Numeric.isLead_eq_false hlt), Option.some.injEq,
      Prod.mk.injEq] at hhead
    rw [if_neg hascii, run_pure, ← hhead.1, nameChar?_of_not_part hlt hu]

/-- **One item of a name.** A name that has not begun does not begin with the second loop if an
ASCII identifier part comes first. -/
theorem nameStep_atCursor (h : m.Admits c) (s : NameSoFar)
    (hs : s.chars.isEmpty = true → ∀ u ∈ c.rest.head?,
      CodePoint.isAsciiIdentifierPart u.toNat = false) :
    (nameStep s).run (m.atCursor c) =
      match item? s.chars.isEmpty c.rest with
      | none =>
        if c.rest.head? = some CodeUnit.backslash then
          some (.error ⟨.illegalCharacter '\\', c.location.wrap⟩, m.atCursor c)
        else some (.ok (.done s), m.atCursor c)
      | some o => m.carryOut c.advance (o.withFlags.mapValue fun x => .again (s.add x)) := by
  obtain hrest | ⟨u, rest, hrest⟩ : c.rest = [] ∨ ∃ u rest, c.rest = u :: rest := by
    cases c.rest <;> simp
  · rw [nameStep_nil hrest, hrest]
    rfl
  by_cases hbackslash : u = CodeUnit.backslash
  · subst hbackslash
    have hescaped := escapedChar_atCursor h hrest s
    rw [nameStep_backslash hrest, if_pos (by rw [hrest]; rfl)]
    cases hitem : item? s.chars.isEmpty c.rest with
    | none =>
      rw [hitem] at hescaped
      rw [run_bind_of_error hescaped]
    | some o =>
      rw [hitem] at hescaped
      rw [run_bind_pure hescaped, Outcome.mapValue_mapValue]
      rfl
  rw [if_neg (by simpa [hrest] using hbackslash)]
  -- a unit of the fast loop, or a code point outside ASCII
  by_cases hpart : CodePoint.isAsciiIdentifierPart u.toNat = true
  · have hbegun : s.chars.isEmpty = false := by
      rw [← Bool.not_eq_true]
      intro hempty
      have hnot := hs hempty u (by rw [hrest]; rfl)
      rw [hpart] at hnot
      exact nomatch hnot
    rw [nameStep_part h hrest hpart, hbegun, hrest, item?_part hpart]
    show some _ = m.carryOut c.advance (.ok _)
    rw [carryOut_ok, note_empty, ← NameSoFar.add_plain]
  · rw [Bool.not_eq_true] at hpart
    obtain ⟨p, width, hhead⟩ := Utf16.exists_head?_cons u rest
    rw [← hrest] at hhead
    rw [nameStep_codePoint h hrest hpart hbackslash hhead, item?,
      if_neg (by simpa [hrest] using hbackslash), hhead]
    dsimp only
    cases hname : nameChar? s.chars.isEmpty p with
    | none => rfl
    | some ch =>
      show some _ = m.carryOut c.advance (.ok _)
      rw [carryOut_ok, note_empty, ← NameSoFar.add_plain]

/-! ## Whole names -/

/-- **The second loop**, where the name has begun. -/
theorem nameLoop_atCursor (h : m.Admits c) (s : NameSoFar) (hs : s.chars ≠ []) :
    (loop nameStep s).run (m.atCursor c) =
      m.carryOut c.advance ((parts c.rest).withFlags.mapValue s.append) := by
  -- a name that has begun does not become empty, so every round asks for identifier parts
  have hbegun {s : NameSoFar} (hs : s.chars ≠ []) : s.chars.isEmpty = false := by simpa using hs
  have hstep {m : Machine} {c : Cursor} (h : m.Admits c) {s : NameSoFar} (hs : s.chars ≠ []) :=
    nameStep_atCursor h s fun hempty => by simp [hbegun hs] at hempty
  generalize hrest : c.rest = text
  fun_induction parts text generalizing m c s with
  | case1 text hnone =>
    have hround := hstep h hs
    have hbackslash : c.rest.head? ≠ some CodeUnit.backslash := by
      intro hhead
      rw [← hrest, item?, if_pos hhead] at hnone
      split at hnone <;> simp at hnone
    rw [hbegun hs, hrest, hnone, if_neg (hrest ▸ hbackslash)] at hround
    rw [run_loop_of_done hround]
    show _ = m.carryOut c.advance (.ok ⟨s.append ([], ∅), 0, ∅⟩)
    rw [carryOut_ok, note_empty, NameSoFar.append_nil]
    rfl
  | case2 text f herror =>
    have hround := hstep h hs
    rw [hbegun hs, hrest, herror] at hround
    exact run_loop_of_error hround
  | case3 text x hitem ih =>
    have hround := hstep h hs
    rw [hbegun hs, hrest, hitem] at hround
    have hcut : CleanCut c.rest x.length := by
      rw [hrest]
      exact clean_item? hitem
    have hloop := ih ((h.note x.flags).advance x.length) (s.add (x.value, x.flags))
      (by simp [NameSoFar.add]) (by rw [Cursor.rest_advance, hrest])
    rw [run_loop_of_again hround, hloop, Outcome.withFlags_mapValue, Outcome.withFlags_shift,
      Outcome.mapValue_mapValue, Outcome.mapValue_shift, carryOut_shift hcut,
      Outcome.mapValue_mapValue, NameSoFar.append_add]
    rfl

/-- Whether a name goes on behind a run. -/
theorem goesOn_atCursor :
    goesOn (m.atCursor c) =
      c.rest.head?.any fun u => u == CodeUnit.backslash || 0x80 ≤ u.toNat := by
  unfold goesOn
  rw [is_atCursor, isAtEnd_atCursor, current_atCursor]
  cases c.rest with
  | nil => simp
  | cons u rest =>
    simp only [List.head?_cons, Option.some_beq_some, Option.any_some, unitAt_cons,
      List.isEmpty_cons, Bool.not_false, Bool.and_true]
    rfl

/-- A name begins with a run of ASCII identifier parts, or the second loop begins it. -/
theorem start_of_beginsName {text : List CodeUnit} (hbegins : Lexeme.beginsName text = true) :
    ∃ u rest, text = u :: rest ∧
      (CodePoint.isAsciiIdentifierPart u.toNat = true ∧
          start text = .ok ⟨CodePoint.toChar u.toNat, 1, ∅⟩ ∨
        CodePoint.isAsciiIdentifierPart u.toNat = false ∧
          (u = CodeUnit.backslash ∨ 0x80 ≤ u.toNat ∧ ∃ o, item? true text = some o)) := by
  cases text with
  | nil => simp [Lexeme.beginsName, Utf16.head?] at hbegins
  | cons u rest =>
    refine ⟨u, rest, rfl, ?_⟩
    by_cases hbackslash : u = CodeUnit.backslash
    · subst hbackslash
      exact .inr ⟨by decide, .inl rfl⟩
    obtain ⟨p, width, hhead⟩ := Utf16.exists_head?_cons u rest
    have hstart : p.isIdentifierStart = true := by
      simpa [Lexeme.beginsName, hbackslash, hhead] using hbegins
    have haccepts : accepts true p = true := by rw [accepts, if_pos rfl, hstart]
    obtain ⟨ch, hch⟩ := CodePoint.exists_toChar?_of_accepts haccepts
    have hname : nameChar? true p = some ch := by rw [nameChar?, if_pos haccepts, hch]
    have hitem : item? true (u :: rest) = some (.ok ⟨ch, width, ∅⟩) := by
      rw [item?, if_neg (by simpa using hbackslash), hhead]
      dsimp only
      rw [hname, Option.map_some]
    by_cases hlt : u.toNat < 0x80
    · rw [Utf16.head?_cons_of_not_isLead (Numeric.isLead_eq_false hlt), Option.some.injEq,
        Prod.mk.injEq] at hhead
      obtain ⟨rfl, rfl⟩ := hhead
      refine .inl ⟨?_, ?_⟩
      · rw [← Bool.not_eq_false]
        intro hpart
        rw [nameChar?_of_not_part hlt hpart] at hname
        exact absurd hname.symm (Option.some_ne_none ch)
      · rw [start, hitem, CodePoint.toChar, hch, Option.getD_some]
    · refine .inr ⟨?_, .inr ⟨Nat.le_of_not_lt hlt, _, hitem⟩⟩
      rw [← Bool.not_eq_true]
      intro hpart
      exact hlt (plain_of_part hpart).1

/-- Behind a run the name goes on with the second loop, or it ends. -/
theorem rest_atCursor (h : m.Admits c) {s : NameSoFar} (hs : s.chars ≠ [])
    (hstop : ∀ u ∈ c.rest.head?, CodePoint.isAsciiIdentifierPart u.toNat = false) :
    (if goesOn (m.atCursor c) then loop nameStep s else pure s).run (m.atCursor c) =
      m.carryOut c.advance ((parts c.rest).withFlags.mapValue s.append) := by
  cases hgoes : goesOn (m.atCursor c) with
  | true => rw [if_pos rfl, nameLoop_atCursor h s hs]
  | false =>
    have hends : parts c.rest = .ok ⟨[], 0, ∅⟩ := by
      apply parts_of_stop
      intro u hu
      rw [goesOn_atCursor, hu, Option.any_some, Bool.or_eq_false_iff, beq_eq_false_iff_ne,
        decide_eq_false_iff_not] at hgoes
      exact ⟨hstop u hu, hgoes.1, Nat.lt_of_not_le hgoes.2⟩
    rw [if_neg (by decide), run_pure, hends]
    show _ = m.carryOut c.advance (.ok ⟨s.append ([], ∅), 0, ∅⟩)
    rw [carryOut_ok, note_empty, NameSoFar.append_nil]
    rfl

/-- A name that begins with a run. -/
theorem chars_append {w rest : List CodeUnit} {u : CodeUnit}
    (hw : ∀ v ∈ u :: w, CodePoint.isAsciiIdentifierPart v.toNat = true)
    (hstart : start (u :: w ++ rest) = .ok ⟨CodePoint.toChar u.toNat, 1, ∅⟩) :
    chars (u :: w ++ rest) =
      ((parts rest).shift (u :: w).length ∅).mapValue
        ((u :: w).map (CodePoint.toChar ·.toNat) ++ ·) := by
  rw [List.forall_mem_cons] at hw
  rw [chars_of_start hstart, List.cons_append, List.drop_succ_cons, List.drop_zero,
    parts_append hw.2, List.length_cons, Nat.add_comm, ← Outcome.shift_shift]
  cases (parts rest).shift w.length ∅ <;> rfl

/-- **The second loop begins a name** where no run does. -/
theorem charsLoop_atCursor (h : m.Admits c) (hrest : c.rest = u :: rest)
    (hu : CodePoint.isAsciiIdentifierPart u.toNat = false)
    (hbegins : u = CodeUnit.backslash ∨ ∃ o, item? true c.rest = some o) :
    (loop nameStep ⟨[], false⟩).run (m.atCursor c) =
      m.carryOut c.advance
        ((chars c.rest).withFlags.mapValue (⟨[], false⟩ : NameSoFar).append) := by
  have hround := nameStep_atCursor h ⟨[], false⟩ fun _ v hv => by
    rw [hrest] at hv
    obtain rfl := Option.some.inj hv
    exact hu
  rw [List.isEmpty_nil] at hround
  -- the first round asks for an identifier start, all others belong to a name that has begun
  cases hitem : item? true c.rest with
  | none =>
    obtain rfl : u = CodeUnit.backslash := by
      rcases hbegins with hbackslash | ⟨o, ho⟩
      · exact hbackslash
      · rw [hitem] at ho
        exact nomatch ho
    have hoffender : Lexeme.offender c.rest = '\\' := by
      rw [hrest, Lexeme.offender, Utf16.head?_cons_of_not_isLead (by decide)]
      decide
    have hstart : start c.rest = .failHere (.illegalCharacter '\\') := by
      rw [start, hitem, hoffender]
    rw [hitem, if_pos (by rw [hrest]; rfl)] at hround
    rw [run_loop_of_error hround, chars_of_error hstart]
    exact (carryOut_failHere _).symm
  | some o =>
    have hstart : start c.rest = o := by rw [start, hitem]
    rw [hitem] at hround
    cases o with
    | error f =>
      rw [run_loop_of_error hround, chars_of_error hstart]
      rfl
    | ok x =>
      have hcut : CleanCut c.rest x.length := clean_item? hitem
      rw [run_loop_of_again hround,
        nameLoop_atCursor ((h.note x.flags).advance _) _ (by simp [NameSoFar.add]),
        chars_of_start hstart, Outcome.withFlags_shift, Outcome.withFlags_mapValue,
        Outcome.mapValue_mapValue, Outcome.mapValue_shift, carryOut_shift hcut,
        Outcome.mapValue_mapValue, NameSoFar.append_add]
      rfl

/-- **The two loops, one after the other.** -/
theorem chars_atCursor (h : m.Admits c) (hbegins : Lexeme.beginsName c.rest = true)
    {w : List CodeUnit} {d : Cursor} {s : NameSoFar}
    (hw : w = c.rest.takeWhile fun u => CodePoint.isAsciiIdentifierPart u.toNat)
    (hd : d = c.advance w.length) (hs : s = ⟨w.map (CodePoint.toChar ·.toNat), false⟩) :
    (if goesOn (m.atCursor d) then loop nameStep s else pure s).run (m.atCursor d) =
      m.carryOut c.advance
        ((chars c.rest).withFlags.mapValue (⟨[], false⟩ : NameSoFar).append) := by
  have hcut : CleanCut c.rest w.length := by
    rw [hw]
    exact .of_le_takeWhile (by decide) (Nat.le_refl _)
  have hsplit : c.rest = w ++ d.rest := by
    have htake : c.rest.take w.length = w := by
      rw [hw]
      exact (List.prefix_iff_eq_take.mp (List.takeWhile_prefix _)).symm
    conv_lhs => rw [← List.take_append_drop w.length c.rest, htake]
    rw [hd, Cursor.rest_advance]
  have hstop : ∀ u ∈ d.rest.head?, CodePoint.isAsciiIdentifierPart u.toNat = false := by
    intro u hu
    rw [hd, Cursor.rest_advance, List.head?_drop, hw] at hu
    exact Text.eq_false_of_getElem?_takeWhile hu
  have hall : ∀ u ∈ w, CodePoint.isAsciiIdentifierPart u.toNat = true := by
    intro u hu
    rw [hw] at hu
    exact List.mem_takeWhile_imp
      (p := fun u : CodeUnit => CodePoint.isAsciiIdentifierPart u.toNat) hu
  obtain ⟨u, rest, hrest, ⟨hu, hstart⟩ | ⟨hu, hor⟩⟩ := start_of_beginsName hbegins
  · -- there is a run, and the name has begun
    obtain ⟨w', rfl⟩ : ∃ w', w = u :: w' := by
      rw [hw, hrest, List.takeWhile_cons, if_pos hu]
      exact ⟨_, rfl⟩
    rw [hsplit] at hstart
    have happend : s.append = fun x =>
        (⟨[], false⟩ : NameSoFar).append
          ((u :: w').map (CodePoint.toChar ·.toNat) ++ x.1, x.2) := by
      rw [hs]
      rfl
    rw [rest_atCursor (hd ▸ h.advance _) (by simp [hs]) hstop, hsplit, chars_append hall hstart,
      Outcome.withFlags_mapValue, Outcome.withFlags_shift, Outcome.mapValue_mapValue,
      Outcome.mapValue_shift, carryOut_shift hcut, Outcome.mapValue_mapValue, note_empty, happend,
      hd]
    simp only [Function.comp_def, TokenFlags.empty_union]
  · -- there is no run, and the second loop begins the name
    have hnil : w = [] := by
      rw [hw, hrest, List.takeWhile_cons_of_neg (by simp [hu])]
    have hd' : d = c := by rw [hd, hnil]; rfl
    have hgoes : goesOn (m.atCursor d) = true := by
      rw [goesOn_atCursor, hd', hrest, List.head?_cons, Option.any_some, Bool.or_eq_true,
        beq_iff_eq, decide_eq_true_eq]
      exact hor.imp_right And.left
    rw [hgoes, if_pos rfl, hd', hs, hnil]
    exact charsLoop_atCursor h hrest hu (hor.imp_right And.right)

/-- **An identifier or a keyword.** -/
theorem identifier_atCursor (h : m.Admits c) (hbegins : Lexeme.beginsName c.rest = true) :
    identifier.run (m.atCursor c) = m.carryOut c.advance (Identifier.read c.rest) := by
  generalize hw : (c.rest.takeWhile fun u => CodePoint.isAsciiIdentifierPart u.toNat) = w
  have hrun := advanceWhile_atCursor (ε := LexError) h (p := CodePoint.isAsciiIdentifierPart)
    (by decide) (fun _ => rfl) fun u hu => (plain_of_part hu).2.2.2
  rw [hw] at hrun
  have hprefix : w <+: c.rest := hw ▸ List.takeWhile_prefix _
  have hslice := sliceFrom_atCursor (ε := LexError) (h.advance w.length)
    c.location.offset (by rw [Cursor.offset_advance]; omega)
  rw [h.extract_advance (Nat.le_refl _) hprefix.length_le, extract_self, List.nil_append,
    ← List.prefix_iff_eq_take.mp hprefix] at hslice
  have hchars := run_bind_pure (chars_atCursor h hbegins hw.symm rfl rfl)
    fun s => Identifier.classify (String.ofList s.chars) s.escaped
  have hread : Identifier.read c.rest = (chars c.rest).withFlags.mapValue
      fun x => classify (String.ofList x.1) x.2.unicodeEscape := by
    show name.interpret _ c.rest = _
    rw [Reader.interpret_apply name fun s flags => classify s flags.unicodeEscape, name_apply,
      Outcome.withFlags_mapValue, Outcome.mapValue_mapValue]
    rfl
  rw [Outcome.mapValue_mapValue] at hchars
  unfold identifier
  rw [run_state_bind, run_bind_of_ok hrun, index_atCursor, run_bind_of_ok hslice, run_state_bind,
    hread]
  refine Eq.trans ?_ hchars
  cases goesOn (m.atCursor (c.advance w.length)) <;> rfl

/-- Whether a name begins is seen from its first code point. -/
theorem beginsName_eq (text : List CodeUnit) :
    Lexeme.beginsName text =
      (((Utf16.head? text).getD (CodePoint.endOfSource, 0)).1.isIdentifierStart ||
        ((Utf16.head? text).getD (CodePoint.endOfSource, 0)).1 == CodeUnit.backslash.toNat) := by
  cases text with
  | nil =>
    have hend : CodePoint.isIdentifierStart CodePoint.endOfSource = false :=
      (CodePoint.not_identifier_of_max_lt (by decide)).1
    simp only [Lexeme.beginsName, Utf16.head?, Option.getD_none, hend]
    decide
  | cons u rest =>
    obtain ⟨p, width, hhead⟩ := Utf16.exists_head?_cons u rest
    have hbackslash : (p == CodeUnit.backslash.toNat) = (u == CodeUnit.backslash) := by
      rw [Bool.eq_iff_iff, beq_iff_eq, beq_iff_eq]
      exact Utf16.eq_toNat_iff_of_head? hhead (by decide)
    rw [Lexeme.beginsName, hhead, Option.any_some, Option.getD_some, hbackslash, Bool.or_comm]
    rfl

/-- **A private name**, from its hash on. -/
theorem privateName_atCursor (h : m.Admits c) (hrest : c.rest = CodeUnit.hash :: rest) :
    privateName.run (m.atCursor c) = m.carryOut c.advance (readPrivate c.rest) := by
  have hbehind := Cursor.rest_advance_one hrest
  have hcodePoint := currentCodePoint_atCursor (ε := LexError) (h.advance 1)
  have hvalue : (Identifier.read rest).mapValue (fun x => (⟨.privateName, x.value⟩ : Lexeme)) =
      (name rest).mapValue fun s => ⟨.privateName, .name s⟩ := by
    unfold Identifier.read Reader.interpret
    cases name rest <;> rfl
  rw [hbehind] at hcodePoint
  unfold privateName
  rw [run_state_bind, run_bind_of_ok (advance_atCursor h hrest (by decide)),
    run_bind_of_ok hcodePoint, run_ite, hrest, readPrivate_hash, beginsName_eq]
  cases hstart : ((Utf16.head? rest).getD (CodePoint.endOfSource, 0)).1.isIdentifierStart ||
      ((Utf16.head? rest).getD (CodePoint.endOfSource, 0)).1 == CodeUnit.backslash.toNat with
  | true =>
    have hnot : ¬(!((Utf16.head? rest).getD (CodePoint.endOfSource, 0)).1.isIdentifierStart &&
        ((Utf16.head? rest).getD (CodePoint.endOfSource, 0)).1 != CodeUnit.backslash.toNat) =
          true := by
      rw [Bool.not_eq_true, bne, ← Bool.not_or, hstart]
      rfl
    rw [← beginsName_eq, ← hbehind] at hstart
    have hidentifier := run_bind_pure (identifier_atCursor (h.advance 1) hstart)
      fun x : Lexeme => (⟨.privateName, x.value⟩ : Lexeme)
    rw [hbehind, hvalue] at hidentifier
    rw [if_neg hnot, if_pos rfl, hidentifier, Outcome.mapValue_shift,
      carryOut_shift_one hrest (by decide)]
  | false =>
    rw [if_pos (by rw [bne, ← Bool.not_or, hstart]; rfl), if_neg (by decide), run_failAt,
      location_atCursor, carryOut_error, note_empty]
    rfl

end Routine

end EcmaLex
