import EcmaLex.Machine.Basic
import EcmaLex.Proofs.EscapeNumbers
import EcmaLex.Proofs.Places
import EcmaLex.Proofs.SurrogatePairs

/-!
# A machine at a cursor

A machine keeps an index, a line and a column; a cursor keeps a location and the text behind it.
`Machine.atCursor` puts a machine where a cursor is. Every move of the machine is then a move of the
cursor: along the line over units that end no line (`advance_atCursor`, `advanceBy_atCursor`), and
onto the next line over one line terminator (`consumeLineTerminator_atCursor`). Which of the two is
right is for each loop to know; the cursor only counts.

Words are no obstacle for the moves if they wrap. If they are checked, there has to be room for them
(`Cursor.Roomy`): no line and no column may come too close to the end of its word.

`Machine.carryOut` is what a reader's result means for a machine. That a routine carries out what a
reader says is the one statement proved of each routine.
-/

namespace EcmaLex

open Text (CleanCut)

/-! ## Running routines -/

namespace Routine

variable {ε α β σ : Type} {m m' : Machine}

@[simp] theorem run_pure (a : α) (m : Machine) :
    (pure a : Routine ε α).run m = some (.ok a, m) := rfl

theorem run_bind (r : Routine ε α) (next : α → Routine ε β) (m : Machine) :
    (r >>= next).run m = match r.run m with
      | none => none
      | some (.error e, m) => some (.error e, m)
      | some (.ok a, m) => (next a).run m := rfl

theorem run_bind_of_ok {r : Routine ε α} {next : α → Routine ε β} {a : α}
    (h : r.run m = some (.ok a, m')) : (r >>= next).run m = (next a).run m' := by
  rw [run_bind, h]

theorem run_bind_of_error {r : Routine ε α} {next : α → Routine ε β} {e : ε}
    (h : r.run m = some (.error e, m')) : (r >>= next).run m = some (.error e, m') := by
  rw [run_bind, h]

@[simp] theorem run_state_bind (next : Machine → Routine ε β) (m : Machine) :
    (state >>= next).run m = (next m).run m := rfl

@[simp] theorem run_update (f : Machine → Machine) (m : Machine) :
    (update f : Routine ε Unit).run m = some (.ok (), f m) := rfl

@[simp] theorem run_update_bind (f : Machine → Machine) (next : Unit → Routine ε β)
    (m : Machine) : (update f >>= next).run m = (next ()).run (f m) := rfl

@[simp] theorem run_require (a : α) (m : Machine) :
    (require (some a) : Routine ε α).run m = some (.ok a, m) := rfl

@[simp] theorem run_require_bind (a : α) (next : α → Routine ε β) (m : Machine) :
    (require (some a) >>= next).run m = (next a).run m := rfl

@[simp] theorem run_fail (e : ε) (m : Machine) :
    (fail e : Routine ε α).run m = some (.error e, m) := rfl

@[simp] theorem run_failAt (cause : LexError.Cause) (l : Location) (m : Machine) :
    (failAt cause l : Routine LexError α).run m = some (.error ⟨cause, l⟩, m) := rfl

@[simp] theorem run_failHere (cause : LexError.Cause) (m : Machine) :
    (failHere cause : Routine LexError α).run m = some (.error ⟨cause, m.location⟩, m) := rfl

@[simp] theorem run_illegalCharacter (c : CodePoint) (m : Machine) :
    (illegalCharacter c : Routine LexError α).run m =
      some (.error ⟨.illegalCharacter c.toChar, m.location⟩, m) := rfl

@[simp] theorem run_ite (p : Prop) [Decidable p] (r s : Routine ε α) (m : Machine) :
    (if p then r else s).run m = if p then r.run m else s.run m :=
  apply_ite (fun r => run r m) p r s

theorem run_bind_assoc {γ : Type} (r : Routine ε α) (f : α → Routine ε β) (g : β → Routine ε γ)
    (m : Machine) : ((r >>= f) >>= g).run m = (r >>= fun a => f a >>= g).run m := by
  simp only [run_bind]
  rcases r.run m with _ | ⟨x | a, m⟩ <;> rfl

theorem run_attempt {ε' : Type} {r : Routine ε α} {x : Except ε α} (h : r.run m = some (x, m')) :
    (attempt r : Routine ε' (Except ε α)).run m = some (.ok x, m') := by
  simp only [attempt, h, Option.map_some]

/-! ### Loops -/

variable {body : σ → Routine ε (Step σ α)} {s s' : σ}

theorem run_loop_of_done {a : α} (h : (body s).run m = some (.ok (.done a), m')) :
    (loop body s).run m = some (.ok a, m') := by
  show Machine.loopFrom body s m = _
  rw [Machine.loopFrom, h]
  rfl

theorem run_loop_of_again (h : (body s).run m = some (.ok (.again s'), m')) :
    (loop body s).run m = (loop body s').run m' := by
  show Machine.loopFrom body s m = Machine.loopFrom body s' m'
  rw [Machine.loopFrom, h]
  rfl

theorem run_loop_of_error {e : ε} (h : (body s).run m = some (.error e, m')) :
    (loop body s).run m = some (.error e, m') := by
  show Machine.loopFrom body s m = _
  rw [Machine.loopFrom, h]
  rfl

end Routine

/-! ## Words -/

namespace Location

/-- The location as words hold it. -/
def wrap (l : Location) : Location :=
  ⟨(UInt32.ofNat l.line).toNat, (UInt32.ofNat l.column).toNat, l.offset⟩

theorem wrap_eq {l : Location} (hline : l.line < UInt32.size) (hcolumn : l.column < UInt32.size) :
    l.wrap = l := by
  rw [wrap, UInt32.toNat_ofNat_of_lt' hline, UInt32.toNat_ofNat_of_lt' hcolumn]

end Location

namespace Build

theorem add_ofNat (b : Build) {x y : Nat} (h : b = .checked → x + y < UInt32.size) :
    b.add (UInt32.ofNat x) (UInt32.ofNat y) = some (UInt32.ofNat (x + y)) := by
  cases b with
  | wrapping => exact congrArg some (UInt32.ofNat_add x y).symm
  | checked =>
    have hlt := h rfl
    have hx : (UInt32.ofNat x).toNat = x := UInt32.toNat_ofNat_of_lt' (by omega)
    have hy : (UInt32.ofNat y).toNat = y := UInt32.toNat_ofNat_of_lt' (by omega)
    simp only [add, settle, hx, hy, decide_eq_true hlt, if_true, UInt32.ofNat_add]

theorem mul_ofNat (b : Build) {x y : Nat}
    (h : b = .checked → x < UInt32.size ∧ y < UInt32.size ∧ x * y < UInt32.size) :
    b.mul (UInt32.ofNat x) (UInt32.ofNat y) = some (UInt32.ofNat (x * y)) := by
  cases b with
  | wrapping => exact congrArg some (UInt32.ofNat_mul x y).symm
  | checked =>
    obtain ⟨hx, hy, hxy⟩ := h rfl
    simp only [mul, settle, UInt32.toNat_ofNat_of_lt' hx, UInt32.toNat_ofNat_of_lt' hy,
      decide_eq_true hxy, if_true, UInt32.ofNat_mul]

end Build

theorem minus?_of_le {a b : Nat} (h : b ≤ a) : minus? a b = some (a - b) := if_pos h

/-! ## The unit at the cursor -/

/-- No line terminator is in a class that the four line terminators are not in. -/
theorem CodeUnit.isLineTerminator_of_class {p : CodeUnit → Bool} {u : CodeUnit} (h : p u = true)
    (hp : [lineFeed, carriageReturn, lineSeparator, paragraphSeparator].all (! p ·) = true) :
    u.isLineTerminator = false := by
  cases hu : u.isLineTerminator with
  | false => rfl
  | true =>
    have hmem : u ∈ [lineFeed, carriageReturn, lineSeparator, paragraphSeparator] := by
      simpa [isLineTerminator, or_assoc] using hu
    have hnot := List.all_eq_true.mp hp u hmem
    rw [h] at hnot
    exact absurd hnot (by decide)

namespace Text

open CodePoint (endOfSource)

/-- Units that are looked through one by one. -/
theorem inLine_of_all {w : List CodeUnit} (h : w.all (! CodeUnit.isLineTerminator ·) = true) :
    ∀ u ∈ w, u.isLineTerminator = false := by
  intro u hu
  exact Bool.not_eq_eq_eq_not.mp (List.all_eq_true.mp h u hu)

/-- The unit that a text begins with, or what stands for the end. -/
def unitAt (text : List CodeUnit) : CodePoint := (text.head?.map UInt16.toNat).getD endOfSource

variable {text : List CodeUnit}

theorem unitAt_nil : unitAt [] = endOfSource := rfl

theorem unitAt_cons (u : CodeUnit) (rest : List CodeUnit) :
    unitAt (u :: rest) = u.toNat := rfl

theorem toNat_ne_endOfSource (u : CodeUnit) : u.toNat ≠ endOfSource := by
  have := u.toNat_lt
  show u.toNat ≠ 0x110000
  omega

theorem unitAt_eq_toNat_iff (u : CodeUnit) : unitAt text = u.toNat ↔ text.head? = some u := by
  cases text with
  | nil => simp [unitAt_nil, (toNat_ne_endOfSource u).symm]
  | cons v rest => simp [unitAt_cons, UInt16.toNat_inj]

theorem unitAt_beq_toNat (u : CodeUnit) :
    (unitAt text == u.toNat) = (text.head? == some u) := by
  rw [Bool.eq_iff_iff, beq_iff_eq, beq_iff_eq, unitAt_eq_toNat_iff]

theorem unitAt_beq_endOfSource : (unitAt text == endOfSource) = text.isEmpty := by
  cases text with
  | nil => rfl
  | cons u rest =>
    rw [unitAt_cons, List.isEmpty_cons, beq_eq_false_iff_ne]
    exact toNat_ne_endOfSource u

@[simp] theorem unit?_toNat (u : CodeUnit) : CodePoint.unit? u.toNat = some u := by
  rw [CodePoint.unit?, if_pos u.toNat_lt, UInt16.ofNat_toNat]

@[simp] theorem unit?_unitAt : (unitAt text).unit? = text.head? := by
  cases text with
  | nil => rfl
  | cons u rest => exact unit?_toNat u

@[simp] theorem isUnit_unitAt (p : CodeUnit → Bool) :
    (unitAt text).isUnit p = text.head?.any p := by
  rw [CodePoint.isUnit, unit?_unitAt]

@[simp] theorem digit?_unitAt (r : Radix) :
    (unitAt text).digit? r = (text.head?.bind r.digit?).map UInt32.ofNat := by
  rw [CodePoint.digit?, unit?_unitAt]

end Text

/-- A code point stands on one line, unless it ends one. -/
theorem Utf16.inLine_of_head? {text : List CodeUnit} {p : CodePoint} {width : Nat}
    (hp : head? text = some (p, width))
    (hline : text.head?.any CodeUnit.isLineTerminator = false) :
    ∀ u ∈ text.take width, u.isLineTerminator = false := by
  match text with
  | [] => simp [head?] at hp
  | [u] =>
    obtain ⟨-, rfl⟩ : u.toNat = p ∧ 1 = width := by simpa [head?] using hp
    simpa using hline
  | u :: v :: rest =>
    simp only [List.head?_cons, Option.any_some] at hline
    simp only [head?] at hp
    split at hp
    · next hpair =>
      obtain ⟨-, rfl⟩ : CodePoint.ofPair u v = p ∧ 2 = width := by simpa using hp
      rw [Bool.and_eq_true] at hpair
      have hv := CodeUnit.isLineTerminator_of_class hpair.2 (by decide)
      simp [hline, hv]
    · obtain ⟨-, rfl⟩ : u.toNat = p ∧ 1 = width := by simpa using hp
      simpa using hline

/-! ## A machine at a cursor -/

namespace Cursor

/-- Lines and columns have room in their words for all that is left to read, and a counter for the
number of its units. -/
structure Roomy (c : Cursor) : Prop where
  line : c.location.line + c.rest.length < UInt32.size
  column : c.location.column + c.rest.length < UInt32.size
  rest : c.rest.length < 1073741824

variable {c : Cursor}

theorem Roomy.advance (h : c.Roomy) (n : Nat) : (c.advance n).Roomy := by
  obtain ⟨hline, hcolumn, hrest⟩ := h
  -- a unit that is passed costs one line or one column at most
  have hlines := (c.location.line_after_le (c.rest.take n)).2
  have hcolumns := c.location.column_after_le (c.rest.take n)
  have htake : (c.rest.take n).length + (c.rest.drop n).length = c.rest.length := by
    rw [← List.length_append, List.take_append_drop]
  refine ⟨?_, ?_, ?_⟩
  · rw [location_advance, rest_advance]
    omega
  · rw [location_advance, rest_advance]
    omega
  · rw [rest_advance]
    omega

theorem Roomy.stepInLine (h : c.Roomy) : c.stepInLine.Roomy := by
  obtain ⟨hline, hcolumn, hrest⟩ := h
  rcases c.stepInLine_cases with ⟨-, hstep⟩ | ⟨u, rest, hcons, hstep⟩
  · rw [hstep]
    exact ⟨hline, hcolumn, hrest⟩
  · rw [hcons, List.length_cons] at hline hcolumn hrest
    rw [hstep]
    refine ⟨?_, ?_, ?_⟩
    · simp only [Location.step]
      omega
    · simp only [Location.step]
      omega
    · show rest.length < _
      omega

/-- Moving in steps. -/
theorem advance_advance {n : Nat} (h : CleanCut c.rest n) (k : Nat) :
    (c.advance n).advance k = c.advance (n + k) := by
  have hsplit : c.rest.take (n + k) = c.rest.take n ++ (c.rest.drop n).take k := List.take_add
  -- the cut between the two moves goes through no carriage return and line feed
  have hmeet : CleanCut (c.rest.take n ++ (c.rest.drop n).take k) (c.rest.take n).length := by
    have hlen : (c.rest.take n).length = n := by
      rw [List.length_take, Nat.min_eq_left h.le]
    have happend := (List.take_append_drop (n + k) c.rest).symm
    rw [hsplit] at happend
    rw [hlen]
    refine .append_left (b := c.rest.drop (n + k)) ?_ ?_
    · rw [← happend]
      exact h
    · rw [List.length_append, hlen]
      omega
  have hlocation : (c.location.after (c.rest.take n)).after ((c.rest.drop n).take k) =
      c.location.after (c.rest.take (n + k)) := by
    rw [hsplit, Location.after_append _ _ _ hmeet]
  show Cursor.mk _ _ = Cursor.mk _ _
  rw [rest_advance, location_advance, hlocation, List.drop_drop]

/-- Past a unit that ends no line. -/
theorem advance_one {u : CodeUnit} {rest : List CodeUnit} (h : c.rest = u :: rest)
    (hu : u.isLineTerminator = false) : c.advance 1 = ⟨c.location.step, rest⟩ := by
  show Cursor.mk (c.location.after (c.rest.take 1)) (c.rest.drop 1) = _
  rw [h, List.take_succ_cons, List.take_zero, List.drop_succ_cons, List.drop_zero]
  simp only [Location.after, hu, Bool.false_eq_true, if_false]

/-- A unit that ends no line, and what is behind it. -/
theorem advance_one_advance {u : CodeUnit} {rest : List CodeUnit} (h : c.rest = u :: rest)
    (hu : u.isLineTerminator = false) (n : Nat) : (c.advance 1).advance n = c.advance (n + 1) := by
  have hcut : CleanCut c.rest 1 := by
    rw [h]
    exact .one (CodeUnit.ne_return_of_not_isLineTerminator (by simp [hu]))
  rw [advance_advance hcut, Nat.add_comm]

theorem rest_advance_one {u : CodeUnit} {rest : List CodeUnit} (h : c.rest = u :: rest) :
    (c.advance 1).rest = rest := by
  rw [rest_advance, h, List.drop_succ_cons, List.drop_zero]

end Cursor

namespace Machine

open Text (unitAt)

/-- The machine with its cursor at `c`. -/
def atCursor (m : Machine) (c : Cursor) : Machine :=
  { m with
    index := c.location.offset
    line := .ofNat c.location.line
    column := .ofNat c.location.column
    current := unitAt c.rest }

/-- The machine with the start of its token at `c`. -/
def marked (m : Machine) (c : Cursor) : Machine :=
  { m with
    tokenStart := c.location.offset
    tokenLine := .ofNat c.location.line
    tokenColumn := .ofNat c.location.column }

/-- A cursor that the machine can be put at: a place of its source, with room for its words if these
are checked. -/
structure Admits (m : Machine) (c : Cursor) : Prop where
  place : c.IsPlaceOf m.source
  room : m.build = .checked → c.Roomy

variable {m : Machine} {c d : Cursor} {u : CodeUnit} {rest : List CodeUnit}

theorem Admits.advance (h : m.Admits c) (n : Nat) : m.Admits (c.advance n) :=
  ⟨h.place.advance n, fun hb => (h.room hb).advance n⟩

theorem Admits.stepInLine (h : m.Admits c) : m.Admits c.stepInLine :=
  ⟨h.place.stepInLine, fun hb => (h.room hb).stepInLine⟩

theorem Admits.note (h : m.Admits c) (flags : TokenFlags) : (m.note flags).Admits c :=
  ⟨h.place, h.room⟩

theorem Admits.marked (h : m.Admits c) (d : Cursor) : (m.marked d).Admits c := ⟨h.place, h.room⟩

/-! ### Fields -/

@[simp] theorem index_atCursor : (m.atCursor c).index = c.location.offset := rfl

@[simp] theorem current_atCursor : (m.atCursor c).current = unitAt c.rest := rfl

@[simp] theorem build_atCursor : (m.atCursor c).build = m.build := rfl

@[simp] theorem source_atCursor : (m.atCursor c).source = m.source := rfl

@[simp] theorem line_atCursor : (m.atCursor c).line = .ofNat c.location.line := rfl

@[simp] theorem column_atCursor : (m.atCursor c).column = .ofNat c.location.column := rfl

@[simp] theorem location_atCursor : (m.atCursor c).location = c.location.wrap := rfl

@[simp] theorem note_empty (m : Machine) : m.note ∅ = m := by
  show ({ m with flags := m.flags ∪ ∅ } : Machine) = m
  rw [TokenFlags.union_empty]

theorem note_note (m : Machine) (f g : TokenFlags) : (m.note f).note g = m.note (f ∪ g) := by
  show ({ m with flags := (m.flags.union f).union g } : Machine) =
    { m with flags := m.flags.union (f.union g) }
  simp only [TokenFlags.union, Bool.or_assoc]

theorem note_atCursor (m : Machine) (c : Cursor) (f : TokenFlags) :
    (m.atCursor c).note f = (m.note f).atCursor c := rfl

/-! ### Looking -/

@[simp] theorem is_atCursor (u : CodeUnit) : (m.atCursor c).is u = (c.rest.head? == some u) :=
  Text.unitAt_beq_toNat u

@[simp] theorem isAtEnd_atCursor : (m.atCursor c).isAtEnd = c.rest.isEmpty :=
  Text.unitAt_beq_endOfSource

section
variable (h : m.Admits c)
include h

theorem charAt_atCursor (k : Nat) :
    (m.atCursor c).charAt (c.location.offset + k) = unitAt (c.rest.drop k) := by
  rw [unitAt, List.head?_drop, h.place.rest_eq, List.getElem?_drop]
  rfl

theorem peek_atCursor : (m.atCursor c).peek = unitAt (c.rest.drop 1) := charAt_atCursor h 1

theorem peekIs_atCursor (k : Nat) (u : CodeUnit) :
    (m.atCursor c).peekIs k u = ((c.rest.drop k).head? == some u) := by
  rw [peekIs, index_atCursor, charAt_atCursor h, Text.unitAt_beq_toNat]

theorem length_eq : c.location.offset + c.rest.length = m.source.length := by
  have hle := h.place.offset_le
  rw [h.place.rest_eq, List.length_drop]
  omega

end

end Machine

/-! ## Moves -/

namespace Routine

open Machine Text

variable {ε : Type} {m : Machine} {c : Cursor} {u : CodeUnit} {rest : List CodeUnit}

/-- **One unit further**, which is taken for a unit of its line. -/
theorem advance_eq_stepInLine (h : m.Admits c) :
    (advance : Routine ε Unit).run (m.atCursor c) = some (.ok (), m.atCursor c.stepInLine) := by
  have hlength := Machine.length_eq h
  unfold advance
  rw [run_state_bind, run_ite]
  rcases c.stepInLine_cases with ⟨hrest, hstep⟩ | ⟨u, rest, hrest, hstep⟩
  · rw [hrest, List.length_nil] at hlength
    rw [if_neg (by simp only [index_atCursor, source_atCursor]; omega), hstep, run_pure]
  · have hroom : m.build = .checked → c.location.column + 1 < UInt32.size := by
      intro hb
      have hcolumn := (h.room hb).column
      rw [hrest, List.length_cons] at hcolumn
      omega
    have hadd : (m.atCursor c).build.add (m.atCursor c).column 1 =
        some (.ofNat (c.location.column + 1)) := m.build.add_ofNat hroom
    rw [hrest, List.length_cons] at hlength
    rw [if_pos (by simp only [index_atCursor, source_atCursor]; omega), hadd, run_require_bind,
      run_update, hstep]
    simp only [index_atCursor, charAt_atCursor h, hrest, List.drop_succ_cons, List.drop_zero]
    rfl

/-- One unit further, where it ends no line. -/
theorem advance_atCursor (h : m.Admits c) (hrest : c.rest = u :: rest)
    (hu : u.isLineTerminator = false) :
    (advance : Routine ε Unit).run (m.atCursor c) = some (.ok (), m.atCursor (c.advance 1)) := by
  rw [advance_eq_stepInLine h, Cursor.advance_one hrest hu, Cursor.stepInLine, hrest]

/-- Some units further, of which none ends a line. -/
theorem advanceBy_atCursor (h : m.Admits c) {n : Nat}
    (hline : ∀ u ∈ c.rest.take n, u.isLineTerminator = false) :
    (advanceBy n : Routine ε Unit).run (m.atCursor c) =
      some (.ok (), m.atCursor (c.advance n)) := by
  have hlength := Machine.length_eq h
  have htaken : (c.rest.take n).length = min n c.rest.length := List.length_take
  have htarget : min (c.location.offset + n) m.source.length =
      c.location.offset + (c.rest.take n).length := by
    omega
  have hroom : m.build = .checked →
      c.location.column + (c.rest.take n).length < UInt32.size := by
    intro hb
    have hcolumn := (h.room hb).column
    omega
  have hafter := Location.after_of_inLine hline c.location
  have hdrop : c.rest.drop (c.rest.take n).length = c.rest.drop n := by
    rw [htaken]
    rcases Nat.le_total n c.rest.length with hn | hn
    · rw [Nat.min_eq_left hn]
    · rw [Nat.min_eq_right hn, List.drop_length, List.drop_eq_nil_of_le hn]
  unfold advanceBy
  simp only [run_state_bind, index_atCursor, source_atCursor, build_atCursor, column_atCursor,
    htarget, minus?_of_le (Nat.le_add_right _ _), run_require_bind, Nat.add_sub_cancel_left,
    m.build.add_ofNat hroom, run_update, charAt_atCursor h]
  simp only [atCursor, Cursor.location_advance, Cursor.rest_advance, hafter, hdrop]

/-- **Onto the next line**, over one line terminator sequence. -/
theorem consumeLineTerminator_atCursor (h : m.Admits c) (hrest : c.rest = u :: rest)
    (hu : u.isLineTerminator = true) :
    (consumeLineTerminator : Routine ε Unit).run (m.atCursor c) =
      some (.ok (), m.atCursor (c.advance (Escape.lineTerminatorLength c.rest))) := by
  have hroom : m.build = .checked → c.location.line + 1 < UInt32.size := by
    intro hb
    have hline := (h.room hb).line
    rw [hrest, List.length_cons] at hline
    omega
  have hadd : m.build.add (.ofNat c.location.line) 1 = some (.ofNat (c.location.line + 1)) :=
    m.build.add_ofNat hroom
  unfold consumeLineTerminator
  simp only [run_state_bind, current_atCursor, peek_atCursor h, unitAt_beq_toNat, index_atCursor,
    build_atCursor, line_atCursor, hadd, run_require_bind, run_update, charAt_atCursor h]
  -- a carriage return with its line feed is one step of either kind
  cases rest with
  | nil => simp [hrest, Escape.lineTerminatorLength, atCursor, Cursor.advance, Location.after, hu,
      Location.newLine]
  | cons v rest =>
    by_cases hcrlf : u = CodeUnit.carriageReturn ∧ v = CodeUnit.lineFeed
    · obtain ⟨rfl, rfl⟩ := hcrlf
      simp [hrest, Escape.lineTerminatorLength, atCursor, Cursor.advance, Location.after,
        Location.newLine]
    · simp [hrest, Escape.lineTerminatorLength, atCursor, Cursor.advance, Location.after, hu,
        Location.newLine, hcrlf]

theorem eat_atCursor (h : m.Admits c) (hu : u.isLineTerminator = false) :
    (eat u : Routine ε Bool).run (m.atCursor c) =
      if c.rest.head? = some u then some (.ok true, m.atCursor (c.advance 1))
      else some (.ok false, m.atCursor c) := by
  unfold eat
  rw [run_state_bind, is_atCursor, run_ite]
  by_cases hhead : c.rest.head? = some u
  · obtain ⟨rest, hrest⟩ : ∃ rest, c.rest = u :: rest := List.head?_eq_some_iff.mp hhead
    rw [if_pos (beq_iff_eq.mpr hhead), if_pos hhead, run_bind_of_ok (advance_atCursor h hrest hu),
      run_pure]
  · rw [if_neg (by simpa using hhead), if_neg hhead, run_pure]

/-- **A run of units of one class**, in which no line ends. -/
theorem advanceWhile_atCursor {p : CodePoint → Bool} {q : CodeUnit → Bool} (h : m.Admits c)
    (hend : p CodePoint.endOfSource = false) (hunit : ∀ u : CodeUnit, p u.toNat = q u)
    (hline : ∀ u, q u = true → u.isLineTerminator = false) :
    (advanceWhile p : Routine ε Unit).run (m.atCursor c) =
      some (.ok (), m.atCursor (c.advance (c.rest.takeWhile q).length)) := by
  unfold advanceWhile
  -- one round takes the first unit of what is left; only at the end does the unit kept beside the
  -- index stand for no unit
  induction hrest : c.rest generalizing c with
  | nil =>
    apply run_loop_of_done
    rw [run_state_bind, current_atCursor, hrest, unitAt_nil, if_neg (by simp [hend]), run_pure]
    rfl
  | cons u rest ih =>
    cases hu : q u with
    | false =>
      apply run_loop_of_done
      rw [run_state_bind, current_atCursor, hrest, unitAt_cons, if_neg (by simp [hunit, hu]),
        run_pure, List.takeWhile_cons_of_neg (by simp [hu])]
      rfl
    | true =>
      have hbehind := Cursor.rest_advance_one hrest
      have hround : ((do
          let m ← state
          if p m.current then do
            advance
            return .again ()
          else return .done () : Routine ε (Step Unit Unit))).run (m.atCursor c) =
            some (.ok (.again ()), m.atCursor (c.advance 1)) := by
        rw [run_state_bind, current_atCursor, hrest, unitAt_cons, if_pos (by rw [hunit, hu]),
          run_bind_of_ok (advance_atCursor h hrest (hline u hu)), run_pure]
      rw [run_loop_of_again hround, ih (h.advance 1) hbehind, List.takeWhile_cons_of_pos hu,
        List.length_cons, Cursor.advance_one_advance hrest (hline u hu)]

/-- The code point at the cursor. At the end it is what stands for the end, and has no units. -/
theorem currentCodePoint_atCursor (h : m.Admits c) :
    (currentCodePoint : Routine ε (CodePoint × Nat)).run (m.atCursor c) =
      some (.ok ((Utf16.head? c.rest).getD (CodePoint.endOfSource, 0)), m.atCursor c) := by
  unfold currentCodePoint
  simp only [run_state_bind, run_ite, isAtEnd_atCursor, current_atCursor, peek_atCursor h,
    isUnit_unitAt, run_pure]
  match hrest : c.rest with
  | [] => rfl
  | [u] => simp [Utf16.head?, unitAt_cons]
  | u :: v :: rest =>
    simp only [List.isEmpty_cons, Bool.false_eq_true, if_false, List.head?_cons, Option.any_some,
      List.drop_succ_cons, List.drop_zero, unitAt_cons, Utf16.head?]
    by_cases hpair : (u.isLead && v.isTrail) = true
    · rw [Bool.and_eq_true] at hpair
      have hcombine : combineSurrogates? u.toNat v.toNat = some (CodePoint.ofPair u v) := by
        rw [combineSurrogates?, minus?_of_le (CodeUnit.isLead_iff.mp hpair.1).1,
          minus?_of_le (CodeUnit.isTrail_iff.mp hpair.2).1]
        rfl
      simp only [hpair.1, hpair.2, Bool.and_self, if_true, hcombine, run_require_bind, run_pure,
        Option.getD_some]
    · rw [if_neg hpair, if_neg hpair, Option.getD_some]

/-- The units between two indices of the source. -/
theorem run_slice {m : Machine} {i j : Nat} (h : i ≤ j ∧ j ≤ m.source.length) :
    (slice i j : Routine ε (List CodeUnit)).run m = some (.ok (m.source.extract i j), m) := by
  unfold slice
  rw [run_state_bind, if_pos h, run_require]

/-- The units between two places. -/
theorem sliceFrom_atCursor (h : m.Admits c) (start : Nat) (hstart : start ≤ c.location.offset) :
    (sliceFrom start : Routine ε (List CodeUnit)).run (m.atCursor c) =
      some (.ok (m.source.extract start c.location.offset), m.atCursor c) := by
  unfold sliceFrom
  rw [run_state_bind, index_atCursor]
  exact run_slice ⟨hstart, h.place.offset_le⟩

end Routine

/-! ## Carrying out what a reader says -/

namespace Outcome

variable {α β γ : Type}

theorem mapValue_shift (f : α → β) (n : Nat) (flags : TokenFlags) (o : Outcome α) :
    (o.shift n flags).mapValue f = (o.mapValue f).shift n flags := by
  cases o <;> rfl

theorem mapValue_mapValue (f : α → β) (g : β → γ) (o : Outcome α) :
    (o.mapValue f).mapValue g = o.mapValue (g ∘ f) := by
  cases o <;> rfl

end Outcome

namespace Reader

variable {α β : Type} {r : Reader α} {next : α → Reader β} {text : List CodeUnit}

theorem bind_of_ok {x : Reading α} (h : r text = .ok x) :
    (r >>= next) text = (next x.value (text.drop x.length)).shift x.length x.flags := by
  show r.andThen next text = _
  rw [andThen, h]

theorem bind_of_error {f : Fault} (h : r text = .error f) : (r >>= next) text = .error f := by
  show r.andThen next text = _
  rw [andThen, h]

/-- A reader that goes on to change the value. -/
theorem bind_pure_apply (r : Reader α) (f : α → β) (text : List CodeUnit) :
    (r >>= fun a => pure (f a)) text = (r text).mapValue f := by
  cases h : r text with
  | error e => rw [bind_of_error h, Outcome.mapValue]
  | ok x =>
    rw [bind_of_ok h]
    show (Outcome.shift x.length x.flags (.ok ⟨f x.value, 0, ∅⟩) : Outcome β) = _
    rw [Outcome.shift, TokenFlags.union_empty]
    rfl

end Reader

/-- The reason that an escape gives for its error. -/
def LexError.Cause.escapeError : LexError.Cause → EscapeError
  | .invalidEscape e => e
  | _ => .invalidUnicode

/-- Errors that tell of a fault at a location. -/
class Reports (ε : Type) where
  report : LexError.Cause → Location → ε

instance : Reports LexError := ⟨fun cause l => ⟨cause, l⟩⟩

instance : Reports EscapeError := ⟨fun cause _ => cause.escapeError⟩

namespace Machine

variable {ε α β : Type} [Reports ε] {m : Machine} {c : Cursor}

/-- What a reader's result means for a machine: its value, or the error it reports, and the machine
where reading stopped. `seek n` is the place `n` units further. -/
def carryOut (m : Machine) (seek : Nat → Cursor) : Outcome α → Option (Except ε α × Machine)
  | .ok x => some (.ok x.value, (m.note x.flags).atCursor (seek x.length))
  | .error f =>
    some (.error (Reports.report f.cause (seek f.place).location.wrap),
      (m.note f.flags).atCursor (seek f.stop))

theorem carryOut_ok (seek : Nat → Cursor) (a : α) (n : Nat) (flags : TokenFlags) :
    m.carryOut seek (.ok ⟨a, n, flags⟩) =
      some ((.ok a : Except ε α), (m.note flags).atCursor (seek n)) := rfl

/-- Where nothing is noted. -/
theorem carryOut_plain (seek : Nat → Cursor) (a : α) (n : Nat) :
    m.carryOut seek (.ok ⟨a, n, ∅⟩) = some ((.ok a : Except ε α), m.atCursor (seek n)) := by
  rw [carryOut_ok, note_empty]

theorem carryOut_error (seek : Nat → Cursor) (f : Fault) :
    m.carryOut seek (.error f : Outcome α) =
      some ((.error (Reports.report f.cause (seek f.place).location.wrap) : Except ε α),
        (m.note f.flags).atCursor (seek f.stop)) := rfl

theorem carryOut_failHere (cause : LexError.Cause) :
    m.carryOut c.advance (.failHere cause : Outcome α) =
      some ((.error (Reports.report cause c.location.wrap) : Except ε α), m.atCursor c) := by
  rw [Outcome.failHere, carryOut_error, note_empty]
  rfl

/-- What follows `n` units is carried out from there. -/
theorem carryOut_shift {n : Nat} (h : CleanCut c.rest n) (flags : TokenFlags) (o : Outcome α) :
    (m.carryOut c.advance (o.shift n flags) : Option (Except ε α × Machine)) =
      (m.note flags).carryOut (c.advance n).advance o := by
  cases o with
  | ok x =>
    simp only [Outcome.shift, carryOut, Cursor.advance_advance h, note_note]
  | error f =>
    simp only [Outcome.shift, carryOut, Cursor.advance_advance h, note_note]

/-- What follows a unit that ends no line. -/
theorem carryOut_shift_one {u : CodeUnit} {rest : List CodeUnit} (hrest : c.rest = u :: rest)
    (hu : u.isLineTerminator = false) (o : Outcome α) :
    (m.carryOut c.advance (o.shift 1 ∅) : Option (Except ε α × Machine)) =
      m.carryOut (c.advance 1).advance o := by
  have hcut : CleanCut c.rest 1 := by
    rw [hrest]
    exact .one (CodeUnit.ne_return_of_not_isLineTerminator (by simp [hu]))
  rw [carryOut_shift hcut, note_empty]

theorem carryOut_mapValue (seek : Nat → Cursor) (f : α → β) (o : Outcome α) :
    (m.carryOut seek (o.mapValue f) : Option (Except ε β × Machine)) =
      (m.carryOut seek o).map fun (x, m) => (x.map f, m) := by
  cases o <;> rfl

end Machine

namespace Routine

open Machine

variable {ε α β α' β' : Type} [Reports ε] {m m₀ : Machine} {c : Cursor}

/-- A routine that goes on to change the value. -/
theorem run_bind_pure {r : Routine ε α} {seek : Nat → Cursor} {o : Outcome α}
    (h : r.run m₀ = m.carryOut seek o) (f : α → β) :
    (r >>= fun a => pure (f a)).run m₀ = m.carryOut seek (o.mapValue f) := by
  rw [run_bind, h]
  cases o <;> rfl

/-- **Routines in sequence** carry out readers in sequence. The values that the routines work with
may be those of the readers in another form. -/
theorem run_bind_carryOut {r : Routine ε α'} {next : α' → Routine ε β'} {reader : Reader α}
    {nextReader : α → Reader β} (f : α → α') (g : β → β')
    (h : r.run m₀ = m.carryOut c.advance ((reader c.rest).mapValue f))
    (hclean : (reader c.rest).Clean c.rest)
    (hnext : ∀ x, reader c.rest = .ok x →
      (next (f x.value)).run ((m.note x.flags).atCursor (c.advance x.length)) =
        (m.note x.flags).carryOut (c.advance x.length).advance
          ((nextReader x.value (c.advance x.length).rest).mapValue g)) :
    (r >>= next).run m₀ = m.carryOut c.advance (((reader >>= nextReader) c.rest).mapValue g) := by
  show _ = m.carryOut c.advance ((reader.andThen nextReader c.rest).mapValue g)
  rw [run_bind, h]
  unfold Reader.andThen
  cases hx : reader c.rest with
  | error e => rfl
  | ok x =>
    rw [hx] at hclean
    rw [Outcome.mapValue_shift, carryOut_shift hclean, ← Cursor.rest_advance]
    exact hnext x hx

end Routine

end EcmaLex
