import EcmaLex.Machine.Numbers
import EcmaLex.Proofs.CursorSafety
import EcmaLex.Proofs.NumberValues
import EcmaLex.Proofs.Refinement.Literals
import EcmaLex.Proofs.StableReaders

/-!
# Numbers on machine words

The routine for digits goes over a run once, counts its digits and adds them up; the reader takes
the run first and looks for misplaced separators and for the value afterwards. `Numeric.digitsFrom`
stands between the two: it takes the digits one after the other, and knows those before it and
whether a separator was the last unit.
-/

namespace EcmaLex

open Text (CleanCut unitAt_cons digit?_unitAt isUnit_unitAt unit?_unitAt)

theorem Outcome.shift_shift_union {α : Type} (o : Outcome α) (n k : Nat) (f g : TokenFlags) :
    (o.shift n f).shift k g = o.shift (k + n) (g ∪ f) := by
  cases o <;> simp only [shift, Nat.add_assoc, TokenFlags.union_assoc]

theorem Reader.bind_assoc {α β γ : Type} (r : Reader α) (f : α → Reader β) (g : β → Reader γ) :
    ((r >>= f) >>= g) = (r >>= fun a => f a >>= g) := by
  funext text
  cases hr : r text with
  | error e => rw [bind_of_error hr, bind_of_error (bind_of_error hr)]
  | ok x =>
    rw [bind_of_ok hr]
    cases hf : f x.value (text.drop x.length) with
    | error e =>
      have hboth : (r >>= f) text = .error ⟨e.cause, x.length + e.place, x.length + e.stop,
          x.flags ∪ e.flags⟩ := by
        rw [bind_of_ok hr, hf, Outcome.shift]
      rw [bind_of_error hboth, bind_of_error hf, Outcome.shift]
    | ok y =>
      have hboth : (r >>= f) text =
          .ok ⟨y.value, x.length + y.length, x.flags ∪ y.flags⟩ := by
        rw [bind_of_ok hr, hf, Outcome.shift]
      rw [bind_of_ok hboth, bind_of_ok hf, Outcome.shift_shift_union, List.drop_drop]

/-! ## Digits one after the other -/

namespace Numeric

/-- The digits at the beginning of a text, behind the digits `ds` and perhaps a separator. -/
def digitsFrom (radix : Radix) (separators : Bool) (ds : List CodeUnit) (afterSeparator : Bool) :
    List CodeUnit → Outcome (List CodeUnit × Bool)
  | [] => .ok ⟨(ds, afterSeparator), 0, ∅⟩
  | u :: rest =>
    if radix.isDigit u then (digitsFrom radix separators (ds ++ [u]) false rest).shift 1 ∅
    else if separators && u == CodeUnit.underscore then
      if ds = [] then .failHere .invalidNumericSeparator
      else if afterSeparator then .failHere .doubleNumericSeparator
      else (digitsFrom radix separators ds true rest).shift 1 { numericSeparator := true }
    else .ok ⟨(ds, afterSeparator), 0, ∅⟩

/-- What a run holds behind a unit `b` of it: two adjacent separators, or digits up to its end. -/
def foundBehind (ds : List CodeUnit) (b : CodeUnit) (run : List CodeUnit) :
    Outcome (List CodeUnit × Bool) :=
  match doubled? (b :: run) with
  | some i => .error ⟨.doubleNumericSeparator, i, i, { numericSeparator := true }⟩
  | none => .ok ⟨(ds ++ dropSeparators run, (b :: run).getLast? == some CodeUnit.underscore),
      (b :: run).length, { numericSeparator := (b :: run).contains CodeUnit.underscore }⟩

variable {radix : Radix} {separators : Bool} {ds run : List CodeUnit} {b u : CodeUnit}

theorem flags_separator (x y : Bool) :
    ({ numericSeparator := x } ∪ { numericSeparator := y } : TokenFlags) =
      { numericSeparator := x || y } := rfl

theorem foundBehind_nil :
    foundBehind ds b [] = .ok ⟨(ds, b == CodeUnit.underscore), 1,
      { numericSeparator := b == CodeUnit.underscore }⟩ := by
  have hcontains : [b].contains CodeUnit.underscore = (b == CodeUnit.underscore) := by
    rw [List.contains_cons, List.contains_nil, Bool.or_false, BEq.comm]
  rw [foundBehind, doubled?, hcontains, dropSeparators, List.filter_nil, List.append_nil]
  · rfl
  · simp

theorem foundBehind_digit (hu : u ≠ CodeUnit.underscore) :
    foundBehind ds b (u :: run) = (foundBehind (ds ++ [u]) u run).shift 1
      { numericSeparator := b == CodeUnit.underscore } := by
  have hdrop : dropSeparators (u :: run) = u :: dropSeparators run := by simp [dropSeparators, hu]
  rw [foundBehind, foundBehind, doubled?, if_neg (fun h => hu h.2), hdrop]
  cases doubled? (u :: run) with
  | some i =>
    rw [Option.map_some, Outcome.shift, flags_separator, Bool.or_true, Nat.add_comm i]
  | none =>
    rw [Option.map_none, Outcome.shift, flags_separator, List.getLast?_cons_cons,
      List.contains_cons (a := b), BEq.comm (a := CodeUnit.underscore) (b := b),
      List.append_assoc, List.singleton_append, List.length_cons (a := b),
      Nat.add_comm (u :: run).length]

theorem foundBehind_separator (hb : b ≠ CodeUnit.underscore) :
    foundBehind ds b (CodeUnit.underscore :: run) =
      (foundBehind ds CodeUnit.underscore run).shift 1 ∅ := by
  have hdrop : dropSeparators (CodeUnit.underscore :: run) = dropSeparators run := by
    simp [dropSeparators]
  rw [foundBehind, foundBehind, doubled?, if_neg (fun h => hb h.1), hdrop]
  cases doubled? (CodeUnit.underscore :: run) with
  | some i => rw [Option.map_some, Outcome.shift, TokenFlags.empty_union, Nat.add_comm i]
  | none =>
    rw [Option.map_none, Outcome.shift, TokenFlags.empty_union, List.getLast?_cons_cons,
      List.contains_cons (a := b), beq_eq_false_iff_ne.mpr hb.symm, Bool.false_or,
      List.length_cons (a := b), Nat.add_comm (CodeUnit.underscore :: run).length]

/-- What is found behind the unit `b`, which is a digit or a separator. -/
theorem digitsFrom_eq (radix : Radix) (separators : Bool) (hds : ds ≠ []) (b : CodeUnit)
    (text : List CodeUnit) :
    (digitsFrom radix separators ds (b == CodeUnit.underscore) text).shift 1
        { numericSeparator := b == CodeUnit.underscore } =
      foundBehind ds b (text.takeWhile (inRun radix separators)) := by
  -- by induction on the text, with the last unit `b` for what the reader knows of it
  induction text generalizing ds b with
  | nil =>
    rw [digitsFrom, List.takeWhile_nil, foundBehind_nil, Outcome.shift, TokenFlags.union_empty]
    rfl
  | cons u rest ih =>
    rw [digitsFrom]
    by_cases hdigit : radix.isDigit u = true
    · have hne := ne_underscore_of_isDigit hdigit
      have hnext := ih (List.append_ne_nil_of_right_ne_nil ds (List.cons_ne_nil u [])) u
      rw [beq_eq_false_iff_ne.mpr hne] at hnext
      rw [if_pos hdigit, List.takeWhile_cons_of_pos (by simp [inRun, hdigit]),
        foundBehind_digit hne, ← hnext]
      rfl
    rw [if_neg hdigit]
    by_cases hseparator : (separators && u == CodeUnit.underscore) = true
    · obtain ⟨rfl, rfl⟩ : separators = true ∧ u = CodeUnit.underscore := by simpa using hseparator
      rw [if_pos hseparator, if_neg hds, List.takeWhile_cons_of_pos (by simp [inRun])]
      by_cases hb : b = CodeUnit.underscore
      · subst hb
        rfl
      · have hnext := ih hds CodeUnit.underscore
        rw [beq_eq_false_iff_ne.mpr hb, if_neg (by decide), foundBehind_separator hb, ← hnext]
        rfl
    · rw [if_neg hseparator, List.takeWhile_cons_of_neg (by simpa [inRun, hdigit] using hseparator),
        foundBehind_nil, Outcome.shift, TokenFlags.union_empty]
      rfl

/-- The end of a run, which must not be a separator. -/
def closeRun (o : Outcome (List CodeUnit × Bool)) : Outcome (List CodeUnit) :=
  match o with
  | .error f => .error f
  | .ok x =>
    if x.value.2 then .error ⟨.trailingNumericSeparator, x.length - 1, x.length, x.flags⟩
    else .ok ⟨x.value.1, x.length, x.flags⟩

/-- **A run of digits can be read unit by unit.** -/
theorem digits_eq (radix : Radix) (separators : Bool) (text : List CodeUnit) :
    digits radix separators text = closeRun (digitsFrom radix separators [] false text) := by
  cases text with
  | nil => rfl
  | cons u rest =>
    unfold digits
    dsimp only
    rw [digitsFrom]
    by_cases hdigit : radix.isDigit u = true
    · have hne := ne_underscore_of_isDigit hdigit
      have hfound := digitsFrom_eq radix separators (List.cons_ne_nil u []) u rest
      have hdrop (run : List CodeUnit) : dropSeparators (u :: run) = u :: dropSeparators run := by
        simp [dropSeparators, hne]
      rw [beq_eq_false_iff_ne.mpr hne] at hfound
      rw [if_pos hdigit, List.nil_append, List.takeWhile_cons_of_pos (by simp [inRun, hdigit])]
      -- the first unit is a digit, so what was found behind it is the whole run
      refine Eq.trans ?_ (congrArg closeRun hfound.symm)
      rw [foundBehind, separatorFault?, if_neg (by simpa using hne), hdrop]
      cases doubled? (u :: rest.takeWhile (inRun radix separators)) with
      | some i => rfl
      | none =>
        simp only [closeRun, beq_iff_eq]
        by_cases hlast :
            (u :: rest.takeWhile (inRun radix separators)).getLast? = some CodeUnit.underscore
        · have hmem := List.contains_iff_mem.mpr (List.mem_of_getLast? hlast)
          simp only [if_pos hlast, hmem]
        · simp only [if_neg hlast]
          rfl
    rw [if_neg hdigit]
    by_cases hseparator : (separators && u == CodeUnit.underscore) = true
    · obtain ⟨rfl, rfl⟩ : separators = true ∧ u = CodeUnit.underscore := by simpa using hseparator
      rw [if_pos hseparator, if_pos rfl, List.takeWhile_cons_of_pos (by simp [inRun]),
        separatorFault?, if_pos (by simp)]
      rfl
    · rw [if_neg hseparator, List.takeWhile_cons_of_neg (by simpa [inRun, hdigit] using hseparator)]
      rfl

/-- A run that ends with a separator has one as its last unit. -/
theorem exists_of_afterSeparator {after : Bool} {text : List CodeUnit}
    {x : Reading (List CodeUnit × Bool)} (h : digitsFrom radix separators ds after text = .ok x)
    (hlast : x.value.2 = true) :
    x.length = 0 ∧ after = true ∨
      ∃ n, x.length = n + 1 ∧ text[n]? = some CodeUnit.underscore := by
  have hbehind {y : Reading (List CodeUnit × Bool)} {after : Bool} {v : CodeUnit}
      {rest : List CodeUnit} (hafter : after = true → v = CodeUnit.underscore)
      (hy : y.length = 0 ∧ after = true ∨
        ∃ n, y.length = n + 1 ∧ rest[n]? = some CodeUnit.underscore) :
      ∃ n, 1 + y.length = n + 1 ∧ (v :: rest)[n]? = some CodeUnit.underscore := by
    rcases hy with ⟨hzero, hsep⟩ | ⟨n, hn, hunit⟩
    · exact ⟨0, by omega, by rw [List.getElem?_cons_zero, hafter hsep]⟩
    · exact ⟨n + 1, by omega, by rwa [List.getElem?_cons_succ]⟩
  induction text generalizing ds after x with
  | nil =>
    obtain rfl := Except.ok.inj h
    exact .inl ⟨rfl, hlast⟩
  | cons u rest ih =>
    rw [digitsFrom] at h
    split at h
    · obtain ⟨y, hy, rfl⟩ := Outcome.shift_eq_ok_iff.mp h
      exact .inr (hbehind (fun hafter => absurd hafter (by decide)) (ih hy hlast))
    split at h
    · next hsep =>
      have hu : u = CodeUnit.underscore := by
        rw [Bool.and_eq_true, beq_iff_eq] at hsep
        exact hsep.2
      split at h
      · exact absurd h Outcome.failHere_ne_ok
      split at h
      · exact absurd h Outcome.failHere_ne_ok
      · obtain ⟨y, hy, rfl⟩ := Outcome.shift_eq_ok_iff.mp h
        exact .inr (hbehind (fun _ => hu) (ih hy hlast))
    · obtain rfl := Except.ok.inj h
      exact .inl ⟨rfl, hlast⟩

end Numeric

/-! ## Runs of digits -/

/-- The words of a checked sum hold what is one less. -/
theorem Build.sub_one_ofNat (b : Build) {n : Nat} (h : b = .checked → n + 1 < UInt32.size) :
    b.sub (UInt32.ofNat (n + 1)) 1 = some (UInt32.ofNat n) := by
  have hsub : UInt32.ofNat (n + 1) - 1 = UInt32.ofNat n := by
    rw [UInt32.ofNat_add]
    exact UInt32.add_sub_cancel _ _
  cases b with
  | wrapping => exact congrArg some hsub
  | checked =>
    have hle : (1 : UInt32).toNat ≤ (UInt32.ofNat (n + 1)).toNat := by
      rw [UInt32.toNat_ofNat_of_lt' (h rfl)]
      exact Nat.le_add_left 1 n
    simp only [sub, settle, decide_eq_true hle, if_true, hsub]

namespace Routine

open Machine Numeric

variable {m : Machine} {c : Cursor} {u : CodeUnit} {rest : List CodeUnit}

namespace DigitRun

/-- What is known of digits that have been passed. -/
def of (radix : Radix) (ds : List CodeUnit) : DigitRun := ⟨ds.length, radix.accumulate ds⟩

theorem push_of {radix : Radix} (ds : List CodeUnit) {u : CodeUnit} {d : Nat}
    (h : radix.digit? u = some d) : (of radix ds).push radix.base d = of radix (ds ++ [u]) := by
  rw [of, push, of, Radix.accumulate_concat, h, List.length_append]
  rfl

end DigitRun

/-- The state of the loop behind digits. -/
def DigitsSoFar.of (radix : Radix) (x : List CodeUnit × Bool) : DigitsSoFar :=
  ⟨DigitRun.of radix x.1, x.2⟩

/-- No digit ends a line. -/
theorem inLine_of_isDigit {radix : Radix} (hu : radix.isDigit u = true) :
    u.isLineTerminator = false :=
  CodeUnit.isLineTerminator_of_class hu (by cases radix <;> decide)

theorem toNat_digit {radix : Radix} {d : Nat} (h : radix.digit? u = some d) :
    (UInt32.ofNat d).toNat = d := by
  have hlt : d < radix.base := by
    have hsome := Option.filter_eq_some_iff.mp h
    exact of_decide_eq_true hsome.2
  have hbase : radix.base ≤ 16 := by cases radix <;> decide
  exact UInt32.toNat_ofNat_of_lt' (hlt.trans_le (hbase.trans (by decide)))

section
variable {separators : Bool} {radix : Radix} (s : DigitsSoFar)

theorem digitStep_digit (separators : Bool) (h : m.Admits c) (hrest : c.rest = u :: rest) {d : Nat}
    (hu : radix.digit? u = some d) :
    (digitStep separators radix s).run (m.atCursor c) =
      some (.ok (.again ⟨s.run.push radix.base d, false⟩), m.atCursor (c.advance 1)) := by
  have hdigit : radix.isDigit u = true := by rw [Radix.isDigit, hu, Option.isSome_some]
  have hadvance := advance_atCursor (ε := LexError) h hrest (inLine_of_isDigit hdigit)
  unfold digitStep
  simp only [run_state_bind, current_atCursor, digit?_unitAt, hrest, List.head?_cons,
    Option.bind_some, hu, Option.map_some, run_bind_of_ok hadvance, run_pure, toNat_digit hu]

theorem digitStep_separator (radix : Radix) (h : m.Admits c)
    (hrest : c.rest = CodeUnit.underscore :: rest) :
    (digitStep true radix s).run (m.atCursor c) =
      if s.run.count = 0 then
        some (.error ⟨.invalidNumericSeparator, c.location.wrap⟩, m.atCursor c)
      else if s.afterSeparator then
        some (.error ⟨.doubleNumericSeparator, c.location.wrap⟩, m.atCursor c)
      else some (.ok (.again { s with afterSeparator := true }),
        (m.note { numericSeparator := true }).atCursor (c.advance 1)) := by
  have hnot : radix.digit? CodeUnit.underscore = none := by cases radix <;> decide
  have hadvance := advance_atCursor (ε := LexError)
    (h.note { numericSeparator := true }) hrest (by decide)
  unfold digitStep
  simp only [run_state_bind, current_atCursor, digit?_unitAt, hrest, List.head?_cons,
    Option.bind_some, hnot, Option.map_none, is_atCursor, beq_self_eq_true, Bool.and_self, if_true,
    run_ite, run_failHere, location_atCursor, run_update_bind, note_atCursor,
    run_bind_of_ok hadvance, run_pure]

theorem digitStep_stop (hdigit : c.rest.head?.any radix.isDigit = false)
    (hseparator : (separators && c.rest.head? == some CodeUnit.underscore) = false) :
    (digitStep separators radix s).run (m.atCursor c) = some (.ok (.done s), m.atCursor c) := by
  have hnone : c.rest.head?.bind radix.digit? = none := by
    cases hhead : c.rest.head? with
    | none => rfl
    | some u => simpa [hhead, Radix.isDigit] using hdigit
  unfold digitStep
  simp only [run_state_bind, current_atCursor, digit?_unitAt, hnone, Option.map_none, is_atCursor,
    hseparator, Bool.false_eq_true, if_false, run_pure]

end

/-- **The loop over digits.** -/
theorem digitLoop_atCursor (separators : Bool) (radix : Radix) (h : m.Admits c)
    (ds : List CodeUnit) (after : Bool) :
    (loop (digitStep separators radix) (.of radix (ds, after))).run (m.atCursor c) =
      m.carryOut c.advance
        ((digitsFrom radix separators ds after c.rest).mapValue (.of radix)) := by
  have hdone {m : Machine} {c : Cursor} {x : List CodeUnit × Bool}
      (hround : (digitStep separators radix (.of radix x)).run (m.atCursor c) =
        some (.ok (.done (.of radix x)), m.atCursor c)) :
      (loop (digitStep separators radix) (.of radix x)).run (m.atCursor c) =
        m.carryOut c.advance ((.ok ⟨.of radix x, 0, ∅⟩ : Outcome DigitsSoFar)) := by
    rw [run_loop_of_done hround, carryOut_ok, note_empty]
    rfl
  -- the run so far is what the digits `ds` come to
  generalize hrest : c.rest = text
  induction text generalizing m c ds after with
  | nil => exact hdone (digitStep_stop _ (by rw [hrest]; rfl) (by rw [hrest]; simp))
  | cons u rest ih =>
    have hbehind := Cursor.rest_advance_one hrest
    rw [digitsFrom]
    by_cases hdigit : radix.isDigit u = true
    · obtain ⟨d, hd⟩ := Option.isSome_iff_exists.mp hdigit
      have hround := digitStep_digit (.of radix (ds, after)) separators h hrest hd
      have hpush : (⟨(DigitRun.of radix ds).push radix.base d, false⟩ : DigitsSoFar) =
          .of radix (ds ++ [u], false) := by
        rw [DigitRun.push_of ds hd, DigitsSoFar.of]
      rw [if_pos hdigit, Outcome.mapValue_shift, run_loop_of_again (hpush ▸ hround),
        carryOut_shift_one hrest (inLine_of_isDigit hdigit)]
      exact ih (h.advance 1) _ _ hbehind
    rw [if_neg hdigit]
    by_cases hseparator : (separators && u == CodeUnit.underscore) = true
    · obtain ⟨rfl, rfl⟩ : separators = true ∧ u = CodeUnit.underscore := by simpa using hseparator
      have hround := digitStep_separator (.of radix (ds, after)) radix h hrest
      have hcut : CleanCut c.rest 1 := by
        rw [hrest]
        exact .one (by decide)
      rw [if_pos hseparator]
      cases ds with
      | nil => exact (run_loop_of_error hround).trans (carryOut_failHere (α := DigitsSoFar) _).symm
      | cons d ds =>
        rw [if_neg (by simp)]
        cases after with
        | true =>
          exact (run_loop_of_error hround).trans (carryOut_failHere (α := DigitsSoFar) _).symm
        | false =>
          rw [if_neg (by decide), Outcome.mapValue_shift, run_loop_of_again hround,
            carryOut_shift hcut]
          exact ih ((h.note _).advance 1) (d :: ds) true hbehind
    · rw [if_neg hseparator]
      refine hdone (digitStep_stop _ ?_ ?_)
      · rw [hrest, List.head?_cons, Option.any_some, Bool.eq_false_iff]
        exact hdigit
      · rw [hrest, List.head?_cons, Option.some_beq_some, Bool.eq_false_iff]
        exact hseparator

/-- **Digits**, with their separators. -/
theorem digits_atCursor (separators : Bool) (radix : Radix) (h : m.Admits c) :
    (digits separators radix).run (m.atCursor c) =
      m.carryOut c.advance ((Numeric.digits radix separators c.rest).mapValue (.of radix)) := by
  have hloop := digitLoop_atCursor separators radix h [] false
  rw [digits_eq]
  unfold digits
  cases hrun : digitsFrom radix separators [] false c.rest with
  | error f =>
    rw [hrun] at hloop
    exact run_bind_of_error hloop
  | ok x =>
    rw [hrun] at hloop
    apply (run_bind_of_ok hloop).trans
    cases hlast : x.value.2 with
    | false => simp [DigitsSoFar.of, closeRun, hlast, carryOut, Outcome.mapValue]
    | true =>
      obtain ⟨-, hafter⟩ | ⟨n, hn, hunit⟩ := exists_of_afterSeparator hrun hlast
      · exact absurd hafter (by decide)
      -- the cursor is behind a separator, so there is a column to go back to
      have hlocation := Cursor.location_advance_succ hunit (by decide)
      have hcolumn : m.build = .checked →
          (c.advance n).location.column + 1 < UInt32.size := by
        intro hb
        have hroom := ((h.advance (n + 1)).room hb).column
        rw [hlocation] at hroom
        exact Nat.lt_of_le_of_lt (Nat.le_add_right _ _) hroom
      have hsub : (m.note x.flags).build.sub (.ofNat (c.advance (n + 1)).location.column) 1 =
          some (.ofNat (c.advance n).location.column) := by
        rw [hlocation]
        exact m.build.sub_one_ofNat hcolumn
      simp only [DigitsSoFar.of, closeRun, hlast, if_true, Outcome.mapValue, carryOut, hn,
        run_state_bind, build_atCursor, column_atCursor]
      have hoffset : minus? ((m.note x.flags).atCursor (c.advance (n + 1))).index 1 =
          some (c.advance n).location.offset := by
        rw [index_atCursor, hlocation]
        exact minus?_of_le (Nat.le_add_left 1 _)
      rw [hsub, run_require_bind, hoffset, run_require_bind, run_failAt, line_atCursor, hlocation,
        Nat.add_sub_cancel]
      rfl

/-! ## Parts of literals -/

/-- The circumstances of numbers in a context. -/
def modeOf (ctx : Context) : Numeric.Mode := ⟨ctx.isStrict, ctx.next⟩

theorem hasSuffix_atCursor (ctx : Context) :
    hasSuffix ctx (m.atCursor c) = Numeric.hasSuffix (modeOf ctx) c.rest := by
  rw [hasSuffix, is_atCursor, Bool.and_comm]
  rfl

theorem isUnit_isDecimalDigit (p : CodePoint) :
    p.isUnit CodeUnit.isDecimalDigit = (decide (0x30 ≤ p) && decide (p ≤ 0x39)) := by
  rw [CodePoint.isUnit, CodePoint.unit?]
  split
  · next hlt =>
    have hvalue : (UInt16.ofNat p).toNat = p := UInt16.toNat_ofNat_of_lt' hlt
    simp only [Option.any_some, CodeUnit.isDecimalDigit, UInt16.le_iff_toNat_le, hvalue,
      UInt16.reduceToNat]
  · next hge =>
    have hfar : 0x10000 ≤ p := Nat.le_of_not_lt hge
    have hnot : ¬p ≤ 0x39 := fun hle => absurd (Nat.le_trans hfar hle) (by decide)
    rw [Option.any_none, decide_eq_false hnot, Bool.and_false]

/-- **The end of a literal.** -/
theorem checkNumericEnd_atCursor (h : m.Admits c) :
    checkNumericEnd.run (m.atCursor c) = m.carryOut c.advance (checkEnd c.rest) := by
  have hcodePoint := currentCodePoint_atCursor (ε := LexError) h
  have hdone : m.carryOut c.advance (.ok ⟨(), 0, ∅⟩) =
      some ((.ok () : Except LexError Unit), m.atCursor c) := by
    rw [carryOut_ok, note_empty]
    rfl
  unfold checkNumericEnd
  rw [run_bind_of_ok hcodePoint, run_ite, isUnit_isDecimalDigit]
  unfold checkEnd
  cases hhead : Utf16.head? c.rest with
  | none =>
    have hstart : CodePoint.isIdentifierStart CodePoint.endOfSource = false :=
      (CodePoint.not_identifier_of_max_lt (by decide)).1
    rw [Option.getD_none, hstart, if_neg (by decide), run_pure, hdone]
  | some x =>
    obtain ⟨p, width⟩ := x
    rw [Option.getD_some]
    dsimp only
    rw [apply_ite (m.carryOut c.advance), carryOut_failHere, hdone, run_failHere, run_pure,
      location_atCursor]
    rfl

/-- **An optional fraction.** -/
theorem fraction_atCursor (ctx : Context) (h : m.Admits c) :
    (fraction ctx).run (m.atCursor c) =
      m.carryOut c.advance ((Numeric.fraction (modeOf ctx) c.rest).mapValue
        fun _ => c.rest.head? == some CodeUnit.period) := by
  have heat := eat_atCursor (ε := LexError) h (u := CodeUnit.period) (by decide)
  unfold fraction Numeric.fraction
  by_cases hhead : c.rest.head? = some CodeUnit.period
  · obtain ⟨rest, hrest⟩ : ∃ rest, c.rest = CodeUnit.period :: rest :=
      List.head?_eq_some_iff.mp hhead
    have hdigits := run_bind_pure (digits_atCursor ctx.next .decimal (h.advance 1))
      fun _ => true
    rw [if_pos hhead] at heat
    rw [if_pos hhead, run_bind_of_ok heat, if_pos rfl, hdigits, Outcome.mapValue_mapValue,
      Outcome.mapValue_mapValue, Outcome.mapValue_shift, carryOut_shift_one hrest (by decide),
      Cursor.rest_advance, hhead]
    rfl
  · rw [if_neg hhead] at heat
    rw [if_neg hhead, run_bind_of_ok heat, if_neg (by decide), run_pure, Outcome.mapValue,
      carryOut_ok, note_empty, beq_eq_false_iff_ne.mpr hhead]
    rfl

/-- The digits of an exponent. -/
theorem exponentDigits_atCursor (ctx : Context) (h : m.Admits c) :
    (digits ctx.next .decimal >>= fun run =>
        if run.count = 0 then failHere .missingExponent else pure true).run (m.atCursor c) =
      m.carryOut c.advance ((exponentDigits (modeOf ctx) c.rest).mapValue fun _ => true) := by
  refine run_bind_carryOut (DigitRun.of .decimal) (fun _ => true)
    (digits_atCursor ctx.next .decimal h) (clean_digits .decimal ctx.next c.rest) ?_
  intro x _
  cases hvalue : x.value with
  | nil =>
    refine Eq.trans ?_ (carryOut_failHere (α := Bool) _).symm
    exact (run_failHere ..)
  | cons u ds =>
    refine Eq.trans ?_ (carryOut_ok (c.advance x.length).advance true 0 ∅).symm
    rw [note_empty]
    rfl

theorem exponent_of_not_mark (ctx : Context) (hmark : c.rest.head?.any isExponentMark = false) :
    (exponent ctx).run (m.atCursor c) =
      m.carryOut c.advance ((Numeric.exponent (modeOf ctx) c.rest).mapValue fun _ => false) := by
  unfold exponent
  rw [run_state_bind, current_atCursor, isUnit_unitAt, hmark, exponent_absent hmark]
  refine Eq.trans ?_ (carryOut_ok c.advance false 0 ∅).symm
  rw [note_empty]
  rfl

/-- **An optional exponent.** -/
theorem exponent_atCursor (ctx : Context) (h : m.Admits c) :
    (exponent ctx).run (m.atCursor c) =
      m.carryOut c.advance ((Numeric.exponent (modeOf ctx) c.rest).mapValue
        fun _ => c.rest.head?.any isExponentMark) := by
  cases hmark : c.rest.head?.any isExponentMark with
  | false => exact exponent_of_not_mark ctx hmark
  | true =>
    obtain ⟨u, rest, hrest, hu⟩ := exists_cons_of_any_head? hmark
    have hbehind := Cursor.rest_advance_one hrest
    have hline := CodeUnit.isLineTerminator_of_class hu (by decide)
    have hadvance := advance_atCursor (ε := LexError) h hrest hline
    unfold exponent
    rw [run_state_bind, current_atCursor, isUnit_unitAt, hmark, if_neg (by decide),
      run_bind_of_ok hadvance, run_state_bind, current_atCursor, isUnit_unitAt, hbehind]
    cases hsign : rest.head?.any isSign with
    | false =>
      have hdigits := exponentDigits_atCursor ctx (h.advance 1)
      have hread : Numeric.exponent (modeOf ctx) c.rest =
          (exponentDigits (modeOf ctx) rest).shift 1 ∅ := by
        rw [hrest]
        exact (exponent_unsigned hu hsign).trans (Outcome.mapValue_id _)
      rw [hbehind] at hdigits
      rw [if_neg (by decide), hread, Outcome.mapValue_shift, carryOut_shift_one hrest hline]
      exact hdigits
    | true =>
      obtain ⟨v, text, rfl, hv⟩ := exists_cons_of_any_head? hsign
      have hline' := CodeUnit.isLineTerminator_of_class hv (by decide)
      have hadvance' := advance_atCursor (ε := LexError) (h.advance 1) hbehind hline'
      have hdigits := exponentDigits_atCursor ctx ((h.advance 1).advance 1)
      have hread : Numeric.exponent (modeOf ctx) c.rest =
          ((exponentDigits (modeOf ctx) text).shift 1 ∅).shift 1 ∅ := by
        rw [hrest, Outcome.shift_shift]
        exact (exponent_signed hu hv).trans (Outcome.mapValue_id _)
      rw [Cursor.rest_advance_one hbehind] at hdigits
      rw [if_pos rfl, hread, Outcome.mapValue_shift, Outcome.mapValue_shift,
        carryOut_shift_one hrest hline, carryOut_shift_one hbehind hline']
      exact (run_bind_of_ok hadvance').trans hdigits

/-! ## Whole literals -/

/-- A form that has been read, as a token. -/
def interpreted (text : List CodeUnit) : Outcome Form → Outcome Lexeme
  | .error f => .error f
  | .ok x =>
    match x.value.interpret (text.take x.length) with
    | .ok b => .ok ⟨b, x.length, x.flags⟩
    | .error cause => .error ⟨cause, 0, x.length, x.flags⟩

theorem read_eq_interpreted (mode : Mode) (text : List CodeUnit) :
    Numeric.read mode text = interpreted text (form mode text) := by
  unfold Numeric.read Reader.interpret
  cases form mode text with
  | error f => rfl
  | ok x =>
    simp only [interpreted]
    cases x.value.interpret (text.take x.length) <;> rfl

/-- In a literal that begins at `b`, behind `k` units of it and with the facts `flags`, the routine
`r` does what is left for the reader to do. -/
def Finishes (m : Machine) (b : Cursor) (k : Nat) (flags : TokenFlags)
    (r : Routine LexError Lexeme) (reader : Reader Form) : Prop :=
  r.run ((m.note flags).atCursor (b.advance k)) =
    m.carryOut b.advance (interpreted b.rest ((reader (b.rest.drop k)).shift k flags))

section
variable {α α' : Type} {b : Cursor} {k : Nat} {flags : TokenFlags} {reader : Reader Form}
  {r : Routine LexError Lexeme}

/-- **The next part of a literal.** -/
theorem Finishes.bind {part : Routine LexError α'} {next : α' → Routine LexError Lexeme}
    {partReader : Reader α} {nextReader : α → Reader Form} (f : α → α')
    (hcut : CleanCut b.rest k)
    (h : part.run ((m.note flags).atCursor (b.advance k)) =
      (m.note flags).carryOut (b.advance k).advance ((partReader (b.rest.drop k)).mapValue f))
    (hclean : (partReader (b.rest.drop k)).Clean (b.rest.drop k))
    (hnext : ∀ x, partReader (b.rest.drop k) = .ok x → CleanCut b.rest (k + x.length) →
      Finishes m b (k + x.length) (flags ∪ x.flags) (next (f x.value)) (nextReader x.value)) :
    Finishes m b k flags (part >>= next) (partReader >>= nextReader) := by
  unfold Finishes
  cases hpart : partReader (b.rest.drop k) with
  | error e =>
    rw [hpart] at h
    rw [Reader.bind_of_error hpart]
    exact (run_bind_of_error h).trans (carryOut_shift (α := Lexeme) hcut flags (.error e)).symm
  | ok x =>
    rw [hpart] at h hclean
    have hcut' : CleanCut b.rest (k + x.length) := hcut.add hclean
    have hfinishes := hnext x hpart hcut'
    have hplace : (b.advance k).advance x.length = b.advance (k + x.length) :=
      Cursor.advance_advance hcut x.length
    have hok : part.run ((m.note flags).atCursor (b.advance k)) =
        some (.ok (f x.value), (m.note (flags ∪ x.flags)).atCursor (b.advance (k + x.length))) := by
      rw [h, ← hplace, ← note_note]
      rfl
    have hread : ((partReader >>= nextReader) (b.rest.drop k)).shift k flags =
        (nextReader x.value (b.rest.drop (k + x.length))).shift (k + x.length)
          (flags ∪ x.flags) := by
      rw [Reader.bind_of_ok hpart, List.drop_drop]
      exact Outcome.shift_shift_union ..
    rw [run_bind_of_ok hok, hread]
    exact hfinishes

theorem Finishes.congr {other : Reader Form}
    (hother : other (b.rest.drop k) = reader (b.rest.drop k))
    (h : Finishes m b k flags r other) : Finishes m b k flags r reader := by
  unfold Finishes at h ⊢
  rwa [hother] at h

/-- What only looks. -/
theorem Finishes.look {part : Routine LexError α'} {next : α' → Routine LexError Lexeme} {a : α'}
    (h : part.run ((m.note flags).atCursor (b.advance k)) =
      some (.ok a, (m.note flags).atCursor (b.advance k)))
    (hnext : Finishes m b k flags (next a) reader) :
    Finishes m b k flags (part >>= next) reader := by
  unfold Finishes
  rw [run_bind_of_ok h]
  exact hnext

theorem Finishes.fail (cause : LexError.Cause) :
    Finishes m b k flags (failHere cause) (Reader.fail cause) := by
  unfold Finishes
  rw [run_failHere, location_atCursor]
  show _ = m.carryOut b.advance (.error ⟨cause, k + 0, k + 0, flags ∪ ∅⟩)
  rw [TokenFlags.union_empty]
  rfl

/-- The end of a literal, whose value is that of its text. -/
theorem Finishes.done {form : Form} {a : Lexeme} (h : form.interpret (b.rest.take k) = .ok a) :
    Finishes m b k flags (pure a) (pure form) := by
  unfold Finishes
  have hread : interpreted b.rest ((Reader.done form (b.rest.drop k)).shift k flags) =
      .ok ⟨a, k, flags⟩ := by
    rw [Reader.done, Outcome.shift, TokenFlags.union_empty, interpreted]
    simp only [Nat.add_zero, h]
  refine Eq.trans ?_ (congrArg (m.carryOut b.advance) hread).symm
  rfl

/-- A literal whose text has no value. -/
theorem Finishes.refuse {part : Routine LexError α'} {next : α' → Routine LexError Lexeme}
    {form : Form} {cause : LexError.Cause} (hstart : m.tokenLocation = b.location.wrap)
    (hpart : part.run ((m.note flags).atCursor (b.advance k)) =
      some (.error ⟨cause, m.tokenLocation⟩, (m.note flags).atCursor (b.advance k)))
    (h : form.interpret (b.rest.take k) = .error cause) :
    Finishes m b k flags (part >>= next) (pure form) := by
  unfold Finishes
  have hread : interpreted b.rest ((Reader.done form (b.rest.drop k)).shift k flags) =
      .error ⟨cause, 0, k, flags⟩ := by
    rw [Reader.done, Outcome.shift, TokenFlags.union_empty, interpreted]
    simp only [Nat.add_zero, h]
  refine Eq.trans ?_ (congrArg (m.carryOut b.advance) hread).symm
  rw [run_bind_of_error hpart, carryOut_error]
  exact congrArg (fun l => some (Except.error (⟨cause, l⟩ : LexError), _)) hstart

theorem Finishes.checkEnd {next : Routine LexError Lexeme} (h : m.Admits b)
    (hcut : CleanCut b.rest k) (hnext : Finishes m b k flags next reader) :
    Finishes m b k flags (checkNumericEnd >>= fun _ => next)
      (Numeric.checkEnd >>= fun _ => reader) := by
  refine Finishes.bind id hcut ?_ (clean_checkEnd _) ?_
  · rw [Outcome.mapValue_id, ← Cursor.rest_advance]
    exact checkNumericEnd_atCursor ((h.note _).advance _)
  · intro x hx _
    obtain rfl := eq_of_checkEnd hx
    rwa [TokenFlags.union_empty]

/-- The end of a number that is no BigInt. -/
theorem Finishes.numberEnd (ctx : Context) {next : Routine LexError Lexeme} (h : m.Admits b)
    (hcut : CleanCut b.rest k) (hnext : Finishes m b k flags next reader) :
    Finishes m b k flags
      (state >>= fun stopped =>
        if hasSuffix ctx stopped then failHere .invalidBigInt
        else checkNumericEnd >>= fun _ => next)
      (Numeric.numberEnd (modeOf ctx) >>= fun _ => reader) := by
  have hsuffix := hasSuffix_atCursor (m := m.note flags) (c := b.advance k) ctx
  rw [Cursor.rest_advance] at hsuffix
  apply Finishes.look rfl
  rw [hsuffix]
  have hend : Numeric.numberEnd (modeOf ctx) (b.rest.drop k) =
      if Numeric.hasSuffix (modeOf ctx) (b.rest.drop k) then .failHere .invalidBigInt
      else Numeric.checkEnd (b.rest.drop k) := rfl
  cases hs : Numeric.hasSuffix (modeOf ctx) (b.rest.drop k) with
  | true =>
    rw [hs, if_pos rfl] at hend
    rw [if_pos rfl]
    refine Finishes.congr ?_ (Finishes.fail _)
    rw [Reader.bind_of_error hend]
    rfl
  | false =>
    rw [hs, if_neg (by decide)] at hend
    rw [if_neg (by decide)]
    refine Finishes.congr ?_ (Finishes.checkEnd h hcut hnext)
    show Reader.andThen _ _ _ = Reader.andThen _ _ _
    unfold Reader.andThen
    rw [hend]

/-- The units of a literal behind its first `j` ones. -/
theorem extract_within (h : m.Admits b) {j : Nat} (hj : j ≤ k) (hk : k ≤ b.rest.length) :
    m.source.extract (b.location.offset + j) (b.advance k).location.offset =
      (b.rest.take k).drop j := by
  rw [Cursor.offset_advance, List.length_take, Nat.min_eq_left hk, List.extract_eq_take_drop,
    Nat.add_sub_add_left, ← List.drop_drop, ← h.place.rest_eq, List.take_drop,
    Nat.add_sub_of_le hj]

/-- **The end of a BigInt.** -/
theorem finishBigInt_finishes {mode : Mode} {radix : Radix} {run : List CodeUnit} {j : Nat}
    (h : m.Admits b) (hcut : CleanCut b.rest k) (hj : j ≤ k)
    (hrun : dropSeparators ((b.rest.take k).drop j) = run) (hne : run ≠ [])
    (hdigits : ∀ u ∈ run, radix.isDigit u = true)
    (hsuffix : Numeric.hasSuffix mode (b.rest.drop k) = true) :
    Finishes m b k flags (finishBigInt b.location.offset (b.location.offset + j) radix)
      (bigIntEnd >>= fun _ => pure (.bigInt (radix.valueOf run))) := by
  obtain ⟨text, hbehind⟩ := List.head?_eq_some_iff.mp (head?_of_hasSuffix hsuffix)
  have hlength : k + 1 ≤ b.rest.length := by
    have hdrop := congrArg List.length hbehind
    rw [List.length_drop, List.length_cons] at hdrop
    omega
  have hslice := sliceFrom_atCursor (ε := LexError) ((h.note flags).advance k)
    (b.location.offset + j) (by rw [Cursor.offset_advance, List.length_take]; omega)
  have hparse : radix.parse? run = some (radix.valueOf run) := by
    rw [Radix.parse?, List.all_eq_true.mpr hdigits, if_neg (by simpa using hne)]
  have hadvance := advance_atCursor (ε := LexError) ((h.note flags).advance k)
    (by rw [Cursor.rest_advance]; exact hbehind) (by decide)
  unfold finishBigInt
  apply Finishes.look hslice
  rw [show (m.note flags).source = m.source from rfl, extract_within h hj (by omega), hrun, hparse]
  show Finishes m b k flags _ ((Reader.take 1 >>= fun _ => checkEnd) >>= fun _ => pure _)
  rw [Reader.bind_assoc]
  refine Finishes.bind (fun _ => ()) hcut ?_ ?_ ?_
  · rw [hadvance, hbehind, take_apply (Nat.le_add_left 1 _), Outcome.mapValue, carryOut_plain]
  · rw [hbehind]
    exact .one (by decide)
  intro x hx hcut
  rw [hbehind] at hx
  obtain rfl := Except.ok.inj hx
  apply Finishes.checkEnd h hcut
  have hliteral := sliceFrom_atCursor (ε := LexError) ((h.note (flags ∪ ∅)).advance (k + 1))
    b.location.offset (by rw [Cursor.offset_advance]; omega)
  refine Finishes.look hliteral (Finishes.done ?_)
  have hwhole := extract_within (k := k + 1) h (Nat.zero_le _) hlength
  rw [Nat.add_zero, List.drop_zero] at hwhole
  rw [show (m.note (flags ∪ ∅)).source = m.source from rfl, hwhole]
  rfl

/-- **The value of digits whose base is a power of two.** -/
theorem radixValue_atCursor {radix : Radix} {run : List CodeUnit} {j : Nat} (h : m.Admits b)
    (hj : j ≤ k) (hk : k ≤ b.rest.length) (hrun : dropSeparators ((b.rest.take k).drop j) = run)
    (hne : run ≠ []) (hdigits : ∀ u ∈ run, radix.isDigit u = true) (hradix : radix ≠ .decimal) :
    ∃ x, (Route.ofInteger radix run).number? = some x ∧
      (radixValue (b.location.offset + j) radix (.of radix run)).run (m.atCursor (b.advance k)) =
        some (.ok x, m.atCursor (b.advance k)) := by
  obtain ⟨bits, hbits⟩ : ∃ bits, radix.digitBits? = some bits := by
    cases radix
    case decimal => exact absurd rfl hradix
    all_goals exact ⟨_, rfl⟩
  have hshort : run.length ≤ k := by
    rw [← hrun]
    apply (List.length_filter_le _ _).trans
    rw [List.length_drop, List.length_take]
    omega
  -- with checked sums the source is too short for the product to overflow
  have hmul : m.build.mul (.ofNat run.length) (.ofNat radix.trailingZeros) =
      some (.ofNat (run.length * bits)) := by
    rw [Radix.trailingZeros, hbits, Option.getD_some]
    apply m.build.mul_ofNat
    intro hb
    have hroom : b.rest.length < 1073741824 := (h.room hb).rest
    have hfits : run.length * bits < UInt32.size := Radix.mul_lt_size hbits (by omega)
    have hle := (Radix.digitBits?_le hbits).1
    have hsize : (4294967296 : Nat) = UInt32.size := rfl
    exact ⟨by omega, by omega, hfits⟩
  have hslice := sliceFrom_atCursor (ε := LexError) (h.advance k) (b.location.offset + j)
    (by rw [Cursor.offset_advance, List.length_take]; omega)
  have hparse : radix.parse? run = some (radix.valueOf run) := by
    rw [Radix.parse?, List.all_eq_true.mpr hdigits, if_neg (by simpa using hne)]
  rw [extract_within h hj hk] at hslice
  unfold radixValue
  rw [run_state_bind, build_atCursor, show (DigitRun.of radix run).count = run.length from rfl,
    hmul, run_require_bind, Route.ofInteger, Radix.accumulates, hbits]
  dsimp only
  rw [UInt32.ofNat_mul]
  -- the same product decides on either side, also where it is not the number of bits
  by_cases hle : UInt32.ofNat run.length * UInt32.ofNat bits ≤ 53
  · exact ⟨_, by rw [if_pos (decide_eq_true hle)]; rfl, by rw [if_pos hle]; rfl⟩
  · refine ⟨_, by rw [if_neg (by simpa using hle)]; rfl, ?_⟩
    rw [if_neg hle, run_bind_of_ok hslice, hrun, hparse]
    rfl

/-- The end of an integer with a radix. -/
theorem radixValue_finishes {radix : Radix} {run : List CodeUnit} {j : Nat} (h : m.Admits b)
    (hj : j ≤ k) (hk : k ≤ b.rest.length) (hrun : dropSeparators ((b.rest.take k).drop j) = run)
    (hne : run ≠ []) (hdigits : ∀ u ∈ run, radix.isDigit u = true) (hradix : radix ≠ .decimal) :
    Finishes m b k flags
      (radixValue (b.location.offset + j) radix (.of radix run) >>= fun x =>
        pure ⟨.numericLiteral, .number x⟩)
      (pure (.integer radix run)) := by
  obtain ⟨x, hx, hvalue⟩ := radixValue_atCursor (h.note flags) hj hk hrun hne hdigits hradix
  refine Finishes.look hvalue (Finishes.done ?_)
  exact Form.interpret_eq_ok_iff.mpr (.inr ⟨x, hx, rfl⟩)

theorem interpret_decimal (text : List CodeUnit) :
    Form.decimal.interpret text =
      match (Route.ofNumeral (dropSeparators text)).number? with
      | some x => .ok ⟨.numericLiteral, .number x⟩
      | none => .error .invalidNumericLiteral := rfl

/-- **The end of a decimal literal.** Its text is plain if it is an integer, and then it has been
added up. -/
theorem finishDecimal_finishes (ctx : Context) {isInteger : Bool} {run : DigitRun}
    (h : m.Admits b) (hcut : CleanCut b.rest k) (hstart : m.tokenLocation = b.location.wrap)
    (hplain : Route.isPlain (dropSeparators (b.rest.take k)) = isInteger)
    (hrun : isInteger = true → run = .of .decimal (dropSeparators (b.rest.take k))) :
    Finishes m b k flags (finishDecimal ctx b.location.offset isInteger run)
      (numberEnd (modeOf ctx) >>= fun _ => pure .decimal) := by
  apply Finishes.numberEnd ctx h hcut
  have hslice := sliceFrom_atCursor (ε := LexError) ((h.note flags).advance k)
    b.location.offset (by rw [Cursor.offset_advance]; omega)
  have hwhole := extract_within (k := k) h (Nat.zero_le _) hcut.le
  have hinterpret := interpret_decimal (b.rest.take k)
  rw [Nat.add_zero, List.drop_zero] at hwhole
  rw [show (m.note flags).source = m.source from rfl, hwhole] at hslice
  generalize hw : dropSeparators (b.rest.take k) = w at hplain hrun hinterpret
  have hroute : Route.ofNumeral w = if (isInteger && decide (run.count ≤ 15)) = true then
      .accumulated .decimal w else .numeral w := by
    rw [Route.ofNumeral, hplain]
    cases isInteger with
    | false => rfl
    | true => rw [hrun rfl]; rfl
  by_cases hshort : (isInteger && decide (run.count ≤ 15)) = true
  · have hrun' := hrun (Bool.and_eq_true _ _ ▸ hshort).1
    rw [if_pos hshort] at hroute ⊢
    rw [hroute] at hinterpret
    apply Finishes.done
    rw [hinterpret, hrun']
    rfl
  · rw [if_neg hshort] at hroute ⊢
    rw [hroute, Route.number?] at hinterpret
    unfold parseDecimalSlice
    cases hread : Route.read? w with
    | some x =>
      rw [hread] at hinterpret
      refine Finishes.look ?_ (Finishes.done hinterpret)
      rw [run_bind_of_ok hslice, hw, hread, run_pure]
    | none =>
      rw [hread] at hinterpret
      refine Finishes.refuse hstart ?_ hinterpret
      rw [run_bind_of_ok hslice, hw, hread]
      rfl

/-! ### Literals from their beginning -/

/-- What is known of digits that have been read. -/
theorem value_of_digits {radix : Radix} {separators : Bool} {text : List CodeUnit}
    {x : Reading (List CodeUnit)} (hx : Numeric.digits radix separators text = .ok x) :
    dropSeparators (text.take x.length) = x.value ∧ ∀ u ∈ x.value, radix.isDigit u = true := by
  unfold Numeric.digits at hx
  dsimp only at hx
  split at hx
  · exact absurd hx (by simp)
  obtain rfl := Except.ok.inj hx
  have htake := (List.prefix_iff_eq_take.mp
    (List.takeWhile_prefix (Numeric.inRun radix separators) (l := text))).symm
  refine ⟨congrArg dropSeparators htake, fun u hu => ?_⟩
  obtain ⟨hmem, hne⟩ := List.mem_filter.mp hu
  exact isDigit_of_inRun (List.mem_takeWhile_imp hmem) (by simpa using hne)

/-- The digits of a literal. -/
theorem Finishes.digits {radix : Radix} {separators : Bool}
    {next : DigitRun → Routine LexError Lexeme} {nextReader : List CodeUnit → Reader Form}
    (h : m.Admits b) (hcut : CleanCut b.rest k)
    (hnext : ∀ x, Numeric.digits radix separators (b.rest.drop k) = .ok x →
      CleanCut b.rest (k + x.length) →
      dropSeparators ((b.rest.take (k + x.length)).drop k) = x.value →
      (∀ u ∈ x.value, radix.isDigit u = true) →
      Finishes m b (k + x.length) (flags ∪ x.flags) (next (.of radix x.value))
        (nextReader x.value)) :
    Finishes m b k flags (digits separators radix >>= next)
      (Numeric.digits radix separators >>= nextReader) := by
  refine Finishes.bind (.of radix) hcut ?_ (clean_digits ..) ?_
  · rw [← Cursor.rest_advance]
    exact digits_atCursor separators radix ((h.note flags).advance k)
  · intro x hx hcut'
    obtain ⟨hvalue, hdigits⟩ := value_of_digits hx
    rw [List.take_drop] at hvalue
    exact hnext x hx hcut' hvalue hdigits

/-- Behind its digits a literal may be a BigInt. -/
theorem Finishes.suffix (ctx : Context) {bigInt number : Routine LexError Lexeme}
    {bigIntReader numberReader : Reader Form}
    (hbigInt : Numeric.hasSuffix (modeOf ctx) (b.rest.drop k) = true →
      Finishes m b k flags bigInt bigIntReader)
    (hnumber : Finishes m b k flags number numberReader) :
    Finishes m b k flags
      (state >>= fun stopped => if hasSuffix ctx stopped then bigInt else number)
      (Reader.ahead >>= fun rest =>
        if Numeric.hasSuffix (modeOf ctx) rest then bigIntReader else numberReader) := by
  have hsuffix := hasSuffix_atCursor (m := m.note flags) (c := b.advance k) ctx
  rw [Cursor.rest_advance] at hsuffix
  refine Finishes.look rfl (Finishes.congr (Reader.ahead_bind _ _).symm ?_)
  rw [hsuffix]
  cases hs : Numeric.hasSuffix (modeOf ctx) (b.rest.drop k) with
  | true =>
    rw [if_pos rfl, if_pos rfl]
    exact hbigInt hs
  | false =>
    rw [if_neg (by decide), if_neg (by decide)]
    exact hnumber

/-- **A literal with a prefix.** -/
theorem radixNumber_finishes (ctx : Context) {radix : Radix} (hradix : radix ≠ .decimal)
    (h : m.Admits b) {u v : CodeUnit} {text : List CodeUnit} (hrest : b.rest = u :: v :: text)
    (hu : u.isLineTerminator = false) (hv : v.isLineTerminator = false) :
    Finishes m b 0 ∅ (radixNumber ctx radix) (prefixed (modeOf ctx) radix) := by
  have hadvance := advanceBy_atCursor (ε := LexError) (h.note ∅) (n := 2) (by
    intro w hw
    rw [hrest] at hw
    obtain rfl | rfl : w = u ∨ w = v := by simpa using hw
    · exact hu
    · exact hv)
  have htwo : 2 ≤ b.rest.length := by rw [hrest]; simp
  have htake : Reader.take 2 b.rest = .ok ⟨b.rest.take 2, 2, ∅⟩ := take_apply htwo
  apply Finishes.look rfl
  refine Finishes.bind (fun _ => ()) (.zero _) ?_ ?_ ?_
  · rw [List.drop_zero, htake, Outcome.mapValue, carryOut_plain]
    exact hadvance
  · rw [List.drop_zero, htake, hrest]
    apply CleanCut.of_before (n := 1) (by simp)
    simpa using CodeUnit.ne_return_of_not_isLineTerminator (by simp [hv])
  intro x hx hcut
  rw [List.drop_zero, htake] at hx
  obtain rfl := Except.ok.inj hx
  apply Finishes.digits h hcut
  intro x hx hcut' hvalue hdigits
  by_cases hempty : x.value = []
  · rw [if_pos (by rw [hempty]; rfl), if_pos (by rw [hempty]; rfl)]
    exact Finishes.fail _
  rw [if_neg (by simpa [DigitRun.of] using hempty), if_neg (by simpa using hempty)]
  refine Finishes.suffix ctx ?_ ?_
  · intro hsuffix
    exact finishBigInt_finishes h hcut' (Nat.le_add_right 2 _) hvalue hempty hdigits hsuffix
  · exact Finishes.checkEnd h hcut'
      (radixValue_finishes h (Nat.le_add_right 2 _) hcut'.le hvalue hempty hdigits hradix)

/-- A text with a unit that is neither a digit nor a separator is no plain numeral. -/
theorem isPlain_eq_false {w : List CodeUnit} {u : CodeUnit} (hmem : u ∈ w)
    (hu : u.isDecimalDigit = false) (hne : u ≠ CodeUnit.underscore) :
    Route.isPlain (dropSeparators w) = false := by
  have hkept : u ∈ dropSeparators w := List.mem_filter.mpr ⟨hmem, by simpa using hne⟩
  have hall : (dropSeparators w).all CodeUnit.isDecimalDigit = false := by
    rw [List.all_eq_false]
    exact ⟨u, hkept, by simp [hu]⟩
  rw [Route.isPlain, hall, Bool.false_and]

/-- Behind its integer part a decimal literal has a fraction and an exponent, or it is an
integer. -/
theorem fraction_exponent_finishes (ctx : Context) {next : Bool → Bool → Routine LexError Lexeme}
    (h : m.Admits b) (hcut : CleanCut b.rest k)
    (hnext : ∀ (n : Nat) (flags : TokenFlags) (point scaled : Bool), CleanCut b.rest n →
      (point || scaled) = true ∧ Route.isPlain (dropSeparators (b.rest.take n)) = false ∨
        (point || scaled) = false ∧ n = k →
      Finishes m b n flags (next point scaled) reader) :
    Finishes m b k flags
      (fraction ctx >>= fun point => exponent ctx >>= fun scaled => next point scaled)
      (Numeric.fraction (modeOf ctx) >>= fun _ => Numeric.exponent (modeOf ctx) >>= fun _ =>
        reader) := by
  refine Finishes.bind (fun _ => (b.rest.drop k).head? == some CodeUnit.period) hcut ?_
    (clean_fraction _ _) ?_
  · rw [← Cursor.rest_advance]
    exact fraction_atCursor ctx ((h.note flags).advance k)
  intro x hx hcut₁
  refine Finishes.bind (fun _ => (b.rest.drop (k + x.length)).head?.any isExponentMark) hcut₁ ?_
    (clean_exponent _ _) ?_
  · rw [← Cursor.rest_advance]
    exact exponent_atCursor ctx ((h.note _).advance _)
  intro y hy hcut₂
  apply hnext _ _ _ _ hcut₂
  -- a point or an exponent mark in the text makes it no plain numeral
  have hstays {i : Nat} {u : CodeUnit} (hi : i < k + x.length + y.length)
      (hu : (b.rest.drop i).head? = some u) : u ∈ b.rest.take (k + x.length + y.length) := by
    rw [List.head?_drop] at hu
    exact List.mem_of_getElem? ((List.getElem?_take_of_lt hi).trans hu)
  by_cases hpoint : (b.rest.drop k).head? = some CodeUnit.period
  · refine .inl ⟨by rw [beq_iff_eq.mpr hpoint, Bool.true_or], ?_⟩
    rw [Numeric.fraction, if_pos hpoint, Outcome.mapValue_shift] at hx
    have hpos := Outcome.le_length_of_shift hx
    exact isPlain_eq_false (hstays (by omega) hpoint) (by decide) (by decide)
  rw [Numeric.fraction, if_neg hpoint] at hx
  obtain rfl := Except.ok.inj hx
  rw [beq_eq_false_iff_ne.mpr hpoint, Bool.false_or]
  rw [Nat.add_zero] at hy ⊢
  cases hmark : (b.rest.drop k).head?.any isExponentMark with
  | true =>
    obtain ⟨u, text, hrest, hu⟩ := exists_cons_of_any_head? hmark
    refine .inl ⟨rfl, ?_⟩
    have hpos : 0 < y.length := by
      rw [hrest, Numeric.exponent, if_pos hu] at hy
      have hpos := Outcome.le_length_of_shift hy
      omega
    refine isPlain_eq_false (hstays (i := k) (by omega) (by rw [hrest]; rfl))
      (isDecimalDigit_of_isExponentMark hu) ?_
    rintro rfl
    exact absurd hu (by decide)
  | false =>
    rw [exponent_absent hmark] at hy
    obtain rfl := Except.ok.inj hy
    exact .inr ⟨rfl, rfl⟩

/-- What the integer part of a decimal literal is. -/
theorem digits_of_beginsNumber {separators : Bool} {text : List CodeUnit}
    {x : Reading (List CodeUnit)} (hbegins : Lexeme.beginsNumber text = true)
    (hx : Numeric.digits .decimal separators text = .ok x) :
    (∃ rest, text = CodeUnit.period :: rest) ∧ x.value = [] ∧ x.length = 0 ∨
      ∃ u rest, text = u :: rest ∧ x.value =
        u :: dropSeparators (rest.takeWhile (inRun .decimal separators)) := by
  unfold Numeric.digits at hx
  dsimp only at hx
  split at hx
  · exact absurd hx (by simp)
  obtain rfl := Except.ok.inj hx
  rcases beginsNumber_cases hbegins with hdigit | ⟨d, rest, rfl, -⟩
  · obtain ⟨u, rest, rfl, hu⟩ := exists_cons_of_any_head? hdigit
    have hne := ne_underscore_of_isDigit (isDigit_of_isDecimalDigit hu)
    refine .inr ⟨u, rest, rfl, ?_⟩
    rw [List.takeWhile_cons_of_pos (inRun_of_isDecimalDigit hu _)]
    simp [dropSeparators, hne]
  · have hstop : inRun .decimal separators CodeUnit.period = false := by
      cases separators <;> decide
    refine .inl ⟨⟨_, rfl⟩, ?_, ?_⟩
    · rw [List.takeWhile_cons_of_neg (by simp [hstop])]
      rfl
    · rw [List.takeWhile_cons_of_neg (by simp [hstop])]
      rfl

/-- **A decimal literal.** -/
theorem decimalNumber_finishes (ctx : Context) (h : m.Admits b)
    (hstart : m.tokenLocation = b.location.wrap) (hbegins : Lexeme.beginsNumber b.rest = true)
    (hzero : ∀ text, b.rest = CodeUnit.zero :: text →
      text.head?.any (inRun .decimal ctx.next) = false) :
    Finishes m b 0 ∅ (decimalNumber ctx) (decimal (modeOf ctx)) := by
  refine Finishes.look rfl (Finishes.digits h (.zero _) fun x hx hcut hvalue hdigits => ?_)
  refine Finishes.suffix ctx ?_ ?_
  · intro hsuffix
    refine finishBigInt_finishes h hcut (Nat.zero_le _) hvalue ?_ hdigits hsuffix
    rcases digits_of_beginsNumber hbegins hx with ⟨⟨rest, hrest⟩, -, hlength⟩ | ⟨u, rest, -, hcons⟩
    · have hhead := head?_of_hasSuffix hsuffix
      rw [hlength, hrest] at hhead
      exact absurd (Option.some.inj hhead) (by decide)
    · rw [hcons]
      exact List.cons_ne_nil _ _
  apply fraction_exponent_finishes ctx h hcut
  intro n flags point scaled hcut' hor
  rw [← Bool.not_or]
  rcases hor with ⟨htail, hplain⟩ | ⟨htail, rfl⟩
  · refine finishDecimal_finishes ctx h hcut' hstart ?_ ?_
    · rw [hplain, htail]
      rfl
    · rw [htail]
      exact fun hinteger => absurd hinteger (by decide)
  · have hplain : Route.isPlain x.value = true := by
      have hall : x.value.all CodeUnit.isDecimalDigit = true :=
        List.all_eq_true.mpr fun u hu => isDecimalDigit_of_isDigit (hdigits u hu)
      rw [Route.isPlain, hall, Bool.true_and, Bool.or_eq_true, beq_iff_eq, bne_iff_ne]
      -- without fraction and exponent the text is plain: a lone zero, or no zero in front
      rcases digits_of_beginsNumber hbegins hx with ⟨-, hnil, -⟩ | ⟨u, rest, hrest, hcons⟩
      · exact .inr (by rw [hnil]; simp)
      · by_cases hu : u = CodeUnit.zero
        · subst hu
          have hstop : rest.takeWhile (inRun .decimal ctx.next) = [] :=
            (Text.takeWhile_append_eq_left_iff (w := [])).mpr
              ⟨List.forall_mem_nil _, hzero rest hrest⟩
          exact .inl (by rw [hcons, hstop]; rfl)
        · exact .inr (by simpa [hcons] using hu)
    rw [List.drop_zero] at hvalue
    refine finishDecimal_finishes ctx h hcut' hstart ?_ ?_
    · rw [hvalue, hplain, htail]
      rfl
    · rw [hvalue]
      exact fun _ => rfl

/-! ### Literals with a leading zero -/

/-- What is known of digits behind a leading zero. -/
def LegacyDigits.of (ds : List CodeUnit) : LegacyDigits :=
  ⟨⟨ds.length, ds.foldl (fun x u => (x.mul (.ofNat 8)).add (.ofNat (u.toNat - 0x30))) .zero⟩,
    ds.all CodeUnit.isOctalDigit⟩

/-- Octal digits are added up as such. -/
theorem LegacyDigits.run_of {ds : List CodeUnit} (h : ds.all CodeUnit.isOctalDigit = true) :
    (of ds).run = .of .octal ds := by
  rw [of, DigitRun.of, Radix.accumulate, DigitRun.mk.injEq]
  refine ⟨rfl, List.foldl_ext _ _ _ fun x u hu => ?_⟩
  rw [digit?_of_isOctalDigit (List.all_eq_true.mp h u hu)]
  rfl

theorem LegacyDigits.of_concat (ds : List CodeUnit) (u : CodeUnit) :
    of (ds ++ [u]) =
      ⟨(of ds).run.push 8 (u.toNat - 0x30), (of ds).octal && u.isOctalDigit⟩ := by
  simp [of, DigitRun.push]

/-- **The loop behind a leading zero.** -/
theorem legacyLoop_atCursor (h : m.Admits b) (ds : List CodeUnit) :
    (loop legacyStep (.of ds)).run (m.atCursor b) =
      m.carryOut b.advance
        ((Reader.takeWhile CodeUnit.isDecimalDigit b.rest).mapValue (.of <| ds ++ ·)) := by
  have hdone {b : Cursor} {ds : List CodeUnit}
      (hstop : b.rest.head?.any CodeUnit.isDecimalDigit = false) :
      (loop legacyStep (.of ds)).run (m.atCursor b) = some (.ok (.of ds), m.atCursor b) := by
    apply run_loop_of_done
    unfold legacyStep
    rw [run_state_bind, current_atCursor, isUnit_unitAt, hstop, if_neg (by decide), run_pure]
  generalize hrest : b.rest = text
  unfold Reader.takeWhile
  rw [Outcome.mapValue, carryOut_plain]
  induction text generalizing b ds with
  | nil =>
    rw [hdone (by rw [hrest]; rfl), List.takeWhile_nil, List.append_nil]
    rfl
  | cons u rest ih =>
    cases hu : u.isDecimalDigit with
    | false =>
      rw [hdone (by rw [hrest]; exact hu), List.takeWhile_cons_of_neg (by simp [hu]),
        List.append_nil]
      rfl
    | true =>
      have hline := CodeUnit.isLineTerminator_of_class hu (by decide)
      have hdigit : minus? u.toNat CodeUnit.zero.toNat = some (u.toNat - 0x30) := by
        refine minus?_of_le ?_
        rw [CodeUnit.isDecimalDigit, Bool.and_eq_true, decide_eq_true_eq] at hu
        exact UInt16.le_iff_toNat_le.mp hu.1
      have hround : (legacyStep (.of ds)).run (m.atCursor b) =
          some (.ok (.again (.of (ds ++ [u]))), m.atCursor (b.advance 1)) := by
        unfold legacyStep
        rw [run_state_bind, current_atCursor, isUnit_unitAt, isUnit_unitAt, hrest, List.head?_cons,
          Option.any_some, Option.any_some, hu, if_pos rfl, unitAt_cons, hdigit, run_require_bind,
          run_bind_of_ok (advance_atCursor h hrest hline), run_pure, LegacyDigits.of_concat]
      rw [run_loop_of_again hround, ih (h.advance 1) _ (Cursor.rest_advance_one hrest),
        List.takeWhile_cons_of_pos hu, List.append_assoc, List.singleton_append, List.length_cons,
        Cursor.advance_one_advance hrest hline]

/-- Strict code has no digits behind a leading zero. -/
theorem legacyNumber_strict (ctx : Context) (h : m.Admits b) (hstrict : ctx.isStrict = true) :
    Finishes m b 0 ∅ (legacyNumber ctx) (leadingZero (modeOf ctx)) := by
  have hmode : (modeOf ctx).strict = true := hstrict
  have hloop := legacyLoop_atCursor (h.note ∅) []
  generalize hrun : b.rest.takeWhile CodeUnit.isDecimalDigit = run
  have hpart : ((Reader.takeWhile CodeUnit.isDecimalDigit).interpret fun x _ =>
      if !(modeOf ctx).strict then .ok x.value
      else if x.value.all CodeUnit.isOctalDigit then .error .strictOctalLiteral
      else .error .strictLeadingZero : Reader (List CodeUnit)) b.rest =
        .error ⟨if run.all CodeUnit.isOctalDigit then .strictOctalLiteral else .strictLeadingZero,
          0, run.length, ∅⟩ := by
    simp only [Reader.interpret, Reader.takeWhile, hmode, Bool.not_true, Bool.false_eq_true,
      if_false, hrun]
    cases run.all CodeUnit.isOctalDigit <;> rfl
  unfold Reader.takeWhile at hloop
  rw [hrun, Outcome.mapValue, carryOut_plain, List.nil_append] at hloop
  unfold Finishes legacyNumber leadingZero
  rw [run_state_bind, List.drop_zero, Reader.bind_of_error hpart, hstrict]
  apply (run_bind_of_ok hloop).trans
  rw [Outcome.shift_zero_empty, LegacyDigits.of]
  cases run.all CodeUnit.isOctalDigit <;> rfl

/-- **A zero and more digits.** -/
theorem legacyNumber_finishes (ctx : Context) (h : m.Admits b)
    (hstart : m.tokenLocation = b.location.wrap) {v : CodeUnit} {text : List CodeUnit}
    (hrest : b.rest = CodeUnit.zero :: v :: text) (hv : v.isDecimalDigit = true) :
    Finishes m b 0 ∅ (legacyNumber ctx) (leadingZero (modeOf ctx)) := by
  cases hstrict : ctx.isStrict with
  | true => exact legacyNumber_strict ctx h hstrict
  | false =>
    have hmode : (modeOf ctx).strict = false := hstrict
    have hpart : ((Reader.takeWhile CodeUnit.isDecimalDigit).interpret fun x _ =>
        if !(modeOf ctx).strict then .ok x.value
        else if x.value.all CodeUnit.isOctalDigit then .error .strictOctalLiteral
        else .error .strictLeadingZero : Reader (List CodeUnit)) =
          Reader.takeWhile CodeUnit.isDecimalDigit := by
      funext text
      simp only [Reader.interpret, Reader.takeWhile, hmode, Bool.not_false, if_true]
    have hloop := legacyLoop_atCursor (h.note ∅) []
    unfold legacyNumber leadingZero
    rw [hpart, hstrict]
    apply Finishes.look rfl
    refine Finishes.bind .of (.zero _) hloop (.of_le_takeWhile (by decide) (Nat.le_refl _)) ?_
    intro x hx hcut
    obtain rfl := Except.ok.inj hx
    rw [Nat.zero_add] at hcut ⊢
    dsimp only at hcut ⊢
    rw [List.drop_zero] at hcut ⊢
    generalize hrun : b.rest.takeWhile CodeUnit.isDecimalDigit = run at hcut
    have htake : b.rest.take run.length = run := by
      rw [← hrun]
      exact (List.prefix_iff_eq_take.mp (List.takeWhile_prefix _)).symm
    have hnote {r : Routine LexError Lexeme} {reader : Reader Form} {k : Nat} {flags : TokenFlags}
        (hcut : CleanCut b.rest k)
        (hr : Finishes m b k (flags ∪ { legacyOctal := true }) r reader) :
        Finishes m b k flags (update (·.note { legacyOctal := true }) >>= fun _ => r)
          (Reader.note { legacyOctal := true } >>= fun _ => reader) := by
      refine Finishes.bind (fun _ => ()) hcut rfl (.zero _) fun x hx _ => ?_
      obtain rfl := Except.ok.inj hx
      exact hr
    have hlong : run = CodeUnit.zero :: v :: text.takeWhile CodeUnit.isDecimalDigit := by
      rw [← hrun, hrest, List.takeWhile_cons_of_pos (by decide), List.takeWhile_cons_of_pos hv]
    have hdrop : dropSeparators run = run := by
      apply dropSeparators_eq_self
      intro hmem
      rw [← hrun] at hmem
      exact absurd (List.mem_takeWhile_imp hmem) (by decide)
    -- the sum in base eight is the value if all digits are octal, and is dropped otherwise
    cases hoctal : run.all CodeUnit.isOctalDigit with
    | true =>
      have hdigits : ∀ u ∈ run, Radix.octal.isDigit u = true := fun u hu => by
        rw [Radix.isDigit, digit?_of_isOctalDigit (List.all_eq_true.mp hoctal u hu),
          Option.isSome_some]
      rw [show (LegacyDigits.of run).octal = true from hoctal, LegacyDigits.run_of hoctal]
      refine hnote hcut (Finishes.numberEnd ctx h hcut ?_)
      refine radixValue_finishes (j := 0) h (Nat.zero_le _) hcut.le ?_ ?_ hdigits (by decide)
      · rw [htake, List.drop_zero, hdrop]
      · rw [hlong]
        exact List.cons_ne_nil _ _
    | false =>
      rw [show (LegacyDigits.of run).octal = false from hoctal]
      refine hnote hcut (fraction_exponent_finishes ctx h hcut fun n flags _ _ hcut' hor => ?_)
      refine finishDecimal_finishes ctx h hcut' hstart ?_
        (fun hinteger => absurd hinteger (by decide))
      rcases hor with ⟨-, hplain⟩ | ⟨-, rfl⟩
      · exact hplain
      · rw [htake, hdrop, hlong, Route.isPlain]
        simp

end

/-- What does not change a zero does not go on with it either. -/
theorem any_inRun_of_afterZero {mode : Mode} {text : List CodeUnit}
    (h : text.head?.any (afterZero mode) = false) :
    text.head?.any (inRun .decimal mode.next) = false := by
  cases text with
  | nil => rfl
  | cons u text =>
    rw [List.head?_cons, Option.any_some, afterZero, Bool.or_eq_false_iff,
      Bool.or_eq_false_iff] at h
    rw [List.head?_cons, Option.any_some, inRun, h.2, Bool.or_false, Bool.eq_false_iff]
    intro hdigit
    rw [isDecimalDigit_of_isDigit hdigit] at h
    exact absurd h.1.2 (by decide)

/-- A literal from its beginning on. -/
theorem Finishes.run_eq {ctx : Context} {r : Routine LexError Lexeme} {reader : Reader Form}
    (h : Finishes m c 0 ∅ r reader) (hread : reader c.rest = form (modeOf ctx) c.rest) :
    r.run (m.atCursor c) = m.carryOut c.advance (Numeric.read (modeOf ctx) c.rest) := by
  unfold Finishes at h
  rw [List.drop_zero, hread, Outcome.shift_zero_empty, ← read_eq_interpreted, note_empty] at h
  exact h

/-- A separator behind a lone zero. -/
theorem separator_atCursor (ctx : Context) (h : m.Admits c) {text : List CodeUnit}
    (hrest : c.rest = CodeUnit.zero :: CodeUnit.underscore :: text) (hnext : ctx.next = true) :
    (advance >>= fun _ => failHere .invalidNumericSeparator).run (m.atCursor c) =
      m.carryOut c.advance (Numeric.read (modeOf ctx) c.rest) := by
  have hform : form (modeOf ctx) c.rest = .error ⟨.invalidNumericSeparator, 1, 1, ∅⟩ := by
    have hmode : (modeOf ctx).next = true := hnext
    rw [hrest, form, if_pos rfl, show radixOf? CodeUnit.underscore = none from rfl]
    dsimp only
    rw [if_neg (by decide), if_pos (by simp [hmode])]
  rw [read_eq_interpreted, hform, run_bind_of_ok (advance_atCursor h hrest (by decide)),
    run_failHere, location_atCursor, interpreted, carryOut_error, note_empty]
  rfl

/-- **A number.** -/
theorem number_atCursor (ctx : Context) (h : m.Admits c)
    (hstart : m.tokenLocation = c.location.wrap)
    (hbegins : Lexeme.beginsNumber c.rest = true) :
    (number ctx).run (m.atCursor c) =
      m.carryOut c.advance (Numeric.read (modeOf ctx) c.rest) := by
  obtain ⟨u, rest, hrest⟩ : ∃ u rest, c.rest = u :: rest := by
    cases hrest : c.rest with
    | nil => rw [hrest] at hbegins; exact absurd hbegins (by decide)
    | cons u rest => exact ⟨u, rest, rfl⟩
  have hdrop : c.rest.drop 1 = rest := by rw [hrest, List.drop_succ_cons, List.drop_zero]
  have hdecimal (hafter : u = CodeUnit.zero → rest.head?.any (afterZero (modeOf ctx)) = false) :
      (decimalNumber ctx).run (m.atCursor c) =
        m.carryOut c.advance (Numeric.read (modeOf ctx) c.rest) := by
    refine (decimalNumber_finishes ctx h hstart hbegins fun text heq => ?_).run_eq ?_
    · rw [hrest, List.cons.injEq] at heq
      obtain ⟨rfl, rfl⟩ := heq
      exact any_inRun_of_afterZero (hafter rfl)
    · rw [hrest, form_decimal hafter]
  unfold number
  rw [run_state_bind, is_atCursor, peekIs_atCursor h, peek_atCursor h, isUnit_unitAt, unit?_unitAt,
    hdrop, show (c.rest.head? == some CodeUnit.zero) = (u == CodeUnit.zero) by rw [hrest]; rfl]
  by_cases hzero : u = CodeUnit.zero
  · subst hzero
    rw [if_pos (by decide)]
    cases rest with
    | nil => exact hdecimal fun _ => rfl
    | cons v text =>
      rw [List.head?_cons, Option.bind_some, Option.any_some]
      cases hradix : radixOf? v with
      | some radix =>
        have hletter := radixOf?_eq_some_iff.mp hradix
        refine (radixNumber_finishes ctx ?_ h hrest (by decide) ?_).run_eq ?_
        · rintro rfl
          exact absurd hletter List.not_mem_nil
        · exact CodeUnit.isLineTerminator_of_class (plain_of_radixOf? hradix true).2.2.2 (by decide)
        · rw [hrest, form_radix hletter]
      | none =>
        dsimp only
        by_cases hdigit : v.isDecimalDigit = true
        · rw [if_pos hdigit]
          apply (legacyNumber_finishes ctx h hstart hrest hdigit).run_eq
          rw [hrest, form_leadingZero hdigit]
        rw [if_neg hdigit]
        by_cases hseparator : (some v == some CodeUnit.underscore && ctx.next) = true
        · obtain ⟨rfl, hnext⟩ : v = CodeUnit.underscore ∧ ctx.next = true := by
            simpa using hseparator
          rw [if_pos hseparator]
          exact separator_atCursor ctx h hrest hnext
        · rw [if_neg hseparator]
          apply hdecimal
          intro _
          rw [Bool.not_eq_true] at hdigit hseparator
          rw [List.head?_cons, Option.any_some, afterZero, hradix, hdigit, Bool.and_comm]
          exact hseparator
  · rw [if_neg (by simpa using hzero)]
    exact hdecimal fun hu => absurd hu hzero

end Routine

end EcmaLex
