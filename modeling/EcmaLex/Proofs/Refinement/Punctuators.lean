import EcmaLex.Machine.Tokens
import EcmaLex.Proofs.LongestPunctuators
import EcmaLex.Proofs.Refinement.Literals
import Mathlib.Data.List.Find

/-!
# Chains of alternatives and the table of punctuators

The routine for punctuators takes a unit, and then one more as long as its chain of alternatives has
a longer punctuator. The reader looks through a table. Wherever the chain has got to, some entries
of the table are left (`Routine.Completes`), and each unit that is tried divides them: those that go
on with the unit are left if it is there, and the others if it is not (`Routine.Completes.eat`).
-/

namespace EcmaLex

/-! ## The table behind its first units -/

namespace Punctuator

variable {jsx : Bool} {k : Nat} {u : CodeUnit} {text rest : List CodeUnit} {p : Punctuator}

/-- Whether a punctuator, of which `k` units have been taken, goes on with a text. -/
def matchesBehind (jsx : Bool) (k : Nat) (text : List CodeUnit) (p : Punctuator) : Bool :=
  (p.units.drop k).isPrefixOf text && allowedBefore jsx (text.drop (p.units.length - k)) p

/-- One more unit is taken. -/
theorem matchesBehind_cons (h : p.units[k]? = some u) :
    matchesBehind jsx k (u :: rest) p = matchesBehind jsx (k + 1) rest p := by
  have hlt : k < p.units.length := (List.getElem?_eq_some_iff.mp h).1
  have hdrop : p.units.drop k = u :: p.units.drop (k + 1) := by
    rw [List.drop_eq_getElem_cons hlt, (List.getElem?_eq_some_iff.mp h).2]
  have hlength : p.units.length - k = p.units.length - (k + 1) + 1 := by omega
  rw [matchesBehind, matchesBehind, hdrop, hlength, List.isPrefixOf_cons_cons, List.drop_succ_cons,
    beq_self_eq_true, Bool.true_and]

/-- A punctuator that goes on has no other unit next. -/
theorem getElem?_of_matchesBehind (h : matchesBehind jsx k text p = true) :
    p.units[k]? = none ∨ p.units[k]? = text.head? := by
  rw [matchesBehind, Bool.and_eq_true, List.isPrefixOf_iff_prefix] at h
  rw [← List.head?_drop]
  cases hdrop : p.units.drop k with
  | nil => exact .inl rfl
  | cons v units =>
    obtain ⟨rest, hrest⟩ := hdrop ▸ h.1
    exact .inr (by rw [← hrest]; rfl)

theorem matchesAt_cons (jsx : Bool) (u : CodeUnit) (rest : List CodeUnit) (p : Punctuator) :
    matchesAt jsx (u :: rest) p = (p.units.head? == some u && matchesBehind jsx 1 rest p) := by
  have hmatch : matchesAt jsx (u :: rest) p = matchesBehind jsx 0 (u :: rest) p := rfl
  rw [hmatch]
  by_cases hhead : p.units.head? = some u
  · rw [beq_iff_eq.mpr hhead, Bool.true_and, matchesBehind_cons (by rwa [← List.head?_eq_getElem?])]
  · rw [beq_eq_false_iff_ne.mpr hhead, Bool.false_and, Bool.eq_false_iff]
    intro hgoes
    have hpos := Lexeme.length_units_pos p
    rcases getElem?_of_matchesBehind hgoes with hnone | hsome
    · rw [List.getElem?_eq_none_iff] at hnone
      omega
    · exact hhead (by rw [List.head?_eq_getElem?, hsome]; rfl)

/-- The entries of the table that begin with a unit are enough for a text that begins with it. -/
theorem ofText?_cons (jsx : Bool) (u : CodeUnit) (rest : List CodeUnit) :
    ofText? jsx (u :: rest) =
      (all.filter fun p => p.units.head? == some u).find? (matchesBehind jsx 1 rest) := by
  rw [List.find?_filter, ofText?]
  refine congrArg (List.find? · all) (funext fun p => ?_)
  rw [matchesAt_cons, Bool.and_eq_decide]

/-- No line ends in a punctuator. -/
theorem inLine_units (p : Punctuator) : ∀ u ∈ p.units, u.isLineTerminator = false := by
  cases p <;> exact Text.inLine_of_all rfl

end Punctuator

/-! ## Steps along a line -/

namespace Cursor

variable {c : Cursor}

/-- The cursor some units further on the same line. -/
def steps (c : Cursor) : Nat → Cursor
  | 0 => c
  | n + 1 => c.stepInLine.steps n

theorem rest_stepInLine : c.stepInLine.rest = c.rest.drop 1 := by
  unfold stepInLine
  cases h : c.rest with
  | nil => rw [h]; rfl
  | cons u rest => rfl

/-- Where no line ends, steps along the line are the way. -/
theorem steps_eq_advance {n : Nat} (h : ∀ u ∈ c.rest.take n, u.isLineTerminator = false) :
    c.steps n = c.advance n := by
  induction n generalizing c with
  | zero => rfl
  | succ n ih =>
    rw [steps]
    rcases c.stepInLine_cases with ⟨hnil, hstep⟩ | ⟨u, rest, hrest, hstep⟩
    · rw [hstep, ih (by rw [hnil]; simp)]
      simp only [advance, hnil, List.take_nil, List.drop_nil]
    · rw [hrest, List.take_succ_cons, List.forall_mem_cons] at h
      rw [← advance_one_advance hrest h.1, advance_one hrest h.1, hstep]
      exact ih h.2

end Cursor

namespace Routine

open Machine Punctuator

variable {m : Machine} {d : Cursor} {jsx : Bool} {k : Nat} {u : CodeUnit}
  {r r₁ r₂ : Routine LexError Punctuator} {ps ps₁ ps₂ : List Punctuator} {p : Punctuator}

/-- Wherever `k` units of a punctuator have been taken and the entries `ps` of the table are left,
the routine `r` takes what is left of the first entry that goes on. -/
def Completes (jsx : Bool) (k : Nat) (r : Routine LexError Punctuator) (ps : List Punctuator) :
    Prop :=
  ∀ (m : Machine) (d : Cursor), m.Admits d →
    ∃ p, ps.find? (matchesBehind jsx k d.rest) = some p ∧
      r.run (m.atCursor d) = some (.ok p, m.atCursor (d.steps (p.units.length - k)))

/-- Nothing longer is left. -/
theorem Completes.done (hlength : p.units.length = k)
    (hallowed : ∀ text, allowedBefore jsx text p = true) : Completes jsx k (pure p) [p] := by
  intro m d _
  have hgoes : matchesBehind jsx k d.rest p = true := by
    rw [matchesBehind, hallowed, Bool.and_true, List.drop_eq_nil_of_le (by omega),
      List.isPrefixOf_nil_left]
  refine ⟨p, by rw [List.find?_singleton, if_pos hgoes], ?_⟩
  rw [hlength, Nat.sub_self, run_pure]
  rfl

/-- The first of the entries with a property is the first of all, if none stands before it that
would do without. -/
theorem find?_of_filter {α : Type} {f g : α → Bool} {l : List α} {a : α}
    (horder : l.Pairwise fun x y => f x = true → g x = false → g y = false)
    (h : (l.filter g).find? f = some a) : l.find? f = some a := by
  induction l with
  | nil => exact h
  | cons x l ih =>
    obtain ⟨hx, hl⟩ := List.pairwise_cons.mp horder
    cases hf : f x with
    | false =>
      rw [List.find?_cons_of_neg (by simp [hf])]
      apply ih hl
      cases hg : g x with
      | false => rwa [List.filter_cons_of_neg (by simp [hg])] at h
      | true => rwa [List.filter_cons_of_pos hg, List.find?_cons_of_neg (by simp [hf])] at h
    | true =>
      cases hg : g x with
      | true => rwa [List.filter_cons_of_pos hg, List.find?_cons_of_pos hf,
          ← List.find?_cons_of_pos (l := l) hf] at h
      | false =>
        have hnil : l.filter g = [] :=
          List.filter_eq_nil_iff.mpr fun y hy => by simp [hx y hy hf hg]
        rw [List.filter_cons_of_neg (by simp [hg]), hnil] at h
        exact nomatch h

theorem eat_eq_stepInLine {ε : Type} (h : m.Admits d) :
    (eat u : Routine ε Bool).run (m.atCursor d) =
      if d.rest.head? = some u then some (.ok true, m.atCursor d.stepInLine)
      else some (.ok false, m.atCursor d) := by
  unfold eat
  rw [run_state_bind, is_atCursor, run_ite, run_bind_of_ok (advance_eq_stepInLine h), run_pure,
    run_pure]
  exact if_congr beq_iff_eq rfl rfl

/-- **One unit is tried.** If it is there, the entries that go on with it are left, and the others
if it is not. An entry that would be complete stands behind all those that go on. -/
theorem Completes.eat (h₁ : Completes jsx (k + 1) r₁ ps₁) (h₂ : Completes jsx k r₂ ps₂)
    (hps₁ : ps.filter (fun p => p.units[k]? == some u) = ps₁)
    (hps₂ : ps.filter (fun p => p.units[k]? != some u) = ps₂)
    (horder : ps.Pairwise fun p q => p.units[k]? = none → q.units[k]? ≠ some u) :
    Completes jsx k (eat u >>= fun taken => if taken then r₁ else r₂) ps := by
  intro m d h
  have heat := eat_eq_stepInLine (ε := LexError) (u := u) h
  -- if the unit is there, the entries that end before it come too late in the list to be the first
  by_cases hhead : d.rest.head? = some u
  · obtain ⟨rest, hrest⟩ := List.head?_eq_some_iff.mp hhead
    have hbehind : d.stepInLine.rest = rest := by rw [Cursor.rest_stepInLine, hrest]; rfl
    obtain ⟨p, hfind, hrun⟩ := h₁ m d.stepInLine h.stepInLine
    have hnext : p.units[k]? = some u := by
      have hmem := List.mem_of_find?_eq_some hfind
      rw [← hps₁, List.mem_filter, beq_iff_eq] at hmem
      exact hmem.2
    have hlength : p.units.length - k = p.units.length - (k + 1) + 1 := by
      have hlt := (List.getElem?_eq_some_iff.mp hnext).1
      omega
    refine ⟨p, ?_, ?_⟩
    · rw [hrest]
      rw [hbehind, ← hps₁] at hfind
      refine find?_of_filter (horder.imp fun hxy hx hnot => ?_) ((List.find?_congr ?_).trans hfind)
      · rw [beq_eq_false_iff_ne] at hnot ⊢
        exact hxy ((getElem?_of_matchesBehind hx).resolve_right hnot)
      · intro q hq
        rw [List.mem_filter, beq_iff_eq] at hq
        exact matchesBehind_cons hq.2
    · rw [if_pos hhead] at heat
      rw [run_bind_of_ok heat, if_pos rfl, hrun, hlength]
      rfl
  · obtain ⟨p, hfind, hrun⟩ := h₂ m d h
    refine ⟨p, ?_, ?_⟩
    · rw [← hps₂, List.find?_filter] at hfind
      refine (List.find?_congr fun q _ => ?_).trans hfind
      rw [← Bool.and_eq_decide]
      cases hq : matchesBehind jsx k d.rest q with
      | false => rw [Bool.and_false]
      | true =>
        rw [Bool.and_true, eq_comm, bne_iff_ne]
        rintro hu
        rcases getElem?_of_matchesBehind hq with hnone | hsome
        · rw [hnone] at hu
          exact nomatch hu
        · exact hhead (hsome.symm.trans hu)
    · rw [if_neg hhead] at heat
      rw [run_bind_of_ok heat, if_neg (by decide), hrun]

/-! ### The chains -/

/-- One more unit makes a longer punctuator. -/
theorem completes_eatOr {longer shorter : Punctuator} (hlonger : longer.units.length = k + 1)
    (hshorter : shorter.units.length = k) (hunit : longer.units[k]? = some u)
    (hallowed : ∀ text, allowedBefore jsx text longer = true ∧
      allowedBefore jsx text shorter = true) :
    Completes jsx k (eatOr u longer shorter) [longer, shorter] := by
  have hnone : shorter.units[k]? = none := List.getElem?_eq_none (by omega)
  have heq : eatOr u longer shorter =
      eat u >>= fun taken => if taken then pure longer else pure shorter := by
    unfold eatOr
    exact congrArg (eat u >>= ·) (funext fun taken => by cases taken <;> rfl)
  rw [heq]
  refine .eat (.done hlonger fun text => (hallowed text).1)
    (.done hshorter fun text => (hallowed text).2) ?_ ?_ ?_
  · simp [hunit, hnone]
  · simp [hunit, hnone]
  · rw [List.pairwise_pair, hunit]
    exact nofun

/-- A second unit that is taken only before certain others. -/
theorem completes_lookahead {longer shorter : Punctuator} {v : CodeUnit} {taken : Machine → Bool}
    (hlonger : longer.units = [v, u]) (hshorter : shorter.units.length = 1)
    (hallowed : ∀ text, allowedBefore jsx text shorter = true)
    (htaken : ∀ (m : Machine) (d : Cursor), m.Admits d →
      taken (m.atCursor d) =
        (d.rest.head? == some u && allowedBefore jsx (d.rest.drop 1) longer)) :
    Completes jsx 1
      (state >>= fun m => if taken m then advance >>= fun _ => pure longer else pure shorter)
      [longer, shorter] := by
  intro m d h
  have hmatch : matchesBehind jsx 1 d.rest longer = taken (m.atCursor d) := by
    rw [htaken m d h, matchesBehind, hlonger]
    cases d.rest with
    | nil => rfl
    | cons w rest =>
      show (u == w && true && _) = _
      rw [BEq.comm, Bool.and_true]
      rfl
  obtain ⟨p, hfind, hrun⟩ := Completes.done hshorter hallowed m d h
  rw [run_state_bind]
  cases ht : taken (m.atCursor d) with
  | true =>
    refine ⟨longer, List.find?_cons_of_pos (hmatch.trans ht), ?_⟩
    rw [if_pos rfl, run_bind_of_ok (advance_eq_stepInLine h), run_pure, hlonger]
    rfl
  | false =>
    refine ⟨p, ?_, ?_⟩
    · rw [List.find?_cons_of_neg (by rw [hmatch, ht]; decide), hfind]
    · rw [if_neg (by decide), hrun]

theorem completes_afterPeriod : Completes jsx 1 afterPeriod [.ellipsis, .period] := by
  intro m d h
  unfold afterPeriod
  rw [run_state_bind, is_atCursor, peekIs_atCursor h]
  by_cases hdots : d.rest.head? = some CodeUnit.period ∧
      (d.rest.drop 1).head? = some CodeUnit.period
  · obtain ⟨rest, hrest⟩ := List.head?_eq_some_iff.mp hdots.1
    obtain ⟨rest', rfl⟩ : ∃ rest', rest = CodeUnit.period :: rest' := by
      rw [hrest] at hdots
      exact List.head?_eq_some_iff.mp hdots.2
    have hline : ∀ u ∈ d.rest.take 2, u.isLineTerminator = false := by
      rw [hrest]
      simp only [List.take_succ_cons, List.take_zero]
      exact Text.inLine_of_all rfl
    refine ⟨.ellipsis, List.find?_cons_of_pos ?_, ?_⟩
    · rw [hrest]
      rfl
    · rw [if_pos (by rw [hdots.1, hdots.2]; rfl), run_bind_of_ok (advanceBy_atCursor h hline),
        run_pure, ← Cursor.steps_eq_advance hline]
      rfl
  · have hnot : ¬matchesBehind jsx 1 d.rest .ellipsis = true := by
      intro hmatch
      rw [matchesBehind, Bool.and_eq_true, List.isPrefixOf_iff_prefix] at hmatch
      obtain ⟨rest, hrest⟩ := hmatch.1
      exact hdots (by rw [← hrest]; exact ⟨rfl, rfl⟩)
    refine ⟨.period, ?_, ?_⟩
    · rw [List.find?_cons_of_neg hnot]
      rfl
    · rw [if_neg (by simpa using hdots), run_pure]
      rfl

theorem completes_afterQuestion : Completes jsx 1 afterQuestion
    [.nullishAssign, .nullishCoalescing, .optionalChain, .question] := by
  unfold afterQuestion
  refine .eat (completes_eatOr rfl rfl rfl fun _ => ⟨rfl, rfl⟩)
    (completes_lookahead rfl rfl (fun _ => rfl) fun m d h => ?_) (by decide) (by decide) (by decide)
  rw [is_atCursor, peek_atCursor h, Text.isUnit_unitAt]
  rfl

theorem completes_afterLessThan : Completes jsx 1 (afterLessThan jsx)
    [.leftShiftAssign, .lessThanEqual, .leftShift, .jsxClosingTagStart, .lessThan] := by
  have hequal : Completes jsx 1
      (eat (CodeUnit.ofChar '=') >>= fun equal =>
        if equal then pure .lessThanEqual
        else state >>= fun m =>
          if jsx && m.is CodeUnit.slash && !m.peekIs 1 CodeUnit.slash && !m.peekIs 1 CodeUnit.star
          then advance >>= fun _ => pure .jsxClosingTagStart else pure .lessThan)
      [.lessThanEqual, .jsxClosingTagStart, .lessThan] := by
    refine .eat (.done rfl fun _ => rfl)
      (completes_lookahead rfl rfl (fun _ => rfl) fun m d h => ?_) (by decide) (by decide)
      (by decide)
    rw [is_atCursor, peekIs_atCursor h, peekIs_atCursor h, allowedBefore]
    cases jsx with
    | false => rw [Bool.false_and, Bool.false_and, Bool.false_and, Bool.false_and, Bool.and_false]
    | true =>
      cases (d.rest.drop 1).head? with
      | none =>
        show (true && d.rest.head? == some CodeUnit.slash && true && true) =
          (d.rest.head? == some CodeUnit.slash && (true && true))
        simp only [Bool.true_and, Bool.and_true]
      | some v => rw [Option.any_some, Bool.not_or, Bool.true_and, Bool.and_assoc]; rfl
  exact .eat (completes_eatOr rfl rfl rfl fun _ => ⟨rfl, rfl⟩) hequal (by decide) (by decide)
    (by decide)

theorem completes_afterGreaterThan : Completes jsx 1 afterGreaterThan
    [.unsignedRightShiftAssign, .unsignedRightShift, .rightShiftAssign, .greaterThanEqual,
      .rightShift, .greaterThan] := by
  have hshift : Completes jsx 2
      (doubledOr (CodeUnit.ofChar '>') .unsignedRightShift .unsignedRightShiftAssign
        .rightShiftAssign .rightShift)
      [.unsignedRightShiftAssign, .unsignedRightShift, .rightShiftAssign, .rightShift] :=
    .eat (completes_eatOr rfl rfl rfl fun _ => ⟨rfl, rfl⟩)
      (completes_eatOr rfl rfl rfl fun _ => ⟨rfl, rfl⟩) (by decide) (by decide) (by decide)
  exact .eat hshift (completes_eatOr rfl rfl rfl fun _ => ⟨rfl, rfl⟩) (by decide) (by decide)
    (by decide)

theorem completes_afterEquals :
    Completes jsx 1 afterEquals [.strictEqual, .equal, .arrow, .assign] := by
  unfold afterEquals
  exact .eat (completes_eatOr rfl rfl rfl fun _ => ⟨rfl, rfl⟩)
    (completes_eatOr rfl rfl rfl fun _ => ⟨rfl, rfl⟩) (by decide) (by decide) (by decide)

theorem completes_afterBang : Completes jsx 1 afterBang [.strictNotEqual, .notEqual, .bang] := by
  unfold afterBang
  exact .eat (completes_eatOr rfl rfl rfl fun _ => ⟨rfl, rfl⟩) (.done rfl fun _ => rfl)
    (by decide) (by decide) (by decide)

theorem completes_afterPlus :
    Completes jsx 1 (afterSign CodeUnit.plus .increment .plusAssign .plus)
      [.increment, .plusAssign, .plus] :=
  .eat (.done rfl fun _ => rfl) (completes_eatOr rfl rfl rfl fun _ => ⟨rfl, rfl⟩) (by decide)
    (by decide) (by decide)

theorem completes_afterMinus :
    Completes jsx 1 (afterSign CodeUnit.minus .decrement .minusAssign .minus)
      [.decrement, .minusAssign, .minus] :=
  .eat (.done rfl fun _ => rfl) (completes_eatOr rfl rfl rfl fun _ => ⟨rfl, rfl⟩) (by decide)
    (by decide) (by decide)

theorem completes_afterStar :
    Completes jsx 1 (doubledOr CodeUnit.star .exponent .exponentAssign .starAssign .star)
      [.exponentAssign, .exponent, .starAssign, .star] :=
  .eat (completes_eatOr rfl rfl rfl fun _ => ⟨rfl, rfl⟩)
    (completes_eatOr rfl rfl rfl fun _ => ⟨rfl, rfl⟩) (by decide) (by decide) (by decide)

theorem completes_afterAmpersand :
    Completes jsx 1
      (doubledOr (CodeUnit.ofChar '&') .logicalAnd .logicalAndAssign .ampersandAssign .ampersand)
      [.logicalAndAssign, .logicalAnd, .ampersandAssign, .ampersand] :=
  .eat (completes_eatOr rfl rfl rfl fun _ => ⟨rfl, rfl⟩)
    (completes_eatOr rfl rfl rfl fun _ => ⟨rfl, rfl⟩) (by decide) (by decide) (by decide)

theorem completes_afterPipe :
    Completes jsx 1
      (doubledOr (CodeUnit.ofChar '|') .logicalOr .logicalOrAssign .pipeAssign .pipe)
      [.logicalOrAssign, .logicalOr, .pipeAssign, .pipe] :=
  .eat (completes_eatOr rfl rfl rfl fun _ => ⟨rfl, rfl⟩)
    (completes_eatOr rfl rfl rfl fun _ => ⟨rfl, rfl⟩) (by decide) (by decide) (by decide)

/-- **The chain behind each first unit** completes the entries that begin with it. -/
theorem completes_of_mem_chains :
    ∀ chain ∈ punctuatorChains jsx,
      Completes jsx 1 chain.2 (all.filter fun p => p.units.head? == some chain.1) := by
  have hentries {u : CodeUnit} {r : Routine LexError Punctuator} {ps : List Punctuator}
      (h : Completes jsx 1 r ps) (hps : (all.filter fun p => p.units.head? == some u) = ps) :
      Completes jsx 1 r (all.filter fun p => p.units.head? == some u) := by
    rwa [hps]
  have hone {p : Punctuator} {u : CodeUnit} (hunits : p.units.length = 1)
      (hallowed : ∀ text, allowedBefore jsx text p = true)
      (hps : (all.filter fun p => p.units.head? == some u) = [p]) :=
    hentries (.done hunits hallowed) hps
  have hequal {longer shorter : Punctuator} {u : CodeUnit} (hlonger : longer.units.length = 2)
      (hshorter : shorter.units.length = 1) (hunit : longer.units[1]? = some (CodeUnit.ofChar '='))
      (hallowed : ∀ text, allowedBefore jsx text longer = true ∧
        allowedBefore jsx text shorter = true)
      (hps : (all.filter fun p => p.units.head? == some u) = [longer, shorter]) :=
    hentries (completes_eatOr hlonger hshorter hunit hallowed) hps
  -- one chain after the other, each with the entries of the list that begin with its unit
  simp only [punctuatorChains, List.forall_mem_cons]
  exact ⟨hone rfl (fun _ => rfl) (by decide), hone rfl (fun _ => rfl) (by decide),
    hone rfl (fun _ => rfl) (by decide), hone rfl (fun _ => rfl) (by decide),
    hone rfl (fun _ => rfl) (by decide), hone rfl (fun _ => rfl) (by decide),
    hone rfl (fun _ => rfl) (by decide), hone rfl (fun _ => rfl) (by decide),
    hone rfl (fun _ => rfl) (by decide), hone rfl (fun _ => rfl) (by decide),
    hentries completes_afterPeriod (by decide), hentries completes_afterQuestion (by decide),
    hentries completes_afterLessThan (by decide), hentries completes_afterGreaterThan (by decide),
    hentries completes_afterEquals (by decide), hentries completes_afterBang (by decide),
    hentries completes_afterPlus (by decide), hentries completes_afterMinus (by decide),
    hentries completes_afterStar (by decide),
    hequal rfl rfl rfl (fun _ => ⟨rfl, rfl⟩) (by decide),
    hentries completes_afterAmpersand (by decide), hentries completes_afterPipe (by decide),
    hequal rfl rfl rfl (fun _ => ⟨rfl, rfl⟩) (by decide), nofun⟩

/-- Every punctuator but those with a slash begins like a chain. -/
theorem mem_chains_of_head? (jsx : Bool) (p : Punctuator) (hu : p.units.head? = some u)
    (hslash : u ≠ CodeUnit.slash) : ∃ chain ∈ punctuatorChains jsx, chain.1 = u := by
  have hheads : (p.units.head?.all fun u =>
      u == CodeUnit.slash || ((punctuatorChains jsx).map Prod.fst).contains u) = true := by
    cases jsx <;> cases p <;> decide
  rw [hu, Option.all_some, Bool.or_eq_true, beq_iff_eq, List.contains_iff_mem, List.mem_map]
    at hheads
  exact hheads.resolve_left hslash

variable {c : Cursor} {rest : List CodeUnit}

/-- A punctuator is taken whole. -/
theorem steps_units (hp : ofText? jsx c.rest = some p) :
    c.stepInLine.steps (p.units.length - 1) = c.advance p.units.length := by
  have hpos := Lexeme.length_units_pos p
  have hspelled := (isLongest_of_ofText? hp).fits.spelled
  have hline : ∀ v ∈ c.rest.take p.units.length, v.isLineTerminator = false := by
    rw [← List.prefix_iff_eq_take.mp hspelled]
    exact inLine_units p
  rw [← Cursor.steps_eq_advance hline, ← Nat.sub_add_cancel hpos]
  rfl

/-- What a chain has completed is what the reader finds. -/
theorem Completes.run_eq (hr : Completes jsx 1 r ps)
    (hps : (all.filter fun p => p.units.head? == some u) = ps) (h : m.Admits c)
    (hrest : c.rest = u :: rest) :
    (r >>= fun p => pure (punctuatorLexeme p)).run (m.atCursor c.stepInLine) =
      m.carryOut c.advance (Lexeme.readPunctuator jsx c.rest) := by
  obtain ⟨p, hfind, hrun⟩ := hr m c.stepInLine h.stepInLine
  rw [Cursor.rest_stepInLine, hrest, List.drop_succ_cons, List.drop_zero, ← hps, ← ofText?_cons,
    ← hrest] at hfind
  rw [run_bind_of_ok hrun, steps_units hfind, run_pure, Lexeme.readPunctuator, hfind]
  exact (carryOut_plain _ _ _).symm

/-- **A punctuator** other than a slash, or an error that points at its unit. -/
theorem punctuator_atCursor (ctx : Context) (h : m.Admits c)
    (hstart : m.tokenLocation = c.location.wrap) (hrest : c.rest = u :: rest)
    (hline : u.isLineTerminator = false) (hascii : u.isAscii = true)
    (hslash : u ≠ CodeUnit.slash) :
    (punctuator ctx).run (m.atCursor c) =
      m.carryOut c.advance (Lexeme.readPunctuator ctx.jsx c.rest) := by
  have hstep : c.stepInLine = c.advance 1 := by
    rw [Cursor.advance_one hrest hline, Cursor.stepInLine, hrest]
  have hadvance := advance_eq_stepInLine (ε := LexError) h
  unfold punctuator
  rw [run_state_bind, run_bind_of_ok hadvance, current_atCursor, Text.unit?_unitAt, hrest,
    List.head?_cons, Option.bind_some]
  cases hchain : punctuatorAfter ctx.jsx u with
  | none =>
    have hnone : ofText? ctx.jsx (u :: rest) = none := by
      -- where there is no chain, there is no entry
      have hempty : (all.filter fun p => p.units.head? == some u) = [] := by
        apply List.filter_eq_nil_iff.mpr
        intro p _ hp
        obtain ⟨chain, hmem, hfst⟩ := mem_chains_of_head? ctx.jsx p (beq_iff_eq.mp hp) hslash
        exact absurd hfst.symm (bne_iff_ne.mp (List.lookup_eq_none_iff.mp hchain chain hmem))
      rw [ofText?_cons, hempty, List.find?_nil]
    rw [Lexeme.readPunctuator, hnone, Lexeme.offender, Lexeme.head?_of_isAscii hascii,
      carryOut_error, note_empty, hstep]
    show some (Except.error (⟨_, m.tokenLocation⟩ : LexError), _) = _
    rw [hstart]
    rfl
  | some r =>
    obtain ⟨l₁, l₂, hchains, -⟩ := List.lookup_eq_some_iff.mp hchain
    have hmem : (u, r) ∈ punctuatorChains ctx.jsx := by rw [hchains]; simp
    have hrun := (completes_of_mem_chains (u, r) hmem).run_eq rfl h hrest
    rw [hrest] at hrun
    exact hrun

/-! ## Slashes -/

theorem completes_afterSlash :
    Completes jsx 1 (afterSlash jsx) [.slashAssign, .jsxSelfClosing, .slash] := by
  have hclosing : Completes jsx 1
      (if jsx then eatOr (CodeUnit.ofChar '>') .jsxSelfClosing .slash else pure .slash)
      [.jsxSelfClosing, .slash] := by
    cases jsx with
    | true => exact completes_eatOr rfl rfl rfl fun _ => ⟨rfl, rfl⟩
    | false =>
      intro m d h
      have hnot : ¬matchesBehind false 1 d.rest .jsxSelfClosing = true := by
        rw [matchesBehind, allowedBefore, Bool.and_false]
        decide
      rw [List.find?_cons_of_neg hnot]
      exact Completes.done (p := .slash) rfl (fun _ => rfl) m d h
  unfold afterSlash
  exact .eat (.done rfl fun _ => rfl) hclosing (by decide) (by decide) (by decide)

/-- **A slash** where no expression may begin. -/
theorem slash_atCursor (ctx : Context) (h : m.Admits c) (hrest : c.rest = CodeUnit.slash :: rest)
    (hregexp : ctx.allowRegExp = false) :
    (slash ctx).run (m.atCursor c) =
      m.carryOut c.advance (Lexeme.readPunctuator ctx.jsx c.rest) := by
  unfold slash
  rw [hregexp, if_neg (by decide), run_bind_of_ok (advance_eq_stepInLine h)]
  exact completes_afterSlash.run_eq (by decide) h hrest

end Routine

end EcmaLex
