import EcmaLex.Lexeme.Jsx
import EcmaLex.Lexeme.Read
import EcmaLex.Proofs.LineEnds

/-!
# Readers stop at clean cuts

A reader reports positions: the end of what it took, or the place of an error and the place where it
gave up. All of them are clean cuts of the text it was given (`Outcome.Clean`), whatever the text,
so that a scanner which goes on from any of them still counts lines as they are.

The combinators hand the property on, so each reader needs an argument only where it takes units
itself: these are no carriage returns, or a carriage return is taken together with its line feed.
-/

namespace EcmaLex

open Text (CleanCut)

/-- All positions of a result are clean cuts of the text that was read. -/
def Outcome.Clean {α : Type} (text : List CodeUnit) : Outcome α → Prop
  | .ok x => CleanCut text x.length
  | .error f => CleanCut text f.place ∧ CleanCut text f.stop

/-! ## Combinators -/

namespace Outcome

variable {α β : Type} {text : List CodeUnit} {n : Nat} {flags : TokenFlags}

theorem clean_failHere (text : List CodeUnit) (cause : LexError.Cause) :
    Clean text (failHere cause : Outcome α) :=
  ⟨.zero text, .zero text⟩

theorem Clean.shift {o : Outcome α} (hn : CleanCut text n) (h : Clean (text.drop n) o) :
    Clean text (o.shift n flags) := by
  cases o with
  | ok x => exact hn.add h
  | error f => exact ⟨hn.add h.1, hn.add h.2⟩

/-- A unit that is no carriage return, then `n` more. -/
theorem Clean.shift_cons {u : CodeUnit} {rest : List CodeUnit} {o : Outcome α}
    (hu : u ≠ CodeUnit.carriageReturn) (hn : CleanCut rest n) (h : Clean (rest.drop n) o) :
    Clean (u :: rest) (o.shift (1 + n) flags) := by
  refine .shift (.cons hu hn) ?_
  rw [Nat.add_comm, List.drop_succ_cons]
  exact h

theorem Clean.mapValue {o : Outcome α} (f : α → β) (h : Clean text o) :
    Clean text (o.mapValue f) := by
  cases o with
  | ok x => exact h
  | error e => exact h

end Outcome

namespace Reader

variable {α β : Type} {text : List CodeUnit}

/-- Readers one after the other stop at clean cuts if each does. The second only has to on what the
first leaves. -/
theorem clean_bind {r : Reader α} {next : α → Reader β} (hr : (r text).Clean text)
    (hnext : ∀ x, r text = .ok x →
      (next x.value (text.drop x.length)).Clean (text.drop x.length)) :
    ((r >>= next) text).Clean text := by
  show (r.andThen next text).Clean text
  unfold andThen
  cases hx : r text with
  | error f =>
    rw [hx] at hr
    exact hr
  | ok x =>
    rw [hx] at hr
    exact .shift hr (hnext x hx)

theorem clean_interpret {r : Reader α} {f : Reading α → List CodeUnit → Except LexError.Cause β}
    (hr : (r text).Clean text) : (r.interpret f text).Clean text := by
  unfold interpret
  cases hx : r text with
  | error e =>
    rw [hx] at hr
    exact hr
  | ok x =>
    rw [hx] at hr
    dsimp only
    split
    · exact hr
    · exact ⟨.zero text, hr⟩

theorem clean_pure (a : α) (text : List CodeUnit) : ((pure a : Reader α) text).Clean text :=
  CleanCut.zero text

theorem clean_fail (cause : LexError.Cause) (text : List CodeUnit) :
    ((fail cause : Reader α) text).Clean text :=
  Outcome.clean_failHere text cause

end Reader

/-! ## Code points -/

namespace Utf16

/-- A unit that is no lead surrogate is a code point by itself. -/
theorem head?_cons_of_not_isLead {u : CodeUnit} (h : u.isLead = false) (rest : List CodeUnit) :
    head? (u :: rest) = some (u.toNat, 1) := by
  cases rest with
  | nil => rfl
  | cons v rest => simp [head?, h]

/-- A code point other than a carriage return ends at a clean cut. -/
theorem cleanCut_of_head? {text : List CodeUnit} {c : CodePoint} {width : Nat}
    (h : head? text = some (c, width)) (hc : text.head? ≠ some CodeUnit.carriageReturn) :
    CleanCut text width := by
  match text with
  | [] => simp [head?] at h
  | [u] =>
    simp only [head?, Option.some.injEq, Prod.mk.injEq] at h
    rw [← h.2]
    exact .length [u]
  | u :: v :: rest =>
    have hu : u ≠ CodeUnit.carriageReturn := by simpa using hc
    simp only [head?] at h
    split at h
    · next hpair =>
      simp only [Option.some.injEq, Prod.mk.injEq] at h
      -- the second half of a pair is a trail surrogate
      have hv : v ≠ CodeUnit.carriageReturn := by
        rintro rfl
        have hcr : CodeUnit.carriageReturn.isTrail = false := by decide
        rw [hcr] at hpair
        simp at hpair
      rw [← h.2]
      exact .cons hu (.one hv)
    · simp only [Option.some.injEq, Prod.mk.injEq] at h
      rw [← h.2]
      exact .one hu

end Utf16

/-! ## Escapes -/

namespace Escape

theorem ne_return_of_hexDigit? {u : CodeUnit} {d : Nat} (h : u.hexDigit? = some d) :
    u ≠ CodeUnit.carriageReturn := by
  have hcr : CodeUnit.carriageReturn.hexDigit? = none := by decide
  rintro rfl
  rw [hcr] at h
  simp at h

theorem clean_hexDigit (error : EscapeError) (text : List CodeUnit) :
    (hexDigit error text).Clean text := by
  cases text with
  | nil => exact Outcome.clean_failHere _ _
  | cons u rest =>
    simp only [hexDigit]
    split
    · next d hd => exact CleanCut.one (ne_return_of_hexDigit? hd)
    · exact Outcome.clean_failHere _ _

theorem clean_hexPair (text : List CodeUnit) : (hexPair text).Clean text :=
  Reader.clean_bind (clean_hexDigit _ _) fun _ _ =>
    Reader.clean_bind (clean_hexDigit _ _) fun _ _ => Reader.clean_pure _ _

theorem clean_hexQuad (text : List CodeUnit) : (hexQuad text).Clean text :=
  Reader.clean_bind (clean_hexDigit _ _) fun _ _ =>
    Reader.clean_bind (clean_hexDigit _ _) fun _ _ =>
      Reader.clean_bind (clean_hexDigit _ _) fun _ _ =>
        Reader.clean_bind (clean_hexDigit _ _) fun _ _ => Reader.clean_pure _ _

theorem clean_bracedDigits (value : Nat) (count : Int32) (text : List CodeUnit) :
    (bracedDigits value count text).Clean text := by
  induction text generalizing value count with
  | nil => exact Outcome.clean_failHere _ _
  | cons u rest ih =>
    simp only [bracedDigits]
    split
    · next d hd =>
      split
      · exact Outcome.clean_failHere _ _
      · exact .shift (CleanCut.one (ne_return_of_hexDigit? hd)) (ih _ _)
    · split
      · next hb =>
        have hu : u = CodeUnit.rightBrace := by
          rw [Bool.and_eq_true, beq_iff_eq] at hb
          exact hb.2
        rw [hu]
        exact CleanCut.one (by decide)
      · exact Outcome.clean_failHere _ _

theorem clean_unicode (text : List CodeUnit) : (unicode text).Clean text := by
  unfold unicode
  split
  · split
    · next hu =>
      subst hu
      exact .shift (CleanCut.one (by decide)) (clean_bracedDigits _ _ _)
    · exact clean_hexQuad _
  · exact clean_hexQuad _

/-- A line terminator sequence is taken whole. -/
theorem cleanCut_lineTerminatorLength (u : CodeUnit) (rest : List CodeUnit) :
    CleanCut (u :: rest) (lineTerminatorLength (u :: rest)) := by
  cases rest with
  | nil => exact .length [u]
  | cons v rest =>
    simp only [lineTerminatorLength]
    split
    · next h =>
      rw [h.2]
      exact CleanCut.of_before (n := 1) (by simp) (by simp; decide)
    · next h => exact ⟨by simp, by simpa [Text.SplitsLineEnd] using h⟩

theorem cleanCut_octalDigits (text : List CodeUnit) :
    CleanCut text (octalDigits text).length := by
  have hle (k : Nat) : ((text.take k).takeWhile CodeUnit.isOctalDigit).length ≤
      (text.takeWhile CodeUnit.isOctalDigit).length := by
    rw [← List.take_takeWhile, List.length_take]
    exact Nat.min_le_right _ _
  exact .of_le_takeWhile (by decide) (hle _)

theorem clean_octal (refusal : Option EscapeError) (text : List CodeUnit) :
    (octal refusal text).Clean text := by
  cases refusal with
  | some e => exact Outcome.clean_failHere _ _
  | none => exact cleanCut_octalDigits text

theorem clean_body (refusal : Option EscapeError) (text : List CodeUnit) :
    (body refusal text).Clean text := by
  unfold body
  split
  · exact Outcome.clean_failHere _ _
  · next u rest =>
    split
    · exact cleanCut_lineTerminatorLength u rest
    · next hlt =>
      -- from here on the first unit is on its line
      have hu := CodeUnit.ne_return_of_not_isLineTerminator hlt
      split
      · exact CleanCut.one hu
      split
      · exact .mapValue _ (.shift (CleanCut.one hu) (clean_hexPair _))
      split
      · exact .mapValue _ (.shift (CleanCut.one hu) (clean_unicode _))
      split
      · exact CleanCut.one hu
      split
      · exact .mapValue _ (clean_octal _ _)
      split
      · exact Outcome.clean_failHere _ _
      split
      · next h => exact Utf16.cleanCut_of_head? h (by simpa using hu)
      · exact Outcome.clean_failHere _ _

end Escape

/-! ## Names -/

namespace Identifier

/-- A carriage return stands in no name. -/
theorem nameChar?_return (first : Bool) : nameChar? first CodeUnit.carriageReturn.toNat = none := by
  cases first <;> decide

/-- A code point that stands in a name ends at a clean cut. -/
theorem cleanCut_of_nameChar? {first : Bool} {text : List CodeUnit} {c : CodePoint} {width : Nat}
    {ch : Char} (h : Utf16.head? text = some (c, width)) (hc : nameChar? first c = some ch) :
    CleanCut text width := by
  refine Utf16.cleanCut_of_head? h ?_
  intro hcr
  obtain ⟨rest, rfl⟩ : ∃ rest, text = CodeUnit.carriageReturn :: rest := by
    cases text with
    | nil => simp at hcr
    | cons u rest => exact ⟨rest, by simpa using hcr⟩
  rw [Utf16.head?_cons_of_not_isLead (by decide), Option.some.injEq, Prod.mk.injEq] at h
  rw [← h.1, nameChar?_return] at hc
  simp at hc

theorem clean_escapedItem (first : Bool) {text : List CodeUnit}
    (h₀ : text.head? = some CodeUnit.backslash)
    (h₁ : (text.drop 1).head? = some (CodeUnit.ofChar 'u')) :
    (escapedItem first text).Clean text := by
  obtain ⟨rest, rfl⟩ : ∃ rest, text = CodeUnit.backslash :: CodeUnit.ofChar 'u' :: rest := by
    match text with
    | [] => simp at h₀
    | [u] => simp at h₁
    | u :: v :: rest =>
      simp only [List.head?_cons, Option.some.injEq, List.drop_succ_cons, List.drop_zero] at h₀ h₁
      exact ⟨rest, by rw [h₀, h₁]⟩
  have htwo : CleanCut (CodeUnit.backslash :: CodeUnit.ofChar 'u' :: rest) 2 :=
    .cons (by decide) (.one (by decide))
  have hclean := Escape.clean_unicode rest
  unfold escapedItem
  simp only [List.drop_succ_cons, List.drop_zero]
  cases hx : Escape.unicode rest with
  | error f =>
    rw [hx] at hclean
    exact ⟨.zero _, htwo.add hclean.2⟩
  | ok x =>
    rw [hx] at hclean
    dsimp only
    split
    · exact htwo.add hclean
    · exact ⟨.zero _, htwo.add hclean⟩

theorem clean_item? {first : Bool} {text : List CodeUnit} {o : Outcome Char}
    (h : item? first text = some o) : o.Clean text := by
  unfold item? at h
  split at h
  · next h₀ =>
    split at h
    · next h₁ =>
      obtain rfl := Option.some.inj h
      exact clean_escapedItem first h₀ h₁
    · split at h
      · simp at h
      · obtain rfl := Option.some.inj h
        exact Outcome.clean_failHere _ _
  · split at h
    · simp at h
    · next c width hc =>
      obtain ⟨ch, hch, rfl⟩ := Option.map_eq_some_iff.mp h
      exact cleanCut_of_nameChar? hc hch

theorem clean_parts (text : List CodeUnit) : (parts text).Clean text := by
  fun_induction parts text with
  | case1 text h => exact CleanCut.zero text
  | case2 text f h => exact clean_item? h
  | case3 text x h ih => exact .mapValue _ (.shift (clean_item? h) ih)

theorem clean_start (text : List CodeUnit) : (start text).Clean text := by
  unfold start
  split
  · exact Outcome.clean_failHere _ _
  · next o h => exact clean_item? h

theorem clean_name (text : List CodeUnit) : (name text).Clean text :=
  Reader.clean_bind (clean_start text) fun _ _ =>
    Reader.clean_bind (clean_parts _) fun _ _ => Reader.clean_pure _ _

theorem clean_read (text : List CodeUnit) : (read text).Clean text :=
  Reader.clean_interpret (clean_name text)

theorem clean_readPrivate {u : CodeUnit} (hu : u ≠ CodeUnit.carriageReturn)
    (rest : List CodeUnit) : (readPrivate (u :: rest)).Clean (u :: rest) := by
  unfold readPrivate
  dsimp only
  split
  · exact .mapValue _ (.shift (CleanCut.one hu) (clean_name _))
  · exact ⟨.zero _, .one hu⟩

end Identifier

/-! ## Numbers -/

namespace Numeric

/-- No run of digits contains a carriage return. -/
theorem inRun_return (radix : Radix) (separators : Bool) :
    inRun radix separators CodeUnit.carriageReturn = false := by
  cases radix <;> cases separators <;> decide

/-- The second of two adjacent underscores stands within the run. -/
theorem lt_length_of_doubled? {run : List CodeUnit} {i : Nat} (h : doubled? run = some i) :
    i < run.length := by
  fun_induction doubled? run generalizing i with
  | case1 u v rest huv =>
    obtain rfl := Option.some.inj h
    simp
  | case2 u v rest huv ih =>
    obtain ⟨j, hj, rfl⟩ := Option.map_eq_some_iff.mp h
    have := ih hj
    simp only [List.length_cons] at this ⊢
    omega
  | case3 => simp at h

/-- A misplaced separator is reported within its run. -/
theorem le_length_of_separatorFault? {run : List CodeUnit} {f : Fault}
    (h : separatorFault? run = some f) : f.place ≤ run.length ∧ f.stop ≤ run.length := by
  unfold separatorFault? at h
  split at h
  · obtain rfl := Option.some.inj h
    exact ⟨Nat.zero_le _, Nat.zero_le _⟩
  · split at h
    · next i hi =>
      obtain rfl := Option.some.inj h
      have := lt_length_of_doubled? hi
      exact ⟨Nat.le_of_lt this, Nat.le_of_lt this⟩
    · split at h
      · obtain rfl := Option.some.inj h
        exact ⟨Nat.sub_le _ _, Nat.le_refl _⟩
      · simp at h

theorem clean_digits (radix : Radix) (separators : Bool) (text : List CodeUnit) :
    (digits radix separators text).Clean text := by
  have hcut {n : Nat} (hn : n ≤ (text.takeWhile (inRun radix separators)).length) :
      CleanCut text n :=
    .of_le_takeWhile (inRun_return radix separators) hn
  unfold digits
  dsimp only
  split
  · next f hf =>
    have hle := le_length_of_separatorFault? hf
    exact ⟨hcut hle.1, hcut hle.2⟩
  · exact hcut (Nat.le_refl _)

theorem clean_checkEnd (text : List CodeUnit) : (checkEnd text).Clean text := by
  unfold checkEnd
  split
  · exact CleanCut.zero text
  · split
    · exact Outcome.clean_failHere _ _
    · exact CleanCut.zero text

theorem clean_numberEnd (m : Mode) (text : List CodeUnit) : (numberEnd m text).Clean text := by
  unfold numberEnd
  split
  · exact Outcome.clean_failHere _ _
  · exact clean_checkEnd text

/-- Where the suffix stands, it is the first unit. -/
theorem head?_of_hasSuffix {m : Mode} {text : List CodeUnit} (h : hasSuffix m text = true) :
    text.head? = some (CodeUnit.ofChar 'n') := by
  rw [hasSuffix, Bool.and_eq_true, beq_iff_eq] at h
  exact h.2

theorem clean_bigIntEnd {m : Mode} {text : List CodeUnit} (h : hasSuffix m text = true) :
    (bigIntEnd text).Clean text := by
  cases text with
  | nil => exact absurd (head?_of_hasSuffix h) (by simp)
  | cons u rest =>
    have hu : u = CodeUnit.ofChar 'n' := by simpa using head?_of_hasSuffix h
    refine Reader.clean_bind ?_ fun _ _ => clean_checkEnd _
    rw [hu]
    exact CleanCut.one (by decide)

theorem clean_fraction (m : Mode) (text : List CodeUnit) : (fraction m text).Clean text := by
  unfold fraction
  split
  · next h =>
    cases text with
    | nil => simp at h
    | cons u rest =>
      have hu : u = CodeUnit.period := by simpa using h
      refine .mapValue _ (.shift ?_ (clean_digits _ _ _))
      rw [hu]
      exact CleanCut.one (by decide)
  · exact CleanCut.zero text

theorem clean_exponentDigits (m : Mode) (text : List CodeUnit) :
    (exponentDigits m text).Clean text := by
  apply Reader.clean_bind (clean_digits _ _ _)
  intro x _
  split
  · exact Reader.clean_fail _ _
  · exact CleanCut.zero _

/-- The letter of an exponent and its sign are no line ends. -/
theorem clean_exponent (m : Mode) (text : List CodeUnit) : (exponent m text).Clean text := by
  unfold exponent
  split
  · next u rest =>
    split
    · next hu =>
      have hmark : u ≠ CodeUnit.carriageReturn := by
        rintro rfl
        exact absurd hu (by decide)
      dsimp only
      refine .shift_cons hmark ?_ (clean_exponentDigits m _)
      split
      · next hs =>
        cases rest with
        | nil => simp at hs
        | cons v rest =>
          refine .one ?_
          rintro rfl
          rw [List.head?_cons, Option.any_some] at hs
          exact absurd hs (by decide)
      · exact .zero _
    · exact CleanCut.zero _
  · exact CleanCut.zero _

theorem clean_prefixed (m : Mode) {radix : Radix} {u v : CodeUnit}
    (hu : u ≠ CodeUnit.carriageReturn) (hv : v ≠ CodeUnit.carriageReturn)
    (rest : List CodeUnit) : (prefixed m radix (u :: v :: rest)).Clean (u :: v :: rest) := by
  refine Reader.clean_bind ?_ fun _ _ => Reader.clean_bind (clean_digits _ _ _) fun x _ => ?_
  · exact .cons hu (.one hv)
  · split
    · exact Reader.clean_fail _ _
    · refine Reader.clean_bind (CleanCut.zero _) fun y hy => ?_
      obtain rfl := Except.ok.inj hy
      split
      · next hs =>
        exact Reader.clean_bind (clean_bigIntEnd hs) fun _ _ => Reader.clean_pure _ _
      · exact Reader.clean_bind (clean_checkEnd _) fun _ _ => Reader.clean_pure _ _

/-- What stands after the integer part of a decimal literal that is no BigInt. -/
theorem clean_tail (m : Mode) (form : Form) (text : List CodeUnit) :
    ((do fraction m; exponent m; numberEnd m; return form : Reader Form) text).Clean text :=
  Reader.clean_bind (clean_fraction m _) fun _ _ =>
    Reader.clean_bind (clean_exponent m _) fun _ _ =>
      Reader.clean_bind (clean_numberEnd m _) fun _ _ => Reader.clean_pure _ _

theorem clean_leadingZero (m : Mode) (text : List CodeUnit) : (leadingZero m text).Clean text := by
  refine Reader.clean_bind (Reader.clean_interpret ?_) fun x _ => ?_
  · exact CleanCut.of_le_takeWhile (by decide) (Nat.le_refl _)
  · refine Reader.clean_bind (CleanCut.zero _) fun _ _ => ?_
    split
    · exact Reader.clean_bind (clean_numberEnd m _) fun _ _ => Reader.clean_pure _ _
    · exact clean_tail m _ _

theorem clean_decimal (m : Mode) (text : List CodeUnit) : (decimal m text).Clean text := by
  refine Reader.clean_bind (clean_digits _ _ _) fun x _ =>
    Reader.clean_bind (CleanCut.zero _) fun y hy => ?_
  obtain rfl := Except.ok.inj hy
  split
  · next hs => exact Reader.clean_bind (clean_bigIntEnd hs) fun _ _ => Reader.clean_pure _ _
  · exact clean_tail m _ _

theorem clean_form (m : Mode) (text : List CodeUnit) : (form m text).Clean text := by
  unfold form
  split
  · next u v rest =>
    split
    · next hu =>
      subst hu
      split
      · next radix hv =>
        refine clean_prefixed m (by decide) ?_ rest
        rintro rfl
        exact absurd hv (by decide +revert)
      · split
        · exact clean_leadingZero m _
        · split
          · exact ⟨.one (by decide), .one (by decide)⟩
          · exact clean_decimal m _
    · exact clean_decimal m _
  · exact clean_decimal m _

theorem clean_read (m : Mode) (text : List CodeUnit) : (read m text).Clean text :=
  Reader.clean_interpret (clean_form m text)

end Numeric

/-! ## Strings and templates -/

namespace StringLiteral

theorem clean_body (strict : Bool) {quote : CodeUnit} (hq : quote ≠ CodeUnit.carriageReturn)
    (text : List CodeUnit) : (body strict quote text).Clean text := by
  fun_induction body strict quote text with
  | case1 => exact Outcome.clean_failHere _ _
  | case2 rest => exact CleanCut.one hq
  | case3 => exact Outcome.clean_failHere _ _
  | case4 => exact ⟨.length _, .length _⟩
  | case5 rest _ f hf =>
    have hclean : Outcome.Clean rest (.error f : Outcome _) := hf ▸ Escape.clean_body _ rest
    exact ⟨.zero _, .cons (by decide) hclean.2⟩
  | case6 rest _ e he _ _ ih =>
    have hclean : Outcome.Clean rest (.ok e) := he ▸ Escape.clean_body _ rest
    exact .mapValue _ (.shift_cons (by decide) hclean ih)
  | case7 u rest _ hnl _ ih =>
    have hu : u ≠ CodeUnit.carriageReturn := fun h => hnl (.inr h)
    exact .mapValue _ (.shift (CleanCut.one hu) ih)

theorem clean_read (strict : Bool) {quote : CodeUnit} (hq : quote ≠ CodeUnit.carriageReturn)
    (rest : List CodeUnit) : (read strict (quote :: rest)).Clean (quote :: rest) := by
  rw [read]
  exact .mapValue _ (.shift (CleanCut.one hq) (clean_body strict hq rest))

end StringLiteral

namespace Template

/-- A carriage return in a template is taken with its line feed. -/
theorem cleanCut_return (rest : List CodeUnit) :
    CleanCut (CodeUnit.carriageReturn :: rest)
      (1 + if rest.head? = some CodeUnit.lineFeed then 1 else 0) := by
  cases rest with
  | nil => exact .length [CodeUnit.carriageReturn]
  | cons v rest =>
    by_cases hv : v = CodeUnit.lineFeed
    · rw [hv]
      exact CleanCut.of_before (n := 1) (by simp) (by simp; decide)
    · simp only [List.head?_cons, Option.some.injEq, hv, if_false]
      exact .of_after (by simp) (by simpa using hv)

theorem clean_span (tagged : Bool) (text : List CodeUnit) : (span tagged text).Clean text := by
  -- by the recursion of `span`: a delimiter, an escape, an escape that is refused, a line end of
  -- one or two units, or a unit that stands for itself
  fun_induction span tagged text with
  | case1 => exact Outcome.clean_failHere _ _
  | case2 rest => exact CleanCut.one (by decide)
  | case3 u rest _ h =>
    obtain ⟨rfl, hbrace⟩ := h
    cases rest with
    | nil => simp at hbrace
    | cons v rest =>
      obtain rfl : v = CodeUnit.leftBrace := by simpa using hbrace
      exact CleanCut.cons (by decide) (.one (by decide))
  | case4 => exact ⟨.length _, .length _⟩
  | case5 rest _ e he _ _ ih =>
    have hclean : Outcome.Clean rest (.ok e) := he ▸ Escape.clean_body _ rest
    exact .mapValue _ (.shift_cons (by decide) hclean ih)
  | case6 rest _ f hf _ _ _ ih =>
    have hclean : Outcome.Clean rest (.error f : Outcome _) := hf ▸ Escape.clean_body _ rest
    exact .mapValue _ (.shift_cons (by decide) hclean.2 ih)
  | case7 rest _ f hf _ =>
    have hclean : Outcome.Clean rest (.error f : Outcome _) := hf ▸ Escape.clean_body _ rest
    exact ⟨.zero _, .cons (by decide) hclean.2⟩
  | case8 rest n _ _ _ ih =>
    refine .mapValue _ (.shift (cleanCut_return rest) ?_)
    rw [Nat.add_comm, List.drop_succ_cons]
    exact ih
  | case9 u rest _ _ _ hu ih => exact .mapValue _ (.shift (CleanCut.one hu) ih)

theorem clean_read (tagged first : Bool) {u : CodeUnit} (hu : u ≠ CodeUnit.carriageReturn)
    (rest : List CodeUnit) : (read tagged first (u :: rest)).Clean (u :: rest) :=
  .mapValue _ (.shift (CleanCut.one hu) (clean_span tagged rest))

theorem clean_readContinuation (tagged : Bool) (text : List CodeUnit) :
    (readContinuation tagged text).Clean text := by
  unfold readContinuation
  split
  · next h =>
    cases text with
    | nil => simp at h
    | cons u rest =>
      obtain rfl : u = CodeUnit.rightBrace := by simpa using h
      exact clean_read tagged false (by decide) rest
  · exact Outcome.clean_failHere _ _

end Template

/-! ## Regular expressions -/

namespace RegExp

/-- The position at which a pattern ends, its slash included, or turns out not to end. -/
def patternStop : Except Nat Nat → Nat
  | .ok n => n + 1
  | .error n => n

/-- The units of a pattern are all on one line. -/
theorem cleanCut_pattern (inClass : Bool) (text : List CodeUnit) :
    CleanCut text (patternStop (pattern inClass text)) := by
  fun_induction pattern inClass text with
  | case1 => exact .zero _
  | case2 => exact .zero _
  | case3 => exact .length _
  | case4 => exact .one (by decide)
  | case5 inClass v rest hv n hn _ ih =>
    rw [hn] at ih
    have hv := CodeUnit.ne_return_of_not_isLineTerminator hv
    exact .succ (by decide) (.succ hv ih)
  | case6 inClass v rest hv n hn _ ih =>
    rw [hn] at ih
    have hv := CodeUnit.ne_return_of_not_isLineTerminator hv
    exact .succ (by decide) (.succ hv ih)
  | case7 inClass u rest hu => exact .one (CodeUnit.ne_return_of_not_isLineTerminator hu)
  | case8 inClass u rest hu _ _ inClass' n hn ih =>
    rw [hn] at ih
    exact .succ (CodeUnit.ne_return_of_not_isLineTerminator hu) ih
  | case9 inClass u rest hu _ _ inClass' n hn ih =>
    rw [hn] at ih
    exact .succ (CodeUnit.ne_return_of_not_isLineTerminator hu) ih

theorem clean_flags (seen : List Char) (text : List CodeUnit) : (flags seen text).Clean text := by
  induction text generalizing seen with
  | nil => exact CleanCut.zero _
  | cons u rest ih =>
    unfold flags
    split
    · exact Outcome.clean_failHere _ _
    split
    · exact CleanCut.zero _
    next hpart =>
    have hu : u ≠ CodeUnit.carriageReturn := by
      rintro rfl
      rw [Utf16.head?_cons_of_not_isLead (by decide)] at hpart
      exact hpart (by decide)
    dsimp only
    split
    · exact Outcome.clean_failHere _ _
    split
    · exact Outcome.clean_failHere _ _
    exact .mapValue _ (.shift (CleanCut.one hu) (ih _))

theorem clean_body (text : List CodeUnit) : (body text).Clean text := by
  have hcut := cleanCut_pattern false text
  unfold body
  cases hp : pattern false text with
  | error n =>
    rw [hp] at hcut
    exact ⟨hcut, hcut⟩
  | ok n =>
    rw [hp] at hcut
    exact .mapValue _ (.shift hcut (clean_flags _ _))

theorem clean_read {u : CodeUnit} (hu : u ≠ CodeUnit.carriageReturn) (rest : List CodeUnit) :
    (read (u :: rest)).Clean (u :: rest) :=
  Reader.clean_interpret (Outcome.Clean.shift (CleanCut.one hu) (clean_body rest))

end RegExp

/-! ## Tags -/

namespace Jsx

theorem clean_child (text : List CodeUnit) : (child text).Clean text := by
  cases text with
  | nil => exact CleanCut.zero _
  | cons u rest =>
    simp only [child]
    split
    · next hu =>
      subst hu
      split
      · next hs =>
        cases rest with
        | nil => simp at hs
        | cons v rest =>
          obtain rfl : v = CodeUnit.slash := by simpa using hs
          exact CleanCut.succ (by decide) (.one (by decide))
      · exact CleanCut.one (by decide)
    · split
      · next hu =>
        subst hu
        exact CleanCut.one (by decide)
      · -- line feeds are text, so text does not end in front of one
        have hle := (List.takeWhile_prefix isText (l := rest)).length_le
        apply CleanCut.of_after (Nat.succ_le_succ hle)
        intro hlf
        rw [List.length_cons, List.getElem?_cons_succ] at hlf
        exact absurd (Text.eq_false_of_getElem?_takeWhile hlf) (by decide)

/-- An attribute value ends with the quote it began with. -/
theorem clean_attributeValue {quote : CodeUnit} (hq : quote ≠ CodeUnit.carriageReturn)
    (rest : List CodeUnit) : (attributeValue (quote :: rest)).Clean (quote :: rest) := by
  have hle := (List.takeWhile_prefix (· != quote) (l := rest)).length_le
  simp only [attributeValue]
  split
  · next hlt =>
    -- the unit in front of the cut is the quote
    refine CleanCut.of_before (n := (rest.takeWhile (· != quote)).length + 1) ?_ fun hcr => ?_
    · rw [List.length_cons]
      omega
    · rw [List.getElem?_cons_succ] at hcr
      have hend := Text.eq_false_of_getElem?_takeWhile hcr
      rw [bne_eq_false_iff_eq] at hend
      exact hq hend.symm
  · next hge =>
    have hall : (rest.takeWhile (· != quote)).length = rest.length := by omega
    rw [hall]
    exact ⟨.length (quote :: rest), .length (quote :: rest)⟩

theorem cleanCut_nameLength (text : List CodeUnit) : CleanCut text (nameLength text) := by
  have hpart {u : CodeUnit} (h : u = CodeUnit.minus ∨ CodePoint.isIdentifierPart u.toNat) :
      u ≠ CodeUnit.carriageReturn := by
    rintro rfl
    exact absurd h (by decide)
  fun_induction nameLength text with
  | case1 => exact .zero _
  | case2 u h => exact .one (hpart h)
  | case3 => exact .zero _
  | case4 u v rest h _ ih =>
    have hu : u ≠ CodeUnit.carriageReturn := by
      rintro rfl
      exact absurd h.1 (by decide)
    have hv : v ≠ CodeUnit.carriageReturn := by
      rintro rfl
      exact absurd h.2 (by decide)
    exact CleanCut.add (.cons hu (.one hv)) ih
  | case5 => exact .zero _
  | case6 u v rest _ h ih => exact .cons (hpart h) ih
  | case7 => exact .zero _

theorem clean_name (text : List CodeUnit) : (name text).Clean text := by
  unfold name
  split
  · exact cleanCut_nameLength text
  · exact Outcome.clean_failHere _ _

end Jsx

/-! ## Tokens -/

namespace Lexeme

theorem return_not_mem_units (p : Punctuator) : CodeUnit.carriageReturn ∉ p.units := by
  cases p <;> decide

theorem clean_readPunctuator (jsx : Bool) {u : CodeUnit} (hu : u ≠ CodeUnit.carriageReturn)
    (rest : List CodeUnit) : (readPunctuator jsx (u :: rest)).Clean (u :: rest) := by
  unfold readPunctuator
  split
  · next p hp =>
    have hmatch := List.find?_some hp
    rw [Punctuator.matchesAt, Bool.and_eq_true, List.isPrefixOf_iff_prefix] at hmatch
    exact CleanCut.of_isPrefixOf hmatch.1 (return_not_mem_units p)
  · exact ⟨.zero _, .one hu⟩

/-- A token read where no carriage return stands. -/
theorem clean_read (c : Context) {text : List CodeUnit}
    (h : text.head? ≠ some CodeUnit.carriageReturn) : (read c text).Clean text := by
  cases text with
  | nil => exact CleanCut.zero _
  | cons u rest =>
    have hu : u ≠ CodeUnit.carriageReturn := by simpa using h
    simp only [read]
    split
    · exact Identifier.clean_read _
    split
    · exact Numeric.clean_read _ _
    split
    · exact StringLiteral.clean_read _ hu rest
    split
    · exact Template.clean_read _ _ hu rest
    split
    · exact Identifier.clean_readPrivate hu rest
    split
    · exact RegExp.clean_read hu rest
    split
    · exact clean_readPunctuator _ hu rest
    · exact Outcome.clean_failHere _ _

end Lexeme

end EcmaLex
