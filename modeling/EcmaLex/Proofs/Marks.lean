import EcmaLex.Proofs.Readings

/-!
# Marks

A *mark* is a fact about spellings that a whole has exactly if one of its parts has it (`IsMark`).
Four of them matter: that a line ended before the token, which no reader ever claims, that strict
code must refuse the token, which only numbers with a leading zero and octal escapes in strings ask
for, that there are separators between digits, which only numbers have, and that anything is noted
at all.

A reader is unmarked if none of its readings has the mark. The combinators hand that on, so it has
to be shown only where flags are noted.
-/

namespace EcmaLex

/-- A fact that a whole has exactly if a part has it. -/
structure IsMark (mark : TokenFlags → Bool) : Prop where
  empty : mark ∅ = false
  union : ∀ a b, mark (a ∪ b) = (mark a || mark b)

theorem isMark_newLineBefore : IsMark TokenFlags.newLineBefore where
  empty := rfl
  union := TokenFlags.newLineBefore_union

theorem isMark_containsLegacyOctal : IsMark TokenFlags.containsLegacyOctal where
  empty := rfl
  union := TokenFlags.containsLegacyOctal_union

theorem isMark_numericSeparator : IsMark TokenFlags.numericSeparator where
  empty := rfl
  union _ _ := rfl

/-- To have any flag at all is a mark. -/
theorem isMark_ne_empty : IsMark (· != ∅) where
  empty := rfl
  union a b := by
    obtain ⟨a1, a2, a3, a4, a5⟩ := a
    obtain ⟨b1, b2, b3, b4, b5⟩ := b
    have h (c1 c2 c3 c4 c5 : Bool) :
        ((⟨c1, c2, c3, c4, c5⟩ : TokenFlags) != ∅) = (c1 || c2 || c3 || c4 || c5) := by
      revert c1 c2 c3 c4 c5
      decide
    have hunion : (⟨a1, a2, a3, a4, a5⟩ ∪ ⟨b1, b2, b3, b4, b5⟩ : TokenFlags) =
      ⟨a1 || b1, a2 || b2, a3 || b3, a4 || b4, a5 || b5⟩ := rfl
    rw [hunion, h, h, h]
    ac_rfl

/-- Whatever was read does not have the mark. -/
def Outcome.Unmarked {α : Type} (mark : TokenFlags → Bool) (o : Outcome α) : Prop :=
  ∀ x, o = .ok x → mark x.flags = false

variable {α β : Type} {mark : TokenFlags → Bool}

/-! ## Combinators -/

namespace Outcome

theorem unmarked_error (f : Fault) : Unmarked mark (.error f : Outcome α) := by
  intro x hx
  simp at hx

theorem unmarked_ok {x : Reading α} (h : mark x.flags = false) :
    Unmarked mark (.ok x : Outcome α) := by
  intro y hy
  obtain rfl := Except.ok.inj hy
  exact h

theorem Unmarked.shift (hm : IsMark mark) {o : Outcome α} {n : Nat} {flags : TokenFlags}
    (hf : mark flags = false) (h : o.Unmarked mark) : (o.shift n flags).Unmarked mark := by
  intro x hx
  obtain ⟨z, hz, rfl⟩ := shift_eq_ok_iff.mp hx
  rw [hm.union, hf, h z hz]
  rfl

theorem Unmarked.mapValue {o : Outcome α} (f : α → β) (h : o.Unmarked mark) :
    (o.mapValue f).Unmarked mark := by
  intro x hx
  obtain ⟨z, hz, rfl⟩ := mapValue_eq_ok_iff.mp hx
  exact h z hz

end Outcome

namespace Reader

/-- No reading of any text has the mark. -/
def Unmarked (mark : TokenFlags → Bool) (r : Reader α) : Prop := ∀ text, (r text).Unmarked mark

theorem unmarked_pure (hm : IsMark mark) (a : α) : (pure a : Reader α).Unmarked mark :=
  fun _ => Outcome.unmarked_ok hm.empty

theorem unmarked_fail (cause : LexError.Cause) : (fail cause : Reader α).Unmarked mark :=
  fun _ => Outcome.unmarked_error _

theorem unmarked_take (hm : IsMark mark) (n : Nat) : (take n).Unmarked mark :=
  fun _ => Outcome.unmarked_ok hm.empty

theorem Unmarked.bind (hm : IsMark mark) {r : Reader α} {next : α → Reader β}
    (hr : r.Unmarked mark) (hnext : ∀ a, (next a).Unmarked mark) :
    (r >>= next).Unmarked mark := by
  intro text x hx
  obtain ⟨z, w, hz, hw, rfl⟩ := bind_eq_ok_iff.mp hx
  rw [hm.union, hr text z hz, hnext z.value _ w hw]
  rfl

theorem Unmarked.interpret {r : Reader α} (hr : r.Unmarked mark)
    (f : Reading α → List CodeUnit → Except LexError.Cause β) :
    (r.interpret f).Unmarked mark := by
  intro text x hx
  obtain ⟨z, b, hz, -, rfl⟩ := interpret_eq_ok_iff.mp hx
  exact hr text z hz

end Reader

/-! ## Names -/

namespace Identifier

variable (hm : IsMark mark) (he : mark { unicodeEscape := true } = false)
include hm he

theorem unmarked_item? {first : Bool} {text : List CodeUnit}
    {o : Outcome Char} (h : item? first text = some o) : o.Unmarked mark := by
  unfold item? at h
  split at h
  · split at h
    · obtain rfl := Option.some.inj h
      unfold escapedItem
      split
      · exact Outcome.unmarked_error _
      · split
        · exact Outcome.unmarked_ok he
        · exact Outcome.unmarked_error _
    · split at h
      · simp at h
      · obtain rfl := Option.some.inj h
        exact Outcome.unmarked_error _
  · split at h
    · simp at h
    · obtain ⟨ch, -, rfl⟩ := Option.map_eq_some_iff.mp h
      exact Outcome.unmarked_ok hm.empty

theorem unmarked_parts : Reader.Unmarked mark parts := by
  intro text
  fun_induction parts text with
  | case1 => exact Outcome.unmarked_ok hm.empty
  | case2 => exact Outcome.unmarked_error _
  | case3 text x h ih =>
    exact .mapValue _ (.shift hm (unmarked_item? hm he h x rfl) ih)

theorem unmarked_name : name.Unmarked mark := by
  refine .bind hm (fun text => ?_) fun _ =>
    .bind hm (unmarked_parts hm he) fun _ => Reader.unmarked_pure hm _
  unfold start
  split
  · exact Outcome.unmarked_error _
  · next o h => exact unmarked_item? hm he h

theorem unmarked_read : read.Unmarked mark := (unmarked_name hm he).interpret _

theorem unmarked_readPrivate : readPrivate.Unmarked mark := by
  intro text
  unfold readPrivate
  dsimp only
  split
  · exact .mapValue _ (.shift hm hm.empty (unmarked_name hm he _))
  · exact Outcome.unmarked_error _

end Identifier

/-! ## Numbers -/

namespace Numeric

/-- Separators between digits do not have the mark. -/
abbrev SeparatorsUnmarked (mark : TokenFlags → Bool) : Prop :=
  ∀ b, mark { numericSeparator := b } = false

theorem unmarked_digits (hs : SeparatorsUnmarked mark) (radix : Radix) (separators : Bool) :
    (digits radix separators).Unmarked mark := by
  intro text
  unfold digits
  dsimp only
  split
  · exact Outcome.unmarked_error _
  · exact Outcome.unmarked_ok (hs _)

theorem unmarked_checkEnd (hm : IsMark mark) : checkEnd.Unmarked mark := by
  intro text
  unfold checkEnd
  split
  · exact Outcome.unmarked_ok hm.empty
  · split
    · exact Outcome.unmarked_error _
    · exact Outcome.unmarked_ok hm.empty

theorem unmarked_numberEnd (hm : IsMark mark) (m : Mode) : (numberEnd m).Unmarked mark := by
  intro text
  unfold numberEnd
  split
  · exact Outcome.unmarked_error _
  · exact unmarked_checkEnd hm text

theorem unmarked_fraction (hm : IsMark mark) (hs : SeparatorsUnmarked mark) (m : Mode) :
    (fraction m).Unmarked mark := by
  intro text
  unfold fraction
  split
  · exact .mapValue _ (.shift hm hm.empty (unmarked_digits hs _ _ _))
  · exact Outcome.unmarked_ok hm.empty

theorem unmarked_exponent (hm : IsMark mark) (hs : SeparatorsUnmarked mark) (m : Mode) :
    (exponent m).Unmarked mark := by
  intro text
  unfold exponent
  split
  · split
    · refine .shift hm hm.empty ?_
      refine Reader.Unmarked.bind hm (unmarked_digits hs _ _) (fun run => ?_) _
      split
      · exact Reader.unmarked_fail _
      · exact Reader.unmarked_pure hm ()
    · exact Outcome.unmarked_ok hm.empty
  · exact Outcome.unmarked_ok hm.empty

theorem unmarked_tail (hm : IsMark mark) (hs : SeparatorsUnmarked mark) (m : Mode) (form : Form) :
    (do fraction m; exponent m; numberEnd m; return form : Reader Form).Unmarked mark :=
  .bind hm (unmarked_fraction hm hs m) fun _ => .bind hm (unmarked_exponent hm hs m) fun _ =>
    .bind hm (unmarked_numberEnd hm m) fun _ => Reader.unmarked_pure hm _

/-- The end of a number that may be a BigInt. -/
theorem unmarked_suffix (hm : IsMark mark) (m : Mode) (form : Form) {other : Reader Form}
    (hother : other.Unmarked mark) :
    (do
      let rest ← Reader.ahead
      if hasSuffix m rest then do
        bigIntEnd
        return form
      else other : Reader Form).Unmarked mark := by
  refine .bind hm (fun _ => Outcome.unmarked_ok hm.empty) fun rest => ?_
  split
  · refine .bind hm ?_ fun _ => Reader.unmarked_pure hm _
    exact .bind hm (Reader.unmarked_take hm 1) fun _ => unmarked_checkEnd hm
  · exact hother

theorem unmarked_prefixed (hm : IsMark mark) (hs : SeparatorsUnmarked mark) (m : Mode)
    (radix : Radix) : (prefixed m radix).Unmarked mark := by
  refine .bind hm (Reader.unmarked_take hm 2) fun _ =>
    .bind hm (unmarked_digits hs _ _) fun run => ?_
  split
  · exact Reader.unmarked_fail _
  · refine unmarked_suffix hm m _ ?_
    exact .bind hm (unmarked_checkEnd hm) fun _ => Reader.unmarked_pure hm _

theorem unmarked_decimal (hm : IsMark mark) (hs : SeparatorsUnmarked mark) (m : Mode) :
    (decimal m).Unmarked mark :=
  .bind hm (unmarked_digits hs _ _) fun _ => unmarked_suffix hm m _ (unmarked_tail hm hs m _)

end Numeric

/-! ## Templates, regular expressions and punctuators -/

/-- A span of a template has no flags at all, whatever its escapes. -/
theorem Template.unmarked_span (hm : IsMark mark) (tagged : Bool) :
    Reader.Unmarked mark (span tagged) := by
  intro text
  fun_induction span tagged text with
  | case1 => exact Outcome.unmarked_error _
  | case2 => exact Outcome.unmarked_ok hm.empty
  | case3 => exact Outcome.unmarked_ok hm.empty
  | case4 => exact Outcome.unmarked_error _
  | case5 _ _ _ _ _ _ ih => exact .mapValue _ (.shift hm hm.empty ih)
  | case6 _ _ _ _ _ _ _ ih => exact .mapValue _ (.shift hm hm.empty ih)
  | case7 => exact Outcome.unmarked_error _
  | case8 _ _ _ _ _ ih => exact .mapValue _ (.shift hm hm.empty ih)
  | case9 _ _ _ _ _ _ ih => exact .mapValue _ (.shift hm hm.empty ih)

theorem Template.unmarked_read (hm : IsMark mark) (tagged first : Bool) :
    (read tagged first).Unmarked mark :=
  fun _ => .mapValue _ (.shift hm hm.empty (unmarked_span hm tagged _))

theorem Template.unmarked_readContinuation (hm : IsMark mark) (tagged : Bool) :
    (readContinuation tagged).Unmarked mark := by
  intro text
  unfold readContinuation
  split
  · exact unmarked_read hm tagged false text
  · exact Outcome.unmarked_error _

theorem RegExp.unmarked_flags (hm : IsMark mark) (seen : List Char) :
    Reader.Unmarked mark (flags seen) := by
  intro text
  induction text generalizing seen with
  | nil => exact Outcome.unmarked_ok hm.empty
  | cons u rest ih =>
    unfold flags
    split
    · exact Outcome.unmarked_error _
    split
    · exact Outcome.unmarked_ok hm.empty
    dsimp only
    split
    · exact Outcome.unmarked_error _
    split
    · exact Outcome.unmarked_error _
    exact .mapValue _ (.shift hm hm.empty (ih _))

theorem RegExp.unmarked_read (hm : IsMark mark) : read.Unmarked mark := by
  refine Reader.Unmarked.interpret (fun text => .shift hm hm.empty ?_) _
  unfold body
  split
  · exact Outcome.unmarked_error _
  · exact .mapValue _ (.shift hm hm.empty (unmarked_flags hm _ _))

theorem Lexeme.unmarked_readPunctuator (hm : IsMark mark) (jsx : Bool) :
    (readPunctuator jsx).Unmarked mark := by
  intro text
  unfold readPunctuator
  split
  · exact Outcome.unmarked_ok hm.empty
  · exact Outcome.unmarked_error _

/-! ## The two spellings that strict code refuses -/

namespace Escape

variable (hm : IsMark mark)
include hm

theorem unmarked_hexDigit (error : EscapeError) : (hexDigit error).Unmarked mark := by
  intro text
  unfold hexDigit
  split
  · exact Outcome.unmarked_error _
  · split
    · exact Outcome.unmarked_ok hm.empty
    · exact Outcome.unmarked_error _

theorem unmarked_hexPair : hexPair.Unmarked mark :=
  .bind hm (unmarked_hexDigit hm _) fun _ => .bind hm (unmarked_hexDigit hm _) fun _ =>
    Reader.unmarked_pure hm _

theorem unmarked_hexQuad : hexQuad.Unmarked mark :=
  .bind hm (unmarked_hexDigit hm _) fun _ => .bind hm (unmarked_hexDigit hm _) fun _ =>
    .bind hm (unmarked_hexDigit hm _) fun _ => .bind hm (unmarked_hexDigit hm _) fun _ =>
      Reader.unmarked_pure hm _

theorem unmarked_bracedDigits (value : Nat) (count : Int32) :
    (bracedDigits value count).Unmarked mark := by
  intro text
  induction text generalizing value count with
  | nil => exact Outcome.unmarked_error _
  | cons u rest ih =>
    unfold bracedDigits
    split
    · split
      · exact Outcome.unmarked_error _
      · exact .shift hm hm.empty (ih _ _)
    · split
      · exact Outcome.unmarked_ok hm.empty
      · exact Outcome.unmarked_error _

theorem unmarked_unicode : unicode.Unmarked mark := by
  intro text
  unfold unicode
  split
  · split
    · exact .shift hm hm.empty (unmarked_bracedDigits hm _ _ _)
    · exact unmarked_hexQuad hm _
  · exact unmarked_hexQuad hm _

/-- An escape, where octal escapes are refused or do not have the mark. -/
theorem unmarked_body {refusal : Option EscapeError}
    (hoctal : refusal = none → mark { octalEscape := true } = false) :
    (body refusal).Unmarked mark := by
  intro text
  -- one case for each form of escape, in the order in which they are tried
  unfold body
  split
  · exact Outcome.unmarked_error _
  split
  · exact Outcome.unmarked_ok hm.empty
  split
  · exact Outcome.unmarked_ok hm.empty
  split
  · exact .mapValue _ (.shift hm hm.empty (unmarked_hexPair hm _))
  split
  · exact .mapValue _ (.shift hm hm.empty (unmarked_unicode hm _))
  split
  · exact Outcome.unmarked_ok hm.empty
  split
  · refine .mapValue _ ?_
    cases refusal with
    | some e => exact Outcome.unmarked_error _
    | none => exact Outcome.unmarked_ok (hoctal rfl)
  split
  · exact Outcome.unmarked_error _
  split
  · exact Outcome.unmarked_ok hm.empty
  · exact Outcome.unmarked_error _

end Escape

theorem StringLiteral.unmarked_read (hm : IsMark mark) {strict : Bool}
    (hoctal : strict = false → mark { octalEscape := true } = false) :
    (read strict).Unmarked mark := by
  have hrefusal : (if strict then some EscapeError.strictOctal else none) = none →
      mark { octalEscape := true } = false := by
    intro hnone
    apply hoctal
    cases strict with
    | true => simp at hnone
    | false => rfl
  have hbody (quote : CodeUnit) : Reader.Unmarked mark (body strict quote) := by
    intro text
    fun_induction body strict quote text with
    | case1 => exact Outcome.unmarked_error _
    | case2 => exact Outcome.unmarked_ok hm.empty
    | case3 => exact Outcome.unmarked_error _
    | case4 => exact Outcome.unmarked_error _
    | case5 => exact Outcome.unmarked_error _
    | case6 rest _ e he _ _ ih =>
      exact .mapValue _ (.shift hm (Escape.unmarked_body hm hrefusal rest e he) ih)
    | case7 _ _ _ _ _ ih => exact .mapValue _ (.shift hm hm.empty ih)
  intro text
  unfold read
  split
  · exact Outcome.unmarked_error _
  · exact .mapValue _ (.shift hm hm.empty (hbody _ _))

namespace Numeric

/-- Strict code has no numbers with a leading zero. -/
theorem leadingZero_ne_ok {m : Mode} (h : m.strict = true) {text : List CodeUnit}
    {x : Reading Form} : leadingZero m text ≠ .ok x := by
  intro hx
  obtain ⟨z, w, hz, -, rfl⟩ := Reader.bind_eq_ok_iff.mp hx
  obtain ⟨y, b, -, hb, rfl⟩ := Reader.interpret_eq_ok_iff.mp hz
  rw [h] at hb
  simp only [Bool.not_true, Bool.false_eq_true, if_false] at hb
  split at hb <;> simp at hb

theorem unmarked_leadingZero (hm : IsMark mark) (hs : SeparatorsUnmarked mark) {m : Mode}
    (hlegacy : m.strict = false → mark { legacyOctal := true } = false) :
    (leadingZero m).Unmarked mark := by
  cases hstrict : m.strict with
  | true =>
    intro text x hx
    exact absurd hx (leadingZero_ne_ok hstrict)
  | false =>
    refine .bind hm ?_ fun run => .bind hm ?_ fun _ => ?_
    · exact Reader.Unmarked.interpret (fun _ => Outcome.unmarked_ok hm.empty) _
    · exact fun _ => Outcome.unmarked_ok (hlegacy hstrict)
    · split
      · exact .bind hm (unmarked_numberEnd hm m) fun _ => Reader.unmarked_pure hm _
      · exact unmarked_tail hm hs m _

theorem unmarked_read (hm : IsMark mark) (hs : SeparatorsUnmarked mark) {m : Mode}
    (hlegacy : m.strict = false → mark { legacyOctal := true } = false) :
    (read m).Unmarked mark := by
  refine Reader.Unmarked.interpret (fun text => ?_) _
  unfold form
  split
  · split
    · split
      · exact unmarked_prefixed hm hs m _ _
      · split
        · exact unmarked_leadingZero hm hs hlegacy _
        · split
          · exact Outcome.unmarked_error _
          · exact unmarked_decimal hm hs m _
    · exact unmarked_decimal hm hs m _
  · exact unmarked_decimal hm hs m _

end Numeric

/-! ## Tokens -/

/-- **A token is only marked by escapes in names, by separators and by the two spellings that strict
code refuses.** -/
theorem Lexeme.unmarked_read (hm : IsMark mark) {c : Context}
    (he : mark { unicodeEscape := true } = false) (hs : Numeric.SeparatorsUnmarked mark)
    (hlegacy : c.isStrict = false → mark { legacyOctal := true } = false)
    (hoctal : c.isStrict = false → mark { octalEscape := true } = false) :
    (read c).Unmarked mark := by
  intro text
  cases text with
  | nil => exact Outcome.unmarked_ok hm.empty
  | cons u rest =>
    simp only [read]
    split
    · exact Identifier.unmarked_read hm he _
    split
    · exact Numeric.unmarked_read hm hs hlegacy _
    split
    · exact StringLiteral.unmarked_read hm hoctal _
    split
    · exact Template.unmarked_read hm _ _ _
    split
    · exact Identifier.unmarked_readPrivate hm he _
    split
    · exact RegExp.unmarked_read hm _
    split
    · exact unmarked_readPunctuator hm _ _
    · exact Outcome.unmarked_error _

/-- No reader claims that a line ended before its token. -/
theorem Lexeme.newLineBefore_of_read {c : Context} {text : List CodeUnit} {x : Reading Lexeme}
    (h : read c text = .ok x) : x.flags.newLineBefore = false :=
  unmarked_read isMark_newLineBefore rfl (fun _ => rfl) (fun _ => rfl) (fun _ => rfl) text x h

end EcmaLex
