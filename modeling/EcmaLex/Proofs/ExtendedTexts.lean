import EcmaLex.Proofs.StableTokens
import EcmaLex.Proofs.TriviaGrammar

/-!
# Texts that go on with a separator

What a reader took of a text it also takes of the text with more behind it, provided that this
begins with a blank or a line feed: a reader that *extends* does not tell a separator from the end.
This is more than stability, where a text is cut right behind a token: here any number of tokens may
stand between the one that is read and the separator, and what a reader looks at behind its token is
still there.

* `Reader.Extends.bind` and the lemmas after it: readers extend if their parts do.
* `Lexeme.extends_read`: tokens extend.
* `Trivia.first?_append` and `Trivia.first?_append_eq_none`: so do closed pieces of trivia, unless
  the text ends in a carriage return.
-/

namespace EcmaLex

open Text (Recut Stops isSeparator)

/-! ## Texts -/

namespace Text

variable {text after : List CodeUnit}

theorem stops_lineFeed (rest : List CodeUnit) : Stops (CodeUnit.lineFeed :: rest) := by
  intro u hu
  obtain rfl := Option.some.inj hu
  rfl

/-- The whole of a text stays, and then what follows stops. -/
theorem recut_append (text : List CodeUnit) (hafter : Stops after) :
    Recut text.length text (text ++ after) := by
  have hcut := Recut.of_take (Nat.le_refl text.length) hafter
  rwa [List.take_length] at hcut

theorem head?_append_of_ne_nil (h : text ≠ []) : (text ++ after).head? = text.head? := by
  cases text with
  | nil => exact absurd rfl h
  | cons u rest => rfl

/-- No separator goes on with a code point. -/
theorem utf16_head?_append (h : text ≠ []) (hafter : Stops after) :
    Utf16.head? (text ++ after) = Utf16.head? text := by
  have hcut := recut_append text hafter
  match text with
  | [] => exact absurd rfl h
  | [u] => exact hcut.utf16_head? rfl (Nat.le_refl 1)
  | u :: v :: rest => rfl

/-- A property that no separator has is the same of the first unit. -/
theorem any_head?_append {p : CodeUnit → Bool} (hp : ∀ u, isSeparator u = true → p u = false)
    (hafter : Stops after) : (text ++ after).head?.any p = text.head?.any p := by
  cases text with
  | nil => exact hafter.any_head? hp
  | cons u rest => rfl

end Text

/-! ## Readers -/

namespace Reader

variable {α β : Type}

/-- Readings do not change where the text goes on with a separator. -/
def Extends (r : Reader α) : Prop :=
  ∀ ⦃text after : List CodeUnit⦄ ⦃x : Reading α⦄, Stops after → r text = .ok x →
    x.length ≤ text.length → r (text ++ after) = .ok x

theorem Stable.extends {r : Reader α} (hr : r.Stable) : r.Extends := by
  intro text after x hafter hx hle
  exact hr (Text.recut_append text hafter) hx hle

theorem Extends.bind {r : Reader α} {next : α → Reader β} (hr : r.Extends)
    (hnext : ∀ a, (next a).Extends) : (r >>= next).Extends := by
  intro text after y hafter hy hle
  obtain ⟨z, w, hz, hw, rfl⟩ := bind_eq_ok_iff.mp hy
  have hlength : z.length + w.length ≤ text.length := hle
  refine bind_eq_ok_iff.mpr ⟨z, w, hr hafter hz (by omega), ?_, rfl⟩
  rw [List.drop_append_of_le_length (by omega)]
  refine hnext z.value hafter hw ?_
  rw [List.length_drop]
  omega

theorem extends_pure (a : α) : (pure a : Reader α).Extends := (local_pure a).stable.extends

theorem Extends.bind_pure {r : Reader α} (hr : r.Extends) (f : α → β) :
    (r >>= fun a => pure (f a)).Extends :=
  hr.bind fun _ => extends_pure _

theorem Extends.interpret {r : Reader α} (hr : r.Extends)
    (f : Reading α → List CodeUnit → Except LexError.Cause β) : (r.interpret f).Extends := by
  intro text after y hafter hy hle
  obtain ⟨z, b, hz, hb, rfl⟩ := interpret_eq_ok_iff.mp hy
  refine interpret_eq_ok_iff.mpr ⟨z, b, hr hafter hz hle, ?_, rfl⟩
  rw [List.take_append_of_le_length hle]
  exact hb

end Reader

/-! ## Names -/

namespace Identifier

theorem item?_append_eq_none {text after : List CodeUnit} (hafter : Stops after)
    (h : item? false text = none) : item? false (text ++ after) = none := by
  by_cases hnil : text = []
  · rw [hnil, List.nil_append]
    exact item?_of_stops false hafter
  · unfold item? at h ⊢
    rw [Text.head?_append_of_ne_nil hnil, Text.utf16_head?_append hnil hafter]
    by_cases hbackslash : text.head? = some CodeUnit.backslash
    · -- a backslash goes on with a name, or is an error
      rw [if_pos hbackslash] at h
      split at h <;> simp at h
    · rw [if_neg hbackslash] at h ⊢
      exact h

theorem extends_parts : Reader.Extends parts := by
  intro text after y hafter hy hle
  fun_induction parts text generalizing y with
  | case1 text h =>
    obtain rfl := Except.ok.inj hy
    exact parts_of_none (item?_append_eq_none hafter h)
  | case2 text f h => simp at hy
  | case3 text x h ih =>
    obtain ⟨z, hz, rfl⟩ := Outcome.mapValue_shift_eq_ok_iff.mp hy
    have hlength : x.length + z.length ≤ text.length := hle
    have hitem := item?_eq (Text.recut_append text hafter) h (by omega)
    rw [parts_of_some hitem, List.drop_append_of_le_length (by omega), ih hz ?_]
    · rfl
    · rw [List.length_drop]
      omega

theorem extends_name : name.Extends :=
  stable_start.extends.bind fun _ => extends_parts.bind_pure _

theorem extends_read : read.Extends := extends_name.interpret _

theorem extends_readPrivate {u : CodeUnit} {rest after : List CodeUnit} {x : Reading Lexeme}
    (hafter : Stops after) (hx : readPrivate (u :: rest) = .ok x)
    (hle : x.length ≤ (u :: rest).length) : readPrivate (u :: rest ++ after) = .ok x := by
  unfold readPrivate at hx ⊢
  dsimp only at hx ⊢
  rw [List.cons_append]
  rw [List.drop_succ_cons, List.drop_zero] at hx ⊢
  split at hx
  · next hbegins =>
    obtain ⟨z, hz, rfl⟩ := Outcome.mapValue_shift_eq_ok_iff.mp hx
    have hlength : 1 + z.length ≤ rest.length + 1 := hle
    have hpos := length_pos_of_name hz
    have hne : rest ≠ [] := by
      rintro rfl
      simp at hlength
      omega
    rw [Text.head?_append_of_ne_nil hne, Text.utf16_head?_append hne hafter, if_pos hbegins,
      extends_name hafter hz (by omega)]
    rfl
  · simp at hx

end Identifier

/-! ## Numbers -/

namespace Numeric

variable {m : Mode} {text after : List CodeUnit}

theorem hasSuffix_append (m : Mode) (text : List CodeUnit) (hafter : Stops after) :
    hasSuffix m (text ++ after) = hasSuffix m text := by
  have hany (text : List CodeUnit) : (text.head? == some (CodeUnit.ofChar 'n')) =
      text.head?.any (· == CodeUnit.ofChar 'n') := by
    cases text <;> rfl
  rw [hasSuffix, hasSuffix, hany, hany, Text.any_head?_append ?_ hafter]
  intro u hu
  rcases Text.eq_of_isSeparator hu with rfl | rfl <;> decide

theorem extends_checkEnd : checkEnd.Extends := by
  intro text after x hafter hx _
  by_cases hnil : text = []
  · obtain rfl := eq_of_checkEnd hx
    rw [hnil, List.nil_append]
    exact checkEnd_of_stops hafter
  · unfold checkEnd at hx ⊢
    rw [Text.utf16_head?_append hnil hafter]
    exact hx

theorem extends_numberEnd (m : Mode) : (numberEnd m).Extends := by
  intro text after x hafter hx hle
  unfold numberEnd at hx ⊢
  rw [hasSuffix_append m text hafter]
  split at hx
  · simp at hx
  · next hs =>
    rw [if_neg hs]
    exact extends_checkEnd hafter hx hle

theorem take_append {k : Nat} (hk : k ≤ text.length) :
    Reader.take k (text ++ after) = Reader.take k text := by
  rw [Reader.take, Reader.take, List.take_append_of_le_length hk]

theorem extends_bigIntEnd {x : Reading Unit} (hafter : Stops after)
    (hs : hasSuffix m text = true) (hx : bigIntEnd text = .ok x) (hle : x.length ≤ text.length) :
    bigIntEnd (text ++ after) = .ok x := by
  have hone : 1 ≤ text.length := by
    cases text with
    | nil => exact absurd (head?_of_hasSuffix hs) (by simp)
    | cons u rest => simp
  obtain ⟨z, w, hz, hw, rfl⟩ := Reader.bind_eq_ok_iff.mp hx
  have hlength : z.length + w.length ≤ text.length := hle
  refine Reader.bind_eq_ok_iff.mpr ⟨z, w, (take_append hone).trans hz, ?_, rfl⟩
  rw [List.drop_append_of_le_length (by omega)]
  refine extends_checkEnd hafter hw ?_
  rw [List.length_drop]
  omega

/-- The end of a number that may be a BigInt. -/
theorem extends_suffix (m : Mode) (form : Form) {other : Reader Form} (hother : other.Extends) :
    (do
      let rest ← Reader.ahead
      if hasSuffix m rest then do
        bigIntEnd
        return form
      else other : Reader Form).Extends := by
  intro text after x hafter hx hle
  rw [Reader.ahead_bind] at hx ⊢
  rw [hasSuffix_append m text hafter]
  split at hx
  · next hs =>
    obtain ⟨z, w, hz, hw, rfl⟩ := Reader.bind_eq_ok_iff.mp hx
    obtain rfl := Except.ok.inj hw
    rw [if_pos hs]
    exact Reader.bind_eq_ok_iff.mpr ⟨z, _, extends_bigIntEnd hafter hs hz hle, rfl, rfl⟩
  · next hs =>
    rw [if_neg hs]
    exact hother hafter hx hle

theorem extends_tail (m : Mode) (form : Form) :
    (do fraction m; exponent m; numberEnd m; return form : Reader Form).Extends :=
  (stable_fraction m).extends.bind fun _ => (stable_exponent m).extends.bind fun _ =>
    (extends_numberEnd m).bind_pure _

theorem extends_decimal (m : Mode) : (decimal m).Extends :=
  (stable_digits _ _).extends.bind fun _ => extends_suffix m _ (extends_tail m _)

theorem extends_leadingZero (m : Mode) : (leadingZero m).Extends := by
  refine Reader.Extends.bind ?_ fun run => (Reader.stable_note _).extends.bind fun _ => ?_
  · exact ((Reader.stable_takeWhile Escape.isDecimalDigit_separator).interpret _).extends
  · split
    · exact (extends_numberEnd m).bind_pure _
    · exact extends_tail m _

theorem extends_prefixed {radix : Radix} {x : Reading Form} (hafter : Stops after)
    (htwo : 2 ≤ text.length) (hx : prefixed m radix text = .ok x) (hle : x.length ≤ text.length) :
    prefixed m radix (text ++ after) = .ok x := by
  obtain ⟨z, w, hz, hw, rfl⟩ := Reader.bind_eq_ok_iff.mp hx
  have hlength : z.length + w.length ≤ text.length := hle
  refine Reader.bind_eq_ok_iff.mpr ⟨z, w, (take_append htwo).trans hz, ?_, rfl⟩
  have hdigits : (do
      let run ← digits radix m.next
      if run.isEmpty then Reader.fail (.missingDigits radix)
      else
        let rest ← Reader.ahead
        if hasSuffix m rest then do
          bigIntEnd
          return .bigInt (radix.valueOf run)
        else do
          checkEnd
          return .integer radix run : Reader Form).Extends := by
    refine (stable_digits radix m.next).extends.bind fun run => ?_
    split
    · exact (Reader.stable_fail _).extends
    · exact extends_suffix m _ (extends_checkEnd.bind_pure _)
  rw [List.drop_append_of_le_length (by omega)]
  refine hdigits hafter hw ?_
  rw [List.length_drop]
  omega

theorem extends_form (m : Mode) : (form m).Extends := by
  intro text after x hafter hx hle
  match text with
  | [] =>
    have hdecimal : form m after = decimal m after := by
      match after with
      | [] => rfl
      | [u] => rfl
      | u :: v :: rest =>
        have hu : u ≠ CodeUnit.zero := by
          rintro rfl
          exact absurd (hafter _ rfl) (by decide)
        simp only [form, if_neg hu]
    rw [List.nil_append, hdecimal]
    exact extends_decimal m hafter hx hle
  | [u] =>
    -- a digit alone is decimal, with a separator behind it too
    show form m (u :: after) = .ok x
    rw [form_of_stops m u hafter]
    exact extends_decimal m hafter hx hle
  | u :: v :: rest =>
    simp only [form, List.cons_append] at hx ⊢
    split at hx
    · next hu =>
      rw [if_pos hu]
      split at hx
      · have htwo : 2 ≤ (u :: v :: rest).length := Nat.le_add_left _ _
        have hprefixed := extends_prefixed hafter htwo hx hle
        rwa [List.cons_append, List.cons_append] at hprefixed
      · split at hx
        · next hdigit =>
          rw [if_pos hdigit]
          exact extends_leadingZero m hafter hx hle
        · next hdigit =>
          rw [if_neg hdigit]
          split at hx
          · simp at hx
          · next hseparator =>
            rw [if_neg hseparator]
            exact extends_decimal m hafter hx hle
    · next hu =>
      rw [if_neg hu]
      exact extends_decimal m hafter hx hle

theorem extends_read (m : Mode) : (read m).Extends := (extends_form m).interpret _

end Numeric

/-! ## Regular expressions -/

namespace RegExp

theorem extends_flags (seen : List Char) : Reader.Extends (flags seen) := by
  intro text after x hafter hx hle
  induction text generalizing seen x with
  | nil =>
    obtain rfl := Except.ok.inj hx
    exact flags_of_stops seen hafter
  | cons u rest ih =>
    have hhead : Utf16.head? (u :: (rest ++ after)) = Utf16.head? (u :: rest) :=
      Text.utf16_head?_append (List.cons_ne_nil u rest) hafter
    have hoffender : Lexeme.offender (u :: (rest ++ after)) = Lexeme.offender (u :: rest) := by
      rw [Lexeme.offender, hhead, Lexeme.offender]
    rw [List.cons_append]
    unfold flags at hx ⊢
    rw [hhead, hoffender]
    split at hx
    · simp at hx
    next hescape =>
    rw [if_neg hescape]
    split at hx
    · next hpart =>
      rw [if_pos hpart]
      exact hx
    next hpart =>
    rw [if_neg hpart]
    dsimp only at hx ⊢
    split at hx
    · simp at hx
    next hflag =>
    split at hx
    · simp at hx
    next hseen =>
    obtain ⟨z, hz, rfl⟩ := Outcome.mapValue_shift_eq_ok_iff.mp hx
    have hlength : 1 + z.length ≤ rest.length + 1 := hle
    rw [if_neg hflag, if_neg hseen, ih _ hz (by omega)]
    rfl

theorem extends_body : body.Extends := by
  intro text after x hafter hx hle
  unfold body at hx ⊢
  split at hx
  · simp at hx
  · next k hk =>
    obtain ⟨z, hz, rfl⟩ := Outcome.mapValue_shift_eq_ok_iff.mp hx
    have hlength : k + 1 + z.length ≤ text.length := hle
    rw [pattern_eq (Text.recut_append text hafter) hk (by omega)]
    dsimp only
    rw [List.drop_append_of_le_length (by omega), List.take_append_of_le_length (by omega),
      extends_flags [] hafter hz ?_]
    · rfl
    · rw [List.length_drop]
      omega

theorem extends_read : read.Extends := by
  refine Reader.Extends.interpret ?_ _
  intro text after x hafter hx hle
  obtain ⟨z, hz, rfl⟩ := Outcome.shift_eq_ok_iff.mp hx
  have hlength : 1 + z.length ≤ text.length := hle
  show (body ((text ++ after).drop 1)).shift 1 ∅ = _
  rw [List.drop_append_of_le_length (by omega)]
  refine Outcome.shift_eq_ok_iff.mpr ⟨z, extends_body hafter hz ?_, rfl⟩
  rw [List.length_drop]
  omega

end RegExp

/-! ## Punctuators -/

namespace Punctuator

/-- What may follow a punctuator may be followed by a separator. -/
theorem allowedBefore_append {jsx : Bool} {text after : List CodeUnit} {p : Punctuator}
    (hafter : Stops after) : allowedBefore jsx (text ++ after) p = allowedBefore jsx text p := by
  have hslash (u : CodeUnit) (hu : isSeparator u = true) :
      (u == CodeUnit.slash || u == CodeUnit.star) = false := by
    rcases Text.eq_of_isSeparator hu with rfl | rfl <;> decide
  cases p with
  | optionalChain =>
    simp only [allowedBefore, Text.any_head?_append Escape.isDecimalDigit_separator hafter]
  | jsxClosingTagStart => simp only [allowedBefore, Text.any_head?_append hslash hafter]
  | _ => rfl

theorem matchesAt_append {jsx : Bool} (text : List CodeUnit) {after : List CodeUnit}
    (hafter : Stops after) (p : Punctuator) :
    matchesAt jsx (text ++ after) p = matchesAt jsx text p := by
  have hprefix : p.units <+: text ++ after ↔ p.units <+: text := by
    constructor
    · intro hpre
      have := (Text.recut_append text hafter).prefix_take (not_isSeparator_of_mem_units p) hpre
      rwa [List.take_length] at this
    · exact fun hpre => hpre.trans (List.prefix_append text after)
  rw [Bool.eq_iff_iff]
  simp only [matchesAt, Bool.and_eq_true, List.isPrefixOf_iff_prefix, hprefix]
  refine and_congr_right fun hpre => ?_
  rw [List.drop_append_of_le_length hpre.length_le, allowedBefore_append hafter]

theorem ofText?_append (jsx : Bool) (text : List CodeUnit) {after : List CodeUnit}
    (hafter : Stops after) : ofText? jsx (text ++ after) = ofText? jsx text := by
  rw [ofText?, ofText?, funext (matchesAt_append text hafter)]

end Punctuator

/-! ## Tokens -/

namespace Lexeme

variable {c : Context} {u : CodeUnit} {rest after : List CodeUnit} {x : Reading Lexeme}

theorem beginsName_append (hafter : Stops after) :
    beginsName (u :: rest ++ after) = beginsName (u :: rest) := by
  unfold beginsName
  rw [Text.utf16_head?_append (List.cons_ne_nil u rest) hafter]
  rfl

theorem beginsNumber_append (hafter : Stops after) :
    beginsNumber (u :: rest ++ after) = beginsNumber (u :: rest) := by
  unfold beginsNumber
  rw [List.cons_append, List.drop_succ_cons, List.drop_succ_cons, List.drop_zero, List.drop_zero,
    Text.any_head?_append Escape.isDecimalDigit_separator hafter]
  rfl

/-- **A token reads the same where the text goes on with a separator.** -/
theorem extends_read (hafter : Stops after) (h : read c (u :: rest) = .ok x)
    (hle : x.length ≤ (u :: rest).length) : read c (u :: rest ++ after) = .ok x := by
  have hunfold : u :: rest ++ after = u :: (rest ++ after) := rfl
  have hname : beginsName (u :: (rest ++ after)) = beginsName (u :: rest) :=
    beginsName_append hafter
  have hnumber : beginsNumber (u :: (rest ++ after)) = beginsNumber (u :: rest) :=
    beginsNumber_append hafter
  rw [hunfold]
  simp only [read, hname, hnumber] at h ⊢
  split_ifs at h ⊢
  · exact Identifier.extends_read hafter h hle
  · exact Numeric.extends_read _ hafter h hle
  · exact (StringLiteral.stable_read _).extends hafter h hle
  · exact (Template.stable_read _ _).extends hafter h hle
  · exact Identifier.extends_readPrivate hafter h hle
  · exact RegExp.extends_read hafter h hle
  · obtain ⟨p, hp, rfl⟩ := kind_of_punctuator h
    unfold readPunctuator
    rw [← hunfold, Punctuator.ofText?_append c.jsx _ hafter, hp]
  · simp [illegal] at h

end Lexeme

/-! ## Trivia -/

namespace Trivia

open Comment (Kind)

variable {m : Mode} {t : Trivia} {text after : List CodeUnit}

theorem opener_prefix_append (kind : Kind) (hafter : Stops after) :
    kind.opener <+: text ++ after ↔ kind.opener <+: text := by
  constructor
  · intro hpre
    have := (Text.recut_append text hafter).prefix_take (not_isSeparator_of_mem_opener kind) hpre
    rwa [List.take_length] at this
  · exact fun hpre => hpre.trans (List.prefix_append text after)

theorem opening?_append (m : Mode) (text : List CodeUnit) (hafter : Stops after) :
    opening? m (text ++ after) = opening? m text := by
  apply Option.ext
  intro kind
  rw [opening?_eq_some_iff, opening?_eq_some_iff, opener_prefix_append kind hafter]

theorem blockText?_append {inner : List CodeUnit} (h : blockText? text = some inner) :
    blockText? (text ++ after) = some inner := by
  fun_induction blockText? text generalizing inner with
  | case1 u v rest huv =>
    rw [List.cons_append, List.cons_append, blockText?, if_pos huv]
    exact h
  | case2 u v rest huv ih =>
    obtain ⟨inner, hinner, rfl⟩ := Option.map_eq_some_iff.mp h
    rw [List.cons_append, List.cons_append, blockText?, if_neg huv, ← List.cons_append,
      ih hinner]
    rfl
  | case3 => simp at h

/-- A comment that is closed, or ends with its line, stays where a line feed follows. -/
theorem commentOf_append {kind : Kind} (hpre : kind.opener <+: text)
    (hclosed : (commentOf kind text).isUnclosed = false) (b : List CodeUnit) :
    commentOf kind (text ++ CodeUnit.lineFeed :: b) = commentOf kind text := by
  have hline : (CodeUnit.lineFeed :: b).takeWhile (fun u => !u.isLineTerminator) = [] := rfl
  have htakeWhile (inner : List CodeUnit) :
      (inner ++ CodeUnit.lineFeed :: b).takeWhile (fun u => !u.isLineTerminator) =
        inner.takeWhile fun u => !u.isLineTerminator := by
    rw [List.takeWhile_append, hline, List.append_nil]
    split
    · next hall => exact ((List.takeWhile_prefix _).eq_of_length hall).symm
    · rfl
  unfold commentOf at hclosed ⊢
  dsimp only at hclosed ⊢
  rw [List.drop_append_of_le_length hpre.length_le, htakeWhile]
  cases kind with
  | multiLine =>
    dsimp only at hclosed ⊢
    cases hb : blockText? (text.drop Kind.multiLine.opener.length) with
    | none =>
      rw [hb] at hclosed
      simp [isUnclosed] at hclosed
    | some inner => rw [blockText?_append hb]
  | _ => rfl

/-- **A closed piece stays** where a line feed follows the text, unless it is a carriage return at
its end. -/
theorem first?_append (h : first? m text = some t) (hclosed : t.isUnclosed = false)
    (hreturn : text.getLast? ≠ some CodeUnit.carriageReturn) (b : List CodeUnit) :
    first? m (text ++ CodeUnit.lineFeed :: b) = some t := by
  have hafter := Text.stops_lineFeed b
  cases text with
  | nil => simp [first?] at h
  | cons u rest =>
    have hopening := opening?_append m (u :: rest) hafter
    rw [List.cons_append] at hopening ⊢
    simp only [first?] at h ⊢
    split at h
    · next hblank =>
      rw [if_pos hblank]
      exact h
    next hblank =>
    rw [if_neg hblank]
    split at h
    · next hline =>
      rw [if_pos hline]
      cases rest with
      | nil =>
        -- a line feed goes on with a carriage return only
        have hu : (u == CodeUnit.carriageReturn) = false := by
          rw [beq_eq_false_iff_ne]
          rintro rfl
          exact hreturn rfl
        rw [hu, Bool.false_and] at h ⊢
        exact h
      | cons v rest => exact h
    next hline =>
    rw [if_neg hline, hopening]
    obtain ⟨kind, hkind, rfl⟩ := Option.map_eq_some_iff.mp h
    have hpre := (opening?_eq_some_iff.mp hkind).2
    have hcomment := commentOf_append hpre hclosed b
    rw [List.cons_append] at hcomment
    rw [hkind, Option.map_some, hcomment]

/-- Where no piece begins, none begins with a separator behind the text. -/
theorem first?_append_eq_none (h : first? m text = none) (hne : text ≠ []) (hafter : Stops after) :
    first? m (text ++ after) = none := by
  rw [first?_eq_none_iff] at h ⊢
  unfold CanBegin at h ⊢
  rw [Text.head?_append_of_ne_nil hne]
  simpa only [opener_prefix_append _ hafter] using h

end Trivia

end EcmaLex
