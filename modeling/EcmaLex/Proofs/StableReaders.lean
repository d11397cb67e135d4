import EcmaLex.Proofs.CleanStops
import EcmaLex.Proofs.Recut

/-!
# Stable escapes, names and numbers

What these readers took of a text they take of any text that goes on with a separator behind it.
Escapes are decided by their own units and the one behind them, whether they are valid or not. The
parts of numbers are stable wherever the text is cut; whole names and numbers look at what follows,
and a separator is nothing that could go on with them.
-/

namespace EcmaLex

open Text (Recut Stops isSeparator)

/-! ## Escapes -/

namespace Escape

/-- A digit, or the unit that is none, takes part in the decision. -/
theorem reach_hexDigit (error : EscapeError) (text : List CodeUnit) :
    (hexDigit error text).reach = 1 := by
  cases text with
  | nil => rfl
  | cons u rest =>
    simp only [hexDigit]
    split <;> rfl

theorem local_hexDigit (error : EscapeError) : (hexDigit error).Local := by
  intro n text text' hcut hreach
  rw [reach_hexDigit] at hreach
  cases hcut with
  | here _ => omega
  | unit _ => rfl

theorem local_hexPair : hexPair.Local :=
  (local_hexDigit _).bind fun _ => (local_hexDigit _).bind fun _ => Reader.local_pure _

theorem local_hexQuad : hexQuad.Local :=
  (local_hexDigit _).bind fun _ => (local_hexDigit _).bind fun _ =>
    (local_hexDigit _).bind fun _ => (local_hexDigit _).bind fun _ => Reader.local_pure _

theorem reach_bracedDigits_pos (value : Nat) (count : Int32) (text : List CodeUnit) :
    0 < (bracedDigits value count text).reach := by
  cases text with
  | nil => exact Nat.zero_lt_one
  | cons u rest =>
    simp only [bracedDigits]
    split
    · split_ifs
      · exact Nat.zero_lt_one
      · rw [Outcome.reach_shift]
        omega
    · split_ifs <;> exact Nat.zero_lt_one

theorem local_bracedDigits (value : Nat) (count : Int32) : (bracedDigits value count).Local := by
  intro n text text' hcut hreach
  induction hcut generalizing value count with
  | @here text _ _ =>
    have := reach_bracedDigits_pos value count text
    omega
  | @unit n u rest rest' _ ih =>
    simp only [bracedDigits] at hreach ⊢
    cases hd : u.hexDigit? with
    | none => rfl
    | some d =>
      simp only [hd] at hreach ⊢
      by_cases hmax : CodePoint.max < 16 * value + d
      · rw [if_pos hmax, if_pos hmax]
      · rw [if_neg hmax, Outcome.reach_shift] at hreach
        rw [if_neg hmax, if_neg hmax, ih _ _ (by omega)]

theorem reach_unicode_pos (text : List CodeUnit) : 0 < (unicode text).reach := by
  have hquad (text : List CodeUnit) : 0 < (hexQuad text).reach := by
    have := Reader.reach_le_bind (hexDigit .invalidUnicode) (fun a => do
      let b ← hexDigit .invalidUnicode
      let c ← hexDigit .invalidUnicode
      let d ← hexDigit .invalidUnicode
      return 16 * (16 * (16 * a + b) + c) + d) text
    rw [reach_hexDigit] at this
    exact this
  cases text with
  | nil => exact hquad []
  | cons u rest =>
    simp only [unicode]
    split
    · rw [Outcome.reach_shift]
      omega
    · exact hquad _

theorem local_unicode : unicode.Local := by
  intro n text text' hcut hreach
  cases hcut with
  | here _ =>
    have := reach_unicode_pos text
    omega
  | @unit n u rest rest' h =>
    by_cases hu : u = CodeUnit.leftBrace
    · simp only [unicode, if_pos hu, Outcome.reach_shift] at hreach ⊢
      rw [local_bracedDigits 0 0 h (by omega)]
    · simp only [unicode, if_neg hu] at hreach ⊢
      exact local_hexQuad (.unit h) hreach

/-- How far reading came, whether it succeeded or not. -/
def stopOf : Outcome (Option CodePoint) → Nat
  | .ok x => x.length
  | .error f => f.stop

/-- What has come to its end before a cut is decided there. -/
theorem reach_le_of_stopOf {o : Outcome (Option CodePoint)} {n : Nat} (h : stopOf o < n) :
    o.reach ≤ n := by
  cases o with
  | ok x => exact Nat.le_of_lt h
  | error f => exact h

theorem isOctalDigit_separator (u : CodeUnit) (h : isSeparator u = true) :
    u.isOctalDigit = false := by
  rcases Text.eq_of_isSeparator h with rfl | rfl <;> decide

theorem isDecimalDigit_separator (u : CodeUnit) (h : isSeparator u = true) :
    u.isDecimalDigit = false := by
  rcases Text.eq_of_isSeparator h with rfl | rfl <;> decide

theorem octalDigits_eq {n : Nat} {text text' : List CodeUnit} (hcut : Recut n text text')
    (hn : (octalDigits text).length < n) : octalDigits text' = octalDigits text := by
  have hhead := hcut.head?_eq (by omega)
  unfold octalDigits at hn ⊢
  rw [hhead]
  exact hcut.take_takeWhile isOctalDigit_separator (Nat.le_of_lt hn)

theorem lineTerminatorLength_eq {n : Nat} {u : CodeUnit} {rest rest' : List CodeUnit}
    (hcut : Recut n rest rest') (hn : 0 < n) :
    lineTerminatorLength (u :: rest') = lineTerminatorLength (u :: rest) := by
  cases hcut with
  | here => omega
  | unit _ => rfl

theorem length_pos_of_octalDigits {u : CodeUnit} (hu : u.isOctalDigit = true)
    (rest : List CodeUnit) : 0 < (octalDigits (u :: rest)).length := by
  unfold octalDigits
  dsimp only
  split <;> simp [hu]

theorem lineTerminatorLength_pos (text : List CodeUnit) : 0 < lineTerminatorLength text := by
  unfold lineTerminatorLength
  split
  · split <;> omega
  · omega

/-- An escape takes at least one unit. -/
theorem length_pos_of_body {refusal : Option EscapeError} {text : List CodeUnit}
    {e : Reading (Option CodePoint)} (h : body refusal text = .ok e) : 0 < e.length := by
  unfold body at h
  split at h
  · simp at h
  split at h
  · obtain rfl := Except.ok.inj h
    exact lineTerminatorLength_pos _
  split at h
  · obtain rfl := Except.ok.inj h
    exact Nat.zero_lt_one
  split at h
  · obtain ⟨z, -, rfl⟩ := Outcome.mapValue_shift_eq_ok_iff.mp h
    show 0 < 1 + z.length
    omega
  split at h
  · obtain ⟨z, -, rfl⟩ := Outcome.mapValue_shift_eq_ok_iff.mp h
    show 0 < 1 + z.length
    omega
  split at h
  · obtain rfl := Except.ok.inj h
    exact Nat.zero_lt_one
  split at h
  · next hu =>
    obtain ⟨z, hz, rfl⟩ := Outcome.mapValue_eq_ok_iff.mp h
    cases refusal with
    | some e => simp [octal] at hz
    | none =>
      obtain rfl := Except.ok.inj hz
      exact length_pos_of_octalDigits hu _
  split at h
  · simp at h
  split at h
  · next hc =>
    obtain rfl := Except.ok.inj h
    exact Identifier.width_pos hc
  · simp at h

/-- **Escapes are decided by their units and the one behind them.** That one matters after a
carriage return and after a zero, and it stands in the literal that the escape is part of. -/
theorem body_eq {n : Nat} {text text' : List CodeUnit} (refusal : Option EscapeError)
    (hcut : Recut n text text') (hn : stopOf (body refusal text) < n)
    (hzero : text.head? = some CodeUnit.zero → 2 ≤ n) :
    body refusal text' = body refusal text := by
  cases hcut with
  | here => omega
  | @unit n u rest rest' h =>
    have hreach := reach_le_of_stopOf hn
    -- what follows a zero decides between a NUL and an octal escape
    have hhead : u = CodeUnit.zero → rest'.head? = rest.head? := by
      rintro rfl
      have := hzero rfl
      exact h.head?_eq (by omega)
    unfold body at hn hreach ⊢
    dsimp only at hn hreach ⊢
    by_cases hline : u.isLineTerminator = true
    · rw [if_pos hline] at hn
      rw [if_pos hline, if_pos hline, lineTerminatorLength_eq h]
      have := lineTerminatorLength_pos (u :: rest)
      have : lineTerminatorLength (u :: rest) < n + 1 := hn
      omega
    rw [if_neg hline] at hn hreach
    rw [if_neg hline, if_neg hline]
    cases hcontrol : control? u with
    | some c => rfl
    | none =>
      simp only [hcontrol] at hn hreach ⊢
      by_cases hx : u = CodeUnit.ofChar 'x'
      · rw [if_pos hx, Outcome.reach_mapValue, Outcome.reach_shift] at hreach
        rw [if_pos hx, if_pos hx, local_hexPair h (by omega)]
      rw [if_neg hx] at hn hreach
      rw [if_neg hx, if_neg hx]
      by_cases hu : u = CodeUnit.ofChar 'u'
      · rw [if_pos hu, Outcome.reach_mapValue, Outcome.reach_shift] at hreach
        rw [if_pos hu, if_pos hu, local_unicode h (by omega)]
      rw [if_neg hu] at hn hreach
      rw [if_neg hu, if_neg hu]
      have hnul : (u = CodeUnit.zero ∧ (!rest'.head?.any CodeUnit.isDecimalDigit) = true) ↔
          (u = CodeUnit.zero ∧ (!rest.head?.any CodeUnit.isDecimalDigit) = true) :=
        and_congr_right fun h0 => by rw [hhead h0]
      rw [if_congr hnul rfl rfl]
      by_cases h0 : u = CodeUnit.zero ∧ (!rest.head?.any CodeUnit.isDecimalDigit) = true
      · rw [if_pos h0, if_pos h0]
      rw [if_neg h0] at hn
      rw [if_neg h0, if_neg h0]
      by_cases hoctal : u.isOctalDigit = true
      · rw [if_pos hoctal] at hn
        rw [if_pos hoctal, if_pos hoctal]
        cases refusal with
        | some e => rfl
        | none => simp only [octal, octalDigits_eq (.unit h) hn]
      rw [if_neg hoctal] at hn
      rw [if_neg hoctal, if_neg hoctal]
      by_cases hdecimal : u.isDecimalDigit = true
      · rw [if_pos hdecimal, if_pos hdecimal]
      rw [if_neg hdecimal] at hn
      rw [if_neg hdecimal, if_neg hdecimal]
      -- what is left denotes itself, and the cut does not split a pair
      rcases hc : Utf16.head? (u :: rest) with _ | ⟨c, width⟩
      · cases rest with
        | nil => simp [Utf16.head?] at hc
        | cons v rest =>
          simp only [Utf16.head?] at hc
          split at hc <;> simp at hc
      · rw [hc] at hn
        rw [(Recut.unit h).utf16_head? hc (Nat.le_of_lt hn)]

end Escape

/-! ## Names -/

namespace Identifier

/-- A separator stands in no name. -/
theorem nameChar?_separator (first : Bool) {u : CodeUnit} (h : isSeparator u = true) :
    nameChar? first u.toNat = none := by
  rcases Text.eq_of_isSeparator h with rfl | rfl <;> cases first <;> decide

/-- No name goes on at a separator. -/
theorem item?_of_stops (first : Bool) {text : List CodeUnit} (h : Stops text) :
    item? first text = none := by
  have hbackslash : text.head? ≠ some CodeUnit.backslash := by
    intro hhead
    exact absurd (h _ hhead) (by decide)
  unfold item?
  rw [if_neg hbackslash]
  rcases h.utf16_head? with hnone | ⟨u, hu, hsome⟩
  · rw [hnone]
  · rw [hsome]
    dsimp only
    rw [nameChar?_separator first hu]
    rfl

theorem escapedItem_eq {first : Bool} {n : Nat} {text text' : List CodeUnit} {x : Reading Char}
    (hcut : Recut n text text') (hx : escapedItem first text = .ok x) (hn : x.length ≤ n) :
    escapedItem first text' = .ok x ∧ 2 ≤ x.length := by
  unfold escapedItem at hx ⊢
  cases hz : Escape.unicode (text.drop 2) with
  | error f =>
    rw [hz] at hx
    simp at hx
  | ok z =>
    rw [hz] at hx
    dsimp only at hx
    cases hch : nameChar? first z.value with
    | none =>
      rw [hch] at hx
      simp at hx
    | some ch =>
      rw [hch] at hx
      obtain rfl := Except.ok.inj hx
      dsimp only at hn
      have hrest := Escape.local_unicode.stable (hcut.drop (k := 2) (by omega)) hz (by omega)
      rw [hrest]
      dsimp only
      rw [hch]
      exact ⟨rfl, Nat.le_add_right 2 _⟩

theorem item?_eq {first : Bool} {n : Nat} {text text' : List CodeUnit} {x : Reading Char}
    (hcut : Recut n text text') (hx : item? first text = some (.ok x)) (hn : x.length ≤ n) :
    item? first text' = some (.ok x) := by
  unfold item? at hx ⊢
  by_cases hbackslash : text.head? = some CodeUnit.backslash
  · rw [if_pos hbackslash] at hx
    by_cases hu : (text.drop 1).head? = some (CodeUnit.ofChar 'u')
    · rw [if_pos hu, Option.some.injEq] at hx
      obtain ⟨hx', htwo⟩ := escapedItem_eq hcut hx hn
      have h₀ : text'.head? = text.head? := hcut.head?_eq (by omega)
      have h₁ : (text'.drop 1).head? = (text.drop 1).head? :=
        (hcut.drop (by omega)).head?_eq (by omega)
      rw [h₀, h₁, if_pos hbackslash, if_pos hu, hx']
    · rw [if_neg hu] at hx
      split at hx <;> simp at hx
  · rw [if_neg hbackslash] at hx
    rw [if_neg (hcut.head?_ne (by decide) hbackslash)]
    rcases hc : Utf16.head? text with _ | ⟨c, width⟩
    · rw [hc] at hx
      simp at hx
    · rw [hc] at hx
      dsimp only at hx
      obtain ⟨ch, hch, hx⟩ := Option.map_eq_some_iff.mp hx
      obtain rfl := Except.ok.inj hx
      rw [hcut.utf16_head? hc hn]
      dsimp only
      rw [hch]
      rfl

theorem parts_of_none {text : List CodeUnit} (h : item? false text = none) :
    parts text = .ok ⟨[], 0, ∅⟩ := by
  rw [parts]
  split <;> simp_all

theorem parts_of_some {text : List CodeUnit} {x : Reading Char}
    (h : item? false text = some (.ok x)) :
    parts text = ((parts (text.drop x.length)).shift x.length x.flags).mapValue (x.value :: ·) := by
  rw [parts]
  split
  · next hnone => rw [hnone] at h; simp at h
  · next f hf => rw [hf] at h; simp at h
  · next y hy =>
    rw [hy, Option.some.injEq, Except.ok.injEq] at h
    rw [h]

theorem stableAtEnd_parts : Reader.StableAtEnd parts := by
  intro text text' y hy hcut
  -- each item stays, and where the name ended the separator ends it
  fun_induction parts text generalizing text' y with
  | case1 text h =>
    obtain rfl := Except.ok.inj hy
    exact parts_of_none (item?_of_stops false hcut.stops)
  | case2 text f h => simp at hy
  | case3 text x h ih =>
    obtain ⟨z, hz, rfl⟩ := Outcome.mapValue_shift_eq_ok_iff.mp hy
    have hrest := hcut.drop (Nat.le_add_right x.length z.length)
    rw [Nat.add_sub_cancel_left] at hrest
    rw [parts_of_some (item?_eq hcut h (Nat.le_add_right _ _)), ih hz hrest]
    rfl

theorem stable_start : start.Stable := by
  intro n text text' x hcut hx hn
  unfold start at hx ⊢
  split at hx
  · simp at hx
  · next r hr =>
    subst hx
    rw [item?_eq hcut hr hn]

theorem stableAtEnd_name : name.StableAtEnd :=
  stable_start.bind_atEnd fun _ => stableAtEnd_parts.bind_pure _

theorem stableAtEnd_read : read.StableAtEnd := stableAtEnd_name.interpret _

/-- The first code point of a name is part of its first item. -/
theorem head?_of_name {n : Nat} {text text' : List CodeUnit} {x : Reading String}
    (hcut : Recut n text text') (hx : name text = .ok x) (hn : x.length ≤ n) :
    text'.head? = text.head? ∧ (text.head? = some CodeUnit.backslash ∨
      Utf16.head? text' = Utf16.head? text) := by
  have hpos := length_pos_of_name hx
  refine ⟨hcut.head?_eq (by omega), ?_⟩
  obtain ⟨z, w, hz, -, rfl⟩ := Reader.bind_eq_ok_iff.mp hx
  by_cases hbackslash : text.head? = some CodeUnit.backslash
  · exact .inl hbackslash
  · right
    dsimp only at hn
    unfold start at hz
    split at hz
    · simp at hz
    · next r hr =>
      subst hz
      unfold item? at hr
      rw [if_neg hbackslash] at hr
      rcases hc : Utf16.head? text with _ | ⟨c, width⟩
      · rw [hc] at hr
        simp at hr
      · rw [hc] at hr
        dsimp only at hr
        obtain ⟨ch, -, hz⟩ := Option.map_eq_some_iff.mp hr
        obtain rfl := Except.ok.inj hz
        dsimp only at hn
        rw [hcut.utf16_head? hc (by omega)]

theorem stableAtEnd_readPrivate {u : CodeUnit} {rest text' : List CodeUnit} {x : Reading Lexeme}
    (hx : readPrivate (u :: rest) = .ok x) (hcut : Recut x.length (u :: rest) text') :
    readPrivate text' = .ok x := by
  unfold readPrivate at hx
  dsimp only at hx
  rw [List.drop_succ_cons, List.drop_zero] at hx
  split at hx
  · next hbegins =>
    obtain ⟨z, hz, rfl⟩ := Outcome.mapValue_shift_eq_ok_iff.mp hx
    obtain ⟨rest', rfl, hrest⟩ := hcut.exists_cons (by dsimp only; omega)
    dsimp only at hrest
    rw [Nat.add_sub_cancel_left] at hrest
    obtain ⟨hhead, hpoint⟩ := head?_of_name hrest hz (Nat.le_refl _)
    have hname := stableAtEnd_name hz hrest
    unfold readPrivate
    dsimp only
    rw [List.drop_succ_cons, List.drop_zero, hname, hhead]
    rcases hpoint with hbackslash | hpoint
    · rw [if_pos (.inl hbackslash)]
      rfl
    · rw [hpoint, if_pos hbegins]
      rfl
  · simp at hx

end Identifier

/-! ## Numbers -/

namespace Numeric

variable {m : Mode} {n : Nat} {text text' : List CodeUnit}

/-- No run of digits goes on at a separator. -/
theorem inRun_separator (radix : Radix) (separators : Bool) (u : CodeUnit)
    (h : isSeparator u = true) : inRun radix separators u = false := by
  rcases Text.eq_of_isSeparator h with rfl | rfl <;> cases radix <;> cases separators <;> decide

theorem stable_digits (radix : Radix) (separators : Bool) : (digits radix separators).Stable := by
  intro n text text' x hcut hx hn
  unfold digits at hx ⊢
  dsimp only at hx ⊢
  cases hfault : separatorFault? (text.takeWhile (inRun radix separators)) with
  | some f =>
    rw [hfault] at hx
    simp at hx
  | none =>
    rw [hfault] at hx
    obtain rfl := Except.ok.inj hx
    rw [hcut.takeWhile_eq (inRun_separator radix separators) hn, hfault]

/-! ### Ends of numbers -/

theorem hasSuffix_eq (hcut : Recut n text text') (hn : 0 < n) :
    hasSuffix m text' = hasSuffix m text := by
  rw [hasSuffix, hasSuffix, hcut.head?_eq hn]

/-- A separator is no suffix. -/
theorem hasSuffix_eq_false (hcut : Recut n text text') (h : hasSuffix m text = false) :
    hasSuffix m text' = false := by
  cases hcut with
  | here hstop =>
    have hhead : text'.head? ≠ some (CodeUnit.ofChar 'n') := by
      intro hhead
      exact absurd (hstop _ hhead) (by decide)
    rw [hasSuffix, beq_eq_false_iff_ne.mpr hhead, Bool.and_false]
  | unit _ => exact h

theorem checkEnd_of_stops (h : Stops text) : checkEnd text = .ok ⟨(), 0, ∅⟩ := by
  unfold checkEnd
  rcases h.utf16_head? with hnone | ⟨u, hu, hsome⟩
  · rw [hnone]
  · rw [hsome]
    rcases Text.eq_of_isSeparator hu with rfl | rfl <;> rfl

theorem eq_of_checkEnd {x : Reading Unit} (h : checkEnd text = .ok x) : x = ⟨(), 0, ∅⟩ := by
  unfold checkEnd at h
  split at h
  · exact (Except.ok.inj h).symm
  · split at h
    · simp at h
    · exact (Except.ok.inj h).symm

theorem stableAtEnd_checkEnd : checkEnd.StableAtEnd := by
  intro text text' x hx hcut
  obtain rfl := eq_of_checkEnd hx
  exact checkEnd_of_stops hcut.stops

theorem stableAtEnd_numberEnd (m : Mode) : (numberEnd m).StableAtEnd := by
  intro text text' x hx hcut
  unfold numberEnd at hx ⊢
  cases hs : hasSuffix m text with
  | true =>
    rw [hs, if_pos rfl] at hx
    simp at hx
  | false =>
    rw [hs, if_neg (by simp)] at hx
    rw [hasSuffix_eq_false hcut hs, if_neg (by simp)]
    exact stableAtEnd_checkEnd hx hcut

/-- Units that are all there are taken again. -/
theorem take_apply {k : Nat} (hk : k ≤ text.length) :
    Reader.take k text = .ok ⟨text.take k, k, ∅⟩ := by
  rw [Reader.take, List.length_take, Nat.min_eq_left hk]

theorem take_eq_of_recut {k : Nat} (hcut : Recut n text text') (hk : k ≤ n) :
    Reader.take k text' = Reader.take k text := by
  rw [Reader.take, Reader.take, hcut.take_eq hk]

theorem bigIntEnd_eq {x : Reading Unit} (hs : hasSuffix m text = true)
    (hx : bigIntEnd text = .ok x) (hcut : Recut x.length text text') :
    bigIntEnd text' = .ok x ∧ 0 < x.length := by
  have hone : 1 ≤ text.length := by
    cases text with
    | nil => exact absurd (head?_of_hasSuffix hs) (by simp)
    | cons u rest => simp
  obtain ⟨z, w, hz, hw, rfl⟩ := Reader.bind_eq_ok_iff.mp hx
  rw [take_apply hone] at hz
  obtain rfl := Except.ok.inj hz
  obtain rfl := eq_of_checkEnd hw
  refine ⟨Reader.bind_eq_ok_iff.mpr ⟨_, _, ?_, ?_, rfl⟩, Nat.zero_lt_one⟩
  · rw [take_eq_of_recut hcut (Nat.le_refl 1), take_apply hone]
  · exact checkEnd_of_stops (hcut.drop (Nat.le_refl 1)).stops

/-- The end of a number that may be a BigInt. -/
theorem stableAtEnd_suffix (m : Mode) (form : Form) {other : Reader Form}
    (hother : other.StableAtEnd) :
    (do
      let rest ← Reader.ahead
      if hasSuffix m rest then do
        bigIntEnd
        return form
      else other : Reader Form).StableAtEnd := by
  intro text text' x hx hcut
  rw [Reader.ahead_bind] at hx ⊢
  cases hs : hasSuffix m text with
  | true =>
    rw [hs, if_pos rfl] at hx
    obtain ⟨z, w, hz, hw, rfl⟩ := Reader.bind_eq_ok_iff.mp hx
    obtain rfl := Except.ok.inj hw
    obtain ⟨hz', hpos⟩ := bigIntEnd_eq hs hz hcut
    rw [hasSuffix_eq hcut hpos, hs, if_pos rfl]
    exact Reader.bind_eq_ok_iff.mpr ⟨z, _, hz', rfl, rfl⟩
  | false =>
    rw [hs, if_neg (by simp)] at hx
    rw [hasSuffix_eq_false hcut hs, if_neg (by simp)]
    exact hother hx hcut

/-! ### Fractions and exponents -/

theorem stable_fraction (m : Mode) : (fraction m).Stable := by
  intro n text text' x hcut hx hn
  unfold fraction at hx ⊢
  by_cases hpoint : text.head? = some CodeUnit.period
  · rw [if_pos hpoint] at hx
    obtain ⟨z, hz, rfl⟩ := Outcome.mapValue_shift_eq_ok_iff.mp hx
    dsimp only at hn
    have hrest := stable_digits _ _ (hcut.drop (k := 1) (by omega)) hz (by omega)
    rw [hcut.head?_eq (by omega), if_pos hpoint, hrest]
    rfl
  · rw [if_neg hpoint] at hx
    rw [if_neg (hcut.head?_ne (by decide) hpoint)]
    exact hx

theorem stable_exponentDigits (m : Mode) : (exponentDigits m).Stable := by
  apply (stable_digits _ _).bind
  intro run
  split
  · exact Reader.stable_fail _
  · exact (Reader.local_pure ()).stable

theorem isSign_separator (u : CodeUnit) (h : isSeparator u = true) : isSign u = false := by
  rcases Text.eq_of_isSeparator h with rfl | rfl <;> decide

theorem exponent_of_stops (m : Mode) (h : Stops text) : exponent m text = .ok ⟨(), 0, ∅⟩ := by
  cases text with
  | nil => rfl
  | cons u rest => rcases Text.eq_of_isSeparator (h u rfl) with rfl | rfl <;> rfl

theorem stable_exponent (m : Mode) : (exponent m).Stable := by
  intro n text text' x hcut hx hn
  cases hcut with
  | here hstop =>
    rw [exponent_of_stops m hstop]
    cases text with
    | nil => exact hx
    | cons u rest =>
      simp only [exponent] at hx
      split at hx
      · have := Outcome.le_length_of_shift hx
        omega
      · exact hx
  | @unit n u rest rest' h =>
    simp only [exponent] at hx ⊢
    by_cases hmark : isExponentMark u = true
    · rw [if_pos hmark] at hx ⊢
      obtain ⟨z, hz, rfl⟩ := Outcome.shift_eq_ok_iff.mp hx
      dsimp only at hn
      -- a sign is among the units that stay, and no separator is one
      have hsign : rest'.head?.any isSign = rest.head?.any isSign := by
        cases hs : rest.head?.any isSign with
        | true =>
          rw [hs, if_pos rfl] at hn
          rw [h.head?_eq (by omega), hs]
        | false => exact h.any_head? isSign_separator hs
      rw [hsign, stable_exponentDigits m (h.drop (by omega)) hz (by omega)]
      rfl
    · rw [if_neg hmark] at hx ⊢
      exact hx

theorem stableAtEnd_tail (m : Mode) (form : Form) :
    (do fraction m; exponent m; numberEnd m; return form : Reader Form).StableAtEnd :=
  (stable_fraction m).bind_atEnd fun _ => (stable_exponent m).bind_atEnd fun _ =>
    (stableAtEnd_numberEnd m).bind_pure _

/-! ### Literals -/

theorem stableAtEnd_decimal (m : Mode) : (decimal m).StableAtEnd :=
  (stable_digits _ _).bind_atEnd fun _ => stableAtEnd_suffix m _ (stableAtEnd_tail m _)

theorem stableAtEnd_leadingZero (m : Mode) : (leadingZero m).StableAtEnd := by
  refine Reader.Stable.bind_atEnd ?_ fun run => (Reader.stable_note _).bind_atEnd fun _ => ?_
  · exact (Reader.stable_takeWhile Escape.isDecimalDigit_separator).interpret _
  · split
    · exact (stableAtEnd_numberEnd m).bind_pure _
    · exact stableAtEnd_tail m _

/-- The zero and the letter of a prefix stand in front of the digits. -/
theorem prefixed_eq {radix : Radix} {x : Reading Form} (htwo : 2 ≤ text.length)
    (hx : prefixed m radix text = .ok x) (hcut : Recut x.length text text') :
    prefixed m radix text' = .ok x := by
  obtain ⟨z, w, hz, hw, rfl⟩ := Reader.bind_eq_ok_iff.mp hx
  rw [take_apply htwo] at hz
  obtain rfl := Except.ok.inj hz
  have hrest := hcut.drop (Nat.le_add_right 2 w.length)
  rw [Nat.add_sub_cancel_left] at hrest
  refine Reader.bind_eq_ok_iff.mpr ⟨_, w, ?_, ?_, rfl⟩
  · rw [take_eq_of_recut hcut (Nat.le_add_right _ _), take_apply htwo]
  · refine Reader.Stable.bind_atEnd (stable_digits radix m.next) (fun run => ?_) hw hrest
    split
    · exact (Reader.stable_fail _).atEnd
    · exact stableAtEnd_suffix m _ (stableAtEnd_checkEnd.bind_pure _)

theorem two_le_length_of_prefixed {radix : Radix} {x : Reading Form} (htwo : 2 ≤ text.length)
    (hx : prefixed m radix text = .ok x) : 2 ≤ x.length := by
  obtain ⟨z, w, hz, -, rfl⟩ := Reader.bind_eq_ok_iff.mp hx
  rw [take_apply htwo] at hz
  obtain rfl := Except.ok.inj hz
  exact Nat.le_add_right 2 _

theorem two_le_length_of_leadingZero {u v : CodeUnit} {rest : List CodeUnit} {x : Reading Form}
    (hu : u.isDecimalDigit = true) (hv : v.isDecimalDigit = true)
    (hx : leadingZero m (u :: v :: rest) = .ok x) : 2 ≤ x.length := by
  obtain ⟨z, w, hz, -, rfl⟩ := Reader.bind_eq_ok_iff.mp hx
  obtain ⟨y, b, hy, -, rfl⟩ := Reader.interpret_eq_ok_iff.mp hz
  obtain rfl := Except.ok.inj hy
  show 2 ≤ ((u :: v :: rest).takeWhile CodeUnit.isDecimalDigit).length + w.length
  rw [List.takeWhile_cons, if_pos hu, List.takeWhile_cons, if_pos hv, List.length_cons,
    List.length_cons]
  omega

/-- A digit alone is a decimal literal. -/
theorem form_of_stops (m : Mode) (u : CodeUnit) (h : Stops text) :
    form m (u :: text) = decimal m (u :: text) := by
  cases text with
  | nil => rfl
  | cons v rest =>
    simp only [form]
    rcases Text.eq_of_isSeparator (h v rfl) with rfl | rfl
    · split
      · rw [show radixOf? (CodeUnit.ofChar ' ') = none by decide]
        cases m.next <;> rfl
      · rfl
    · split
      · rw [show radixOf? CodeUnit.lineFeed = none by decide]
        cases m.next <;> rfl
      · rfl

/-- A literal of one unit is decimal. -/
theorem decimal_of_form {u : CodeUnit} {rest : List CodeUnit} {x : Reading Form}
    (hx : form m (u :: rest) = .ok x) (hone : x.length = 1) : decimal m (u :: rest) = .ok x := by
  cases rest with
  | nil => exact hx
  | cons v rest =>
    simp only [form] at hx
    split at hx
    · next hu =>
      split at hx
      · have := two_le_length_of_prefixed (by simp) hx
        omega
      · split at hx
        · next hv =>
          have := two_le_length_of_leadingZero (by rw [hu]; decide) hv hx
          omega
        · split at hx
          · simp at hx
          · exact hx
    · exact hx

/-- Where the first two units stay, the same form of literal is read. -/
theorem form_eq {x : Reading Form} (hx : form m text = .ok x) (hpos : 0 < x.length)
    (hcut : Recut x.length text text') : form m text' = .ok x := by
  cases text with
  | nil => exact absurd hcut.le_length (by simpa using Nat.ne_of_gt hpos)
  | cons u rest =>
    obtain ⟨rest', rfl, hrest⟩ := hcut.exists_cons hpos
    by_cases hone : x.length = 1
    -- with one unit in common the second one is a separator, and was no part of the literal before
    · have hstops : Stops rest' := by
        rw [hone] at hrest
        exact hrest.stops
      rw [form_of_stops m u hstops]
      exact stableAtEnd_decimal m (decimal_of_form hx hone) hcut
    · cases rest with
      | nil =>
        have := hcut.le_length
        rw [List.length_singleton] at this
        omega
      | cons v rest =>
        obtain ⟨rest', rfl, -⟩ := hrest.exists_cons (by omega)
        simp only [form] at hx ⊢
        split at hx
        · next hu =>
          rw [if_pos hu]
          split at hx
          · exact prefixed_eq (by simp) hx hcut
          · split at hx
            · next hdigit =>
              rw [if_pos hdigit]
              exact stableAtEnd_leadingZero m hx hcut
            · next hdigit =>
              rw [if_neg hdigit]
              split at hx
              · simp at hx
              · next hseparator =>
                rw [if_neg hseparator]
                exact stableAtEnd_decimal m hx hcut
        · next hu =>
          rw [if_neg hu]
          exact stableAtEnd_decimal m hx hcut

theorem read_eq {x : Reading Lexeme} (hx : read m text = .ok x) (hpos : 0 < x.length)
    (hcut : Recut x.length text text') : read m text' = .ok x := by
  obtain ⟨z, b, hz, hb, rfl⟩ := Reader.interpret_eq_ok_iff.mp hx
  refine Reader.interpret_eq_ok_iff.mpr ⟨z, b, form_eq hz hpos hcut, ?_, rfl⟩
  rw [hcut.take_eq (Nat.le_refl z.length)]
  exact hb

/-- A point and a digit are both part of the number that they begin. -/
theorem two_le_length_of_point {rest : List CodeUnit} {x : Reading Lexeme}
    (hdigit : rest.head?.any CodeUnit.isDecimalDigit = true)
    (hx : read m (CodeUnit.period :: rest) = .ok x) : 2 ≤ x.length := by
  obtain ⟨z, b, hz, -, rfl⟩ := Reader.interpret_eq_ok_iff.mp hx
  show 2 ≤ z.length
  have hdecimal : decimal m (CodeUnit.period :: rest) = .ok z := by
    cases rest with
    | nil => exact hz
    | cons v rest => exact hz
  obtain ⟨a, w, ha, hw, rfl⟩ := Reader.bind_eq_ok_iff.mp hdecimal
  -- no digits in front of the point, so the fraction takes the point and the digit
  rw [length_of_digits_period ha, List.drop_zero, Reader.ahead_bind] at hw
  have hs : hasSuffix m (CodeUnit.period :: rest) = false := by
    rw [hasSuffix, beq_eq_false_iff_ne.mpr (by rw [List.head?_cons]; decide), Bool.and_false]
  rw [hs, if_neg (by simp)] at hw
  obtain ⟨y, w', hy, -, rfl⟩ := Reader.bind_eq_ok_iff.mp hw
  rw [fraction, List.head?_cons, if_pos rfl, List.drop_succ_cons, List.drop_zero] at hy
  obtain ⟨d, hd, rfl⟩ := Outcome.mapValue_shift_eq_ok_iff.mp hy
  have hpos : 0 < d.length := by
    cases rest with
    | nil => simp at hdigit
    | cons v rest =>
      exact length_pos_of_digits (isDigit_of_isDecimalDigit (by simpa using hdigit)) hd
  dsimp only
  omega

end Numeric

end EcmaLex
