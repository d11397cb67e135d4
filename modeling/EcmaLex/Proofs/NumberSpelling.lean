import EcmaLex.Proofs.LongestNumbers

/-!
# Numbers with and without the newer syntax

Underscores between digits and the suffix of BigInt literals are an extension of the older syntax. A
reader for the newer syntax asks at every run of digits and at every end whether it may go further,
so that it is not its parts that agree with those of the older reader, but the whole: what one of
its runs takes beyond the older one, the older reader would have refused as a name after the number.

* `flags_of_form`: the flags of a number tell exactly what its text is like, whatever the syntax.
* `Literal.older_iff`: the literals of the older syntax are those of the newer one that have no
  underscore and no suffix.
* `form_older_iff`: so the older reader takes exactly what the newer one takes without them.
-/

namespace EcmaLex.Numeric

/-! ## What is noted of the spelling -/

/-- What is noted of a part of a number: whether it has separators. -/
def spelling (w : List CodeUnit) : TokenFlags :=
  { numericSeparator := w.contains CodeUnit.underscore }

theorem spelling_append (a b : List CodeUnit) : spelling (a ++ b) = spelling a ∪ spelling b := by
  show _ = (spelling a).union (spelling b)
  simp [spelling, TokenFlags.union]

theorem spelling_eq_empty {w : List CodeUnit} (h : CodeUnit.underscore ∉ w) : spelling w = ∅ := by
  unfold spelling
  rw [List.contains_eq_mem, decide_eq_false h]
  rfl

/-- Of what was read, exactly the spelling is noted. -/
def NotesSpelling {α : Type} (text : List CodeUnit) (o : Outcome α) : Prop :=
  ∀ x, o = .ok x → x.flags = spelling (text.take x.length)

variable {α β : Type} {text : List CodeUnit}

theorem notesSpelling_error (f : Fault) : NotesSpelling text (.error f : Outcome α) := by
  intro x hx
  simp at hx

theorem notesSpelling_done (a : α) : NotesSpelling text (.ok ⟨a, 0, ∅⟩) := by
  intro x hx
  obtain rfl := Except.ok.inj hx
  rfl

namespace NotesSpelling

/-- What is read behind a word without separators. -/
theorem shift {o : Outcome α} {w : List CodeUnit} (hw : CodeUnit.underscore ∉ w)
    (h : NotesSpelling text o) : NotesSpelling (w ++ text) (o.shift w.length ∅) := by
  intro x hx
  obtain ⟨z, hz, rfl⟩ := Outcome.shift_eq_ok_iff.mp hx
  show ∅ ∪ z.flags = spelling ((w ++ text).take (w.length + z.length))
  rw [List.take_length_add_append, spelling_append, spelling_eq_empty hw, h z hz]

theorem mapValue {o : Outcome α} (f : α → β) (h : NotesSpelling text o) :
    NotesSpelling text (o.mapValue f) := by
  intro x hx
  obtain ⟨z, hz, rfl⟩ := Outcome.mapValue_eq_ok_iff.mp hx
  exact h z hz

theorem bind {r : Reader α} {next : α → Reader β} (hr : NotesSpelling text (r text))
    (hnext : ∀ a text, NotesSpelling text (next a text)) :
    NotesSpelling text ((r >>= next) text) := by
  intro x hx
  obtain ⟨z, w, hz, hw, rfl⟩ := Reader.bind_eq_ok_iff.mp hx
  show z.flags ∪ w.flags = spelling (text.take (z.length + w.length))
  rw [List.take_add, spelling_append, hr z hz, hnext z.value _ w hw]

end NotesSpelling

/-! ### Parts of literals -/

theorem notesSpelling_digits (radix : Radix) (separators : Bool) :
    NotesSpelling text (digits radix separators text) := by
  unfold digits
  dsimp only
  split
  · exact notesSpelling_error _
  · intro x hx
    obtain rfl := Except.ok.inj hx
    have hrun := List.prefix_iff_eq_take.mp (text.takeWhile_prefix (inRun radix separators))
    dsimp only
    rw [← hrun]
    rfl

theorem notesSpelling_checkEnd : NotesSpelling text (checkEnd text) := by
  rw [checkEnd_eq]
  split
  · exact notesSpelling_error _
  · exact notesSpelling_done ()

theorem notesSpelling_numberEnd (m : Mode) : NotesSpelling text (numberEnd m text) := by
  unfold numberEnd
  split
  · exact notesSpelling_error _
  · exact notesSpelling_checkEnd

theorem notesSpelling_fraction (m : Mode) : NotesSpelling text (fraction m text) := by
  unfold fraction
  split
  · next hhead =>
    obtain ⟨rest, rfl⟩ := List.head?_eq_some_iff.mp hhead
    exact .mapValue _ (.shift (w := [CodeUnit.period]) (by decide) (notesSpelling_digits _ _))
  · exact notesSpelling_done ()

theorem notesSpelling_exponentDigits (m : Mode) : NotesSpelling text (exponentDigits m text) := by
  refine .bind (notesSpelling_digits _ _) fun run _ => ?_
  split
  · exact notesSpelling_error _
  · exact notesSpelling_done ()

theorem ne_underscore_of_isExponentMark {u : CodeUnit} (hu : isExponentMark u = true) :
    u ≠ CodeUnit.underscore := by
  rintro rfl
  exact absurd hu (by decide)

theorem ne_underscore_of_isSign {u : CodeUnit} (hu : isSign u = true) :
    u ≠ CodeUnit.underscore := by
  rintro rfl
  exact absurd hu (by decide)

theorem notesSpelling_exponent (m : Mode) : NotesSpelling text (exponent m text) := by
  cases hany : text.head?.any isExponentMark with
  | false =>
    rw [exponent_absent hany]
    exact notesSpelling_done ()
  | true =>
    obtain ⟨mark, rest, rfl, hmark⟩ := exists_cons_of_any_head? hany
    have hne := ne_underscore_of_isExponentMark hmark
    cases hsign : rest.head?.any isSign with
    | false =>
      have heq : exponent m (mark :: rest) = _ := exponent_unsigned hmark hsign
      rw [heq]
      exact .mapValue _ (.shift (by simpa using hne.symm) (notesSpelling_exponentDigits m))
    | true =>
      obtain ⟨sign, rest, rfl, hsign⟩ := exists_cons_of_any_head? hsign
      have hne' := ne_underscore_of_isSign hsign
      have heq : exponent m (mark :: sign :: rest) = _ := exponent_signed hmark hsign
      rw [heq]
      exact .mapValue _ (.shift (by simpa using ⟨hne.symm, hne'.symm⟩)
        (notesSpelling_exponentDigits m))

theorem notesSpelling_tail (m : Mode) (form : Form) :
    NotesSpelling text
      ((do fraction m; exponent m; numberEnd m; return form : Reader Form) text) :=
  .bind (notesSpelling_fraction m) fun _ _ => .bind (notesSpelling_exponent m) fun _ _ =>
    .bind (notesSpelling_numberEnd m) fun _ _ => notesSpelling_done _

/-- The end of a number that may be a BigInt. -/
theorem notesSpelling_suffix (m : Mode) (form : Form) {other : Reader Form}
    (hother : NotesSpelling text (other text)) :
    NotesSpelling text
      ((do
        let rest ← Reader.ahead
        if hasSuffix m rest then do
          bigIntEnd
          return form
        else other : Reader Form) text) := by
  rw [Reader.ahead_bind]
  split
  · next hs =>
    obtain ⟨rest, rfl⟩ := List.head?_eq_some_iff.mp (head?_of_hasSuffix hs)
    have hend : NotesSpelling (suffix :: rest) (bigIntEnd (suffix :: rest)) :=
      NotesSpelling.shift (w := [suffix]) (by decide) notesSpelling_checkEnd
    exact .bind hend fun _ _ => notesSpelling_done _
  · exact hother

/-! ### Literals -/

theorem notesSpelling_decimal (m : Mode) : NotesSpelling text (decimal m text) :=
  .bind (notesSpelling_digits _ _) fun _ _ => notesSpelling_suffix m _ (notesSpelling_tail m _)

theorem notesSpelling_prefixed (m : Mode) (radix : Radix)
    (h : CodeUnit.underscore ∉ text.take 2) : NotesSpelling text (prefixed m radix text) := by
  refine .bind ?_ fun _ _ => .bind (notesSpelling_digits _ _) fun run _ => ?_
  · intro x hx
    obtain rfl := Except.ok.inj hx
    dsimp only
    rw [List.length_take, ← List.take_eq_take_min, spelling_eq_empty h]
  · split
    · exact notesSpelling_error _
    · exact notesSpelling_suffix m _ (.bind notesSpelling_checkEnd fun _ _ => notesSpelling_done _)

theorem ne_underscore_of_mem_radixLetters {radix : Radix} {u : CodeUnit}
    (hu : u ∈ radixLetters radix) : u ≠ CodeUnit.underscore := by
  rintro rfl
  cases radix <;> exact absurd hu (by decide)

/-- The digits after a leading zero have no separators. -/
theorem underscore_not_mem_takeWhile_isDecimalDigit (text : List CodeUnit) :
    CodeUnit.underscore ∉ text.takeWhile CodeUnit.isDecimalDigit := by
  intro hmem
  exact absurd (List.mem_takeWhile_imp hmem) (by decide)

/-- A literal with a leading zero is noted as one, and its separators as everywhere. -/
theorem flags_of_leadingZero {m : Mode} {x : Reading Form} (h : leadingZero m text = .ok x) :
    x.flags = { legacyOctal := true } ∪ spelling (text.take x.length) := by
  obtain ⟨z, y, hz, hy, rfl⟩ := Reader.bind_eq_ok_iff.mp h
  obtain ⟨note, w, hnote, hw, rfl⟩ := Reader.bind_eq_ok_iff.mp hy
  obtain rfl := Except.ok.inj hnote
  -- the digits are noted by nothing, and what follows them by its spelling
  obtain ⟨run, b, hrun, -, rfl⟩ := Reader.interpret_eq_ok_iff.mp hz
  obtain rfl := Except.ok.inj hrun
  have hprefix := List.prefix_iff_eq_take.mp (text.takeWhile_prefix CodeUnit.isDecimalDigit)
  have hdigits : spelling (text.take (text.takeWhile CodeUnit.isDecimalDigit).length) = ∅ := by
    rw [← hprefix]
    exact spelling_eq_empty (underscore_not_mem_takeWhile_isDecimalDigit text)
  have hend :
      NotesSpelling (text.drop (text.takeWhile CodeUnit.isDecimalDigit).length) (.ok w) := by
    rw [← hw]
    split
    · exact .bind (notesSpelling_numberEnd m) fun _ _ => notesSpelling_done _
    · exact notesSpelling_tail m _
  dsimp only
  rw [hend w rfl, Nat.zero_add, List.take_add, spelling_append, hdigits, TokenFlags.empty_union,
    TokenFlags.empty_union]

/-- The text begins with a zero and a further digit. -/
def leadsWithZero : List CodeUnit → Bool
  | u :: v :: _ => u == CodeUnit.zero && v.isDecimalDigit
  | _ => false

/-- **The flags of a number** tell what its text is like. -/
theorem flags_of_form {m : Mode} {x : Reading Form} (h : form m text = .ok x) :
    x.flags = { legacyOctal := leadsWithZero text } ∪ spelling (text.take x.length) := by
  have hplain {o : Outcome Form} (ho : NotesSpelling text o) (hx : o = .ok x)
      (hzero : leadsWithZero text = false) :
      x.flags = { legacyOctal := leadsWithZero text } ∪ spelling (text.take x.length) := by
    rw [ho x hx, hzero]
    exact (TokenFlags.empty_union _).symm
  unfold form at h
  split at h
  · next u v rest =>
    split at h
    · next hu =>
      split at h
      · next radix hradix =>
        have hv := (plain_of_radixOf? hradix true).1
        have hne := ne_underscore_of_mem_radixLetters (radixOf?_eq_some_iff.mp hradix)
        have htwo : CodeUnit.underscore ∉ (u :: v :: rest).take 2 := by
          rw [hu]
          simpa using ⟨by decide, hne.symm⟩
        exact hplain (notesSpelling_prefixed m radix htwo) h (by simp [leadsWithZero, hv])
      · split at h
        · next hv =>
          have hzero : leadsWithZero (u :: v :: rest) = true := by
            simp [leadsWithZero, hu, hv]
          rw [hzero]
          exact flags_of_leadingZero h
        · next hv =>
          have hzero : leadsWithZero (u :: v :: rest) = false := by
            simp [leadsWithZero, hv]
          split at h
          · simp at h
          · exact hplain (notesSpelling_decimal m) h hzero
    · next hu => exact hplain (notesSpelling_decimal m) h (by simp [leadsWithZero, hu])
  · next htext =>
    refine hplain (notesSpelling_decimal m) h ?_
    cases text with
    | nil => rfl
    | cons u rest =>
      cases rest with
      | nil => rfl
      | cons v rest => exact absurd rfl (htext u v rest)

/-! ## The older syntax in the newer one -/

section Older
variable {radix : Radix} {strict : Bool} {f : Form} {w : List CodeUnit}

theorem DigitRun.older_iff :
    DigitRun radix false w ↔ DigitRun radix true w ∧ CodeUnit.underscore ∉ w := by
  constructor
  · intro h
    induction h with
    | single hu => exact ⟨.single hu, by simpa using (ne_underscore_of_isDigit hu).symm⟩
    | cons hu _ ih =>
      exact ⟨.cons hu ih.1, by simpa [(ne_underscore_of_isDigit hu).symm] using ih.2⟩
    | separated hseparators _ _ _ => simp at hseparators
  · rintro ⟨h, hw⟩
    induction h with
    | single hu => exact .single hu
    | cons hu _ ih => exact .cons hu (ih fun hmem => hw (List.mem_cons_of_mem _ hmem))
    | separated _ _ _ _ => simp at hw

theorem Fraction.older_iff :
    Fraction ⟨strict, false⟩ w ↔ Fraction ⟨strict, true⟩ w ∧ CodeUnit.underscore ∉ w := by
  constructor
  · intro h
    cases h with
    | absent => exact ⟨.absent, by simp⟩
    | point => exact ⟨.point, by decide⟩
    | digits hds =>
      obtain ⟨hds, hw⟩ := DigitRun.older_iff.mp hds
      exact ⟨.digits hds, List.not_mem_cons_of_ne_of_not_mem (by decide) hw⟩
  · rintro ⟨h, hw⟩
    cases h with
    | absent => exact .absent
    | point => exact .point
    | digits hds =>
      exact .digits (DigitRun.older_iff.mpr ⟨hds, List.not_mem_of_not_mem_cons hw⟩)

theorem Exponent.older_iff :
    Exponent ⟨strict, false⟩ w ↔ Exponent ⟨strict, true⟩ w ∧ CodeUnit.underscore ∉ w := by
  constructor
  · intro h
    cases h with
    | absent => exact ⟨.absent, by simp⟩
    | unsigned hmark hds =>
      obtain ⟨hds, hw⟩ := DigitRun.older_iff.mp hds
      have hne := (ne_underscore_of_isExponentMark hmark).symm
      exact ⟨.unsigned hmark hds, List.not_mem_cons_of_ne_of_not_mem hne hw⟩
    | signed hmark hsign hds =>
      obtain ⟨hds, hw⟩ := DigitRun.older_iff.mp hds
      have hne := (ne_underscore_of_isExponentMark hmark).symm
      have hne' := (ne_underscore_of_isSign hsign).symm
      exact ⟨.signed hmark hsign hds, List.not_mem_cons_of_ne_of_not_mem hne
        (List.not_mem_cons_of_ne_of_not_mem hne' hw)⟩
  · rintro ⟨h, hw⟩
    cases h with
    | absent => exact .absent
    | unsigned hmark hds =>
      exact .unsigned hmark (DigitRun.older_iff.mpr ⟨hds, List.not_mem_of_not_mem_cons hw⟩)
    | signed hmark hsign hds =>
      exact .signed hmark hsign (DigitRun.older_iff.mpr
        ⟨hds, List.not_mem_of_not_mem_cons (List.not_mem_of_not_mem_cons hw)⟩)

theorem Integer.older_iff :
    Integer ⟨strict, false⟩ w ↔ Integer ⟨strict, true⟩ w ∧ CodeUnit.underscore ∉ w := by
  constructor
  · intro h
    cases h with
    | zero => exact ⟨.zero, by decide⟩
    | run hu hds =>
      obtain ⟨hds, hw⟩ := DigitRun.older_iff.mp hds
      exact ⟨.run hu hds, hw⟩
  · rintro ⟨h, hw⟩
    cases h with
    | zero => exact .zero
    | run hu hds => exact .run hu (DigitRun.older_iff.mpr ⟨hds, hw⟩)

/-- No decimal digit is a separator. -/
theorem underscore_not_mem_of_digits {ds : List CodeUnit}
    (hds : ∀ u ∈ ds, u.isDecimalDigit = true) : CodeUnit.underscore ∉ CodeUnit.zero :: ds := by
  rw [List.mem_cons]
  rintro (h | h)
  · exact absurd h (by decide)
  · exact absurd (hds _ h) (by decide)

theorem IntegerPart.older_iff :
    IntegerPart ⟨strict, false⟩ w ↔ IntegerPart ⟨strict, true⟩ w ∧ CodeUnit.underscore ∉ w := by
  constructor
  · intro h
    cases h with
    | integer hint =>
      obtain ⟨hint, hw⟩ := Integer.older_iff.mp hint
      exact ⟨.integer hint, hw⟩
    | leadingZero hstrict hds hoctal =>
      exact ⟨.leadingZero hstrict hds hoctal, underscore_not_mem_of_digits hds⟩
  · rintro ⟨h, hw⟩
    cases h with
    | integer hint => exact .integer (Integer.older_iff.mpr ⟨hint, hw⟩)
    | leadingZero hstrict hds hoctal => exact .leadingZero hstrict hds hoctal

/-- **Literals of the older syntax** are those of the newer one that have neither underscores nor a
suffix. -/
theorem Literal.older_iff :
    Literal ⟨strict, false⟩ f w ↔
      Literal ⟨strict, true⟩ f w ∧ CodeUnit.underscore ∉ w ∧ ∀ n, f ≠ .bigInt n := by
  constructor
  · intro h
    cases h with
    | @radix radix letter ds hletter hds =>
      obtain ⟨hds, hw⟩ := DigitRun.older_iff.mp hds
      have hne := (ne_underscore_of_mem_radixLetters hletter).symm
      refine ⟨.radix hletter hds, ?_, by simp⟩
      exact List.not_mem_cons_of_ne_of_not_mem (by decide)
        (List.not_mem_cons_of_ne_of_not_mem hne hw)
    | radixBigInt hnext _ _ => simp at hnext
    | legacyOctal hstrict hne hds =>
      have hdigits := underscore_not_mem_of_digits fun u hu =>
        CodeUnit.isDecimalDigit_of_isOctalDigit (hds u hu)
      exact ⟨.legacyOctal hstrict hne hds, hdigits, by simp⟩
    | decimal hint hfraction hexponent =>
      obtain ⟨hint, hw₁⟩ := IntegerPart.older_iff.mp hint
      obtain ⟨hfraction, hw₂⟩ := Fraction.older_iff.mp hfraction
      obtain ⟨hexponent, hw₃⟩ := Exponent.older_iff.mp hexponent
      exact ⟨.decimal hint hfraction hexponent, by simp [hw₁, hw₂, hw₃], by simp⟩
    | point hds hexponent =>
      obtain ⟨hds, hw₁⟩ := DigitRun.older_iff.mp hds
      obtain ⟨hexponent, hw₂⟩ := Exponent.older_iff.mp hexponent
      refine ⟨.point hds hexponent, ?_, by simp⟩
      exact List.not_mem_cons_of_ne_of_not_mem (by decide) (by simp [hw₁, hw₂])
    | bigInt hnext _ => simp at hnext
  · rintro ⟨h, hw, hform⟩
    cases h with
    | radix hletter hds =>
      exact .radix hletter (DigitRun.older_iff.mpr
        ⟨hds, List.not_mem_of_not_mem_cons (List.not_mem_of_not_mem_cons hw)⟩)
    | radixBigInt _ _ _ => exact absurd rfl (hform _)
    | legacyOctal hstrict hne hds => exact .legacyOctal hstrict hne hds
    | decimal hint hfraction hexponent =>
      simp only [List.mem_append, not_or] at hw
      exact .decimal (IntegerPart.older_iff.mpr ⟨hint, hw.1⟩)
        (Fraction.older_iff.mpr ⟨hfraction, hw.2.1⟩) (Exponent.older_iff.mpr ⟨hexponent, hw.2.2⟩)
    | point hds hexponent =>
      have hw := List.not_mem_of_not_mem_cons hw
      simp only [List.mem_append, not_or] at hw
      exact .point (DigitRun.older_iff.mpr ⟨hds, hw.1⟩) (Exponent.older_iff.mpr ⟨hexponent, hw.2⟩)
    | bigInt _ _ => exact absurd rfl (hform _)

end Older

/-! ## The older reader in the newer one -/

section Readers
variable {strict : Bool} {x : Reading Form}

theorem separator_eq_false_iff {m : Mode} (h : form m text = .ok x) :
    x.flags.numericSeparator = false ↔ CodeUnit.underscore ∉ text.take x.length := by
  rw [flags_of_form h]
  show (false || (text.take x.length).contains CodeUnit.underscore) = false ↔ _
  simp

/-- A reading of one syntax is a reading of the other, if its text is a literal of both. -/
theorem form_eq_of_literal {m m' : Mode} {w rest : List CodeUnit}
    (h : form m (w ++ rest) = .ok x) (hlength : w.length = x.length)
    (hliteral : Literal m' x.value w) (hrest : goesOn rest = false)
    (hpoint : rest.head? = some CodeUnit.period → ¬IntegerPart m' w) :
    form m' (w ++ rest) = .ok x := by
  obtain ⟨flags, htakes⟩ := takes_form_of_literal hliteral hrest hpoint
  have hflags : flags = x.flags := by
    have hspelling := flags_of_form htakes
    dsimp only at hspelling
    rw [hspelling, hlength, ← flags_of_form h]
  rw [htakes, hlength, hflags]

/-- **The older reader** takes what the newer one takes without underscores and without a suffix. -/
theorem form_older_iff (hbegins : Lexeme.beginsNumber text = true) :
    form ⟨strict, false⟩ text = .ok x ↔
      form ⟨strict, true⟩ text = .ok x ∧ x.flags.numericSeparator = false ∧
        ∀ n, x.value ≠ .bigInt n := by
  constructor
  · intro h
    have hseparator := separator_eq_false_iff h
    obtain ⟨w, rest, rfl, hlength, htakes⟩ := exists_takes_of_form h
    obtain ⟨hliteral, hrest, hpoint⟩ := literal_of_takes_form hbegins htakes
    obtain ⟨hliteral, hw, hform⟩ := Literal.older_iff.mp hliteral
    rw [← hlength, List.take_left] at hseparator
    refine ⟨form_eq_of_literal h hlength hliteral hrest ?_, hseparator.mpr hw, hform⟩
    intro hperiod hint
    exact hpoint hperiod (IntegerPart.older_iff.mpr ⟨hint, hw⟩)
  · rintro ⟨h, hmark, hform⟩
    have hseparator := separator_eq_false_iff h
    obtain ⟨w, rest, rfl, hlength, htakes⟩ := exists_takes_of_form h
    obtain ⟨hliteral, hrest, hpoint⟩ := literal_of_takes_form hbegins htakes
    rw [← hlength, List.take_left] at hseparator
    have hw := hseparator.mp hmark
    refine form_eq_of_literal h hlength (Literal.older_iff.mpr ⟨hliteral, hw, hform⟩) hrest ?_
    intro hperiod hint
    exact hpoint hperiod (IntegerPart.older_iff.mp hint).1

end Readers

end EcmaLex.Numeric
