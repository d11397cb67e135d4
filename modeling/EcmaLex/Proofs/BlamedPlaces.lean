import EcmaLex.Proofs.CursorSafety
import EcmaLex.Proofs.HtmlClosing
import EcmaLex.Proofs.ReaderBounds

/-!
# What errors point at

An error comes with an offset, and what stands there is what the error is about: the backslash of a
bad escape, the separator that is out of place, the unit that ends a literal too early, or the end
of the source. `LexError.Cause.Indicates` lists this cause by cause.

Readers count from the beginning of the text they are given, so a place is followed through them by
the offset `k` in the source at which this text begins (`Outcome.Blames`). Reading on adds to `k`,
and nothing else has to be known about readers that come one after the other.

* `Outcome.Blames.shift`, `Reader.blames_bind`: readers that follow one another.
* `Lexeme.blames_read`: where a token should stand.
* `Scanner.next_indicates`: calls for the next token.
-/

namespace EcmaLex

/-! ## Causes -/

/-- The text begins with a code point that is shown as `ch`. A surrogate that stands alone is shown
as the replacement character. -/
def Utf16.Shows (text : List CodeUnit) (ch : Char) : Prop :=
  ∃ c width, head? text = some (c, width) ∧ CodePoint.toChar c = ch

/-- What the offset `o` of an error has to do with its cause, where `start` is the offset at which
the token begins. -/
def LexError.Cause.Indicates (source : List CodeUnit) (start o : Nat) : LexError.Cause → Prop
  | unterminatedComment | unterminatedTemplate => o = source.length
  | unterminatedString => o = source.length ∨
      source[o]? = some CodeUnit.lineFeed ∨ source[o]? = some CodeUnit.carriageReturn
  | unterminatedRegExp => o = source.length ∨ source[o]?.any CodeUnit.isLineTerminator = true
  | invalidEscape _ | invalidIdentifierEscape => source[o]? = some CodeUnit.backslash
  | invalidNumericSeparator | trailingNumericSeparator => source[o]? = some CodeUnit.underscore
  -- the second of two
  | doubleNumericSeparator => ∃ i, o = i + 1 ∧
      source[i]? = some CodeUnit.underscore ∧ source[i + 1]? = some CodeUnit.underscore
  | invalidBigInt => source[o]? = some (CodeUnit.ofChar 'n')
  -- a decimal digit, a backslash or an identifier start
  | identifierAfterNumber => Numeric.goesOn (source.drop o) = true
  | missingDigits radix => o = start + 2 ∧ source[start]? = some CodeUnit.zero ∧
      (∃ letter ∈ Numeric.radixLetters radix, source[start + 1]? = some letter) ∧
      source[o]?.any radix.isDigit = false
  | missingExponent => source[o]?.any CodeUnit.isDecimalDigit = false ∧ ∃ i u, o = i + 1 ∧
      source[i]? = some u ∧ (Numeric.isExponentMark u = true ∨ Numeric.isSign u = true)
  | strictOctalLiteral | strictLeadingZero => o = start ∧
      source[start]? = some CodeUnit.zero ∧ source[start + 1]?.any CodeUnit.isDecimalDigit = true
  | illegalCharacter ch | invalidRegExpFlag ch => Utf16.Shows (source.drop o) ch
  -- the same letter stands among the flags before, with no slash in between
  | duplicateRegExpFlag ch => Utf16.Shows (source.drop o) ch ∧
      ∃ i < o, Utf16.Shows (source.drop i) ch ∧ CodeUnit.slash ∉ source.extract i o
  | conflictingRegExpFlags => o = start ∧ source[start]? = some CodeUnit.slash
  -- blamed nowhere
  | invalidNumericLiteral => False

/-- The outcome of reading the source from the offset `k` on, as a token that begins at `start` or
as a part of it: any fault inside the source indicates its cause. -/
def Outcome.Blames {α : Type} (source : List CodeUnit) (start k : Nat) (o : Outcome α) : Prop :=
  o.Faults fun f => k + f.place ≤ source.length → f.cause.Indicates source start (k + f.place)

variable {source text rest : List CodeUnit} {start k : Nat}

/-! ## Places -/

/-- What stands further on. -/
theorem drop_add_of_drop (h : source.drop k = text) (n : Nat) :
    source.drop (k + n) = text.drop n := by
  rw [← List.drop_drop, h]

theorem getElem?_add_of_drop (h : source.drop k = text) (n : Nat) :
    source[k + n]? = text[n]? := by
  rw [← h, List.getElem?_drop]

section Cons
variable {u : CodeUnit} (h : source.drop k = u :: rest)
include h

/-- The unit at an offset. -/
theorem getElem?_of_drop : source[k]? = some u := getElem?_add_of_drop h 0

/-- What stands behind that unit. -/
theorem drop_succ_of_drop : source.drop (k + 1) = rest := drop_add_of_drop h 1

theorem drop_one_add_of_drop (n : Nat) : source.drop (k + (1 + n)) = rest.drop n := by
  rw [drop_add_of_drop h, Nat.add_comm, List.drop_succ_cons]

/-- The code point at an offset. -/
theorem shows_of_drop : Utf16.Shows (source.drop k) (Lexeme.offender (u :: rest)) := by
  obtain ⟨c, width, hhead⟩ := Utf16.exists_head?_cons u rest
  rw [h]
  exact ⟨c, width, hhead, by rw [Lexeme.offender, hhead]⟩

/-- A unit that begins no surrogate pair is a code point by itself. -/
theorem shows_unit_of_drop {ch : Char} (hu : u.isLead = false)
    (hch : CodePoint.toChar u.toNat = ch) : Utf16.Shows (source.drop k) ch := by
  rw [h]
  exact ⟨_, _, Utf16.head?_cons_of_not_isLead hu rest, hch⟩

end Cons

/-- Nothing is left exactly at the end. -/
theorem eq_length_of_drop (h : source.drop k = []) (hk : k ≤ source.length) :
    k = source.length :=
  Nat.le_antisymm hk (List.drop_eq_nil_iff.mp h)

/-! ## Combinators -/

namespace Outcome

variable {α β : Type} {o : Outcome α} {n : Nat} {flags : TokenFlags}

theorem Blames.mapValue (g : α → β) (h : o.Blames source start k) :
    (o.mapValue g).Blames source start k :=
  Faults.mapValue g h

/-- **Reading on** moves the places along with the text. -/
theorem Blames.shift (h : o.Blames source start (k + n)) :
    (o.shift n flags).Blames source start k := by
  cases o with
  | ok x => trivial
  | error f =>
    intro hle
    show f.cause.Indicates source start (k + (n + f.place))
    rw [← Nat.add_assoc] at hle ⊢
    exact h hle

/-- A fault right at the beginning of a text. -/
theorem blames_failHere {cause : LexError.Cause} (h : cause.Indicates source start k) :
    (failHere cause : Outcome α).Blames source start k :=
  fun _ => h

end Outcome

namespace Reader

variable {α β : Type}

/-- **Readers one after the other.** -/
theorem blames_bind {r : Reader α} {next : α → Reader β} (hr : (r text).Blames source start k)
    (hnext : ∀ x, r text = .ok x →
      (next x.value (text.drop x.length)).Blames source start (k + x.length)) :
    ((r >>= next) text).Blames source start k :=
  faults_bind hr fun x hx => (hnext x hx).shift

end Reader

/-! ## Names -/

namespace Identifier

/-- Only a backslash is wrong with an item of a name. -/
theorem blames_item? {first : Bool} {o : Outcome Char} (h : source.drop k = text)
    (ho : item? first text = some o) : o.Blames source start k := by
  unfold item? at ho
  split at ho
  · next hhead =>
    obtain ⟨rest, rfl⟩ := List.head?_eq_some_iff.mp hhead
    have hunit := getElem?_of_drop h
    split at ho
    · obtain rfl := Option.some.inj ho
      unfold escapedItem
      split
      · exact fun _ => hunit
      · split
        · trivial
        · exact fun _ => hunit
    · split at ho
      · simp at ho
      · obtain rfl := Option.some.inj ho
        exact Outcome.blames_failHere hunit
  · split at ho
    · simp at ho
    · obtain ⟨ch, -, rfl⟩ := Option.map_eq_some_iff.mp ho
      trivial

theorem blames_parts (h : source.drop k = text) : (parts text).Blames source start k := by
  fun_induction parts text generalizing k with
  | case1 => trivial
  | case2 text f hf => exact blames_item? h hf
  | case3 text x _ ih => exact (ih (drop_add_of_drop h _)).shift.mapValue _

theorem blames_name {u : CodeUnit} (h : source.drop k = u :: rest) :
    (name (u :: rest)).Blames source start k := by
  refine Reader.blames_bind ?_ fun x _ =>
    Reader.blames_bind (blames_parts (drop_add_of_drop h _)) fun _ _ => trivial
  unfold Identifier.start
  split
  · exact Outcome.blames_failHere (shows_of_drop h)
  · next ho => exact blames_item? h ho

theorem blames_read {u : CodeUnit} (h : source.drop k = u :: rest) :
    (read (u :: rest)).Blames source start k :=
  Reader.faults_interpret (blames_name h) fun _ _ _ hx => by simp at hx

theorem blames_readPrivate (h : source.drop k = CodeUnit.hash :: rest) :
    (readPrivate (CodeUnit.hash :: rest)).Blames source start k := by
  unfold readPrivate
  dsimp only
  split
  · next hbegins =>
    rw [List.drop_succ_cons, List.drop_zero] at hbegins ⊢
    cases rest with
    | nil => simp [Utf16.head?] at hbegins
    | cons u rest => exact (blames_name (drop_succ_of_drop h)).shift.mapValue _
  · exact fun _ => shows_unit_of_drop h (by decide) (by decide)

end Identifier

/-! ## Strings and templates -/

namespace StringLiteral

theorem blames_body (strict : Bool) (quote : CodeUnit) (h : source.drop k = text) :
    (body strict quote text).Blames source start k := by
  -- by the recursion of `body`: the end of the text, the quote, a line end, a backslash at the end,
  -- an escape that is invalid, one that is not, or a unit that stands for itself
  fun_induction body strict quote text generalizing k with
  | case1 => exact fun hk => .inl (eq_length_of_drop h hk)
  | case2 rest => trivial
  | case3 u rest _ hline =>
    have hunit := getElem?_of_drop h
    refine Outcome.blames_failHere (.inr ?_)
    rwa [hunit, Option.some.injEq, Option.some.injEq]
  | case4 => exact fun hk => .inl (eq_length_of_drop (drop_succ_of_drop h) hk)
  | case5 rest _ f hf =>
    obtain ⟨e, hcause⟩ := Escape.isInvalid_of_body hf
    intro _
    rw [hcause]
    exact getElem?_of_drop h
  | case6 rest _ e he _ _ ih => exact (ih (drop_one_add_of_drop h _)).shift.mapValue _
  | case7 u rest _ _ _ ih => exact (ih (drop_succ_of_drop h)).shift.mapValue _

theorem blames_read (strict : Bool) {quote : CodeUnit} (h : source.drop k = quote :: rest) :
    (read strict (quote :: rest)).Blames source start k := by
  rw [read]
  exact (blames_body strict quote (drop_succ_of_drop h)).shift.mapValue _

end StringLiteral

namespace Template

theorem blames_span (tagged : Bool) (h : source.drop k = text) :
    (span tagged text).Blames source start k := by
  -- by the recursion of `span`, where an escape may also be invalid and yet passed over
  fun_induction span tagged text generalizing k with
  | case1 => exact fun hk => eq_length_of_drop h hk
  | case2 rest => trivial
  | case3 u rest => trivial
  | case4 => exact fun hk => eq_length_of_drop (drop_succ_of_drop h) hk
  | case5 rest _ e he _ _ ih => exact (ih (drop_one_add_of_drop h _)).shift.mapValue _
  | case6 rest _ f hf _ _ _ ih => exact (ih (drop_one_add_of_drop h _)).shift.mapValue _
  | case7 rest _ f hf _ =>
    obtain ⟨e, hcause⟩ := Escape.isInvalid_of_body hf
    intro _
    rw [hcause]
    exact getElem?_of_drop h
  | case8 =>
    rename_i ih
    exact (ih (drop_one_add_of_drop h _)).shift.mapValue _
  | case9 u rest _ _ _ _ ih => exact (ih (drop_succ_of_drop h)).shift.mapValue _

theorem blames_read (tagged first : Bool) {u : CodeUnit} (h : source.drop k = u :: rest) :
    (read tagged first (u :: rest)).Blames source start k :=
  (blames_span tagged (drop_succ_of_drop h)).shift.mapValue _

end Template

/-! ## Regular expressions -/

namespace RegExp

/-- A pattern breaks off at the end of the text or of the line. -/
theorem eq_length_or_of_pattern {inClass : Bool} {n : Nat} (h : pattern inClass text = .error n) :
    n = text.length ∨ text[n]?.any CodeUnit.isLineTerminator = true := by
  have hsucc {text : List CodeUnit} {u : CodeUnit} {i : Nat}
      (h : i = text.length ∨ text[i]?.any CodeUnit.isLineTerminator = true) :
      i + 1 = (u :: text).length ∨
        (u :: text)[i + 1]?.any CodeUnit.isLineTerminator = true := by
    simpa using h
  fun_induction pattern inClass text generalizing n with
  | case1 =>
    obtain rfl := Except.error.inj h
    exact .inl rfl
  | case2 inClass u rest hu =>
    obtain rfl := Except.error.inj h
    exact .inr hu
  | case3 =>
    obtain rfl := Except.error.inj h
    exact .inl rfl
  | case4 inClass v rest hv =>
    obtain rfl := Except.error.inj h
    exact .inr hv
  | case5 => simp at h
  | case6 inClass v rest _ i hi _ ih =>
    obtain rfl := Except.error.inj h
    exact hsucc (hsucc (ih hi))
  | case7 => simp at h
  | case8 => simp at h
  | case9 inClass u rest _ _ _ inClass' i hi =>
    rename_i ih
    obtain rfl := Except.error.inj h
    exact hsucc (ih hi)

/-- The flags that came before stand in front of the offset `k`, with no slash in between. -/
def SeenBefore (source : List CodeUnit) (k : Nat) (seen : List Char) : Prop :=
  ∀ ch ∈ seen, ∃ i < k, Utf16.Shows (source.drop i) ch ∧ CodeUnit.slash ∉ source.extract i k

/-- One more flag. -/
theorem SeenBefore.push {seen : List Char} {u : CodeUnit} {ch : Char}
    (hseen : SeenBefore source k seen) (hunit : source[k]? = some u) (hu : u ≠ CodeUnit.slash)
    (hch : Utf16.Shows (source.drop k) ch) : SeenBefore source (k + 1) (seen ++ [ch]) := by
  have hextract {i : Nat} (hi : i ≤ k) :
      source.extract i (k + 1) = source.extract i k ++ [u] := by
    rw [List.extract_eq_take_drop, List.extract_eq_take_drop, Nat.sub_add_comm hi,
      List.take_add_one, List.getElem?_drop, Nat.add_sub_cancel' hi, hunit]
    rfl
  have hslash : CodeUnit.slash ∉ [u] := by simpa using hu.symm
  intro c hc
  rcases List.mem_append.mp hc with hc | hc
  · obtain ⟨i, hi, hshows, hbetween⟩ := hseen c hc
    refine ⟨i, Nat.lt_succ_of_lt hi, hshows, ?_⟩
    rw [hextract (Nat.le_of_lt hi), List.mem_append]
    exact not_or.mpr ⟨hbetween, hslash⟩
  · obtain rfl := List.mem_singleton.mp hc
    refine ⟨k, Nat.lt_succ_self k, hch, ?_⟩
    rw [hextract (Nat.le_refl k), List.extract_eq_take_drop, Nat.sub_self, List.take_zero,
      List.nil_append]
    exact hslash

theorem blames_flags {seen : List Char} (hseen : SeenBefore source k seen)
    (h : source.drop k = text) : (flags seen text).Blames source start k := by
  induction text generalizing seen k with
  | nil => trivial
  | cons u rest ih =>
    have hshows := shows_of_drop h
    unfold flags
    split
    · next hu =>
      subst hu
      exact Outcome.blames_failHere (shows_unit_of_drop h (by decide) (by decide))
    split
    · trivial
    dsimp only
    split
    · exact Outcome.blames_failHere hshows
    next hflag =>
    split
    · next hcontains =>
      exact Outcome.blames_failHere ⟨hshows, hseen _ (by simpa using hcontains)⟩
    · have hu : u ≠ CodeUnit.slash := by
        rintro rfl
        rw [Lexeme.offender, Utf16.head?_cons_of_not_isLead (by decide)] at hflag
        exact absurd hflag (by decide)
      have hseen := hseen.push (getElem?_of_drop h) hu hshows
      exact (ih hseen (drop_succ_of_drop h)).shift.mapValue _

theorem blames_body (h : source.drop k = text) : (body text).Blames source start k := by
  unfold body
  split
  · next n hn =>
    intro hk
    have hlength : text.length = source.length - k := by rw [← h, List.length_drop]
    have hk : k + n ≤ source.length := hk
    show _ ∨ source[k + n]?.any CodeUnit.isLineTerminator = true
    rw [getElem?_add_of_drop h]
    refine (eq_length_or_of_pattern hn).imp ?_ id
    intro hend
    show k + n = source.length
    omega
  · exact (blames_flags (by simp [SeenBefore]) (drop_add_of_drop h _)).shift.mapValue _

/-- Where a token begins with a slash. -/
theorem blames_read (h : source.drop start = CodeUnit.slash :: rest) :
    (read (CodeUnit.slash :: rest)).Blames source start start := by
  refine Reader.faults_interpret (blames_body (drop_succ_of_drop h)).shift fun x cause _ hx => ?_
  unfold Literal.toLexeme at hx
  split at hx
  · obtain rfl := Except.error.inj hx
    exact fun _ => ⟨rfl, getElem?_of_drop h⟩
  · simp at hx

end RegExp

/-! ## Numbers -/

namespace Numeric

variable (m : Mode)

/-- In front of the second of two adjacent separators is the first. -/
theorem exists_of_doubled? {run : List CodeUnit} {i : Nat} (h : doubled? run = some i) :
    ∃ j, i = j + 1 ∧ run[j]? = some CodeUnit.underscore ∧
      run[j + 1]? = some CodeUnit.underscore := by
  fun_induction doubled? run generalizing i with
  | case1 u v rest huv =>
    obtain rfl := Option.some.inj h
    obtain ⟨rfl, rfl⟩ := huv
    exact ⟨0, rfl, rfl, rfl⟩
  | case2 u v rest huv ih =>
    obtain ⟨j, hj, rfl⟩ := Option.map_eq_some_iff.mp h
    obtain ⟨i, rfl, hunits⟩ := ih hj
    exact ⟨i + 1, rfl, hunits⟩
  | case3 => simp at h

/-- What is wrong with a run of digits is one of its separators. -/
theorem indicates_of_separatorFault? {run : List CodeUnit} {f : Fault}
    (hrun : ∀ i u, run[i]? = some u → source[k + i]? = some u)
    (h : separatorFault? run = some f) : f.cause.Indicates source start (k + f.place) := by
  unfold separatorFault? at h
  split at h
  · next hhead =>
    obtain rfl := Option.some.inj h
    rw [List.head?_eq_getElem?] at hhead
    exact hrun 0 _ hhead
  split at h
  · next i hi =>
    obtain rfl := Option.some.inj h
    obtain ⟨j, rfl, hfirst, hsecond⟩ := exists_of_doubled? hi
    exact ⟨k + j, rfl, hrun j _ hfirst, hrun (j + 1) _ hsecond⟩
  split at h
  · next hlast =>
    obtain rfl := Option.some.inj h
    rw [List.getLast?_eq_getElem?] at hlast
    exact hrun _ _ hlast
  · simp at h

theorem blames_digits (radix : Radix) (separators : Bool) (h : source.drop k = text) :
    (digits radix separators text).Blames source start k := by
  unfold digits
  dsimp only
  split
  · next f hf =>
    refine fun _ => indicates_of_separatorFault? ?_ hf
    intro i u hi
    obtain ⟨rest, hrest⟩ := List.takeWhile_prefix (inRun radix separators) (l := text)
    obtain ⟨hlt, -⟩ := List.getElem?_eq_some_iff.mp hi
    rw [getElem?_add_of_drop h, ← hrest, List.getElem?_append_left hlt, hi]
  · trivial

/-- Where no digit is read, there is none. -/
theorem length_eq_zero_of_digits {radix : Radix} {separators : Bool}
    {x : Reading (List CodeUnit)} (h : digits radix separators text = .ok x)
    (hempty : x.value.isEmpty = true) :
    x.length = 0 ∧ text.head?.any radix.isDigit = false := by
  unfold digits at h
  dsimp only at h
  split at h
  · simp at h
  next hfault =>
  obtain rfl := Except.ok.inj h
  have hall : ∀ u ∈ text.takeWhile (inRun radix separators), inRun radix separators u = true :=
    fun u hu => List.mem_takeWhile_imp hu
  rcases (separatorFault?_eq_none_iff hall).mp hfault with hnil | hrun
  · refine ⟨by simp [hnil], ?_⟩
    cases text with
    | nil => rfl
    | cons u rest =>
      rw [List.head?_cons, Option.any_some, ← Bool.not_eq_true]
      intro hu
      rw [List.takeWhile_cons_of_pos (by simp [inRun, hu])] at hnil
      simp at hnil
  · exact absurd (List.isEmpty_iff.mp hempty) hrun.dropSeparators_ne_nil

theorem blames_checkEnd (h : source.drop k = text) : (checkEnd text).Blames source start k := by
  rw [checkEnd_eq]
  split
  · next hgoes =>
    refine Outcome.blames_failHere ?_
    show goesOn (source.drop k) = true
    rwa [h]
  · trivial

theorem blames_numberEnd (h : source.drop k = text) :
    (numberEnd m text).Blames source start k := by
  unfold numberEnd
  split
  · next hsuffix =>
    refine Outcome.blames_failHere ?_
    show source[k]? = _
    rw [← List.head?_drop, h, head?_of_hasSuffix hsuffix]
  · exact blames_checkEnd h

theorem blames_bigIntEnd (h : source.drop k = text) : (bigIntEnd text).Blames source start k :=
  Reader.blames_bind trivial fun _ _ => blames_checkEnd (drop_add_of_drop h _)

theorem blames_fraction (h : source.drop k = text) : (fraction m text).Blames source start k := by
  unfold fraction
  split
  · exact (blames_digits _ _ (drop_add_of_drop h 1)).shift.mapValue _
  · trivial

/-- Behind the mark or the sign of an exponent. -/
theorem blames_exponentDigits {u : CodeUnit} (hunit : source[k]? = some u)
    (hu : isExponentMark u = true ∨ isSign u = true) (h : source.drop (k + 1) = text) :
    (exponentDigits m text).Blames source start (k + 1) := by
  refine Reader.blames_bind (blames_digits _ _ h) fun x hx => ?_
  split
  · next hempty =>
    obtain ⟨hlength, hhead⟩ := length_eq_zero_of_digits hx hempty
    rw [hlength]
    refine Outcome.blames_failHere ⟨?_, k, u, rfl, hunit, hu⟩
    rw [← List.head?_drop, Nat.add_zero, h]
    cases text with
    | nil => rfl
    | cons v rest =>
      rw [List.head?_cons, Option.any_some, ← Bool.not_eq_true] at hhead ⊢
      exact mt isDigit_of_isDecimalDigit hhead
  · trivial

theorem blames_exponent (h : source.drop k = text) : (exponent m text).Blames source start k := by
  unfold exponent
  split
  · next u rest =>
    split
    · next hmark =>
      refine Outcome.Blames.shift ?_
      split
      · next hsign =>
        cases rest with
        | nil => simp at hsign
        | cons v rest =>
          have hrest := drop_succ_of_drop h
          exact blames_exponentDigits m (getElem?_of_drop hrest) (.inr (by simpa using hsign))
            (drop_succ_of_drop hrest)
      · exact blames_exponentDigits m (getElem?_of_drop h) (.inl hmark) (drop_succ_of_drop h)
    · trivial
  · trivial

/-- Where a token begins with a radix prefix. -/
theorem blames_prefixed {radix : Radix} {letter : CodeUnit}
    (hletter : letter ∈ radixLetters radix)
    (h : source.drop start = CodeUnit.zero :: letter :: rest) :
    (prefixed m radix (CodeUnit.zero :: letter :: rest)).Blames source start start := by
  refine Reader.blames_bind trivial fun x hx => ?_
  obtain rfl := Except.ok.inj hx
  have hdigits := drop_succ_of_drop (drop_succ_of_drop h)
  refine Reader.blames_bind (blames_digits _ _ hdigits) fun y hy => ?_
  split
  · next hempty =>
    obtain ⟨hlength, hhead⟩ := length_eq_zero_of_digits hy hempty
    rw [hlength]
    refine Outcome.blames_failHere ⟨rfl, getElem?_of_drop h,
      ⟨letter, hletter, getElem?_of_drop (drop_succ_of_drop h)⟩, ?_⟩
    rw [← List.head?_drop]
    exact (congrArg (·.head?.any radix.isDigit) hdigits).trans hhead
  · have hend := drop_add_of_drop hdigits y.length
    refine Reader.blames_bind trivial fun z hz => ?_
    obtain rfl := Except.ok.inj hz
    split
    · exact Reader.blames_bind (blames_bigIntEnd hend) fun _ _ => trivial
    · exact Reader.blames_bind (blames_checkEnd hend) fun _ _ => trivial

/-- What stands after the integer part of a decimal literal that is no BigInt. -/
theorem blames_tail (form : Form) (h : source.drop k = text) :
    ((do fraction m; exponent m; numberEnd m; return form : Reader Form) text).Blames
      source start k := by
  refine Reader.blames_bind (blames_fraction m h) fun x _ => ?_
  have hexponent := drop_add_of_drop h x.length
  refine Reader.blames_bind (blames_exponent m hexponent) fun y _ => ?_
  exact Reader.blames_bind (blames_numberEnd m (drop_add_of_drop hexponent _)) fun _ _ => trivial

/-- Where a token begins with a zero and a digit. -/
theorem blames_leadingZero {u : CodeUnit} (hu : u.isDecimalDigit = true)
    (h : source.drop start = CodeUnit.zero :: u :: rest) :
    (leadingZero m (CodeUnit.zero :: u :: rest)).Blames source start start := by
  have hdigit : source[start + 1]?.any CodeUnit.isDecimalDigit = true := by
    rw [getElem?_of_drop (drop_succ_of_drop h)]
    exact hu
  refine Reader.blames_bind ?_ fun x _ => Reader.blames_bind trivial fun y hy => ?_
  · refine Reader.faults_interpret trivial fun x cause _ hx => ?_
    -- strict code refuses the digits, octal or not
    split at hx
    · simp at hx
    split at hx
    · obtain rfl := Except.error.inj hx
      exact fun _ => ⟨rfl, getElem?_of_drop h, hdigit⟩
    · obtain rfl := Except.error.inj hx
      exact fun _ => ⟨rfl, getElem?_of_drop h, hdigit⟩
  · have hend := drop_add_of_drop (drop_add_of_drop h x.length) y.length
    split
    · exact Reader.blames_bind (blames_numberEnd m hend) fun _ _ => trivial
    · exact blames_tail m _ hend

theorem blames_decimal (h : source.drop k = text) : (decimal m text).Blames source start k := by
  refine Reader.blames_bind (blames_digits _ _ h) fun x _ =>
    Reader.blames_bind trivial fun y _ => ?_
  have hend := drop_add_of_drop (drop_add_of_drop h x.length) y.length
  split
  · exact Reader.blames_bind (blames_bigIntEnd hend) fun _ _ => trivial
  · exact blames_tail m _ hend

theorem blames_form (h : source.drop start = text) : (form m text).Blames source start start := by
  unfold form
  split
  · next u v rest =>
    split
    · next hu =>
      subst hu
      split
      · next hradix => exact blames_prefixed m (radixOf?_eq_some_iff.mp hradix) h
      split
      · next hv => exact blames_leadingZero m hv h
      split
      · next hv =>
        rw [Bool.and_eq_true, beq_iff_eq] at hv
        obtain ⟨-, rfl⟩ := hv
        exact fun _ => getElem?_of_drop (drop_succ_of_drop h)
      · exact blames_decimal m h
    · exact blames_decimal m h
  · exact blames_decimal m h

theorem blames_read (hbegins : Lexeme.beginsNumber text = true) (h : source.drop start = text) :
    (read m text).Blames source start start :=
  Reader.faults_interpret (blames_form m h) fun _ _ hx hcause =>
    absurd hcause (interpret_ne_error m hbegins hx)

end Numeric

/-! ## Tokens -/

/-- **Where a token should stand.** -/
theorem Lexeme.blames_read (c : Context) (h : source.drop start = text) :
    (read c text).Blames source start start := by
  cases text with
  | nil => trivial
  | cons u rest =>
    have hshows := shows_of_drop h
    simp only [read]
    split
    · exact Identifier.blames_read h
    split
    · next hbegins => exact Numeric.blames_read _ hbegins h
    split
    · exact StringLiteral.blames_read _ h
    split
    · exact Template.blames_read _ _ h
    split
    · next hu =>
      subst hu
      exact Identifier.blames_readPrivate h
    split
    · next hu =>
      obtain ⟨rfl, -⟩ := hu
      exact RegExp.blames_read h
    split
    · unfold readPunctuator
      split
      · trivial
      · exact fun _ => hshows
    · exact Outcome.blames_failHere hshows

namespace Scanner

variable {c : Context} {s : Scanner} {e : LexError}

/-- An error at the cursor, where no more trivia stands. -/
theorem indicates_of_readHere (hs : s.cursor.IsPlaceOf source)
    (h : (s.readHere c (Lexeme.read c)).1 = .error e) :
    e.cause.Indicates source s.cursor.location.offset e.location.offset := by
  have hblames := Lexeme.blames_read c hs.rest_eq.symm
  have hinside := Lexeme.inside_read c s.cursor.rest
  unfold readHere settle at h
  cases hread : Lexeme.read c s.cursor.rest with
  | ok x => simp [hread] at h
  | error f =>
    rw [hread] at h hblames hinside
    obtain rfl := Except.error.inj h
    have hoffset : (s.cursor.advance f.place).location.offset =
        s.cursor.location.offset + f.place := by
      rw [Cursor.offset_advance, List.length_take, Nat.min_eq_left hinside.1]
    show f.cause.Indicates source _ (s.cursor.advance f.place).location.offset
    rw [hoffset]
    refine hblames ?_
    rw [← hoffset]
    exact (hs.advance f.place).offset_le

/-- **Every error points at its cause.** Whatever the context, and wherever in the source the
scanner stands: if the call for the next token fails, what the source has at the offset of the error
is what its cause says. The start of the token, which some causes refer to, is the one the scanner
remembers. -/
theorem next_indicates (hs : s.cursor.IsPlaceOf source) (h : (s.next c).1 = .error e) :
    e.cause.Indicates source (s.next c).2.tokenStart.location.offset e.location.offset := by
  obtain ⟨ts, s₁, hpasses, hcases⟩ := readAfterTrivia_cases c (fun _ => Lexeme.read c) s
  have hplace : s₁.cursor.IsPlaceOf source := hpasses.isPlaceOf hs
  rcases hcases with ⟨hunclosed, heq⟩ | ⟨-, heq⟩
  · have hnext : s.next c = _ := heq
    rw [hnext] at h ⊢
    obtain rfl := Except.error.inj h
    -- a comment without an end takes all that is left
    have hrest : s₁.cursor.rest = [] := by
      by_contra hleft
      have hclosed := hpasses.isUnclosed_eq_false hleft
      rw [hunclosed] at hclosed
      simp at hclosed
    exact eq_length_of_drop (hplace.rest_eq.symm.trans hrest) hplace.offset_le
  · have hnext : s.next c = _ := heq
    have htokenStart : (s.next c).2.tokenStart = s₁.cursor := by
      rw [hnext]
      unfold readHere settle
      split <;> rfl
    rw [htokenStart]
    rw [hnext] at h
    exact indicates_of_readHere hplace h

/-- A string with an escape beyond the last code point, and a private name with an escape that
denotes a blank. Both are noticed digits later, and both errors point back at the backslash. -/
theorem next_indicates_escapes :
    let string : List CodeUnit :=
      [0x20, 0x22, 0x61, 0x5C, 0x75, 0x7B, 0x31, 0x31, 0x30, 0x30, 0x30, 0x30, 0x7D, 0x22]
    let name : List CodeUnit := [0x23, 0x61, 0x62, 0x5C, 0x75, 0x30, 0x30, 0x32, 0x30]
    ∃ e e', ((ofSource string).next {}).1 = .error e ∧ e.cause = .invalidEscape .outOfRange ∧
      e.location.offset = 3 ∧ string[e.location.offset]? = some CodeUnit.backslash ∧
      ((ofSource name).next {}).1 = .error e' ∧ e'.cause = .invalidIdentifierEscape ∧
      e'.location.offset = 3 ∧ name[e'.location.offset]? = some CodeUnit.backslash := by
  intro string name
  have hstring : ((ofSource string).next {}).1 =
      .error ⟨.invalidEscape .outOfRange, ⟨1, 3, 3⟩⟩ := by decide +kernel
  have hname : ((ofSource name).next {}).1 =
      .error ⟨.invalidIdentifierEscape, ⟨1, 3, 3⟩⟩ := by decide +kernel
  exact ⟨_, _, hstring, rfl, rfl, next_indicates (.of_startingAt string .start) hstring,
    hname, rfl, rfl, next_indicates (.of_startingAt name .start) hname⟩

end Scanner

end EcmaLex
