import EcmaLex.Proofs.NumberSpelling
import EcmaLex.Proofs.NumeralValues

/-!
# Numbers have the values of their texts

The value of a literal is the double nearest to the number that its text denotes, however that
double is found. Digits that are taken up one by one never exceed fifty-three bits, so that no step
on the way rounds anything; everything else is handed on as a text that denotes the same number, and
is rounded there. The exception are literals so long that the number of their bits does not fit the
word it is counted in, and seems to be at most fifty-three (`Radix.CountFits`).

* `Radix.roundsTo_accumulate`: a number of at most fifty-three bits is accumulated exactly.
* `Route.IsExact`: what a route hands on is exactly the number. `Route.roundsTo_of_isExact`: then
  the number at its end is rounded once.
* `Numeric.isExact_route`: the routes of literals are exact.
* `Scanner.next_number_roundsTo`: so are those of tokens, and their numbers are rounded.
* `Scanner.next_number_roundedTwice`: a number whose bits are miscounted.
-/

namespace EcmaLex

/-! ## Digits taken up one by one -/

namespace Radix

theorem accumulate_concat (r : Radix) (ds : List CodeUnit) (u : CodeUnit) :
    r.accumulate (ds ++ [u]) =
      ((r.accumulate ds).mul (.ofNat r.base)).add (.ofNat ((r.digit? u).getD 0)) := by
  simp [accumulate]

/-- **A number of at most fifty-three bits is accumulated exactly.** No number on the way is larger
than the one at the end, so that neither of the two operations rounds anything. -/
theorem roundsTo_accumulate {r : Radix} {ds : List CodeUnit} (h : r.valueOf ds < 2 ^ 53) :
    (r.accumulate ds).RoundsTo (r.valueOf ds) := by
  induction ds using List.reverseRecOn with
  | nil =>
    rw [valueOf_nil, Nat.cast_zero]
    exact Binary64.roundsTo_zero le_rfl (by positivity)
  | append_singleton ds u ih =>
    have hle := valueOf_le_of_isPrefix (r := r) (List.prefix_append ds [u])
    have hbefore := Binary64.value?_of_roundsTo_natCast (hle.trans_lt h) (ih (hle.trans_lt h))
    have hbase : r.base < 2 ^ 53 := by cases r <;> decide
    have hdigit := (r.getD_digit?_lt u).trans hbase
    rw [valueOf_append, List.length_singleton, pow_one, valueOf_singleton] at h ⊢
    have hmul := Binary64.roundsTo_mul hbefore (Binary64.value?_ofNat hbase) (by positivity)
      (by positivity)
    rw [← Nat.cast_mul] at hmul
    have hproduct := Binary64.value?_of_roundsTo_natCast (by omega) hmul
    have hadd := Binary64.roundsTo_add hproduct (Binary64.value?_ofNat hdigit) (by positivity)
      (by positivity)
    rw [← Nat.cast_add] at hadd
    rwa [accumulate_concat]

/-- The bits of so many digits are not miscounted: if the digits are taken up one by one, there are
at most fifty-three. -/
def CountFits (r : Radix) (count : ℕ) : Prop :=
  r.accumulates count = true → ∀ bits, r.digitBits? = some bits → count * bits ≤ 53

theorem digitBits?_le {r : Radix} {bits : ℕ} (h : r.digitBits? = some bits) :
    bits ≤ 4 ∧ r.base = 2 ^ bits := by
  cases r <;> simp only [digitBits?, Option.some.injEq, reduceCtorEq] at h <;> subst h <;> decide

/-- The bits of less than `2 ^ 30` digits are counted in thirty-two bits. -/
theorem mul_lt_size {r : Radix} {count bits : ℕ} (hbits : r.digitBits? = some bits)
    (h : count < 2 ^ 30) : count * bits < UInt32.size := by
  have hle : count * bits ≤ count * 4 := Nat.mul_le_mul_left count (digitBits?_le hbits).1
  exact hle.trans_lt (Nat.mul_lt_mul_of_pos_right h (by decide))

/-- A literal of less than `2 ^ 30` digits is short enough. -/
theorem countFits_of_lt {r : Radix} {count : ℕ} (h : count < 2 ^ 30) : r.CountFits count := by
  intro haccumulates bits hbits
  have hlt := mul_lt_size hbits h
  have hproduct : UInt32.ofNat count * UInt32.ofNat bits ≤ 53 := by
    simpa only [accumulates, hbits, decide_eq_true_eq] using haccumulates
  rwa [← UInt32.ofNat_mul, UInt32.le_iff_toNat_le, UInt32.toNat_ofNat_of_lt' hlt] at hproduct

/-- Runs that are taken up digit by digit are numbers of at most fifty-three bits. -/
theorem valueOf_lt_of_accumulates {r : Radix} {ds : List CodeUnit} (hfits : r.CountFits ds.length)
    (h : r.accumulates ds.length = true) : r.valueOf ds < 2 ^ 53 := by
  have hlt := r.valueOf_lt ds
  cases hbits : r.digitBits? with
  | some bits =>
    have hle := hfits h bits hbits
    rw [(digitBits?_le hbits).2, ← pow_mul, mul_comm] at hlt
    exact hlt.trans_le (Nat.pow_le_pow_right Nat.two_pos hle)
  | none =>
    obtain rfl : r = .decimal := by cases r <;> simp_all [digitBits?]
    have hle : ds.length ≤ 15 := of_decide_eq_true h
    calc _ < 10 ^ ds.length := hlt
      _ ≤ 10 ^ 15 := Nat.pow_le_pow_right (by decide) hle
      _ < 2 ^ 53 := by decide

end Radix

/-! ## Routes -/

namespace Route

/-- What a route hands on is exactly the number: the digits read so far, at every digit, where they
are taken up one by one, and the text of the numeral otherwise. -/
def IsExact (v : ℚ) : Route → Prop
  | accumulated radix digits =>
    radix.accumulates digits.length = true ∧ v = radix.valueOf digits ∧
      ∀ ds, ds <+: digits → radix.valueOf ds < 2 ^ 53 ∧
        (radix.accumulate ds).value? = some (radix.valueOf ds : ℚ)
  | converted radix digits =>
    (read? (Decimal.textOfNat (radix.valueOf digits))).isSome ∧
      v = Decimal.valueOfText (Decimal.textOfNat (radix.valueOf digits))
  | numeral text => (read? text).isSome ∧ v = Decimal.valueOfText text

theorem roundsTo_of_read? {text : List CodeUnit} {x : Binary64} (h : read? text = some x) :
    x.RoundsTo (Decimal.valueOfText text) := by
  obtain ⟨d, hd, rfl⟩ := Option.map_eq_some_iff.mp h
  rw [← Decimal.value_of_ofText? hd]
  exact d.roundsTo_toBinary64

/-- **A number that is handed on exactly is rounded once.** -/
theorem roundsTo_of_isExact {v : ℚ} {route : Route} (h : route.IsExact v) :
    ∃ x, route.number? = some x ∧ x.RoundsTo v := by
  cases route with
  | accumulated radix digits =>
    obtain ⟨-, rfl, hexact⟩ := h
    exact ⟨_, rfl, Radix.roundsTo_accumulate (hexact digits (List.prefix_refl digits)).1⟩
  | converted radix digits =>
    obtain ⟨hread, rfl⟩ := h
    obtain ⟨x, hx⟩ := Option.isSome_iff_exists.mp hread
    exact ⟨x, by rw [number?, hx, Option.getD_some], roundsTo_of_read? hx⟩
  | numeral text =>
    obtain ⟨hread, rfl⟩ := h
    obtain ⟨x, hx⟩ := Option.isSome_iff_exists.mp hread
    exact ⟨x, hx, roundsTo_of_read? hx⟩

theorem isExact_accumulated {radix : Radix} {digits : List CodeUnit}
    (hfits : radix.CountFits digits.length) (h : radix.accumulates digits.length = true) :
    (accumulated radix digits).IsExact (radix.valueOf digits) := by
  refine ⟨h, rfl, fun ds hds => ?_⟩
  have hlt := (Radix.valueOf_le_of_isPrefix hds).trans_lt
    (Radix.valueOf_lt_of_accumulates hfits h)
  exact ⟨hlt, Binary64.value?_of_roundsTo_natCast hlt (Radix.roundsTo_accumulate hlt)⟩

/-- **Integers.** -/
theorem isExact_ofInteger {radix : Radix} {digits : List CodeUnit}
    (hfits : radix.CountFits digits.length) :
    (ofInteger radix digits).IsExact (radix.valueOf digits) := by
  unfold ofInteger
  split
  · next h => exact isExact_accumulated hfits h
  · obtain ⟨hne, hdigits, hvalue⟩ := Decimal.textOfNat_spec (radix.valueOf digits)
    refine ⟨?_, ?_⟩
    · rw [read?, Decimal.ofText?_digits hdigits hne]
      rfl
    · rw [Decimal.valueOfText_digits hdigits, hvalue]

/-- **Numerals.** -/
theorem isExact_ofNumeral {text : List CodeUnit} (h : (Decimal.ofText? text).isSome) :
    (ofNumeral text).IsExact (Decimal.valueOfText text) := by
  unfold ofNumeral
  split
  · next hplain =>
    rw [Bool.and_eq_true, isPlain, Bool.and_eq_true] at hplain
    rw [Decimal.valueOfText_digits (List.all_eq_true.mp hplain.1.1)]
    exact isExact_accumulated nofun hplain.2
  · exact ⟨by rwa [read?, Option.isSome_map], rfl⟩

end Route

/-! ## Literals -/

namespace Numeric

/-- The number that a literal denotes, by its text without separators: an integer if there is a
letter for the radix behind a leading zero, or if there are only octal digits behind it, and the
number of a decimal numeral otherwise. -/
def exactValue (text : List CodeUnit) : ℚ :=
  match text with
  | u :: v :: ds =>
    if u = CodeUnit.zero then
      match radixOf? v with
      | some radix => radix.valueOf ds
      | none =>
        if (v :: ds).all CodeUnit.isOctalDigit then Radix.octal.valueOf (v :: ds)
        else Decimal.valueOfText text
    else Decimal.valueOfText text
  | _ => Decimal.valueOfText text

section Literals
variable {m : Mode} {f : Form} {w text : List CodeUnit}

theorem exactValue_of_ne_zero (h : text.head? ≠ some CodeUnit.zero) :
    exactValue text = Decimal.valueOfText text := by
  unfold exactValue
  split
  · next u v ds => rw [if_neg (by simpa using h)]
  · rfl

/-- Behind a leading zero, a decimal numeral goes on with something else than an octal number
does. -/
theorem exactValue_zero (h : ∀ v ds, text = v :: ds → radixOf? v = none)
    (hoctal : text = [] ∨ ∃ u ∈ text, u.isOctalDigit = false) :
    exactValue (CodeUnit.zero :: text) = Decimal.valueOfText (CodeUnit.zero :: text) := by
  cases text with
  | nil => rfl
  | cons v ds =>
    have hall : (v :: ds).all CodeUnit.isOctalDigit = false := by
      obtain ⟨u, hu, hne⟩ := hoctal.resolve_left (List.cons_ne_nil v ds)
      exact List.all_eq_false.mpr ⟨u, hu, by simp [hne]⟩
    simp only [exactValue, if_true, h v ds rfl, hall, Bool.false_eq_true, if_false]

theorem dropSeparators_eq_self (h : CodeUnit.underscore ∉ w) : dropSeparators w = w := by
  refine List.filter_eq_self.mpr fun u hu => bne_iff_ne.mpr ?_
  rintro rfl
  exact h hu

/-- What stands behind a lone zero of a decimal literal. -/
theorem plain_of_tail {u : CodeUnit} (hu : u = CodeUnit.period ∨ isExponentMark u = true) :
    u ≠ CodeUnit.underscore ∧ radixOf? u = none ∧ u.isOctalDigit = false := by
  rcases hu with rfl | hu
  · decide
  · rw [isExponentMark, Bool.or_eq_true, beq_iff_eq, beq_iff_eq] at hu
    rcases hu with rfl | rfl <;> decide

/-- **Decimal literals** denote the numbers of their numerals. -/
theorem exactValue_of_decimal (h : Literal m .decimal w) :
    exactValue (dropSeparators w) = Decimal.valueOfText (dropSeparators w) := by
  cases h with
  | point _ _ =>
    rw [dropSeparators_cons (by decide)]
    exact exactValue_of_ne_zero (by simp; decide)
  | @decimal int fraction exponent hint hfraction hexponent =>
    have htail : Tail m (fraction ++ exponent) := ⟨_, _, rfl, hfraction, hexponent⟩
    generalize fraction ++ exponent = tail at htail
    cases hint with
    | integer hint =>
      cases hint with
      | zero =>
        rw [List.singleton_append, dropSeparators_cons (by decide)]
        rcases htail.eq_nil_or_cons with rfl | ⟨u, more, rfl, hu⟩
        · rfl
        · obtain ⟨hne, hletter, hoctal⟩ := plain_of_tail hu
          rw [dropSeparators_cons hne]
          refine exactValue_zero ?_ (.inr ⟨u, List.mem_cons_self, hoctal⟩)
          intro v ds heq
          obtain ⟨rfl, -⟩ := List.cons.inj heq
          exact hletter
      | @run u ds hu hds =>
        obtain ⟨v, rest, heq, hv⟩ := hds.exists_cons
        obtain ⟨rfl, -⟩ := List.cons.inj heq
        rw [List.cons_append, dropSeparators_cons (ne_underscore_of_isDigit hv)]
        exact exactValue_of_ne_zero (by simpa using hu)
    | @leadingZero ds _ hds hoctal =>
      rw [dropSeparators_append, dropSeparators_eq_self (underscore_not_mem_of_digits hds),
        List.cons_append]
      refine exactValue_zero ?_ (.inr ?_)
      · intro v rest heq
        obtain ⟨u, hu, -⟩ := hoctal
        cases ds with
        | nil => simp at hu
        | cons d ds =>
          obtain ⟨rfl, -⟩ := List.cons.inj heq
          exact radixOf?_of_isDecimalDigit (hds _ List.mem_cons_self)
      · obtain ⟨u, hu, hne⟩ := hoctal
        exact ⟨u, List.mem_append_left _ hu, hne⟩

/-- The bits of a literal's digits are not miscounted. -/
def Form.CountFits : Form → Prop
  | integer radix digits => radix.CountFits digits.length
  | _ => True

/-- The digits of a literal are not more than its units. -/
theorem countFits_of_length_lt (h : Literal m f w) (hlt : w.length < 2 ^ 30) : f.CountFits := by
  have hle (ds : List CodeUnit) : (dropSeparators ds).length ≤ ds.length :=
    List.length_filter_le _ ds
  cases h with
  | @radix radix letter ds =>
    refine Radix.countFits_of_lt ((hle ds).trans_lt ?_)
    rw [List.length_cons, List.length_cons] at hlt
    omega
  | legacyOctal => exact Radix.countFits_of_lt hlt
  | _ => trivial

/-- **The routes of literals are exact.** -/
theorem isExact_route {route : Route} (h : Literal m f w) (hroute : f.route? w = some route)
    (hfits : f.CountFits) : route.IsExact (exactValue (dropSeparators w)) := by
  cases f with
  | bigInt n => simp [Form.route?] at hroute
  | decimal =>
    obtain rfl := Option.some.inj hroute
    obtain ⟨d, hd⟩ := exists_numeral h
    rw [exactValue_of_decimal h]
    exact Route.isExact_ofNumeral (by rw [hd]; rfl)
  | integer radix digits =>
    obtain rfl := Option.some.inj hroute
    suffices exactValue (dropSeparators w) = radix.valueOf digits by
      rw [this]
      exact Route.isExact_ofInteger hfits
    cases h with
    | radix hletter hds =>
      rw [dropSeparators_cons (by decide),
        dropSeparators_cons (ne_underscore_of_mem_radixLetters hletter)]
      simp only [exactValue, if_true, radixOf?_eq_some_iff.mpr hletter]
    | @legacyOctal ds _ hne hds =>
      have hdigits := fun u hu => CodeUnit.isDecimalDigit_of_isOctalDigit (hds u hu)
      rw [dropSeparators_eq_self (underscore_not_mem_of_digits hdigits)]
      obtain ⟨v, ds, rfl⟩ := List.exists_cons_of_ne_nil hne
      have hv := radixOf?_of_isDecimalDigit (hdigits v List.mem_cons_self)
      have hall : (v :: ds).all CodeUnit.isOctalDigit = true := List.all_eq_true.mpr hds
      simp only [exactValue, if_true, hv, hall]
      rfl

end Literals

end Numeric

/-! ## Tokens -/

/-- **The number of a token is its text's, rounded**, and the way to it is exact, unless the bits of
its digits are miscounted. They are not if the text has less than `2 ^ 30` units. -/
theorem Scanner.next_number_roundsTo {s s' : Scanner} {c : Context} {t : Token} {x : Binary64}
    (h : s.next c = (.ok t, s')) (hx : t.value = .number x) :
    let v := Numeric.exactValue (Numeric.dropSeparators s'.tokenText)
    t.kind = .numericLiteral ∧
      ∃ z route, Numeric.form ⟨c.isStrict, c.next⟩ s'.tokenStart.rest = .ok z ∧
        z.value.route? s'.tokenText = some route ∧ route.number? = some x ∧
        (s'.tokenText.length < 2 ^ 30 → z.value.CountFits) ∧
        (z.value.CountFits → route.IsExact v ∧ ∀ y : Binary64, y.RoundsTo v ↔ y = x) := by
  intro v
  have hkind := kind_of_number h (.inl ⟨x, hx⟩)
  obtain ⟨z, hz, -, hliteral, ⟨n, -, hvalue⟩ | ⟨y, hy, hvalue⟩, -⟩ := exists_literal_of_next h hkind
  · simp [hx] at hvalue
  · obtain rfl : x = y := by simpa [hx] using hvalue
    obtain ⟨route, hroute, hend⟩ := Option.bind_eq_some_iff.mp hy
    refine ⟨hkind, z, route, hz, hroute, hend, Numeric.countFits_of_length_lt hliteral, ?_⟩
    intro hfits
    have hexact : route.IsExact v := Numeric.isExact_route hliteral hroute hfits
    obtain ⟨y, hy, hrounds⟩ := Route.roundsTo_of_isExact hexact
    obtain rfl := Option.some.inj (hend.symm.trans hy)
    refine ⟨hexact, fun y => ⟨fun hy => hy.unique hrounds, ?_⟩⟩
    rintro rfl
    exact hrounds

/-- `0x20_0000_0000_0001` is halfway between two doubles. -/
theorem Scanner.next_number_roundsTo_even :
    let s := Scanner.ofSource [0x30, 0x78, 0x32, 0x30, 0x5F, 0x30, 0x30, 0x30, 0x30, 0x5F, 0x30,
      0x30, 0x30, 0x30, 0x5F, 0x30, 0x30, 0x30, 0x31]
    ∃ t s', s.next { next := true } = (.ok t, s') ∧ t.value = .number ⟨0x4340000000000000⟩ ∧
      ∀ y : Binary64, y.RoundsTo (2 ^ 53 + 1) ↔ y = ⟨0x4340000000000000⟩ := by
  intro s
  have hvalue : (s.next { next := true }).1.toOption.map Token.value =
      some (.number ⟨0x4340000000000000⟩) := by decide +kernel
  have htext : (s.next { next := true }).2.tokenText =
      [0x30, 0x78, 0x32, 0x30, 0x5F, 0x30, 0x30, 0x30, 0x30, 0x5F, 0x30, 0x30, 0x30, 0x30, 0x5F,
        0x30, 0x30, 0x30, 0x31] := by decide +kernel
  have hexact : Numeric.exactValue (Numeric.dropSeparators [0x30, 0x78, 0x32, 0x30, 0x5F, 0x30,
      0x30, 0x30, 0x30, 0x5F, 0x30, 0x30, 0x30, 0x30, 0x5F, 0x30, 0x30, 0x30, 0x31]) =
      2 ^ 53 + 1 := by
    have hdigits : Radix.hexadecimal.valueOf (Numeric.dropSeparators [0x32, 0x30, 0x5F, 0x30, 0x30,
        0x30, 0x30, 0x5F, 0x30, 0x30, 0x30, 0x30, 0x5F, 0x30, 0x30, 0x30, 0x31]) = 2 ^ 53 + 1 := by
      decide
    show ((Radix.hexadecimal.valueOf (Numeric.dropSeparators _) : ℕ) : ℚ) = _
    rw [hdigits]
    norm_num
  obtain ⟨t, s', hnext, hnumber⟩ := exists_ok_of_map hvalue
  rw [hnext] at htext
  obtain ⟨-, z, route, -, -, -, hshort, hrounds⟩ := next_number_roundsTo hnext hnumber
  rw [htext] at hshort hrounds
  rw [hexact] at hrounds
  exact ⟨t, s', hnext, hnumber, (hrounds (hshort (by decide))).2⟩

/-! ## Miscounted bits -/

namespace Numeric

/-- Zeros in front of digits add nothing to the number, nor to what is accumulated. -/
theorem valueOf_zeros_append (r : Radix) (n : ℕ) (ds : List CodeUnit) :
    r.valueOf (List.replicate n CodeUnit.zero ++ ds) = r.valueOf ds ∧
      r.accumulate (List.replicate n CodeUnit.zero ++ ds) = r.accumulate ds := by
  induction n with
  | zero => exact ⟨rfl, rfl⟩
  | succ n ih =>
    rw [List.replicate_succ, List.cons_append, ← ih.1, ← ih.2]
    have hdigit : (r.digit? CodeUnit.zero).getD 0 = 0 := by cases r <;> rfl
    have hstart : (Binary64.zero.mul (.ofNat r.base)).add (.ofNat 0) = .zero := by
      cases r <;> decide +kernel
    constructor
    · rw [Radix.valueOf, List.foldl_cons, hdigit, Nat.zero_mul]
      rfl
    · rw [Radix.accumulate, List.foldl_cons, hdigit, hstart]
      rfl

theorem isDigit_zeros_append {r : Radix} {ds : List CodeUnit}
    (hds : ∀ u ∈ ds, r.isDigit u = true) (n : ℕ) :
    ∀ u ∈ List.replicate n CodeUnit.zero ++ ds, r.isDigit u = true := by
  refine List.forall_mem_append.mpr ⟨?_, hds⟩
  intro u hu
  rw [List.eq_of_mem_replicate hu]
  cases r <;> rfl

theorem digitRun_of_digits {radix : Radix} {separators : Bool} {ds : List CodeUnit}
    (hne : ds ≠ []) (hds : ∀ u ∈ ds, radix.isDigit u = true) : DigitRun radix separators ds := by
  induction ds with
  | nil => exact absurd rfl hne
  | cons u ds ih =>
    rw [List.forall_mem_cons] at hds
    cases ds with
    | nil => exact .single hds.1
    | cons v ds => exact .cons hds.1 (ih (List.cons_ne_nil v ds) hds.2)

/-- The digits of `2 ^ 57 + 24`. -/
def wideDigits : List CodeUnit :=
  [0x32, 0x30, 0x30, 0x30, 0x30, 0x30, 0x30, 0x30, 0x30, 0x30, 0x30, 0x30, 0x30, 0x31, 0x38]

/-- The number `2 ^ 57 + 24` with `n` zeros in front of its digits. -/
def wideLiteral (n : ℕ) : List CodeUnit :=
  CodeUnit.zero :: CodeUnit.ofChar 'x' :: (List.replicate n CodeUnit.zero ++ wideDigits)

theorem dropSeparators_of_isDigit {radix : Radix} {ds : List CodeUnit}
    (hds : ∀ u ∈ ds, radix.isDigit u = true) : dropSeparators ds = ds :=
  List.filter_eq_self.mpr fun u hu => bne_iff_ne.mpr (ne_underscore_of_isDigit (hds u hu))

/-- If the digits are accumulated, what is read is not the nearest double. -/
theorem read_wideLiteral {n : ℕ} (h : Radix.hexadecimal.accumulates (n + 15) = true) :
    ∃ flags, read ⟨false, false⟩ (wideLiteral n) = .ok
      ⟨⟨.numericLiteral, .number ⟨0x4380000000000000⟩⟩, (wideLiteral n).length, flags⟩ := by
  have hdigits : ∀ u ∈ List.replicate n CodeUnit.zero ++ wideDigits,
      Radix.hexadecimal.isDigit u = true :=
    isDigit_zeros_append (List.all_eq_true.mp rfl) n
  have hne : List.replicate n CodeUnit.zero ++ wideDigits ≠ [] :=
    List.append_ne_nil_of_right_ne_nil _ (List.cons_ne_nil _ _)
  have hliteral : Literal ⟨false, false⟩
      (.integer .hexadecimal (List.replicate n CodeUnit.zero ++ wideDigits)) (wideLiteral n) := by
    have hradix := Literal.radix (m := ⟨false, false⟩) (List.mem_cons_self)
      (digitRun_of_digits hne hdigits)
    rwa [dropSeparators_of_isDigit hdigits] at hradix
  obtain ⟨flags, hform⟩ :=
    takes_form_of_literal hliteral (show goesOn [] = false from rfl) (by simp)
  rw [List.append_nil] at hform
  have hlength : (List.replicate n CodeUnit.zero ++ wideDigits).length = n + 15 := by
    rw [List.length_append, List.length_replicate]
    rfl
  have hvalue : Radix.hexadecimal.accumulate wideDigits = ⟨0x4380000000000000⟩ := by
    decide +kernel
  refine ⟨flags, Reader.interpret_eq_ok_iff.mpr ⟨_, _, hform,
    Form.interpret_eq_ok_iff.mpr (.inr ⟨_, ?_, rfl⟩), rfl⟩⟩
  show Route.number? (.ofInteger .hexadecimal _) = some _
  rw [Route.ofInteger, hlength, if_pos h, Route.number?, (valueOf_zeros_append _ n _).2, hvalue]

theorem roundsTo_exactValue_wideLiteral (n : ℕ) (y : Binary64) :
    y.RoundsTo (exactValue (wideLiteral n)) ↔ y = ⟨0x4380000000000001⟩ := by
  have hvalue : Radix.hexadecimal.valueOf wideDigits = 2 ^ 57 + 24 := by decide
  have hletter : radixOf? (CodeUnit.ofChar 'x') = some .hexadecimal := by decide
  have hexact : exactValue (wideLiteral n) = ((2 ^ 57 + 24 : ℕ) : ℚ) := by
    simp only [wideLiteral, exactValue, if_true, hletter]
    rw [(valueOf_zeros_append _ n _).1, hvalue]
  have hnearest := Binary64.roundsTo_ofNat (2 ^ 57 + 24)
  have hbits : Binary64.ofNat (2 ^ 57 + 24) = ⟨0x4380000000000001⟩ := by decide +kernel
  rw [hbits] at hnearest
  rw [hexact]
  refine ⟨fun hy => hy.unique hnearest, ?_⟩
  rintro rfl
  exact hnearest

/-- If the digits are accumulated, the number of the token is not the nearest double. -/
theorem exists_next_wideLiteral {n : ℕ} (h : Radix.hexadecimal.accumulates (n + 15) = true) :
    ∃ t s', (Scanner.ofSource (wideLiteral n)).next {} = (.ok t, s') ∧
      t.value = .number ⟨0x4380000000000000⟩ ∧ t.start = .start ∧
      t.stop = (wideLiteral n).length := by
  obtain ⟨flags, hread⟩ := read_wideLiteral h
  have hbegins : Lexeme.beginsNumber (wideLiteral n) = true := rfl
  obtain ⟨hnumber, hfirst⟩ := read_of_beginsNumber {} hbegins
  obtain ⟨t, s', hnext, -, hvalue, hstart, hstop, -⟩ := Scanner.exists_next_of_read
    (s := .ofSource (wideLiteral n)) (hfirst _) (hnumber.trans hread) (le_refl _)
  exact ⟨t, s', hnext, hvalue, hstart, hstop.trans (Nat.zero_add _)⟩

end Numeric

/-- **A number that is rounded twice.** The bits of `2 ^ 30` digits are counted as none, so the
digits are accumulated. Most of them are zeros, and the others denote a number that is no double:
the nearest one has another last bit than what comes out. -/
theorem Scanner.next_number_roundedTwice :
    (∃ t s', (ofSource (Numeric.wideLiteral 1073741809)).next {} = (.ok t, s') ∧
      t.value = .number ⟨0x4380000000000000⟩ ∧ t.start = .start ∧
      t.stop = (Numeric.wideLiteral 1073741809).length) ∧
    ∀ y : Binary64, y.RoundsTo (Numeric.exactValue (Numeric.wideLiteral 1073741809)) ↔
      y = ⟨0x4380000000000001⟩ :=
  ⟨Numeric.exists_next_wideLiteral (by decide),
    Numeric.roundsTo_exactValue_wideLiteral 1073741809⟩

end EcmaLex
