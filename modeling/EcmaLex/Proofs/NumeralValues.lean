import EcmaLex.Proofs.NumberGrammar
import EcmaLex.Proofs.Rounding
import Mathlib.Tactic.FieldSimp

/-!
# What numerals denote

The digits of a numeral are a natural number, scaled by the length of the fraction and by the
exponent. The reader of decimal numerals finds exactly this number, and rounds it once.

* `Radix.valueOf_append`, `Radix.valueOf_lt`: the number that a run of digits denotes.
* `Decimal.value_of_ofText?`: what is read from a text is what the text denotes.
* `Decimal.roundsTo_toBinary64`: it is rounded, also where no power of ten is computed.
* `Decimal.textOfNat_spec`: the numeral of a natural number denotes it.
-/

namespace EcmaLex

/-! ## Runs of digits -/

namespace Radix

variable {r : Radix} {ds ds' : List CodeUnit} {u : CodeUnit}

theorem foldl_digits (r : Radix) (n : ℕ) (ds : List CodeUnit) :
    ds.foldl (fun n u => n * r.base + (r.digit? u).getD 0) n =
      n * r.base ^ ds.length + r.valueOf ds := by
  unfold valueOf
  induction ds generalizing n with
  | nil => simp
  | cons u ds ih =>
    rw [List.foldl_cons, List.foldl_cons, ih, ih (0 * r.base + _)]
    simp only [List.length_cons, pow_succ]
    ring

/-- The digits before others count as many times as these have places. -/
theorem valueOf_append (r : Radix) (ds ds' : List CodeUnit) :
    r.valueOf (ds ++ ds') = r.valueOf ds * r.base ^ ds'.length + r.valueOf ds' := by
  rw [← foldl_digits, valueOf, List.foldl_append]
  rfl

@[simp] theorem valueOf_nil : r.valueOf [] = 0 := rfl

@[simp] theorem valueOf_singleton : r.valueOf [u] = (r.digit? u).getD 0 := by simp [valueOf]

theorem two_le_base (r : Radix) : 2 ≤ r.base := by cases r <;> decide

theorem digit?_lt {n : ℕ} (h : r.digit? u = some n) : n < r.base := by
  simpa using (Option.filter_eq_some_iff.mp h).2

theorem getD_digit?_lt (r : Radix) (u : CodeUnit) : (r.digit? u).getD 0 < r.base := by
  have := r.two_le_base
  cases h : r.digit? u with
  | none => simp only [Option.getD_none]; omega
  | some n => simpa using digit?_lt h

theorem valueOf_lt (r : Radix) (ds : List CodeUnit) : r.valueOf ds < r.base ^ ds.length := by
  induction ds using List.reverseRecOn with
  | nil => simp
  | append_singleton ds u ih =>
    have hdigit := r.getD_digit?_lt u
    rw [valueOf_append, List.length_append, List.length_singleton, pow_one, pow_succ,
      valueOf_singleton]
    nlinarith

/-- The first digits of a number are no larger number. -/
theorem valueOf_le_of_isPrefix (h : ds <+: ds') : r.valueOf ds ≤ r.valueOf ds' := by
  obtain ⟨more, rfl⟩ := h
  have hpos : 0 < r.base ^ more.length := Nat.pow_pos (by have := r.two_le_base; omega)
  rw [valueOf_append]
  nlinarith

/-- Every natural number has digits. -/
theorem toDigits_spec (r : Radix) (n : ℕ) :
    let ds := (Nat.toDigits r.base n).map CodeUnit.ofChar
    ds ≠ [] ∧ (∀ u ∈ ds, r.isDigit u = true) ∧ r.valueOf ds = n := by
  have hbase := r.two_le_base
  have hdigit : ∀ d < r.base, r.digit? (CodeUnit.ofChar d.digitChar) = some d := by
    cases r <;> decide
  induction n using Nat.strongRecOn with
  | ind n ih =>
    by_cases hn : n < r.base
    · rw [Nat.toDigits_of_lt_base hn]
      simp [isDigit, hdigit n hn]
    · have hmod := hdigit (n % r.base) (Nat.mod_lt n (by omega))
      have hsplit := Nat.div_add_mod' n r.base
      obtain ⟨-, hdigits, hvalue⟩ := ih (n / r.base) (Nat.div_lt_self (by omega) (by omega))
      rw [Nat.toDigits_of_base_le (by omega) (by omega), List.map_append]
      refine ⟨by simp, ?_, ?_⟩
      · intro u hu
        rcases List.mem_append.mp hu with hu | hu
        · exact hdigits u hu
        · obtain rfl : u = CodeUnit.ofChar (n % r.base).digitChar := by simpa using hu
          rw [isDigit, hmod, Option.isSome_some]
      · rw [valueOf_append, hvalue, List.map_singleton, List.length_singleton, pow_one,
          valueOf_singleton, hmod, Option.getD_some, hsplit]

end Radix

namespace Decimal

/-! ## Texts -/

/-- The number that digits after an optional sign denote. -/
def signedValue (text : List CodeUnit) : ℤ :=
  match text with
  | u :: digits =>
    if u = CodeUnit.minus then -(Radix.decimal.valueOf digits : ℤ)
    else if u = CodeUnit.plus then Radix.decimal.valueOf digits
    else Radix.decimal.valueOf text
  | [] => 0

/-- The number that a numeral denotes: the digits before the point, those behind it as parts of
one, and the power of ten that the exponent asks for. -/
def valueOfText (text : List CodeUnit) : ℚ :=
  let significand := text.takeWhile (!Numeric.isExponentMark ·)
  let exponent := (text.dropWhile (!Numeric.isExponentMark ·)).drop 1
  let whole := significand.takeWhile (· != CodeUnit.period)
  let fraction := (significand.dropWhile (· != CodeUnit.period)).drop 1
  (Radix.decimal.valueOf whole + Radix.decimal.valueOf fraction / 10 ^ fraction.length) *
    10 ^ signedValue exponent

section Text
variable {whole fraction exponent pointed text : List CodeUnit} {u : CodeUnit}

theorem plain_of_isDecimalDigit (hu : u.isDecimalDigit = true) :
    (!Numeric.isExponentMark u) = true ∧ (u != CodeUnit.period) = true := by
  have hne {v : CodeUnit} (hv : v.isDecimalDigit = false) : u ≠ v := by
    rintro rfl
    rw [hu] at hv
    exact absurd hv (by decide)
  have he : u ≠ CodeUnit.ofChar 'e' := hne (by decide)
  have hE : u ≠ CodeUnit.ofChar 'E' := hne (by decide)
  have hperiod : u ≠ CodeUnit.period := hne (by decide)
  simp only [Numeric.isExponentMark, bne_iff_ne, Bool.not_eq_true', Bool.or_eq_false_iff,
    beq_eq_false_iff_ne]
  exact ⟨⟨he, hE⟩, hperiod⟩

/-- **What a numeral denotes, part by part.** -/
theorem valueOfText_append (hwhole : ∀ u ∈ whole, u.isDecimalDigit = true)
    (hfraction : ∀ u ∈ fraction, u.isDecimalDigit = true)
    (hpointed : pointed = [] ∧ fraction = [] ∨ pointed = CodeUnit.period :: fraction)
    (hexponent : exponent.head?.all Numeric.isExponentMark = true) :
    valueOfText (whole ++ (pointed ++ exponent)) =
      (Radix.decimal.valueOf whole + Radix.decimal.valueOf fraction / 10 ^ fraction.length) *
        10 ^ signedValue (exponent.drop 1) := by
  have hbefore : ∀ u ∈ whole ++ pointed, (!Numeric.isExponentMark u) = true := by
    intro u hu
    rcases List.mem_append.mp hu with hu | hu
    · exact (plain_of_isDecimalDigit (hwhole u hu)).1
    · rcases hpointed with ⟨rfl, -⟩ | rfl
      · simp at hu
      · rcases List.mem_cons.mp hu with rfl | hu
        · decide
        · exact (plain_of_isDecimalDigit (hfraction u hu)).1
  have hmark : exponent.head?.any (!Numeric.isExponentMark ·) = false := by
    cases exponent with
    | nil => rfl
    | cons u rest => simpa using hexponent
  have hpoint : pointed.head?.any (· != CodeUnit.period) = false := by
    rcases hpointed with ⟨rfl, -⟩ | rfl <;> rfl
  have hdrop : pointed.drop 1 = fraction := by
    rcases hpointed with ⟨rfl, rfl⟩ | rfl <;> rfl
  have hsignificand := Text.span_append hbefore hmark
  have hsplit := Text.span_append (fun u hu => (plain_of_isDecimalDigit (hwhole u hu)).2) hpoint
  rw [List.append_assoc] at hsignificand
  unfold valueOfText
  simp only [hsignificand, hsplit, hdrop]

/-- The numeral of an integer. -/
theorem valueOfText_digits (hwhole : ∀ u ∈ whole, u.isDecimalDigit = true) :
    valueOfText whole = Radix.decimal.valueOf whole := by
  have h : valueOfText (whole ++ ([] ++ [])) = _ :=
    valueOfText_append hwhole (List.forall_mem_nil _) (.inl ⟨rfl, rfl⟩) rfl
  simpa [signedValue] using h

theorem signedValue_of_exponentOfText? {e : ℤ} (h : exponentOfText? text = some e) :
    signedValue text = e := by
  unfold exponentOfText? at h
  cases text with
  | nil => simp at h
  | cons u digits =>
    unfold signedValue
    dsimp only at h ⊢
    by_cases hminus : u = CodeUnit.minus
    · simp only [if_pos hminus, if_true, Option.ite_none_left_eq_some] at h ⊢
      exact Option.some.inj h.2
    · by_cases hplus : u = CodeUnit.plus
      all_goals
        simp only [hminus, hplus, if_false, if_true, Option.ite_none_left_eq_some,
          Bool.false_eq_true] at h ⊢
        exact Option.some.inj h.2

/-- The number that a decimal stands for. -/
def value (d : Decimal) : ℚ := d.coefficient * 10 ^ d.exponent

/-- A fraction can be read with the whole and then scaled. -/
theorem value_scaled (whole fraction : List CodeUnit) (e : ℤ) :
    value ⟨Radix.decimal.valueOf (whole ++ fraction), e - fraction.length⟩ =
      (Radix.decimal.valueOf whole + Radix.decimal.valueOf fraction / 10 ^ fraction.length) *
        10 ^ e := by
  have hpow : (10 : ℚ) ^ (fraction.length : ℤ) ≠ 0 := by positivity
  rw [value, Radix.valueOf_append, zpow_sub₀ (by norm_num)]
  simp only [Radix.base]
  push_cast
  rw [zpow_natCast] at hpow ⊢
  field_simp

/-- The exponent that stands behind a significand, which is zero if nothing does. -/
def exponentBehind? : List CodeUnit → Option ℤ
  | [] => some 0
  | u :: rest =>
    if u = CodeUnit.ofChar 'e' || u = CodeUnit.ofChar 'E' then exponentOfText? rest else none

/-- The parts that are found in a text denote what it denotes. -/
theorem value_of_parts {e : ℤ} (hwhole : ∀ u ∈ whole, u.isDecimalDigit = true)
    (hfraction : ∀ u ∈ fraction, u.isDecimalDigit = true)
    (hpointed : pointed = [] ∧ fraction = [] ∨ pointed = CodeUnit.period :: fraction)
    (he : exponentBehind? exponent = some e) :
    value ⟨Radix.decimal.valueOf (whole ++ fraction), e - fraction.length⟩ =
      valueOfText (whole ++ (pointed ++ exponent)) := by
  obtain ⟨hmark, rfl⟩ :
      exponent.head?.all Numeric.isExponentMark = true ∧ signedValue (exponent.drop 1) = e := by
    cases exponent with
    | nil => exact ⟨rfl, Option.some.inj he⟩
    | cons u rest =>
      rw [exponentBehind?] at he
      split at he
      · next hu =>
        exact ⟨by simpa [Numeric.isExponentMark] using hu, signedValue_of_exponentOfText? he⟩
      · simp at he
  rw [value_scaled, valueOfText_append hwhole hfraction hpointed hmark]

/-- Without a point. -/
theorem value_of_whole {e : ℤ} (hwhole : ∀ u ∈ whole, u.isDecimalDigit = true)
    (he : exponentBehind? exponent = some e) :
    value ⟨Radix.decimal.valueOf (whole ++ []), e - ([] : List CodeUnit).length⟩ =
      valueOfText (whole ++ exponent) := by
  have habsent : ([] : List CodeUnit) = [] ∧ ([] : List CodeUnit) = [] ∨
      [] = CodeUnit.period :: [] := .inl ⟨rfl, rfl⟩
  rw [value_of_parts hwhole (List.forall_mem_nil _) habsent he, List.nil_append]

/-- **The number that is read from a text** is the one that the text denotes. -/
theorem value_of_ofText? {d : Decimal} (h : ofText? text = some d) :
    d.value = valueOfText text := by
  have hdigits (text : List CodeUnit) :
      ∀ u ∈ text.takeWhile CodeUnit.isDecimalDigit, u.isDecimalDigit = true :=
    List.all_eq_true.mp List.all_takeWhile
  have hwhole := hdigits text
  have htext : text.takeWhile CodeUnit.isDecimalDigit ++ text.dropWhile CodeUnit.isDecimalDigit =
    text := List.takeWhile_append_dropWhile
  unfold ofText? at h
  generalize text.takeWhile CodeUnit.isDecimalDigit = whole at h hwhole htext
  generalize text.dropWhile CodeUnit.isDecimalDigit = rest at h htext
  subst htext
  cases rest with
  | nil =>
    simp only [Option.ite_none_left_eq_some, Option.map_eq_some_iff] at h
    obtain ⟨-, e, he, rfl⟩ := h
    exact value_of_whole hwhole he
  | cons u rest =>
    by_cases hu : u = CodeUnit.period
    · have hrest : rest.takeWhile CodeUnit.isDecimalDigit ++
        rest.dropWhile CodeUnit.isDecimalDigit = rest := List.takeWhile_append_dropWhile
      simp only [if_pos hu, Option.ite_none_left_eq_some, Option.map_eq_some_iff] at h
      obtain ⟨-, e, he, rfl⟩ := h
      rw [value_of_parts hwhole (hdigits rest) (.inr rfl) he, List.cons_append, hrest, hu]
    · simp only [if_neg hu, Option.ite_none_left_eq_some, Option.map_eq_some_iff] at h
      obtain ⟨-, e, he, rfl⟩ := h
      exact value_of_whole hwhole he

/-! ## Rounding -/

/-- **Decimals are rounded.** -/
theorem roundsTo_toBinary64 (d : Decimal) : d.toBinary64.RoundsTo d.value := by
  obtain ⟨c, e⟩ := d
  unfold toBinary64 value
  dsimp only
  split
  · next hzero =>
    rw [hzero, Nat.cast_zero, zero_mul]
    exact Binary64.roundsTo_zero le_rfl (by positivity)
  next hzero =>
  split
  · next e =>
    rw [Int.ofNat_eq_natCast, zpow_natCast]
    split
    · next he =>
      refine Binary64.roundsTo_infinity ?_
      calc (2 : ℚ) ^ 1024 ≤ (2 ^ 59) ^ 19 := by
            rw [← pow_mul]
            exact pow_le_pow_right₀ (by norm_num) (by norm_num)
        _ ≤ (10 ^ 18) ^ 19 := by gcongr; norm_num
        _ ≤ 10 ^ e := by
            rw [← pow_mul]
            exact pow_le_pow_right₀ (by norm_num) he
        _ ≤ c * 10 ^ e := le_mul_of_one_le_left (by positivity)
            (by exact_mod_cast Nat.one_le_iff_ne_zero.mpr hzero)
    · have := Binary64.roundsTo_ofRatio (a := c * 10 ^ e) one_pos
      rw [Nat.cast_one, div_one] at this
      exact_mod_cast this
  · next k =>
    rw [zpow_negSucc, ← div_eq_mul_inv]
    split
    · next hsmall =>
      refine Binary64.roundsTo_zero (by positivity) ?_
      have hc : (c : ℚ) ≤ 2 ^ (c.log2 + 1) := by exact_mod_cast Nat.lt_log2_self.le
      have hpow : (2 : ℚ) ^ (c.log2 + 1077) ≤ 10 ^ (k + 1) :=
        calc (2 : ℚ) ^ (c.log2 + 1077) ≤ 2 ^ (3 * (k + 1)) :=
              pow_le_pow_right₀ (by norm_num) hsmall
          _ = (2 ^ 3) ^ (k + 1) := pow_mul ..
          _ ≤ 10 ^ (k + 1) := by gcongr; norm_num
      calc (c : ℚ) / 10 ^ (k + 1) ≤ 2 ^ (c.log2 + 1) / 2 ^ (c.log2 + 1077) := by gcongr
        _ = 2 ^ (-1076 : ℤ) := by
            rw [← zpow_natCast, ← zpow_natCast, ← zpow_sub₀ (by norm_num)]
            congr 1
            push_cast
            ring
        _ ≤ 2 ^ (-1075 : ℤ) := zpow_le_zpow_right₀ (by norm_num) (by norm_num)
    · have := Binary64.roundsTo_ofRatio (a := c) (b := 10 ^ (k + 1)) (by positivity)
      exact_mod_cast this

/-! ## Numerals of natural numbers -/

/-- A run of digits is a numeral. -/
theorem ofText?_digits (hwhole : ∀ u ∈ whole, u.isDecimalDigit = true) (hne : whole ≠ []) :
    ofText? whole = some ⟨Radix.decimal.valueOf whole, 0⟩ := by
  have hnil : ([] : List CodeUnit).head?.any CodeUnit.isDecimalDigit = false := rfl
  have hspan := Text.span_append hwhole hnil
  rw [List.append_nil] at hspan
  simp [ofText?, hspan, hne]

end Text

/-- **The numeral of a natural number** has digits only, and they denote the number. -/
theorem textOfNat_spec (n : ℕ) :
    textOfNat n ≠ [] ∧ (∀ u ∈ textOfNat n, u.isDecimalDigit = true) ∧
      Radix.decimal.valueOf (textOfNat n) = n := by
  obtain ⟨hne, hdigits, hvalue⟩ := Radix.decimal.toDigits_spec n
  exact ⟨hne, fun u hu => Numeric.isDecimalDigit_of_isDigit (hdigits u hu), hvalue⟩

end Decimal

end EcmaLex
