import EcmaLex.Lexeme.Basic
import EcmaLex.Number.Route
import EcmaLex.Text.IdentifierChar

/-!
# Numeric literals

Literals with a radix prefix, decimals with optional fraction and exponent, and the legacy forms
with a leading zero. Where the context has the newer syntax, single underscores may separate digits
and a suffix `n` makes a BigInt.

The value of a literal is read off its text once the text has been delimited; a `Route` leads from
its digits to a double.
-/

namespace EcmaLex.Numeric

/-- The circumstances that number syntax depends on. -/
structure Mode where
  strict : Bool
  /-- Underscores between digits, and BigInt literals. -/
  next : Bool
  deriving DecidableEq, Repr

/-! ## Runs of digits -/

/-- The position of the second underscore of the first pair of adjacent ones. -/
def doubled? : List CodeUnit → Option Nat
  | u :: v :: rest =>
    if u = CodeUnit.underscore ∧ v = CodeUnit.underscore then some 1
    else (doubled? (v :: rest)).map (· + 1)
  | _ => none

/-- A run of digits with underscores, as it stands in the source, must have its underscores between
digits. The first one that has not is the fault: before any digit nothing is taken, and a trailing
one has been taken when it turns out to be trailing. -/
def separatorFault? (run : List CodeUnit) : Option Fault :=
  if run.head? = some CodeUnit.underscore then
    some ⟨.invalidNumericSeparator, 0, 0, ∅⟩
  else
    match doubled? run with
    | some i => some ⟨.doubleNumericSeparator, i, i, { numericSeparator := true }⟩
    | none =>
      if run.getLast? = some CodeUnit.underscore then
        some ⟨.trailingNumericSeparator, run.length - 1, run.length, { numericSeparator := true }⟩
      else none

/-- Whether a unit belongs to a run of digits. -/
def inRun (radix : Radix) (separators : Bool) (u : CodeUnit) : Bool :=
  radix.isDigit u || (separators && u == CodeUnit.underscore)

/-- A text without its underscores. -/
def dropSeparators (text : List CodeUnit) : List CodeUnit :=
  text.filter (· != CodeUnit.underscore)

/-- The longest run of digits, possibly empty; its value is the run without separators. -/
def digits (radix : Radix) (separators : Bool) : Reader (List CodeUnit) := fun text =>
  let run := text.takeWhile (inRun radix separators)
  match separatorFault? run with
  | some f => .error f
  | none =>
    .ok ⟨dropSeparators run, run.length, { numericSeparator := run.contains CodeUnit.underscore }⟩

/-! ## Parts of literals -/

/-- Whether the text begins with the BigInt suffix, where that exists. -/
def hasSuffix (m : Mode) (text : List CodeUnit) : Bool :=
  m.next && text.head? == some (CodeUnit.ofChar 'n')

/-- What follows a number must neither continue it nor begin a name. -/
def checkEnd : Reader Unit := fun text =>
  match Utf16.head? text with
  | none => .ok ⟨(), 0, ∅⟩
  | some (c, _) =>
    if (0x30 ≤ c && c ≤ 0x39) || c == 0x5C || c.isIdentifierStart then
      .failHere .identifierAfterNumber
    else .ok ⟨(), 0, ∅⟩

/-- The end of a literal that cannot be a BigInt. -/
def numberEnd (m : Mode) : Reader Unit := fun text =>
  if hasSuffix m text then .failHere .invalidBigInt else checkEnd text

/-- The end of a BigInt literal: the suffix, and nothing that goes on. -/
def bigIntEnd : Reader Unit := do
  let _ ← Reader.take 1
  checkEnd

/-- An optional fraction: a point and any number of digits. -/
def fraction (m : Mode) : Reader Unit := fun text =>
  if text.head? = some CodeUnit.period then
    (((digits .decimal m.next) (text.drop 1)).shift 1 ∅).mapValue fun _ => ()
  else .ok ⟨(), 0, ∅⟩

/-- The letters that begin an exponent. -/
def isExponentMark (u : CodeUnit) : Bool := u == CodeUnit.ofChar 'e' || u == CodeUnit.ofChar 'E'

/-- The sign of an exponent. -/
def isSign (u : CodeUnit) : Bool := u == CodeUnit.plus || u == CodeUnit.minus

/-- The digits of an exponent, of which there must be one. -/
def exponentDigits (m : Mode) : Reader Unit := do
  let run ← digits .decimal m.next
  if run.isEmpty then Reader.fail .missingExponent else Reader.done ()

/-- An optional exponent: its letter, an optional sign and digits. -/
def exponent (m : Mode) : Reader Unit := fun text =>
  match text with
  | u :: rest =>
    if isExponentMark u then
      let n := if rest.head?.any isSign then 1 else 0
      (exponentDigits m (rest.drop n)).shift (1 + n) ∅
    else .ok ⟨(), 0, ∅⟩
  | [] => .ok ⟨(), 0, ∅⟩

/-! ## Literals -/

/-- How a literal is to be understood. -/
inductive Form where
  /-- An integer, by its radix and its digits. -/
  | integer (radix : Radix) (digits : List CodeUnit)
  /-- A decimal numeral, by its text. -/
  | decimal
  /-- A BigInt, by its value. -/
  | bigInt (n : Nat)
  deriving DecidableEq, Repr

/-- The way from the text of a literal to its number; a BigInt has none. -/
def Form.route? (form : Form) (text : List CodeUnit) : Option Route :=
  match form with
  | integer radix digits => some (.ofInteger radix digits)
  | decimal => some (.ofNumeral (dropSeparators text))
  | bigInt _ => none

/-- The token that a literal is. -/
def Form.interpret (form : Form) (text : List CodeUnit) : Except LexError.Cause Lexeme :=
  match form with
  | bigInt n => .ok ⟨.numericLiteral, .bigInt n (Utf16.lossy text)⟩
  | form =>
    match (form.route? text).bind Route.number? with
    | some x => .ok ⟨.numericLiteral, .number x⟩
    | none => .error .invalidNumericLiteral

/-- A literal with a radix prefix, from its zero on. -/
def prefixed (m : Mode) (radix : Radix) : Reader Form := do
  let _ ← Reader.take 2
  let run ← digits radix m.next
  if run.isEmpty then Reader.fail (.missingDigits radix)
  else
    let rest ← Reader.ahead
    if hasSuffix m rest then do
      bigIntEnd
      return .bigInt (radix.valueOf run)
    else do
      checkEnd
      return .integer radix run

/-- A zero and more digits. Strict code has no such literals, and separators are no part of them.
With octal digits only it is an octal number, otherwise a decimal one. -/
def leadingZero (m : Mode) : Reader Form := do
  let run ← (Reader.takeWhile CodeUnit.isDecimalDigit).interpret fun x _ =>
    if !m.strict then .ok x.value
    else if x.value.all CodeUnit.isOctalDigit then .error .strictOctalLiteral
    else .error .strictLeadingZero
  Reader.note { legacyOctal := true }
  if run.all CodeUnit.isOctalDigit then do
    numberEnd m
    return .integer .octal run
  else do
    fraction m
    exponent m
    numberEnd m
    return .decimal

/-- A decimal literal: an integer part, a fraction and an exponent, of which only a fraction with a
digit may stand without the integer part. -/
def decimal (m : Mode) : Reader Form := do
  let run ← digits .decimal m.next
  let rest ← Reader.ahead
  if hasSuffix m rest then do
    bigIntEnd
    return .bigInt (Radix.decimal.valueOf run)
  else do
    fraction m
    exponent m
    numberEnd m
    return .decimal

/-- The radix that the letter after a zero stands for. -/
def radixOf? (u : CodeUnit) : Option Radix :=
  if u = CodeUnit.ofChar 'x' ∨ u = CodeUnit.ofChar 'X' then some .hexadecimal
  else if u = CodeUnit.ofChar 'o' ∨ u = CodeUnit.ofChar 'O' then some .octal
  else if u = CodeUnit.ofChar 'b' ∨ u = CodeUnit.ofChar 'B' then some .binary
  else none

/-- Any numeric literal. A separator right after a lone zero is refused where separators exist. -/
def form (m : Mode) : Reader Form := fun text =>
  match text with
  | u :: v :: _ =>
    if u = CodeUnit.zero then
      match radixOf? v with
      | some radix => prefixed m radix text
      | none =>
        if v.isDecimalDigit then leadingZero m text
        else if m.next && v == CodeUnit.underscore then
          .error ⟨.invalidNumericSeparator, 1, 1, ∅⟩
        else decimal m text
    else decimal m text
  | _ => decimal m text

/-- A numeric literal, from a digit or from a point before a digit. -/
def read (m : Mode) : Reader Lexeme := (form m).interpret fun x text => x.value.interpret text

/-! ## Lengths -/

/-- A run of digits takes at least one unit where a digit stands. -/
theorem length_pos_of_digits {radix : Radix} {separators : Bool} {u : CodeUnit}
    {rest : List CodeUnit} {x : Reading (List CodeUnit)} (hu : radix.isDigit u = true)
    (h : digits radix separators (u :: rest) = .ok x) : 0 < x.length := by
  unfold digits at h
  simp only [List.takeWhile_cons, inRun, hu, Bool.true_or, if_true] at h
  split at h
  · simp at h
  · simp at h; subst h; simp

/-- No run of digits begins with a point. -/
theorem length_of_digits_period {separators : Bool} {rest : List CodeUnit}
    {x : Reading (List CodeUnit)}
    (h : digits .decimal separators (CodeUnit.period :: rest) = .ok x) : x.length = 0 := by
  have hp : inRun .decimal separators CodeUnit.period = false := by cases separators <;> decide
  unfold digits at h
  simp only [List.takeWhile_cons, hp, Bool.false_eq_true, if_false] at h
  split at h
  · simp at h
  · simp at h; subst h; simp

/-- A decimal digit is a digit of radix ten. -/
theorem isDigit_of_isDecimalDigit {u : CodeUnit} (h : u.isDecimalDigit = true) :
    Radix.decimal.isDigit u = true := by
  have h' : 0x30 ≤ u ∧ u ≤ 0x39 := by simpa [CodeUnit.isDecimalDigit] using h
  have h1 : 48 ≤ u.toNat := by simpa [UInt16.le_iff_toNat_le] using h'.1
  have h2 : u.toNat ≤ 57 := by simpa [UInt16.le_iff_toNat_le] using h'.2
  have h3 : u.toNat - 48 < 10 := by omega
  simp [Radix.isDigit, Radix.digit?, CodeUnit.hexDigit?, h'.1, h'.2, Radix.base, h3]

/-- A decimal literal takes at least one unit. -/
theorem length_pos_of_decimal {m : Mode} {u : CodeUnit} {rest : List CodeUnit} {x : Reading Form}
    (hu : u.isDecimalDigit = true ∨ u = CodeUnit.period) (h : decimal m (u :: rest) = .ok x) :
    0 < x.length := by
  unfold decimal at h
  obtain ⟨z, w, hz, hw, hx⟩ := Reader.exists_of_bind h
  rcases hu with hu | rfl
  · have := length_pos_of_digits (isDigit_of_isDecimalDigit hu) hz
    omega
  · rw [length_of_digits_period hz] at hw
    obtain ⟨a, b, ha, hb, hw'⟩ := Reader.exists_of_bind hw
    simp [Reader.ahead] at ha
    subst ha
    have hs : hasSuffix m (CodeUnit.period :: rest) = false := by
      have : (some CodeUnit.period == some (CodeUnit.ofChar 'n')) = false := by decide
      simp only [hasSuffix, List.head?_cons, this, Bool.and_false]
    simp only [List.drop_zero, hs, Bool.false_eq_true, if_false] at hb
    obtain ⟨c, d, hc, -, hb'⟩ := Reader.exists_of_bind hb
    have : 0 < c.length := by
      simp [fraction] at hc
      obtain ⟨e, he, hl⟩ := Outcome.exists_of_mapValue hc
      have := Outcome.le_length_of_shift he
      omega
    omega

/-- A numeric literal takes at least one unit. -/
theorem length_pos_of_read {m : Mode} {u : CodeUnit} {rest : List CodeUnit} {x : Reading Lexeme}
    (hu : u.isDecimalDigit = true ∨ u = CodeUnit.period) (h : read m (u :: rest) = .ok x) :
    0 < x.length := by
  obtain ⟨z, hz, hx⟩ := Reader.exists_of_interpret h
  suffices 0 < z.length by omega
  unfold form at hz
  split at hz
  · next u' v rest' heq =>
    obtain ⟨rfl, rfl⟩ : u = u' ∧ rest = v :: rest' := by simpa using heq
    split at hz
    · next hzero =>
      split at hz
      · unfold prefixed at hz
        obtain ⟨a, b, ha, -, hl⟩ := Reader.exists_of_bind hz
        simp [Reader.take] at ha
        subst ha
        simp at hl
        omega
      · split at hz
        · unfold leadingZero at hz
          obtain ⟨a, b, ha, -, hl⟩ := Reader.exists_of_bind hz
          obtain ⟨c, hc, hl'⟩ := Reader.exists_of_interpret ha
          have hd : u.isDecimalDigit = true := by rw [hzero]; decide
          simp [Reader.takeWhile, List.takeWhile_cons, hd] at hc
          subst hc
          simp at hl'
          omega
        · split at hz
          · simp at hz
          · exact length_pos_of_decimal hu hz
    · exact length_pos_of_decimal hu hz
  · exact length_pos_of_decimal hu hz

end EcmaLex.Numeric
