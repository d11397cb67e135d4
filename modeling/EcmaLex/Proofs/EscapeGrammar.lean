import Mathlib.Tactic.SplitIfs
import EcmaLex.Proofs.Readings

/-!
# The grammar of escapes

`Escape.body` looks at the text after a backslash and takes what belongs to the escape. This module
says what escapes *are*: `Written octal w rest units` gives the spelling `w` of each, the units it
denotes, and what must not follow it. `CodePointNumber` is the part that escapes in names share.

* `unicode_eq_ok_iff`: the number of a Unicode escape is read exactly where one is written.
* `exists_written_of_body`: what is read is written there.
* `exists_body_of_written`: what is written is read, all of it.
-/

namespace EcmaLex

/-! ## Code points in a text -/

/-- A code point of one unit is encoded by it. -/
theorem CodePoint.encode_toNat (u : CodeUnit) : CodePoint.encode u.toNat = [u] := by
  have hle : ¬0xFFFF < u.toNat := by
    have := u.toNat_lt
    omega
  rw [CodePoint.encode, if_neg hle, UInt16.ofNat_toNat]

/-- A surrogate pair encodes its code point. -/
theorem CodePoint.encode_ofPair {u v : CodeUnit} (hu : u.isLead = true) (hv : v.isTrail = true) :
    CodePoint.encode (CodePoint.ofPair u v) = [u, v] := by
  have hu' : 0xD800 ≤ u.toNat := by
    simp only [CodeUnit.isLead, Bool.and_eq_true, decide_eq_true_eq, UInt16.le_iff_toNat_le] at hu
    exact hu.1
  have hv' : 0xDC00 ≤ v.toNat ∧ v.toNat ≤ 0xDFFF := by
    simpa [CodeUnit.isTrail, UInt16.le_iff_toNat_le] using hv
  obtain ⟨n, hn⟩ : ∃ n : Nat, n = (u.toNat - 0xD800) * 0x400 + (v.toNat - 0xDC00) := ⟨_, rfl⟩
  have hpair : CodePoint.ofPair u v = 0x10000 + n := by
    rw [hn, ← Nat.add_assoc]
    rfl
  have hlead : 0xD800 + n / 0x400 = u.toNat := by omega
  have htrail : 0xDC00 + n % 0x400 = v.toNat := by omega
  have hbig : 0xFFFF < 0x10000 + n := by omega
  rw [CodePoint.encode, hpair, if_pos hbig]
  simp only [Nat.add_sub_cancel_left, hlead, htrail, UInt16.ofNat_toNat]

/-- The code point that a text begins with is encoded by the units it takes. -/
theorem CodePoint.encode_of_head? {w rest : List CodeUnit} {c : CodePoint}
    (h : Utf16.head? (w ++ rest) = some (c, w.length)) : c.encode = w := by
  cases htext : w ++ rest with
  | nil => simp [htext, Utf16.head?] at h
  | cons u text =>
    have htake : w = (u :: text).take w.length := by rw [← htext, List.take_left]
    rw [htext] at h
    rw [htake]
    cases text with
    | nil =>
      obtain ⟨rfl, hlen⟩ := Prod.mk.inj (Option.some.inj h)
      rw [← hlen, CodePoint.encode_toNat]
      rfl
    | cons v text =>
      rw [Utf16.head?] at h
      split at h
      · next hpair =>
        rw [Bool.and_eq_true] at hpair
        obtain ⟨rfl, hlen⟩ := Prod.mk.inj (Option.some.inj h)
        rw [← hlen, CodePoint.encode_ofPair hpair.1 hpair.2]
        rfl
      · obtain ⟨rfl, hlen⟩ := Prod.mk.inj (Option.some.inj h)
        rw [← hlen, CodePoint.encode_toNat]
        rfl

namespace Escape

/-! ## Spellings -/

/-- The letters for control characters, and the units they denote. -/
def controls : List (CodeUnit × CodeUnit) :=
  [(CodeUnit.ofChar 'b', 0x08), (CodeUnit.ofChar 't', 0x09), (CodeUnit.ofChar 'n', 0x0A),
    (CodeUnit.ofChar 'v', 0x0B), (CodeUnit.ofChar 'f', 0x0C), (CodeUnit.ofChar 'r', 0x0D)]

/-- The units that do not denote themselves after a backslash. -/
def IsReserved (u : CodeUnit) : Prop :=
  u.isLineTerminator = true ∨ u.isDecimalDigit = true ∨ u = CodeUnit.ofChar 'x' ∨
    u = CodeUnit.ofChar 'u' ∨ ∃ v, (u, v) ∈ controls

/-- How many digits an octal escape has at most, by its first digit. -/
def octalLimit (first : CodeUnit) : Nat := if first ≤ CodeUnit.ofChar '3' then 3 else 2

/-- The number of a Unicode escape after its `u`: four hexadecimal digits, or any number of them in
braces if no code point is exceeded. -/
inductive CodePointNumber : List CodeUnit → CodePoint → Prop
  | quad {ds : List CodeUnit} (hds : ∀ u ∈ ds, Radix.hexadecimal.isDigit u = true)
      (hlength : ds.length = 4) : CodePointNumber ds (Radix.hexadecimal.valueOf ds)
  | braced {ds : List CodeUnit} (hds : ∀ u ∈ ds, Radix.hexadecimal.isDigit u = true)
      (hne : ds ≠ []) (hmax : Radix.hexadecimal.valueOf ds ≤ CodePoint.max) :
      CodePointNumber (CodeUnit.leftBrace :: (ds ++ [CodeUnit.rightBrace]))
        (Radix.hexadecimal.valueOf ds)

/-- Braces with a number of digits of which thirty-two bits keep nothing: they are taken for empty
ones. -/
def Miscounted (w : List CodeUnit) : Prop :=
  ∃ ds, w = CodeUnit.leftBrace :: (ds ++ [CodeUnit.rightBrace]) ∧ UInt32.size ∣ ds.length

/-- In front of `rest`, an escape is written `w` after its backslash and denotes `units`. Octal
escapes exist only where `octal` says so, and take as many digits as they can. -/
inductive Written (octal : Bool) : List CodeUnit → List CodeUnit → List CodeUnit → Prop
  | lineBreak {u : CodeUnit} {rest : List CodeUnit} (hu : u.isLineTerminator = true)
      (halone : ¬(u = CodeUnit.carriageReturn ∧ rest.head? = some CodeUnit.lineFeed)) :
      Written octal [u] rest []
  | crlf {rest : List CodeUnit} :
      Written octal [CodeUnit.carriageReturn, CodeUnit.lineFeed] rest []
  | control {u v : CodeUnit} {rest : List CodeUnit} (huv : (u, v) ∈ controls) :
      Written octal [u] rest [v]
  | hex {ds rest : List CodeUnit} (hds : ∀ u ∈ ds, Radix.hexadecimal.isDigit u = true)
      (hlength : ds.length = 2) :
      Written octal (CodeUnit.ofChar 'x' :: ds) rest
        (CodePoint.encode (Radix.hexadecimal.valueOf ds))
  | unicode {ds rest : List CodeUnit} {c : CodePoint} (hc : CodePointNumber ds c)
      (hcount : ¬Miscounted ds) : Written octal (CodeUnit.ofChar 'u' :: ds) rest c.encode
  | nul {rest : List CodeUnit} (hrest : rest.head?.any CodeUnit.isDecimalDigit = false) :
      Written octal [CodeUnit.zero] rest [0]
  | octal {first : CodeUnit} {more rest : List CodeUnit} (hallowed : octal = true)
      (hds : ∀ u ∈ first :: more, u.isOctalDigit = true)
      (hlimit : (first :: more).length ≤ octalLimit first)
      (hlongest : (first :: more).length < octalLimit first →
        rest.head?.any CodeUnit.isOctalDigit = false) :
      Written octal (first :: more) rest
        (CodePoint.encode (Radix.octal.valueOf (first :: more)))
  | itself {u : CodeUnit} {w rest : List CodeUnit} {c : CodePoint} (hu : ¬IsReserved u)
      (hc : Utf16.head? (u :: w ++ rest) = some (c, (u :: w).length)) :
      Written octal (u :: w) rest (u :: w)

/-! ## Digits -/

theorem lt_of_hexDigit? {u : CodeUnit} {d : Nat} (h : u.hexDigit? = some d) : d < 16 := by
  unfold CodeUnit.hexDigit? at h
  simp only [Bool.and_eq_true, decide_eq_true_eq, UInt16.le_iff_toNat_le, UInt16.reduceToNat] at h
  split at h
  · obtain rfl := Option.some.inj h
    omega
  split at h
  · obtain rfl := Option.some.inj h
    omega
  split at h
  · obtain rfl := Option.some.inj h
    omega
  · simp at h

@[simp] theorem digit?_hexadecimal (u : CodeUnit) : Radix.hexadecimal.digit? u = u.hexDigit? := by
  rw [Radix.digit?]
  cases h : u.hexDigit? with
  | none => rfl
  | some d => simp [Radix.base, lt_of_hexDigit? h]

/-- A digit is taken exactly where one stands. -/
theorem hexDigit_eq_ok_iff {error : EscapeError} {text : List CodeUnit} {x : Reading Nat} :
    hexDigit error text = .ok x ↔
      ∃ u rest d, text = u :: rest ∧ u.hexDigit? = some d ∧ x = ⟨d, 1, ∅⟩ := by
  cases text with
  | nil => simp [hexDigit]
  | cons u rest =>
    rw [hexDigit]
    cases hd : u.hexDigit? with
    | none => simp [hd]
    | some d => simp [hd, eq_comm]

theorem hexDigit_bind_eq_ok_iff {β : Type} {error : EscapeError} {next : Nat → Reader β}
    {text : List CodeUnit} {y : Reading β} :
    (hexDigit error >>= next) text = .ok y ↔
      ∃ u rest d w, text = u :: rest ∧ u.hexDigit? = some d ∧ next d rest = .ok w ∧
        y = ⟨w.value, 1 + w.length, w.flags⟩ := by
  rw [Reader.bind_eq_ok_iff]
  constructor
  · rintro ⟨x, w, hx, hw, rfl⟩
    obtain ⟨u, rest, d, rfl, hd, rfl⟩ := hexDigit_eq_ok_iff.mp hx
    exact ⟨u, rest, d, w, rfl, hd, hw, by simp⟩
  · rintro ⟨u, rest, d, w, rfl, hd, hw, rfl⟩
    exact ⟨⟨d, 1, ∅⟩, w, hexDigit_eq_ok_iff.mpr ⟨u, rest, d, rfl, hd, rfl⟩, hw, by simp⟩

theorem isDigit_hexadecimal_iff {u : CodeUnit} :
    Radix.hexadecimal.isDigit u = true ↔ ∃ d, u.hexDigit? = some d := by
  rw [Radix.isDigit, digit?_hexadecimal, Option.isSome_iff_exists]

/-- The number that digits denote where the number `n` stands in front of them. -/
def valueAfter (n : Nat) (ds : List CodeUnit) : Nat :=
  ds.foldl (fun n u => 16 * n + u.hexDigit?.getD 0) n

theorem valueAfter_cons {u : CodeUnit} {d : Nat} (hd : u.hexDigit? = some d) (n : Nat)
    (ds : List CodeUnit) : valueAfter n (u :: ds) = valueAfter (16 * n + d) ds := by
  simp [valueAfter, hd]

theorem le_valueAfter (n : Nat) (ds : List CodeUnit) : n ≤ valueAfter n ds := by
  induction ds generalizing n with
  | nil => exact Nat.le_refl n
  | cons u ds ih =>
    have := ih (16 * n + u.hexDigit?.getD 0)
    show n ≤ valueAfter (16 * n + u.hexDigit?.getD 0) ds
    omega

theorem valueAfter_zero (ds : List CodeUnit) :
    valueAfter 0 ds = Radix.hexadecimal.valueOf ds := by
  simp only [valueAfter, Radix.valueOf, Radix.base, digit?_hexadecimal, Nat.mul_comm]

/-- The reader takes `k` digits, in front of which the number `n` stands. -/
def TakesDigits (k n : Nat) (r : Reader CodePoint) : Prop :=
  ∀ text x, r text = .ok x ↔
    ∃ ds rest, text = ds ++ rest ∧ (∀ u ∈ ds, Radix.hexadecimal.isDigit u = true) ∧
      ds.length = k ∧ x = ⟨valueAfter n ds, ds.length, ∅⟩

theorem takesDigits_pure (n : Nat) : TakesDigits 0 n (pure n) := by
  intro text x
  rw [Reader.pure_eq_ok_iff]
  constructor
  · rintro rfl
    exact ⟨[], text, rfl, by simp, rfl, rfl⟩
  · rintro ⟨ds, rest, -, -, hlength, rfl⟩
    obtain rfl := List.length_eq_zero_iff.mp hlength
    rfl

/-- One digit more. -/
theorem TakesDigits.bind {k n : Nat} {error : EscapeError} {next : Nat → Reader CodePoint}
    (h : ∀ d, TakesDigits k (16 * n + d) (next d)) :
    TakesDigits (k + 1) n (hexDigit error >>= next) := by
  intro text x
  rw [hexDigit_bind_eq_ok_iff]
  constructor
  · rintro ⟨u, rest, d, w, rfl, hd, hw, rfl⟩
    obtain ⟨ds, rest, rfl, hds, rfl, rfl⟩ := (h d _ _).mp hw
    refine ⟨u :: ds, rest, rfl, ?_, rfl, ?_⟩
    · rw [List.forall_mem_cons]
      exact ⟨isDigit_hexadecimal_iff.mpr ⟨d, hd⟩, hds⟩
    · rw [valueAfter_cons hd, List.length_cons, Nat.add_comm ds.length]
  · rintro ⟨ds, rest, rfl, hds, hlength, rfl⟩
    obtain ⟨u, ds, rfl⟩ := List.exists_cons_of_length_eq_add_one hlength
    rw [List.forall_mem_cons] at hds
    obtain ⟨d, hd⟩ := isDigit_hexadecimal_iff.mp hds.1
    refine ⟨u, ds ++ rest, d, _, rfl, hd, (h d _ _).mpr ⟨ds, rest, rfl, hds.2, ?_, rfl⟩, ?_⟩
    · simpa using hlength
    · rw [valueAfter_cons hd, List.length_cons, Nat.add_comm ds.length]

theorem takesDigits_hexPair : TakesDigits 2 0 hexPair := by
  refine .bind fun a => .bind fun b => ?_
  rw [Nat.mul_zero, Nat.zero_add]
  exact takesDigits_pure _

theorem takesDigits_hexQuad : TakesDigits 4 0 hexQuad := by
  refine .bind fun a => .bind fun b => .bind fun c => .bind fun d => ?_
  rw [Nat.mul_zero, Nat.zero_add]
  exact takesDigits_pure _

/-- A number that is kept in thirty-two bits. -/
theorem ofNat_eq_zero_iff (n : Nat) : Int32.ofNat n = 0 ↔ UInt32.size ∣ n := by
  rw [Nat.dvd_iff_mod_eq_zero, ← Int32.toBitVec_inj, Int32.toBitVec_ofNat', ← BitVec.toNat_inj]
  simp

theorem add_ofNat_length_cons (count : Int32) (u : CodeUnit) (ds : List CodeUnit) :
    count + Int32.ofNat (u :: ds).length = count + 1 + Int32.ofNat ds.length := by
  rw [List.length_cons, Int32.ofNat_add, Int32.add_comm (Int32.ofNat ds.length), Int32.add_assoc]
  rfl

/-- **Digits in braces.** Each digit is checked when it is taken, but a number does not get smaller
by more digits: only the last check counts. -/
theorem bracedDigits_eq_ok_iff {n : Nat} {count : Int32} (hn : n ≤ CodePoint.max)
    {text : List CodeUnit} {x : Reading CodePoint} :
    bracedDigits n count text = .ok x ↔
      ∃ ds rest, text = ds ++ CodeUnit.rightBrace :: rest ∧
        (∀ u ∈ ds, Radix.hexadecimal.isDigit u = true) ∧ count + Int32.ofNat ds.length ≠ 0 ∧
        valueAfter n ds ≤ CodePoint.max ∧ x = ⟨valueAfter n ds, ds.length + 1, ∅⟩ := by
  have hbrace : CodeUnit.rightBrace.hexDigit? = none := by decide
  induction text generalizing n count x with
  | nil => simp [bracedDigits]
  | cons u text ih =>
    rw [bracedDigits]
    cases hd : u.hexDigit? with
    | none =>
      dsimp only
      constructor
      · intro h
        split at h
        · next hend =>
          obtain ⟨hcount, rfl⟩ : count ≠ 0 ∧ u = CodeUnit.rightBrace := by simpa using hend
          obtain rfl := Except.ok.inj h
          exact ⟨[], text, rfl, by simp, by simpa using hcount, hn, rfl⟩
        · simp at h
      · rintro ⟨ds, rest, htext, hds, hcount, -, rfl⟩
        cases ds with
        | nil =>
          obtain ⟨rfl, rfl⟩ := List.cons.inj htext
          have hcount : count ≠ 0 := by simpa using hcount
          rw [if_pos (by simp [hcount])]
          rfl
        | cons v ds =>
          obtain ⟨rfl, -⟩ := List.cons.inj htext
          obtain ⟨d, hd'⟩ := isDigit_hexadecimal_iff.mp (hds u (by simp))
          simp [hd] at hd'
    | some d =>
      dsimp only
      constructor
      · intro h
        split at h
        · simp at h
        · next hle =>
          obtain ⟨z, hz, rfl⟩ := Outcome.shift_eq_ok_iff.mp h
          obtain ⟨ds, rest, rfl, hds, hcount, hmax, rfl⟩ := (ih (Nat.le_of_not_lt hle)).mp hz
          refine ⟨u :: ds, rest, rfl, ?_, ?_, ?_, ?_⟩
          · rw [List.forall_mem_cons]
            exact ⟨isDigit_hexadecimal_iff.mpr ⟨d, hd⟩, hds⟩
          · rwa [add_ofNat_length_cons]
          · rw [valueAfter_cons hd]
            exact hmax
          · rw [valueAfter_cons hd, List.length_cons]
            simp [Nat.add_comm]
      · rintro ⟨ds, rest, htext, hds, hcount, hmax, rfl⟩
        cases ds with
        | nil =>
          obtain ⟨rfl, -⟩ := List.cons.inj htext
          simp [hbrace] at hd
        | cons v ds =>
          obtain ⟨rfl, rfl⟩ := List.cons.inj htext
          rw [valueAfter_cons hd] at hmax ⊢
          have hle : 16 * n + d ≤ CodePoint.max := Nat.le_trans (le_valueAfter _ ds) hmax
          rw [if_neg (Nat.not_lt.mpr hle), Outcome.shift_eq_ok_iff]
          rw [List.forall_mem_cons] at hds
          rw [add_ofNat_length_cons] at hcount
          refine ⟨_, (ih hle).mpr ⟨ds, rest, rfl, hds.2, hcount, hmax, rfl⟩, ?_⟩
          simp [Nat.add_comm]

theorem miscounted_braces_iff {ds : List CodeUnit} :
    Miscounted (CodeUnit.leftBrace :: (ds ++ [CodeUnit.rightBrace])) ↔ UInt32.size ∣ ds.length := by
  constructor
  · rintro ⟨es, hes, hdvd⟩
    rwa [List.append_cancel_right (List.cons.inj hes).2]
  · exact fun hdvd => ⟨ds, rfl, hdvd⟩

/-- Only very many digits are miscounted. -/
theorem not_miscounted_of_length_lt {ds : List CodeUnit} (hne : ds ≠ [])
    (hlt : ds.length < UInt32.size) :
    ¬Miscounted (CodeUnit.leftBrace :: (ds ++ [CodeUnit.rightBrace])) := by
  rw [miscounted_braces_iff]
  intro hdvd
  exact Nat.not_le.mpr hlt (Nat.le_of_dvd (List.length_pos_iff.mpr hne) hdvd)

/-- Four digits are too few to be miscounted. -/
theorem not_miscounted_of_length {w : List CodeUnit} (h : w.length = 4) : ¬Miscounted w := by
  rintro ⟨ds, rfl, hdvd⟩
  have hlength : ds.length = 2 := by simpa using h
  rw [hlength] at hdvd
  exact absurd (Nat.le_of_dvd (by decide) hdvd) (by decide)

/-- **The number of a Unicode escape** is read exactly where one is written, unless its digits are
miscounted. -/
theorem unicode_eq_ok_iff {text : List CodeUnit} {x : Reading CodePoint} :
    unicode text = .ok x ↔ ∃ ds rest c, text = ds ++ rest ∧ CodePointNumber ds c ∧
      ¬Miscounted ds ∧ x = ⟨c, ds.length, ∅⟩ := by
  have hbrace : CodeUnit.leftBrace.hexDigit? = none := by decide
  have hquad : hexQuad text = .ok x → ∃ ds rest c, text = ds ++ rest ∧ CodePointNumber ds c ∧
      ¬Miscounted ds ∧ x = ⟨c, ds.length, ∅⟩ := by
    intro h
    obtain ⟨ds, rest, rfl, hds, hlength, rfl⟩ := (takesDigits_hexQuad _ _).mp h
    rw [valueAfter_zero]
    exact ⟨ds, rest, _, rfl, .quad hds hlength, not_miscounted_of_length hlength, rfl⟩
  constructor
  · intro h
    unfold unicode at h
    split at h
    · next u rest =>
      split at h
      · next hu =>
        subst hu
        obtain ⟨z, hz, rfl⟩ := Outcome.shift_eq_ok_iff.mp h
        obtain ⟨ds, rest, rfl, hds, hcount, hmax, rfl⟩ :=
          (bracedDigits_eq_ok_iff (Nat.zero_le _)).mp hz
        rw [Int32.zero_add, ne_eq, ofNat_eq_zero_iff] at hcount
        rw [valueAfter_zero] at hmax ⊢
        have hne : ds ≠ [] := by
          rintro rfl
          exact hcount (Nat.dvd_zero _)
        refine ⟨_, rest, _, ?_, .braced hds hne hmax,
          fun hmiscounted => hcount (miscounted_braces_iff.mp hmiscounted), ?_⟩
        · simp
        · simp [Nat.add_comm]
      · exact hquad h
    · exact hquad h
  · rintro ⟨ds, rest, c, rfl, hc, hcount, rfl⟩
    cases hc with
    | quad hds hlength =>
      have hread : hexQuad (ds ++ rest) = .ok ⟨Radix.hexadecimal.valueOf ds, ds.length, ∅⟩ := by
        rw [← valueAfter_zero]
        exact (takesDigits_hexQuad _ _).mpr ⟨ds, rest, rfl, hds, hlength, rfl⟩
      obtain ⟨u, ds, rfl⟩ := List.exists_cons_of_length_eq_add_one hlength
      have hu : u ≠ CodeUnit.leftBrace := by
        rintro rfl
        obtain ⟨d, hd⟩ := isDigit_hexadecimal_iff.mp (hds CodeUnit.leftBrace (by simp))
        simp [hbrace] at hd
      show unicode (u :: (ds ++ rest)) = _
      rw [unicode, if_neg hu]
      exact hread
    | @braced ds hds _ hmax =>
      rw [miscounted_braces_iff, ← ofNat_eq_zero_iff,
        ← Int32.zero_add (Int32.ofNat ds.length)] at hcount
      rw [← valueAfter_zero] at hmax ⊢
      show unicode (CodeUnit.leftBrace :: (ds ++ [CodeUnit.rightBrace] ++ rest)) = _
      rw [unicode, if_pos rfl, Outcome.shift_eq_ok_iff]
      refine ⟨_, (bracedDigits_eq_ok_iff (Nat.zero_le _)).mpr
        ⟨ds, rest, by simp, hds, hcount, hmax, rfl⟩, ?_⟩
      simp [Nat.add_comm]

/-! ## Octal digits -/

/-- The longest run of units with a property, cut off after `n` units. -/
theorem takeWhile_take_eq_iff {p : CodeUnit → Bool} {n : Nat} {text w : List CodeUnit} :
    (text.take n).takeWhile p = w ↔
      ∃ rest, text = w ++ rest ∧ (∀ u ∈ w, p u = true) ∧ w.length ≤ n ∧
        (w.length < n → rest.head?.any p = false) := by
  induction text generalizing n w with
  | nil =>
    constructor
    · intro h
      obtain rfl : [] = w := by simpa using h
      exact ⟨[], rfl, by simp, Nat.zero_le n, by simp⟩
    · rintro ⟨rest, htext, -⟩
      obtain ⟨rfl, -⟩ := List.append_eq_nil_iff.mp htext.symm
      simp
  | cons u text ih =>
    cases n with
    | zero =>
      rw [List.take_zero, List.takeWhile_nil]
      constructor
      · rintro rfl
        exact ⟨u :: text, rfl, by simp, Nat.le_refl 0, by simp⟩
      · rintro ⟨rest, -, -, hle, -⟩
        exact (List.length_eq_zero_iff.mp (Nat.le_zero.mp hle)).symm
    | succ n =>
      rw [List.take_succ_cons, List.takeWhile_cons]
      constructor
      · intro h
        split at h
        · next hu =>
          obtain ⟨rest, htext, hall, hle, hstop⟩ := ih.mp (rfl : (text.take n).takeWhile p = _)
          subst h
          refine ⟨rest, by rw [List.cons_append, ← htext], ?_, by simpa using hle, ?_⟩
          · exact List.forall_mem_cons.mpr ⟨hu, hall⟩
          · intro hlt
            exact hstop (by simpa using hlt)
        · next hu =>
          subst h
          exact ⟨u :: text, rfl, by simp, Nat.zero_le _, by simpa using hu⟩
      · rintro ⟨rest, htext, hall, hle, hstop⟩
        cases w with
        | nil =>
          obtain rfl : u :: text = rest := htext
          have hu : p u = false := by simpa using hstop (by simp)
          rw [if_neg (by simp [hu])]
        | cons v w =>
          obtain ⟨rfl, rfl⟩ := List.cons.inj htext
          rw [List.forall_mem_cons] at hall
          rw [if_pos hall.1]
          refine congrArg (u :: ·) (ih.mpr ⟨rest, rfl, hall.2, by simpa using hle, ?_⟩)
          intro hlt
          exact hstop (by simpa using hlt)

theorem octalDigits_eq_iff {first : CodeUnit} {text w : List CodeUnit} :
    octalDigits (first :: text) = w ↔
      ∃ rest, first :: text = w ++ rest ∧ (∀ u ∈ w, u.isOctalDigit = true) ∧
        w.length ≤ octalLimit first ∧
        (w.length < octalLimit first → rest.head?.any CodeUnit.isOctalDigit = false) := by
  rw [← takeWhile_take_eq_iff]
  simp only [octalDigits, octalLimit, List.head?_cons, Option.any_some, decide_eq_true_eq]
  rfl

/-- An octal digit is none of the units that are looked for before it. -/
theorem plain_of_isOctalDigit {u : CodeUnit} (hu : u.isOctalDigit = true) :
    u.isLineTerminator = false ∧ control? u = none ∧ u ≠ CodeUnit.ofChar 'x' ∧
      u ≠ CodeUnit.ofChar 'u' := by
  have hdigits : u = 0x30 ∨ u = 0x31 ∨ u = 0x32 ∨ u = 0x33 ∨ u = 0x34 ∨ u = 0x35 ∨ u = 0x36 ∨
      u = 0x37 := by
    simp only [CodeUnit.isOctalDigit, Bool.and_eq_true, decide_eq_true_eq,
      UInt16.le_iff_toNat_le, UInt16.reduceToNat] at hu
    simp only [← UInt16.toNat_inj, UInt16.reduceToNat]
    omega
  rcases hdigits with rfl | rfl | rfl | rfl | rfl | rfl | rfl | rfl <;> decide

/-! ## Octal escapes -/

/-- Whether an octal escape is written at the beginning of a text: a digit from 1 to 7, or a zero
and a further digit. -/
def beginsOctal : List CodeUnit → Bool
  | u :: rest => u.isOctalDigit && (u != CodeUnit.zero || rest.head?.any CodeUnit.isDecimalDigit)
  | [] => false

/-- Two units decide. -/
theorem beginsOctal_take {n : Nat} (hn : 2 ≤ n) (text : List CodeUnit) :
    beginsOctal (text.take n) = beginsOctal text := by
  obtain ⟨n, rfl⟩ := Nat.exists_eq_add_of_le' hn
  cases text with
  | nil => rfl
  | cons u rest => cases rest <;> rfl

/-- An octal escape is read as such, or refused. -/
theorem body_of_beginsOctal {text : List CodeUnit} (h : beginsOctal text = true)
    (refusal : Option EscapeError) : body refusal text = (octal refusal text).mapValue some := by
  cases text with
  | nil => simp [beginsOctal] at h
  | cons u rest =>
    rw [beginsOctal, Bool.and_eq_true, Bool.or_eq_true, bne_iff_ne] at h
    obtain ⟨hoctal, hzero⟩ := h
    obtain ⟨hline, hcontrol, hx, hu⟩ := plain_of_isOctalDigit hoctal
    have hnul : ¬(u = CodeUnit.zero ∧ (!rest.head?.any CodeUnit.isDecimalDigit) = true) := by
      rintro ⟨rfl, hrest⟩
      simp at hzero hrest
      simp [hzero] at hrest
    rw [body, if_neg (by simp [hline]), hcontrol]
    dsimp only
    rw [if_neg hx, if_neg hu, if_neg hnul, if_pos hoctal]

/-- Where none is written, it does not matter whether octal escapes are refused. -/
theorem body_of_not_beginsOctal {text : List CodeUnit} (h : beginsOctal text = false)
    (refusal refusal' : Option EscapeError) : body refusal text = body refusal' text := by
  cases text with
  | nil => rfl
  | cons u rest =>
    rw [beginsOctal, Bool.and_eq_false_iff, Bool.or_eq_false_iff, bne_eq_false_iff_eq] at h
    unfold body
    rcases h with hoctal | ⟨hzero, hrest⟩
    · simp only [hoctal, Bool.false_eq_true, if_false]
    · have hnul : u = CodeUnit.zero ∧ (!rest.head?.any CodeUnit.isDecimalDigit) = true :=
        ⟨hzero, by rw [hrest]; rfl⟩
      simp only [if_pos hnul]

/-! ## Escapes -/

theorem exists_mem_controls_of_control? {u : CodeUnit} {c : CodePoint} (h : control? u = some c) :
    ∃ v, (u, v) ∈ controls ∧ c.encode = [v] := by
  unfold control? at h
  split_ifs at h with hu hu hu hu hu hu <;> obtain rfl := Option.some.inj h <;> subst hu <;>
    exact ⟨_, by decide, rfl⟩

theorem control?_of_mem_controls {u v : CodeUnit} (h : (u, v) ∈ controls) :
    u.isLineTerminator = false ∧ ∃ c, control? u = some c ∧ c.encode = [v] := by
  simp only [controls, List.mem_cons, List.not_mem_nil, or_false, Prod.mk.injEq] at h
  rcases h with ⟨rfl, rfl⟩ | ⟨rfl, rfl⟩ | ⟨rfl, rfl⟩ | ⟨rfl, rfl⟩ | ⟨rfl, rfl⟩ | ⟨rfl, rfl⟩ <;>
    exact ⟨rfl, _, rfl, rfl⟩

/-- The units of the first code point. -/
theorem exists_append_of_head? {u : CodeUnit} {text : List CodeUnit} {c : CodePoint} {n : Nat}
    (h : Utf16.head? (u :: text) = some (c, n)) :
    ∃ w rest, u :: text = u :: w ++ rest ∧ n = (u :: w).length := by
  cases text with
  | nil => exact ⟨[], [], rfl, (Prod.mk.inj (Option.some.inj h)).2.symm⟩
  | cons v text =>
    rw [Utf16.head?] at h
    split at h
    · exact ⟨[v], text, rfl, (Prod.mk.inj (Option.some.inj h)).2.symm⟩
    · exact ⟨[], v :: text, rfl, (Prod.mk.inj (Option.some.inj h)).2.symm⟩

theorem lineTerminatorLength_of_ne {u : CodeUnit} {rest : List CodeUnit}
    (h : ¬(u = CodeUnit.carriageReturn ∧ rest.head? = some CodeUnit.lineFeed)) :
    lineTerminatorLength (u :: rest) = 1 := by
  cases rest with
  | nil => rfl
  | cons v rest => exact if_neg (by simpa using h)

/-- **What is read is written there.** -/
theorem exists_written_of_body {refusal : Option EscapeError} {text : List CodeUnit}
    {e : Reading (Option CodePoint)} (h : body refusal text = .ok e) :
    ∃ w rest, text = w ++ rest ∧
      Written refusal.isNone w rest (e.value.elim [] CodePoint.encode) ∧ e.length = w.length := by
  cases text with
  | nil => simp [body] at h
  | cons u text =>
    rw [body] at h
    split at h
    · next hline =>
      obtain rfl := Except.ok.inj h
      by_cases hcrlf : u = CodeUnit.carriageReturn ∧ text.head? = some CodeUnit.lineFeed
      · obtain ⟨rfl, hhead⟩ := hcrlf
        obtain ⟨rest, rfl⟩ := List.head?_eq_some_iff.mp hhead
        exact ⟨_, rest, rfl, .crlf, rfl⟩
      · exact ⟨[u], text, rfl, .lineBreak hline hcrlf, lineTerminatorLength_of_ne hcrlf⟩
    next hline =>
    split at h
    · next c hc =>
      obtain rfl := Except.ok.inj h
      obtain ⟨v, hv, hcv⟩ := exists_mem_controls_of_control? hc
      refine ⟨[u], text, rfl, ?_, rfl⟩
      show Written _ [u] text c.encode
      rw [hcv]
      exact .control hv
    next hcontrol =>
    split at h
    · next hx =>
      subst hx
      obtain ⟨_, hz, rfl⟩ := Outcome.mapValue_shift_eq_ok_iff.mp h
      obtain ⟨ds, rest, rfl, hds, hlength, rfl⟩ := (takesDigits_hexPair _ _).mp hz
      rw [valueAfter_zero]
      exact ⟨_, rest, rfl, .hex hds hlength, Nat.add_comm _ _⟩
    next hx =>
    split at h
    · next hu =>
      subst hu
      obtain ⟨_, hz, rfl⟩ := Outcome.mapValue_shift_eq_ok_iff.mp h
      obtain ⟨ds, rest, c, rfl, hc, hcount, rfl⟩ := unicode_eq_ok_iff.mp hz
      exact ⟨_, rest, rfl, .unicode hc hcount, Nat.add_comm _ _⟩
    next hu =>
    split at h
    · next hzero =>
      obtain rfl := Except.ok.inj h
      obtain ⟨rfl, hrest⟩ := hzero
      exact ⟨_, text, rfl, .nul (by simpa using hrest), rfl⟩
    split at h
    · next hoctal =>
      obtain ⟨z, hz, rfl⟩ := Outcome.mapValue_eq_ok_iff.mp h
      cases refusal with
      | some error => simp [octal] at hz
      | none =>
        obtain rfl := Except.ok.inj hz
        obtain ⟨rest, htext, hds, hlimit, hlongest⟩ := octalDigits_eq_iff.mp
          (rfl : octalDigits (u :: text) = _)
        dsimp only
        cases hw : octalDigits (u :: text) with
        | nil =>
          -- the digit that is there would have been taken
          have hlt : 0 < octalLimit u := by unfold octalLimit; split <;> decide
          rw [hw] at htext hlongest
          obtain rfl : u :: text = rest := htext
          simp [hoctal] at hlongest
          omega
        | cons first more =>
          rw [hw] at htext hds hlimit hlongest
          obtain ⟨rfl, -⟩ := List.cons.inj htext
          exact ⟨_, rest, htext, .octal rfl hds hlimit hlongest, rfl⟩
    split at h
    · simp at h
    next hdigit =>
    split at h
    · next c width hc =>
      obtain rfl := Except.ok.inj h
      obtain ⟨w, rest, htext, rfl⟩ := exists_append_of_head? hc
      refine ⟨u :: w, rest, htext, ?_, rfl⟩
      rw [htext] at hc
      show Written _ (u :: w) rest c.encode
      rw [CodePoint.encode_of_head? hc]
      refine .itself ?_ hc
      rintro (h | h | h | h | ⟨v, hv⟩)
      · exact hline h
      · exact hdigit h
      · exact hx h
      · exact hu h
      · obtain ⟨-, c, hc, -⟩ := control?_of_mem_controls hv
        exact hcontrol c hc
    · simp at h

/-- **What is written is read, all of it.** -/
theorem exists_body_of_written {refusal : Option EscapeError} {w rest units : List CodeUnit}
    (h : Written refusal.isNone w rest units) :
    ∃ e, body refusal (w ++ rest) = .ok e ∧ e.value.elim [] CodePoint.encode = units ∧
      e.length = w.length := by
  cases h with
  | @lineBreak u _ hu halone =>
    refine ⟨⟨none, 1, ∅⟩, ?_, rfl, rfl⟩
    show body refusal (u :: rest) = _
    rw [body, if_pos hu, lineTerminatorLength_of_ne halone]
  | crlf => exact ⟨⟨none, 2, ∅⟩, rfl, rfl, rfl⟩
  | @control u v _ huv =>
    obtain ⟨hline, c, hc, hcv⟩ := control?_of_mem_controls huv
    refine ⟨⟨some c, 1, ∅⟩, ?_, hcv, rfl⟩
    show body refusal (u :: rest) = _
    rw [body, if_neg (by simp [hline]), hc]
  | @hex ds _ hds hlength =>
    have hread := (takesDigits_hexPair _ _).mpr ⟨ds, rest, rfl, hds, hlength, rfl⟩
    rw [valueAfter_zero] at hread
    refine ⟨⟨some (Radix.hexadecimal.valueOf ds), 1 + ds.length, ∅⟩, ?_, rfl, Nat.add_comm _ _⟩
    show body refusal (CodeUnit.ofChar 'x' :: (ds ++ rest)) = _
    rw [body, if_neg (by decide), show control? (CodeUnit.ofChar 'x') = none from rfl]
    dsimp only
    rw [if_pos rfl, hread]
    rfl
  | @unicode ds _ c hc hcount =>
    have hread := unicode_eq_ok_iff.mpr ⟨ds, rest, c, rfl, hc, hcount, rfl⟩
    refine ⟨⟨some c, 1 + ds.length, ∅⟩, ?_, rfl, Nat.add_comm _ _⟩
    show body refusal (CodeUnit.ofChar 'u' :: (ds ++ rest)) = _
    rw [body, if_neg (by decide), show control? (CodeUnit.ofChar 'u') = none from rfl]
    dsimp only
    rw [if_neg (by decide), if_pos rfl, hread]
    rfl
  | nul hrest =>
    refine ⟨⟨some 0, 1, ∅⟩, ?_, rfl, rfl⟩
    show body refusal (CodeUnit.zero :: rest) = _
    rw [body, if_neg (by decide), show control? CodeUnit.zero = none from rfl]
    dsimp only
    rw [if_neg (by decide), if_neg (by decide), if_pos (by simp [hrest])]
  | @octal first more _ hallowed hds hlimit hlongest =>
    have hfirst := hds first List.mem_cons_self
    obtain ⟨hline, hcontrol, hx, hu⟩ := plain_of_isOctalDigit hfirst
    have hdigits : octalDigits (first :: (more ++ rest)) = first :: more :=
      octalDigits_eq_iff.mpr ⟨rest, rfl, hds, hlimit, hlongest⟩
    show ∃ e, body refusal (first :: (more ++ rest)) = _ ∧ _
    rw [body, if_neg (by simp [hline]), hcontrol]
    dsimp only
    rw [if_neg hx, if_neg hu]
    split
    · next hzero =>
      -- a lone zero denotes the same either way
      obtain ⟨rfl, hnot⟩ := hzero
      cases more with
      | nil => exact ⟨_, rfl, rfl, rfl⟩
      | cons d more =>
        have hd := CodeUnit.isDecimalDigit_of_isOctalDigit (hds d (by simp))
        simp [hd] at hnot
    · rw [Option.isNone_iff_eq_none.mp hallowed]
      unfold octal
      rw [hdigits]
      exact ⟨_, rfl, rfl, rfl⟩
  | @itself u w _ c hu hc =>
    simp only [IsReserved, not_or, Bool.not_eq_true] at hu
    obtain ⟨hline, hdigit, hx, hu, hcontrols⟩ := hu
    have hcontrol : control? u = none := by
      rw [Option.eq_none_iff_forall_ne_some]
      intro c hc
      obtain ⟨v, hv, -⟩ := exists_mem_controls_of_control? hc
      exact hcontrols ⟨v, hv⟩
    have hoctal : u.isOctalDigit = false := by
      rw [← Bool.not_eq_true]
      intro h
      rw [CodeUnit.isDecimalDigit_of_isOctalDigit h] at hdigit
      simp at hdigit
    have hzero : u ≠ CodeUnit.zero := by
      rintro rfl
      exact absurd hdigit (by decide)
    refine ⟨⟨some c, (u :: w).length, ∅⟩, ?_, CodePoint.encode_of_head? hc, rfl⟩
    rw [List.cons_append] at hc ⊢
    rw [body, if_neg (by simp [hline]), hcontrol]
    dsimp only
    rw [if_neg hx, if_neg hu, if_neg (fun h => hzero h.1), if_neg (by simp [hoctal]),
      if_neg (by simp [hdigit]), hc]

end Escape

end EcmaLex
