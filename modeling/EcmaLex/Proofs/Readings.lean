import EcmaLex.Lexeme.Read

/-!
# Readings taken apart

A composite reader succeeds exactly if its parts do, and then its reading is made of theirs. For
each combinator one equivalence says how (`Outcome.shift_eq_ok_iff`, `Reader.bind_eq_ok_iff`, …), so
that proofs about readers go from a reading to the readings of its parts and back without opening a
combinator. `Reader.Takes` is the same without flags: in front of a text, a reader takes a word and
gives a value, and a sequence of readers takes a concatenation.

* `Lexeme.kind_ne_eof_of_read`: only the empty text reads as the end token.
* `Lexeme.read_rightBrace`: a closing brace reads as such, whatever follows.
-/

namespace EcmaLex

/-! ## Flags -/

namespace TokenFlags

variable (a b : TokenFlags)

@[simp] theorem empty_union : (∅ ∪ a : TokenFlags) = a := by
  cases a
  rfl

@[simp] theorem union_empty : (a ∪ ∅ : TokenFlags) = a := by
  show a.union ⟨false, false, false, false, false⟩ = a
  simp [union]

theorem union_assoc (c : TokenFlags) : a ∪ b ∪ c = a ∪ (b ∪ c) := by
  show (a.union b).union c = a.union (b.union c)
  simp [union, Bool.or_assoc]

@[simp] theorem newLineBefore_empty : (∅ : TokenFlags).newLineBefore = false := rfl

@[simp] theorem newLineBefore_union :
    (a ∪ b).newLineBefore = (a.newLineBefore || b.newLineBefore) := rfl

@[simp] theorem containsLegacyOctal_empty : (∅ : TokenFlags).containsLegacyOctal = false := rfl

@[simp] theorem containsLegacyOctal_union :
    (a ∪ b).containsLegacyOctal = (a.containsLegacyOctal || b.containsLegacyOctal) := by
  show (a.union b).containsLegacyOctal = _
  simp only [containsLegacyOctal, union]
  ac_rfl

end TokenFlags

/-! ## Runs of units -/

namespace Text

/-- The longest run of units with a property reaches up to where the property fails. -/
theorem takeWhile_append_eq_left_iff {p : CodeUnit → Bool} {w rest : List CodeUnit} :
    (w ++ rest).takeWhile p = w ↔ (∀ u ∈ w, p u = true) ∧ rest.head?.any p = false := by
  induction w with
  | nil =>
    cases rest with
    | nil => simp
    | cons u rest => simp [List.takeWhile_cons]
  | cons u w ih =>
    rw [List.cons_append, List.takeWhile_cons, List.forall_mem_cons]
    cases hu : p u with
    | false => simp
    | true =>
      rw [if_pos rfl, List.cons.injEq, ih]
      simp

/-- A text in two parts, where a property of units ends with the first. -/
theorem span_append {p : CodeUnit → Bool} {w rest : List CodeUnit} (hw : ∀ u ∈ w, p u = true)
    (hrest : rest.head?.any p = false) :
    (w ++ rest).takeWhile p = w ∧ (w ++ rest).dropWhile p = rest := by
  have htake := takeWhile_append_eq_left_iff.mpr ⟨hw, hrest⟩
  have hsplit : (w ++ rest).takeWhile p ++ (w ++ rest).dropWhile p = w ++ rest :=
    List.takeWhile_append_dropWhile
  rw [htake, List.append_cancel_left_eq] at hsplit
  exact ⟨htake, hsplit⟩

/-- If a property holds of a beginning of a text and what follows it, it holds of a longest one. -/
theorem exists_longest {p : List CodeUnit → List CodeUnit → Prop} {w rest : List CodeUnit}
    (h : p w rest) :
    ∃ w' rest', w ++ rest = w' ++ rest' ∧ p w' rest' ∧
      ∀ w'' rest'', w ++ rest = w'' ++ rest'' → p w'' rest'' → w''.length ≤ w'.length := by
  induction hn : rest.length using Nat.strongRecOn generalizing w rest with
  | ind n ih =>
    by_cases hlonger : ∃ w' rest', w ++ rest = w' ++ rest' ∧ p w' rest' ∧ w.length < w'.length
    · obtain ⟨w', rest', htext, hp, hlt⟩ := hlonger
      have hlength := congrArg List.length htext
      rw [List.length_append, List.length_append] at hlength
      rw [htext]
      exact ih rest'.length (by omega) hp rfl
    · refine ⟨w, rest, rfl, h, ?_⟩
      intro w' rest' htext hp
      exact Nat.not_lt.mp fun hlt => hlonger ⟨w', rest', htext, hp, hlt⟩

/-- If a property holds of the empty text, a text has a beginning with which it ceases to hold: one
unit more, and it fails. -/
theorem exists_last_beginning {p : List CodeUnit → Prop} (h : p []) (text : List CodeUnit) :
    ∃ w rest, text = w ++ rest ∧ p w ∧ ∀ u ∈ rest.head?, ¬p (w ++ [u]) := by
  induction text generalizing p with
  | nil => exact ⟨[], [], rfl, h, by simp⟩
  | cons u text ih =>
    by_cases hu : p [u]
    · obtain ⟨w, rest, rfl, hw, hlast⟩ := ih (p := fun w => p (u :: w)) hu
      exact ⟨u :: w, rest, rfl, hw, hlast⟩
    · refine ⟨[], u :: text, rfl, h, ?_⟩
      intro v hv
      obtain rfl := Option.some.inj hv
      exact hu

/-- A run is known by its length. -/
theorem takeWhile_append_eq_left {p : CodeUnit → Bool} {w rest : List CodeUnit}
    (h : ((w ++ rest).takeWhile p).length = w.length) : (w ++ rest).takeWhile p = w := by
  have hsplit : (w ++ rest).takeWhile p ++ (w ++ rest).dropWhile p = w ++ rest :=
    List.takeWhile_append_dropWhile
  exact (List.append_inj hsplit h).1

end Text

/-! ## Combinators -/

namespace Outcome

variable {α β : Type} {n : Nat} {flags : TokenFlags} {o : Outcome α}

theorem shift_eq_ok_iff {x : Reading α} :
    o.shift n flags = .ok x ↔ ∃ z, o = .ok z ∧ x = ⟨z.value, n + z.length, flags ∪ z.flags⟩ := by
  cases o with
  | error f => simp [shift]
  | ok z => simp [shift, eq_comm]

theorem mapValue_eq_ok_iff {f : α → β} {y : Reading β} :
    o.mapValue f = .ok y ↔ ∃ z, o = .ok z ∧ y = ⟨f z.value, z.length, z.flags⟩ := by
  cases o with
  | error e => simp [mapValue]
  | ok z => simp [mapValue, eq_comm]

/-- A result whose value is changed behind some units. -/
theorem mapValue_shift_eq_ok_iff {f : α → β} {y : Reading β} :
    (o.shift n flags).mapValue f = .ok y ↔
      ∃ z, o = .ok z ∧ y = ⟨f z.value, n + z.length, flags ∪ z.flags⟩ := by
  rw [mapValue_eq_ok_iff]
  constructor
  · rintro ⟨w, hw, rfl⟩
    obtain ⟨z, hz, rfl⟩ := shift_eq_ok_iff.mp hw
    exact ⟨z, hz, rfl⟩
  · rintro ⟨z, rfl, rfl⟩
    exact ⟨_, rfl, rfl⟩

theorem mapValue_id (o : Outcome α) : o.mapValue id = o := by
  cases o <;> rfl

@[simp] theorem failHere_ne_ok {cause : LexError.Cause} {x : Reading α} :
    (failHere cause : Outcome α) ≠ .ok x := by
  simp [failHere]

@[simp] theorem shift_zero_empty (o : Outcome α) : o.shift 0 ∅ = o := by
  cases o <;> simp [shift]

end Outcome

namespace Reader

variable {α β : Type} {r : Reader α} {text : List CodeUnit}

theorem bind_eq_ok_iff {next : α → Reader β} {y : Reading β} :
    (r >>= next) text = .ok y ↔
      ∃ z w, r text = .ok z ∧ next z.value (text.drop z.length) = .ok w ∧
        y = ⟨w.value, z.length + w.length, z.flags ∪ w.flags⟩ := by
  show r.andThen next text = .ok y ↔ _
  unfold andThen
  cases r text with
  | error f => simp
  | ok z => simp [Outcome.shift_eq_ok_iff]

theorem interpret_eq_ok_iff {f : Reading α → List CodeUnit → Except LexError.Cause β}
    {y : Reading β} :
    r.interpret f text = .ok y ↔
      ∃ z b, r text = .ok z ∧ f z (text.take z.length) = .ok b ∧ y = ⟨b, z.length, z.flags⟩ := by
  unfold interpret
  cases r text with
  | error e => simp
  | ok z => cases hf : f z (text.take z.length) <;> simp [hf, eq_comm]

@[simp] theorem fail_ne_ok {cause : LexError.Cause} {x : Reading α} :
    (fail cause : Reader α) text ≠ .ok x :=
  Outcome.failHere_ne_ok

theorem pure_eq_ok_iff {a : α} {x : Reading α} :
    (pure a : Reader α) text = .ok x ↔ x = ⟨a, 0, ∅⟩ := by
  show (.ok ⟨a, 0, ∅⟩ : Outcome α) = .ok x ↔ _
  rw [Except.ok.injEq, eq_comm]

/-- Looking ahead only hands the text to what follows. -/
theorem ahead_bind (next : List CodeUnit → Reader β) (text : List CodeUnit) :
    (ahead >>= next) text = next text text := by
  show (next text (text.drop 0)).shift 0 ∅ = _
  rw [Outcome.shift_zero_empty, List.drop_zero]

section Takes
variable {a : α} {b : β} {w rest : List CodeUnit}

/-- In front of `rest`, the reader takes `w` and gives `a`. -/
def Takes (r : Reader α) (w rest : List CodeUnit) (a : α) : Prop :=
  ∃ flags, r (w ++ rest) = .ok ⟨a, w.length, flags⟩

/-- A reader takes one beginning of a text. -/
theorem Takes.unique {w' rest' : List CodeUnit} {a' : α} (h : r.Takes w rest a)
    (h' : r.Takes w' rest' a') (htext : w ++ rest = w' ++ rest') : w = w' ∧ a = a' := by
  obtain ⟨_, h⟩ := h
  obtain ⟨_, h'⟩ := h'
  rw [htext, h', Except.ok.injEq, Reading.mk.injEq] at h
  exact ⟨(List.append_inj htext h.2.1.symm).1, h.1.symm⟩

theorem not_takes_fail {cause : LexError.Cause} : ¬(fail cause : Reader α).Takes w rest a := by
  rintro ⟨_, h⟩
  exact fail_ne_ok h

/-- **Readers in sequence** take what each of them takes. -/
theorem takes_bind_iff {next : α → Reader β} :
    (r >>= next).Takes w rest b ↔
      ∃ w₁ w₂ a, w = w₁ ++ w₂ ∧ r.Takes w₁ (w₂ ++ rest) a ∧ (next a).Takes w₂ rest b := by
  constructor
  · rintro ⟨flags, h⟩
    obtain ⟨x, y, hx, hy, heq⟩ := bind_eq_ok_iff.mp h
    obtain ⟨rfl, hlength, -⟩ := (Reading.mk.injEq ..).mp heq
    have hle : x.length ≤ w.length := by omega
    have htake : (w.take x.length).length = x.length := by rw [List.length_take]; omega
    have hdrop : (w.drop x.length).length = y.length := by rw [List.length_drop]; omega
    refine ⟨w.take x.length, w.drop x.length, x.value, (List.take_append_drop _ _).symm,
      ⟨x.flags, ?_⟩, ⟨y.flags, ?_⟩⟩
    · rw [← List.append_assoc, List.take_append_drop, hx, htake]
    · rw [← List.drop_append_of_le_length hle, hy, hdrop]
  · rintro ⟨w₁, w₂, a, rfl, ⟨f₁, h₁⟩, ⟨f₂, h₂⟩⟩
    refine ⟨f₁ ∪ f₂, bind_eq_ok_iff.mpr ⟨⟨a, w₁.length, f₁⟩, ⟨b, w₂.length, f₂⟩, ?_, ?_, ?_⟩⟩
    · rw [List.append_assoc, h₁]
    · rw [List.append_assoc, List.drop_left, h₂]
    · rw [List.length_append]

theorem takes_congr {r' : Reader α} (h : r (w ++ rest) = r' (w ++ rest)) :
    r.Takes w rest a ↔ r'.Takes w rest a := by
  unfold Takes
  rw [h]

/-- A reader that leaves the text as it is. -/
theorem takes_iff_of_done {a' : α} {flags : TokenFlags}
    (hr : r (w ++ rest) = .ok ⟨a, 0, flags⟩) : r.Takes w rest a' ↔ w = [] ∧ a' = a := by
  unfold Takes
  simp only [hr, Except.ok.injEq, Reading.mk.injEq]
  constructor
  · rintro ⟨_, rfl, hlength, -⟩
    exact ⟨List.length_eq_zero_iff.mp hlength.symm, rfl⟩
  · rintro ⟨rfl, rfl⟩
    exact ⟨flags, rfl, rfl, rfl⟩

theorem takes_pure_iff {a' : α} : (pure a : Reader α).Takes w rest a' ↔ w = [] ∧ a' = a :=
  takes_iff_of_done (pure_eq_ok_iff.mpr rfl)

/-- A reader that takes `v` and leaves the rest of the text to another. -/
theorem takes_iff_of_shift {r' : Reader β} {f : β → α} {flags : TokenFlags}
    {v text : List CodeUnit} (hr : r (v ++ text) = ((r' text).shift v.length flags).mapValue f)
    (htext : w ++ rest = v ++ text) :
    r.Takes w rest a ↔
      ∃ w' b, w = v ++ w' ∧ text = w' ++ rest ∧ r'.Takes w' rest b ∧ f b = a := by
  constructor
  · rintro ⟨_, h⟩
    rw [htext, hr, Outcome.mapValue_shift_eq_ok_iff] at h
    obtain ⟨z, hz, heq⟩ := h
    obtain ⟨rfl, hlength, -⟩ := (Reading.mk.injEq ..).mp heq
    obtain ⟨w', rfl⟩ : v <+: w :=
      List.prefix_of_prefix_length_le ⟨text, htext.symm⟩ ⟨rest, rfl⟩ (by omega)
    rw [List.append_assoc, List.append_cancel_left_eq] at htext
    rw [List.length_append, Nat.add_left_cancel_iff] at hlength
    refine ⟨w', z.value, rfl, htext.symm, ⟨z.flags, ?_⟩, rfl⟩
    rw [htext, hz, hlength]
  · rintro ⟨w', b, rfl, rfl, ⟨flags', h⟩, rfl⟩
    refine ⟨flags ∪ flags', ?_⟩
    rw [htext, hr, Outcome.mapValue_shift_eq_ok_iff]
    exact ⟨_, h, by rw [List.length_append]⟩

theorem takes_ahead_bind_iff {next : List CodeUnit → Reader β} :
    (ahead >>= next).Takes w rest b ↔ (next (w ++ rest)).Takes w rest b := by
  unfold Takes
  rw [ahead_bind]

theorem takes_note_bind_iff {flags : TokenFlags} {next : Unit → Reader β} :
    (note flags >>= next).Takes w rest b ↔ (next ()).Takes w rest b := by
  rw [takes_bind_iff]
  constructor
  · rintro ⟨w₁, w₂, ⟨⟩, rfl, hnote, h⟩
    obtain ⟨rfl, -⟩ := (takes_iff_of_done (rfl : note flags _ = .ok ⟨(), 0, flags⟩)).mp hnote
    exact h
  · intro h
    exact ⟨[], w, (), rfl, ⟨flags, rfl⟩, h⟩

theorem takes_take_iff {k : Nat} {v : List CodeUnit} (hk : k ≤ (w ++ rest).length) :
    (take k).Takes w rest v ↔ v = w ∧ w.length = k := by
  constructor
  · rintro ⟨_, h⟩
    obtain ⟨rfl, hlength, -⟩ := (Reading.mk.injEq ..).mp (Except.ok.inj h)
    rw [List.length_take, Nat.min_eq_left hk] at hlength
    rw [hlength, List.take_left]
    exact ⟨rfl, rfl⟩
  · rintro ⟨rfl, rfl⟩
    exact ⟨∅, by rw [take, List.take_left]⟩

theorem takes_interpret_iff {f : Reading α → List CodeUnit → Except LexError.Cause β} :
    (r.interpret f).Takes w rest b ↔
      ∃ x, r (w ++ rest) = .ok x ∧ x.length = w.length ∧ f x w = .ok b := by
  constructor
  · rintro ⟨_, h⟩
    obtain ⟨x, b', hx, hb, heq⟩ := interpret_eq_ok_iff.mp h
    obtain ⟨rfl, hlength, -⟩ := (Reading.mk.injEq ..).mp heq
    rw [← hlength, List.take_left] at hb
    exact ⟨x, hx, hlength.symm, hb⟩
  · rintro ⟨x, hx, hlength, hb⟩
    refine ⟨x.flags, interpret_eq_ok_iff.mpr ⟨x, b, hx, ?_, by rw [hlength]⟩⟩
    rw [hlength, List.take_left]
    exact hb

theorem takes_takeWhile_iff {p : CodeUnit → Bool} {v : List CodeUnit} :
    (takeWhile p).Takes w rest v ↔
      v = w ∧ (∀ u ∈ w, p u = true) ∧ rest.head?.any p = false := by
  rw [← Text.takeWhile_append_eq_left_iff]
  constructor
  · rintro ⟨_, h⟩
    obtain ⟨rfl, hlength, -⟩ := (Reading.mk.injEq ..).mp (Except.ok.inj h)
    have heq := Text.takeWhile_append_eq_left hlength
    exact ⟨heq, heq⟩
  · rintro ⟨rfl, h⟩
    refine ⟨∅, ?_⟩
    rw [takeWhile, h]

end Takes

end Reader

/-! ## Strings, step by step -/

namespace StringLiteral

variable (strict : Bool) {quote : CodeUnit} {rest : List CodeUnit}

theorem body_quote (quote : CodeUnit) (rest : List CodeUnit) :
    body strict quote (quote :: rest) = .ok ⟨[], 1, ∅⟩ := by
  rw [body, if_pos rfl]

theorem body_escape {e : Reading (Option CodePoint)} (hq : CodeUnit.backslash ≠ quote)
    (he : Escape.body (if strict then some .strictOctal else none) rest = .ok e) :
    body strict quote (CodeUnit.backslash :: rest) =
      ((body strict quote (rest.drop e.length)).shift (1 + e.length) e.flags).mapValue
        (contribution e.value ++ ·) := by
  have hrest : rest ≠ [] := by
    rintro rfl
    simp [Escape.body] at he
  rw [body, if_neg hq, if_neg (by decide), if_pos rfl, if_neg hrest, he]

theorem body_unit {u : CodeUnit} (hq : u ≠ quote)
    (hline : ¬(u = CodeUnit.lineFeed ∨ u = CodeUnit.carriageReturn))
    (hescape : u ≠ CodeUnit.backslash) :
    body strict quote (u :: rest) = ((body strict quote rest).shift 1 ∅).mapValue (u :: ·) := by
  rw [body, if_neg hq, if_neg hline, if_neg hescape]

end StringLiteral

/-! ## Readers that refuse some readings of others -/

namespace Outcome

/-- Of the readings of the second outcome, the first one has those with the property. -/
def Selects {α : Type} (p : Reading α → Prop) (o o' : Outcome α) : Prop :=
  ∀ x, o = .ok x ↔ o' = .ok x ∧ p x

variable {α β : Type} {p q : Reading α → Prop} {o o' : Outcome α}

theorem selects_self (h : ∀ x, o = .ok x → p x) : o.Selects p o :=
  fun x => ⟨fun hx => ⟨hx, h x hx⟩, And.left⟩

theorem selects_of_refused (ho : ∀ x, o ≠ .ok x) (ho' : ∀ x, o' = .ok x → ¬p x) :
    o.Selects p o' := by
  intro x
  constructor
  · intro hx
    exact absurd hx (ho x)
  · rintro ⟨hx, hp⟩
    exact absurd hp (ho' x hx)

theorem Selects.congr (h : o.Selects p o') (hq : ∀ x, o' = .ok x → (q x ↔ p x)) :
    o.Selects q o' := by
  intro x
  rw [h x]
  exact and_congr_right fun hx => (hq x hx).symm

theorem Selects.shift (h : o.Selects p o') {n : Nat} {flags : TokenFlags}
    (hq : ∀ z : Reading α, q ⟨z.value, n + z.length, flags ∪ z.flags⟩ ↔ p z) :
    (o.shift n flags).Selects q (o'.shift n flags) := by
  intro x
  simp only [shift_eq_ok_iff]
  constructor
  · rintro ⟨z, hz, rfl⟩
    obtain ⟨hz', hp⟩ := (h z).mp hz
    exact ⟨⟨z, hz', rfl⟩, (hq z).mpr hp⟩
  · rintro ⟨⟨z, hz, rfl⟩, hx⟩
    exact ⟨z, (h z).mpr ⟨hz, (hq z).mp hx⟩, rfl⟩

theorem Selects.mapValue {q : Reading β → Prop} (h : o.Selects p o') {f : α → β}
    (hq : ∀ z : Reading α, q ⟨f z.value, z.length, z.flags⟩ ↔ p z) :
    (o.mapValue f).Selects q (o'.mapValue f) := by
  intro x
  simp only [mapValue_eq_ok_iff]
  constructor
  · rintro ⟨z, hz, rfl⟩
    obtain ⟨hz', hp⟩ := (h z).mp hz
    exact ⟨⟨z, hz', rfl⟩, (hq z).mpr hp⟩
  · rintro ⟨⟨z, hz, rfl⟩, hx⟩
    exact ⟨z, (h z).mpr ⟨hz, (hq z).mp hx⟩, rfl⟩

end Outcome

theorem Reader.selects_interpret {α β : Type} {r r' : Reader α} {text : List CodeUnit}
    {p : Reading α → Prop} {q : Reading β → Prop}
    {f : Reading α → List CodeUnit → Except LexError.Cause β}
    (h : (r text).Selects p (r' text))
    (hq : ∀ z b, f z (text.take z.length) = .ok b → (q ⟨b, z.length, z.flags⟩ ↔ p z)) :
    (r.interpret f text).Selects q (r'.interpret f text) := by
  intro x
  simp only [interpret_eq_ok_iff]
  constructor
  · rintro ⟨z, b, hz, hb, rfl⟩
    obtain ⟨hz', hp⟩ := (h z).mp hz
    exact ⟨⟨z, b, hz', hb, rfl⟩, (hq z b hb).mpr hp⟩
  · rintro ⟨⟨z, b, hz, hb, rfl⟩, hx⟩
    exact ⟨z, b, (h z).mpr ⟨hz, (hq z b hb).mp hx⟩, hb, rfl⟩

/-! ## Kinds and values of tokens -/

/-- A BigInt literal has the value of its digits, every other one the number at the end of its
route. -/
theorem Numeric.Form.interpret_eq_ok_iff {f : Form} {text : List CodeUnit} {b : Lexeme} :
    f.interpret text = .ok b ↔
      (∃ n, f = .bigInt n ∧ b = ⟨.numericLiteral, .bigInt n (Utf16.lossy text)⟩) ∨
      ∃ x, (f.route? text).bind Route.number? = some x ∧ b = ⟨.numericLiteral, .number x⟩ := by
  cases f with
  | bigInt n => simp [interpret, route?, eq_comm]
  | integer radix digits =>
    simp only [interpret, reduceCtorEq, false_and, exists_false, false_or]
    cases ((integer radix digits).route? text).bind Route.number? <;> simp [eq_comm]
  | decimal =>
    simp only [interpret, reduceCtorEq, false_and, exists_false, false_or]
    cases (decimal.route? text).bind Route.number? <;> simp [eq_comm]

namespace Lexeme

variable {text : List CodeUnit} {x : Reading Lexeme}

theorem lexeme_of_identifier (h : Identifier.read text = .ok x) :
    ∃ kind name, x.value = ⟨kind, .name name⟩ ∧ kind.isIdentifierName = true := by
  obtain ⟨z, b, -, hb, rfl⟩ := Reader.interpret_eq_ok_iff.mp h
  obtain rfl := Except.ok.inj hb
  refine ⟨_, _, rfl, ?_⟩
  split
  · split <;> rfl
  · rfl

theorem lexeme_of_numeric {m : Numeric.Mode} (h : Numeric.read m text = .ok x) :
    (∃ b, x.value = ⟨.numericLiteral, .number b⟩) ∨
      ∃ n literal, x.value = ⟨.numericLiteral, .bigInt n literal⟩ := by
  obtain ⟨z, b, -, hb, rfl⟩ := Reader.interpret_eq_ok_iff.mp h
  obtain ⟨n, -, rfl⟩ | ⟨x, -, rfl⟩ := Numeric.Form.interpret_eq_ok_iff.mp hb
  · exact .inr ⟨n, _, rfl⟩
  · exact .inl ⟨x, rfl⟩

theorem lexeme_of_stringLiteral {strict : Bool} (h : StringLiteral.read strict text = .ok x) :
    ∃ units, x.value = ⟨.stringLiteral, .string units⟩ := by
  unfold StringLiteral.read at h
  split at h
  · simp at h
  · obtain ⟨z, -, rfl⟩ := Outcome.mapValue_eq_ok_iff.mp h
    exact ⟨_, rfl⟩

theorem lexeme_of_private (h : Identifier.readPrivate text = .ok x) :
    ∃ name, x.value = ⟨.privateName, .name name⟩ := by
  unfold Identifier.readPrivate at h
  dsimp only at h
  split at h
  · obtain ⟨z, -, rfl⟩ := Outcome.mapValue_eq_ok_iff.mp h
    exact ⟨_, rfl⟩
  · simp at h

theorem lexeme_of_regExp (h : RegExp.read text = .ok x) :
    ∃ pattern flags, x.value = ⟨.regExpLiteral, .regExp pattern flags⟩ := by
  obtain ⟨z, b, -, hb, rfl⟩ := Reader.interpret_eq_ok_iff.mp h
  unfold RegExp.Literal.toLexeme at hb
  split at hb
  · simp at hb
  · exact ⟨_, _, (Except.ok.inj hb).symm⟩

/-- A name is an identifier or a keyword. -/
theorem kind_of_identifier (h : Identifier.read text = .ok x) :
    x.value.kind.isIdentifierName = true := by
  obtain ⟨kind, name, hvalue, hkind⟩ := lexeme_of_identifier h
  rw [hvalue]
  exact hkind

theorem kind_of_numeric {m : Numeric.Mode} (h : Numeric.read m text = .ok x) :
    x.value.kind = .numericLiteral := by
  rcases lexeme_of_numeric h with ⟨b, hvalue⟩ | ⟨n, literal, hvalue⟩ <;> rw [hvalue]

theorem kind_of_stringLiteral {strict : Bool} (h : StringLiteral.read strict text = .ok x) :
    x.value.kind = .stringLiteral := by
  obtain ⟨units, hvalue⟩ := lexeme_of_stringLiteral h
  rw [hvalue]

theorem kind_of_template {tagged first : Bool} (h : Template.read tagged first text = .ok x) :
    x.value.kind.isTemplate = true := by
  obtain ⟨z, -, rfl⟩ := Outcome.mapValue_eq_ok_iff.mp h
  show (Template.lexeme first z.value).kind.isTemplate = true
  unfold Template.lexeme
  dsimp only
  split <;> rfl

/-- A template takes its opening delimiter. -/
theorem length_pos_of_template {tagged first : Bool}
    (h : Template.read tagged first text = .ok x) : 0 < x.length := by
  obtain ⟨z, hz, rfl⟩ := Outcome.mapValue_eq_ok_iff.mp h
  show 0 < z.length
  exact Outcome.le_length_of_shift hz

/-- A template goes on where a closing brace stands. -/
theorem template_of_readContinuation {tagged : Bool}
    (h : Template.readContinuation tagged text = .ok x) :
    (∃ rest, text = CodeUnit.rightBrace :: rest) ∧ Template.read tagged false text = .ok x := by
  unfold Template.readContinuation at h
  split at h
  · next hbrace =>
    refine ⟨?_, h⟩
    cases text with
    | nil => simp at hbrace
    | cons u rest => exact ⟨rest, by rw [Option.some.inj hbrace]⟩
  · simp at h

theorem kind_of_private (h : Identifier.readPrivate text = .ok x) :
    x.value.kind = .privateName := by
  obtain ⟨name, hvalue⟩ := lexeme_of_private h
  rw [hvalue]

theorem kind_of_regExp (h : RegExp.read text = .ok x) : x.value.kind = .regExpLiteral := by
  obtain ⟨pattern, flags, hvalue⟩ := lexeme_of_regExp h
  rw [hvalue]

theorem kind_of_punctuator {jsx : Bool} (h : readPunctuator jsx text = .ok x) :
    ∃ p, Punctuator.ofText? jsx text = some p ∧
      x = ⟨⟨.punctuator p, .none⟩, p.units.length, ∅⟩ := by
  unfold readPunctuator at h
  split at h
  · next p hp => exact ⟨p, hp, (Except.ok.inj h).symm⟩
  · simp at h

/-- What was read, by the reader that read it. -/
inductive ReadsAs (c : Context) (text : List CodeUnit) (x : Reading Lexeme) : Prop
  | eof (htext : text = []) (hx : x = ⟨⟨.eof, .none⟩, 0, ∅⟩)
  | name (h : Identifier.read text = .ok x)
  | number (hbegins : beginsNumber text = true) (h : Numeric.read ⟨c.isStrict, c.next⟩ text = .ok x)
  | string (hquote : text.head?.any CodeUnit.isQuote = true)
      (h : StringLiteral.read c.isStrict text = .ok x)
  | template (h : Template.read c.taggedTemplate true text = .ok x)
  | privateName (hhash : text.head? = some CodeUnit.hash) (h : Identifier.readPrivate text = .ok x)
  | regExp (h : RegExp.read text = .ok x)
  | punctuator (p : Punctuator) (hp : Punctuator.ofText? c.jsx text = some p)
      (hx : x = ⟨⟨.punctuator p, .none⟩, p.units.length, ∅⟩)

/-- **Every token comes from one of the readers.** -/
theorem readsAs_of_read {c : Context} (h : read c text = .ok x) : ReadsAs c text x := by
  cases text with
  | nil => exact .eof rfl (Except.ok.inj h).symm
  | cons u rest =>
    simp only [read] at h
    split at h
    · exact .name h
    split at h
    · next hbegins => exact .number hbegins h
    split at h
    · next hquote => exact .string hquote h
    split at h
    · exact .template h
    split at h
    · next hhash => exact .privateName (congrArg some hhash) h
    split at h
    · exact .regExp h
    split at h
    · obtain ⟨p, hp, hx⟩ := kind_of_punctuator h
      exact .punctuator p hp hx
    · simp [illegal] at h

/-- Only the empty text reads as the end token. -/
theorem kind_ne_eof_of_read {c : Context} {u : CodeUnit} {rest : List CodeUnit}
    (h : read c (u :: rest) = .ok x) : x.value.kind ≠ .eof := by
  intro heof
  cases readsAs_of_read h with
  | eof htext _ => simp at htext
  | name h => simpa [heof, Token.Kind.isIdentifierName] using kind_of_identifier h
  | number _ h => simp [kind_of_numeric h] at heof
  | string _ h => simp [kind_of_stringLiteral h] at heof
  | template h => simpa [heof, Token.Kind.isTemplate] using kind_of_template h
  | privateName _ h => simp [kind_of_private h] at heof
  | regExp h => simp [kind_of_regExp h] at heof
  | punctuator p _ hx =>
    subst hx
    simp at heof

/-- Names are what the reader of names reads. -/
theorem identifier_of_read {c : Context} (h : read c text = .ok x)
    (hx : x.value.kind.isIdentifierName = true) : Identifier.read text = .ok x := by
  cases readsAs_of_read h with
  | name h => exact h
  | eof _ heq =>
    subst heq
    simp [Token.Kind.isIdentifierName] at hx
  | number _ h => simp [kind_of_numeric h, Token.Kind.isIdentifierName] at hx
  | string _ h => simp [kind_of_stringLiteral h, Token.Kind.isIdentifierName] at hx
  | template h =>
    have htemplate := kind_of_template h
    cases hkind : x.value.kind <;>
      simp [hkind, Token.Kind.isIdentifierName, Token.Kind.isTemplate] at hx htemplate
  | privateName _ h => simp [kind_of_private h, Token.Kind.isIdentifierName] at hx
  | regExp h => simp [kind_of_regExp h, Token.Kind.isIdentifierName] at hx
  | punctuator p _ heq =>
    subst heq
    simp [Token.Kind.isIdentifierName] at hx

/-- Numeric literals are what the reader of numbers reads. -/
theorem numeric_of_read {c : Context} (h : read c text = .ok x)
    (hx : x.value.kind = .numericLiteral) :
    beginsNumber text = true ∧ Numeric.read ⟨c.isStrict, c.next⟩ text = .ok x := by
  cases readsAs_of_read h with
  | number hbegins h => exact ⟨hbegins, h⟩
  | eof _ heq =>
    subst heq
    simp at hx
  | name h => simpa [hx, Token.Kind.isIdentifierName] using kind_of_identifier h
  | string _ h => simp [kind_of_stringLiteral h] at hx
  | template h => simpa [hx, Token.Kind.isTemplate] using kind_of_template h
  | privateName _ h => simp [kind_of_private h] at hx
  | regExp h => simp [kind_of_regExp h] at hx
  | punctuator p _ heq =>
    subst heq
    simp at hx

/-- Only numeric literals have numbers as values. -/
theorem kind_of_number {c : Context} (h : read c text = .ok x)
    (hx : (∃ b, x.value.value = .number b) ∨ ∃ n literal, x.value.value = .bigInt n literal) :
    x.value.kind = .numericLiteral := by
  cases readsAs_of_read h with
  | number _ h => exact kind_of_numeric h
  | eof _ heq =>
    subst heq
    simp at hx
  | name h =>
    obtain ⟨kind, name, hvalue, -⟩ := lexeme_of_identifier h
    simp [hvalue] at hx
  | string _ h =>
    obtain ⟨units, hvalue⟩ := lexeme_of_stringLiteral h
    simp [hvalue] at hx
  | template h =>
    obtain ⟨z, -, rfl⟩ := Outcome.mapValue_eq_ok_iff.mp h
    simp [Template.lexeme] at hx
  | privateName _ h =>
    obtain ⟨name, hvalue⟩ := lexeme_of_private h
    simp [hvalue] at hx
  | regExp h =>
    obtain ⟨pattern, flags, hvalue⟩ := lexeme_of_regExp h
    simp [hvalue] at hx
  | punctuator p _ heq =>
    subst heq
    simp at hx

/-- The end token is read where nothing is left. -/
theorem eq_nil_of_read {c : Context} (h : read c text = .ok x) (heof : x.value.kind = .eof) :
    text = [] := by
  cases text with
  | nil => rfl
  | cons u rest => exact absurd heof (kind_ne_eof_of_read h)

theorem kind_ne_eof_of_template {tagged first : Bool}
    (h : Template.read tagged first text = .ok x) : x.value.kind ≠ .eof := by
  intro heof
  have hkind := kind_of_template h
  rw [heof] at hkind
  exact absurd hkind (by decide)

/-- A punctuator is read as the longest one that the text begins with. -/
theorem punctuator_of_read {c : Context} {u : CodeUnit} {rest : List CodeUnit} {p : Punctuator}
    (h : read c (u :: rest) = .ok x) (hx : x.value.kind = .punctuator p) :
    Punctuator.ofText? c.jsx (u :: rest) = some p ∧
      x = ⟨⟨.punctuator p, .none⟩, p.units.length, ∅⟩ := by
  cases readsAs_of_read h with
  | punctuator q hq heq =>
    subst heq
    obtain rfl : q = p := by simpa using hx
    exact ⟨hq, rfl⟩
  | eof htext _ => simp at htext
  | name h => simpa [hx, Token.Kind.isIdentifierName] using kind_of_identifier h
  | number _ h => simp [kind_of_numeric h] at hx
  | string _ h => simp [kind_of_stringLiteral h] at hx
  | template h => simpa [hx, Token.Kind.isTemplate] using kind_of_template h
  | privateName _ h => simp [kind_of_private h] at hx
  | regExp h => simp [kind_of_regExp h] at hx

end Lexeme

/-! ## A closing brace -/

/-- A punctuator that matches begins with the first unit. -/
theorem Punctuator.head?_units_of_matchesAt {jsx : Bool} {u : CodeUnit} {rest : List CodeUnit}
    {p : Punctuator} (h : matchesAt jsx (u :: rest) p = true) : p.units.head? = some u := by
  rw [matchesAt, Bool.and_eq_true, List.isPrefixOf_iff_prefix] at h
  cases hu : p.units with
  | nil => exact absurd (Lexeme.length_units_pos p) (by rw [hu]; decide)
  | cons v us =>
    rw [hu] at h
    exact congrArg some (List.cons_prefix_cons.mp h.1).1

/-- The only punctuator that begins with a closing brace is the brace. -/
theorem Punctuator.eq_rightBrace_of_matchesAt {jsx : Bool} {rest : List CodeUnit} {p : Punctuator}
    (h : matchesAt jsx (CodeUnit.rightBrace :: rest) p = true) : p = .rightBrace := by
  have hhead := head?_units_of_matchesAt h
  clear h
  revert hhead
  cases p <;> decide

/-- A closing brace is read as such, whatever follows. -/
theorem Punctuator.ofText?_rightBrace (jsx : Bool) (rest : List CodeUnit) :
    ofText? jsx (CodeUnit.rightBrace :: rest) = some .rightBrace := by
  cases hfind : ofText? jsx (CodeUnit.rightBrace :: rest) with
  | none => exact absurd rfl (List.find?_eq_none.mp hfind .rightBrace (by decide))
  | some p => rw [eq_rightBrace_of_matchesAt (List.find?_some hfind)]

theorem Lexeme.read_rightBrace (c : Context) (rest : List CodeUnit) :
    read c (CodeUnit.rightBrace :: rest) =
      .ok ⟨⟨.punctuator .rightBrace, .none⟩, 1, ∅⟩ := by
  have hname : beginsName (CodeUnit.rightBrace :: rest) = false := by cases rest <;> rfl
  have hnumber : beginsNumber (CodeUnit.rightBrace :: rest) = false := rfl
  simp only [read, hname, hnumber]
  rw [if_neg (by decide), if_neg (by decide), if_neg (by decide), if_neg (by decide),
    if_neg (by decide), if_neg (fun h => absurd h.1 (by decide)), if_pos (by decide),
    readPunctuator, Punctuator.ofText?_rightBrace]
  rfl

end EcmaLex
