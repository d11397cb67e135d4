import EcmaLex.Proofs.Calls
import EcmaLex.Proofs.CodePoints
import EcmaLex.Proofs.EscapeGrammar
import EcmaLex.Proofs.StableReaders
import EcmaLex.Proofs.TriviaGrammar

/-!
# The grammar of names

A name is written as a sequence of items, each a code point of the text or a Unicode escape, whose
code points are an identifier start and then identifier parts. `Items` says so and nothing about how
the sequence is found; of all sequences that a text begins with, `Longest` is the one to take.

* `Identifier.name_eq_ok_iff`: the longest sequence is read exactly if there is one and no backslash
  follows it.
* `Identifier.classifies_kindOf`: which names are keywords.
* `Scanner.next_iff_longest_name`: names as tokens.
-/

namespace EcmaLex

namespace Identifier

/-! ## Items -/

/-- In front of `rest`, an item is written `w` and denotes a code point: it is that code point, or
an escape for it. The last index tells which. -/
inductive Item : List CodeUnit → List CodeUnit → CodePoint → Bool → Prop
  | itself {w rest : List CodeUnit} {c : CodePoint}
      (hc : Utf16.head? (w ++ rest) = some (c, w.length)) : Item w rest c false
  | escape {ds rest : List CodeUnit} {c : CodePoint} (hc : Escape.CodePointNumber ds c)
      (hcount : ¬Escape.Miscounted ds) :
      Item (CodeUnit.backslash :: CodeUnit.ofChar 'u' :: ds) rest c true

/-- In front of `rest`, a sequence of items is written `w` and denotes the code points `cs`, all of
which a name accepts in their places. The last index tells whether one of the items is an escape. -/
inductive Items : Bool → List CodeUnit → List CodeUnit → List CodePoint → Bool → Prop
  | nil {first : Bool} {rest : List CodeUnit} : Items first [] rest [] false
  | cons {first escaped escaped' : Bool} {w more rest : List CodeUnit} {c : CodePoint}
      {cs : List CodePoint} (hitem : Item w (more ++ rest) c escaped)
      (hc : accepts first c = true) (hmore : Items false more rest cs escaped') :
      Items first (w ++ more) rest (c :: cs) (escaped || escaped')

/-- In front of `rest`, the longest sequence of items of a name is written `w`. -/
structure Longest (w rest : List CodeUnit) (cs : List CodePoint) (escaped : Bool) : Prop where
  items : Items true w rest cs escaped
  longest : ∀ w' rest' cs' escaped', w' ++ rest' = w ++ rest → Items true w' rest' cs' escaped' →
    w'.length ≤ w.length

section Item
variable {first escaped : Bool} {w rest text : List CodeUnit} {c : CodePoint}

theorem Item.length_pos (h : Item w rest c escaped) : 0 < w.length := by
  cases h with
  | itself hc => exact width_pos hc
  | escape => exact Nat.zero_lt_succ _

theorem Item.append_ne_nil (h : Item w rest c escaped) (more : List CodeUnit) :
    w ++ more ≠ [] := by
  intro hnil
  have hpos := h.length_pos
  rw [(List.append_eq_nil_iff.mp hnil).1] at hpos
  exact absurd hpos (by decide)

theorem accepts_backslash (first : Bool) : accepts first CodeUnit.backslash.toNat = false := by
  cases first <;> decide

/-- An item that is written is found. -/
theorem Item.exists_item? (h : Item w rest c escaped) (hc : accepts first c = true) :
    ∃ ch : Char, ch.toNat = c ∧
      item? first (w ++ rest) = some (.ok ⟨ch, w.length, { unicodeEscape := escaped }⟩) := by
  obtain ⟨ch, hch⟩ := CodePoint.exists_toChar?_of_accepts hc
  have hname : nameChar? first c = some ch := by rw [nameChar?, if_pos hc, hch]
  refine ⟨ch, CodePoint.toNat_of_toChar? hch, ?_⟩
  cases h with
  | itself hhead =>
    have hbackslash : (w ++ rest).head? ≠ some CodeUnit.backslash := by
      cases htext : w ++ rest with
      | nil => simp
      | cons u more =>
        rw [htext] at hhead
        rintro hu
        obtain rfl := Option.some.inj hu
        rw [(Utf16.eq_toNat_iff_of_head? hhead (by decide)).mpr rfl, accepts_backslash] at hc
        exact absurd hc (by decide)
    rw [item?, if_neg hbackslash, hhead]
    dsimp only
    rw [hname]
    rfl
  | @escape ds _ _ hnumber hcount =>
    have hunicode := Escape.unicode_eq_ok_iff.mpr ⟨ds, rest, c, rfl, hnumber, hcount, rfl⟩
    show item? first (CodeUnit.backslash :: CodeUnit.ofChar 'u' :: (ds ++ rest)) = _
    rw [item?, if_pos List.head?_cons, List.drop_succ_cons, List.drop_zero,
      if_pos List.head?_cons, escapedItem, List.drop_succ_cons, List.drop_succ_cons, List.drop_zero,
      hunicode]
    dsimp only
    rw [hname, Nat.add_comm]
    rfl

theorem accepts_of_nameChar? {ch : Char} (h : nameChar? first c = some ch) :
    accepts first c = true := by
  unfold nameChar? at h
  split at h
  · assumption
  · simp at h

/-- An escape that is read is written behind its backslash and its `u`. -/
theorem exists_number_of_escapedItem {u v : CodeUnit} {more : List CodeUnit} {x : Reading Char}
    (h : escapedItem first (u :: v :: more) = .ok x) :
    ∃ ds rest c, more = ds ++ rest ∧ Escape.CodePointNumber ds c ∧ ¬Escape.Miscounted ds ∧
      accepts first c = true := by
  unfold escapedItem at h
  split at h
  · simp at h
  · next y hy =>
    obtain ⟨ds, rest, c, hmore, hnumber, hcount, rfl⟩ := Escape.unicode_eq_ok_iff.mp hy
    split at h
    · next ch hch => exact ⟨ds, rest, c, hmore, hnumber, hcount, accepts_of_nameChar? hch⟩
    · simp at h

/-- An item that is found is written there. -/
theorem exists_item_of_item? {x : Reading Char} (h : item? first text = some (.ok x)) :
    ∃ w rest c escaped, text = w ++ rest ∧ Item w rest c escaped ∧ accepts first c = true := by
  unfold item? at h
  split at h
  · next hbackslash =>
    split at h
    · next hu =>
      match text with
      | [] => simp at hbackslash
      | [_] => simp at hu
      | u :: v :: more =>
        obtain rfl : u = CodeUnit.backslash := by simpa using hbackslash
        obtain rfl : v = CodeUnit.ofChar 'u' := by simpa using hu
        obtain ⟨ds, rest, c, rfl, hnumber, hcount, hc⟩ :=
          exists_number_of_escapedItem (Option.some.inj h)
        exact ⟨_, rest, c, true, rfl, .escape hnumber hcount, hc⟩
    · split at h <;> simp at h
  · split at h
    · simp at h
    · next c width hhead =>
      obtain ⟨ch, hch, -⟩ := Option.map_eq_some_iff.mp h
      have hle := Utf16.width_le_length hhead
      refine ⟨text.take width, text.drop width, c, false, (List.take_append_drop _ _).symm,
        .itself ?_, accepts_of_nameChar? hch⟩
      rw [List.take_append_drop, List.length_take, Nat.min_eq_left hle, hhead]

end Item

/-! ## Sequences -/

section Items
variable {first escaped escaped' : Bool} {w v rest text : List CodeUnit} {cs cs' : List CodePoint}

/-- One item is a sequence. -/
theorem Items.one {c : CodePoint} (hitem : Item w rest c escaped) (hc : accepts first c = true) :
    Items first w rest [c] escaped := by
  have hcons : Items first (w ++ []) rest [c] (escaped || false) := .cons hitem hc .nil
  rwa [List.append_nil, Bool.or_false] at hcons

/-- Two sequences in a row, where the first may go on. -/
theorem Items.append (h : Items first w (v ++ rest) cs escaped) (hfirst : first = false)
    (hv : Items false v rest cs' escaped') :
    Items first (w ++ v) rest (cs ++ cs') (escaped || escaped') := by
  generalize htext : v ++ rest = text at h
  induction h with
  | nil =>
    subst hfirst
    exact hv
  | cons hitem hc _ ih =>
    subst htext
    rw [List.append_assoc, List.cons_append, Bool.or_assoc]
    exact .cons (by rwa [List.append_assoc]) hc (ih rfl rfl)

/-- What is accepted spells a name. -/
theorem Items.exists_name (h : Items first w rest cs escaped) :
    ∃ name : String, name.toList.map Char.toNat = cs := by
  induction h with
  | nil => exact ⟨"", rfl⟩
  | cons _ hc _ ih =>
    obtain ⟨ch, hch⟩ := CodePoint.exists_toChar?_of_accepts hc
    obtain ⟨name, rfl⟩ := ih
    refine ⟨String.ofList (ch :: name.toList), ?_⟩
    rw [String.toList_ofList, List.map_cons, CodePoint.toNat_of_toChar? hch]

/-- Of the sequences that a text begins with, one is the longest. -/
theorem exists_longest (text : List CodeUnit) :
    ∃ w rest cs escaped, text = w ++ rest ∧ Longest w rest cs escaped := by
  have hnil : ∃ cs escaped, Items true [] text cs escaped := ⟨[], false, .nil⟩
  obtain ⟨w, rest, htext, ⟨cs, escaped, hitems⟩, hlongest⟩ := Text.exists_longest
    (p := fun w rest => ∃ cs escaped, Items true w rest cs escaped) hnil
  refine ⟨w, rest, cs, escaped, htext, hitems, ?_⟩
  intro w' rest' cs' escaped' htext' hitems'
  exact hlongest w' rest' (htext.trans htext'.symm) ⟨cs', escaped', hitems'⟩

/-- Behind the longest sequence no item follows: with it, there would be a longer one. -/
theorem Longest.item?_ne_ok (h : Longest w rest cs escaped) (x : Reading Char) :
    item? w.isEmpty rest ≠ some (.ok x) := by
  intro hx
  obtain ⟨v, rest', c, e, rfl, hitem, hc⟩ := exists_item_of_item? hx
  have hlonger : ∃ cs' escaped', Items true (w ++ v) rest' cs' escaped' := by
    cases h.items with
    | nil => exact ⟨_, _, .one hitem hc⟩
    | @cons _ _ _ w more _ _ _ hfirst haccepts hmore =>
      rw [List.isEmpty_eq_false_iff.mpr (hfirst.append_ne_nil more)] at hc
      rw [List.append_assoc]
      exact ⟨_, _, .cons (by rwa [List.append_assoc]) haccepts
        (hmore.append rfl (.one hitem hc))⟩
  obtain ⟨cs', escaped', hitems⟩ := hlonger
  have hle := h.longest _ _ _ _ (by rw [List.append_assoc]) hitems
  have hpos := hitem.length_pos
  rw [List.length_append] at hle
  omega

/-- What is found where no item follows: an error at a backslash, and else nothing. -/
theorem item?_cases (h : ∀ x, item? false text ≠ some (.ok x)) :
    text.head? = some CodeUnit.backslash ∧ (∃ f, item? false text = some (.error f)) ∨
      text.head? ≠ some CodeUnit.backslash ∧ item? false text = none := by
  cases hitem : item? false text with
  | some o =>
    cases o with
    | ok x => exact absurd hitem (h x)
    | error f =>
      refine .inl ⟨?_, f, rfl⟩
      by_contra hne
      rw [item?, if_neg hne] at hitem
      split at hitem
      · simp at hitem
      · simp at hitem
  | none =>
    refine .inr ⟨?_, rfl⟩
    intro hbackslash
    rw [item?, if_pos hbackslash] at hitem
    split at hitem <;> simp at hitem

theorem parts_of_error {f : Fault} (h : item? false text = some (.error f)) :
    parts text = .error f := by
  rw [parts]
  split <;> simp_all

/-- **The items after the first.** -/
theorem parts_eq_ok_iff (h : Items first w rest cs escaped) (hfirst : first = false)
    (hends : ∀ x, item? false rest ≠ some (.ok x)) {x : Reading (List Char)} :
    parts (w ++ rest) = .ok x ↔
      rest.head? ≠ some CodeUnit.backslash ∧
        ∃ chs : List Char, chs.map Char.toNat = cs ∧
          x = ⟨chs, w.length, { unicodeEscape := escaped }⟩ := by
  induction h generalizing x with
  | nil =>
    rw [List.nil_append]
    rcases item?_cases hends with ⟨hbackslash, f, hf⟩ | ⟨hbackslash, hnone⟩
    · rw [parts_of_error hf]
      simp [hbackslash]
    · rw [parts_of_none hnone, Except.ok.injEq, eq_comm]
      constructor
      · rintro rfl
        exact ⟨hbackslash, [], rfl, rfl⟩
      · rintro ⟨-, chs, hchs, rfl⟩
        obtain rfl := List.map_eq_nil_iff.mp hchs
        rfl
  | cons hitem hc _ ih =>
    subst hfirst
    obtain ⟨ch, rfl, hfound⟩ := hitem.exists_item? hc
    rw [List.append_assoc, parts_of_some hfound, Outcome.mapValue_shift_eq_ok_iff]
    dsimp only
    rw [List.drop_left]
    simp only [ih rfl hends]
    constructor
    · rintro ⟨_, ⟨hbackslash, chs, rfl, rfl⟩, rfl⟩
      exact ⟨hbackslash, ch :: chs, rfl, by rw [List.length_append]; rfl⟩
    · rintro ⟨hbackslash, _, hchs, rfl⟩
      obtain ⟨ch', chs, rfl, hch', rfl⟩ := List.map_eq_cons_iff.mp hchs
      obtain rfl := Char.toNat_inj.mp hch'
      exact ⟨_, ⟨hbackslash, chs, rfl, rfl⟩, by rw [List.length_append]; rfl⟩

/-- A name is its first item and the others. -/
theorem name_eq_ok_iff_parts {x : Reading String} :
    name text = .ok x ↔
      ∃ y z, item? true text = some (.ok y) ∧ parts (text.drop y.length) = .ok z ∧
        x = ⟨String.ofList (y.value :: z.value), y.length + z.length, y.flags ∪ z.flags⟩ := by
  have hstart (y : Reading Char) : start text = .ok y ↔ item? true text = some (.ok y) := by
    unfold start
    cases item? true text <;> simp
  unfold name
  constructor
  · intro h
    obtain ⟨y, _, hy, hmore, rfl⟩ := Reader.bind_eq_ok_iff.mp h
    obtain ⟨z, _, hz, hpure, rfl⟩ := Reader.bind_eq_ok_iff.mp hmore
    obtain rfl := Reader.pure_eq_ok_iff.mp hpure
    exact ⟨y, z, (hstart y).mp hy, hz, by rw [Nat.add_zero, TokenFlags.union_empty]⟩
  · rintro ⟨y, z, hy, hz, rfl⟩
    refine Reader.bind_eq_ok_iff.mpr ⟨y, _, (hstart y).mpr hy, Reader.bind_eq_ok_iff.mpr
      ⟨z, _, hz, Reader.pure_eq_ok_iff.mpr rfl, rfl⟩, ?_⟩
    rw [Nat.add_zero, TokenFlags.union_empty]

/-- **A name is read** exactly if there is a sequence of items, and no backslash behind the longest.
It is what the items denote. -/
theorem name_eq_ok_iff (h : Longest w rest cs escaped) {x : Reading String} :
    name (w ++ rest) = .ok x ↔
      w ≠ [] ∧ rest.head? ≠ some CodeUnit.backslash ∧
        ∃ s : String, s.toList.map Char.toNat = cs ∧
          x = ⟨s, w.length, { unicodeEscape := escaped }⟩ := by
  have hends := h.item?_ne_ok
  rw [name_eq_ok_iff_parts]
  cases h.items with
  | nil =>
    refine iff_of_false ?_ (fun hne => hne.1 rfl)
    rintro ⟨y, -, hy, -⟩
    exact hends y hy
  | @cons _ _ _ w more _ _ _ hitem hc hmore =>
    have hne := hitem.append_ne_nil more
    rw [List.isEmpty_eq_false_iff.mpr hne] at hends
    obtain ⟨ch, rfl, hfound⟩ := hitem.exists_item? hc
    rw [List.append_assoc, hfound]
    constructor
    · rintro ⟨y, z, hy, hz, rfl⟩
      obtain rfl := Except.ok.inj (Option.some.inj hy)
      rw [List.drop_left] at hz
      obtain ⟨hbackslash, chs, rfl, rfl⟩ := (parts_eq_ok_iff hmore rfl hends).mp hz
      refine ⟨hne, hbackslash, _, ?_, by rw [List.length_append]; rfl⟩
      rw [String.toList_ofList, List.map_cons]
    · rintro ⟨-, hbackslash, s, hs, rfl⟩
      obtain ⟨ch', chs, hlist, hch', rfl⟩ := List.map_eq_cons_iff.mp hs
      obtain rfl := Char.toNat_inj.mp hch'
      have hparts := (parts_eq_ok_iff hmore rfl hends).mpr ⟨hbackslash, chs, rfl, rfl⟩
      refine ⟨_, _, rfl, by rw [List.drop_left, hparts], ?_⟩
      rw [List.length_append, ← hlist, String.ofList_toList]
      rfl

end Items

/-! ## Keywords -/

/-- What a name is, by whether it is private, its spelling and whether an escape was used. -/
structure Classifies (isPrivate : Bool) (name : String) (escaped : Bool) (kind : Token.Kind) :
    Prop where
  privateName : isPrivate = true → kind = .privateName
  keyword : isPrivate = false → ∀ k : Keyword, k.spelling = name →
    kind = if escaped then .escapedKeyword k else .keyword k
  identifier : isPrivate = false → (∀ k : Keyword, k.spelling ≠ name) → kind = .identifier

/-- Every keyword is found by its spelling. -/
theorem ofString?_spelling (k : Keyword) : Keyword.ofString? k.spelling = some k := by
  cases k <;> rfl

/-- The kind of a name. -/
def kindOf (isPrivate : Bool) (name : String) (escaped : Bool) : Token.Kind :=
  if isPrivate then .privateName else (classify name escaped).kind

/-- **Names are told apart** by their spelling, and keywords by the escapes in them. -/
theorem classifies_kindOf (isPrivate : Bool) (name : String) (escaped : Bool) :
    Classifies isPrivate name escaped (kindOf isPrivate name escaped) := by
  refine ⟨fun h => if_pos h, ?_, ?_⟩
  · rintro rfl k rfl
    rw [kindOf, if_neg (by decide), classify, ofString?_spelling]
  · rintro rfl hnone
    have hfind : Keyword.ofString? name = none := by
      cases hk : Keyword.ofString? name with
      | none => rfl
      | some k => exact absurd (by simpa using List.find?_some hk) (hnone k)
    rw [kindOf, if_neg (by decide), classify, hfind]

/-! ## Tokens -/

/-- What stands in front of a private name. -/
def sign (isPrivate : Bool) : List CodeUnit := if isPrivate then [CodeUnit.hash] else []

section Tokens
variable {escaped : Bool} {w rest text : List CodeUnit} {cs : List CodePoint}

/-- Where there is an item, a name begins. -/
theorem Items.beginsName (h : Items true w rest cs escaped) (hw : w ≠ []) :
    Lexeme.beginsName (w ++ rest) = true := by
  cases h with
  | nil => exact absurd rfl hw
  | cons hitem hc _ =>
    rw [List.append_assoc]
    cases hitem with
    | itself hhead =>
      rw [accepts, if_pos rfl] at hc
      rw [Lexeme.beginsName, hhead, Option.any_some]
      dsimp only
      rw [hc, Bool.or_true]
    | escape =>
      rw [List.cons_append, Lexeme.beginsName, List.head?_cons, beq_self_eq_true, Bool.true_or]

theorem readPrivate_hash : readPrivate (CodeUnit.hash :: text) =
    if Lexeme.beginsName text = true then
      ((name text).shift 1 ∅).mapValue fun s => ⟨.privateName, .name s⟩
    else .error ⟨.illegalCharacter '#', 0, 1, ∅⟩ := by
  simp only [readPrivate, Lexeme.beginsName, List.drop_succ_cons, List.drop_zero, Bool.or_eq_true,
    beq_iff_eq]

end Tokens

end Identifier

/-! ## Names in a source -/

namespace Lexeme

/-- A unit that is no surrogate and begins no name. -/
theorem beginsName_cons_eq_false {u : CodeUnit} {rest : List CodeUnit} (hlead : u.isLead = false)
    (hbackslash : u ≠ CodeUnit.backslash) (hstart : CodePoint.isIdentifierStart u.toNat = false) :
    beginsName (u :: rest) = false := by
  rw [beginsName, Utf16.head?_cons_of_not_isLead hlead]
  simpa [hstart] using hbackslash

/-- Where a name begins, no trivia does. -/
theorem first?_of_beginsName {text : List CodeUnit} (h : beginsName text = true)
    (m : Trivia.Mode) : Trivia.first? m text = none := by
  rw [Trivia.first?_eq_none_iff]
  rintro (⟨u, hu, hseparates⟩ | ⟨kind, -, hopener⟩)
  · obtain ⟨rest, rfl⟩ : ∃ rest, text = u :: rest := by
      cases text with
      | nil => simp at hu
      | cons v rest => exact ⟨rest, by rw [Option.some.inj hu]⟩
    have hbackslash : u ≠ CodeUnit.backslash := by
      rintro rfl
      exact absurd hseparates (by decide)
    rw [beginsName_cons_eq_false (CodeUnit.isLead_of_separates hseparates) hbackslash
      (CodeUnit.isIdentifierStart_of_separates hseparates)] at h
    exact absurd h (by decide)
  · obtain ⟨rest, rfl⟩ := hopener
    have hnot : beginsName (kind.opener ++ rest) = false := by
      cases kind <;> exact beginsName_cons_eq_false (by decide) (by decide) (by decide)
    rw [hnot] at h
    exact absurd h (by decide)

theorem read_of_beginsName {text : List CodeUnit} (h : beginsName text = true) (c : Context) :
    read c text = Identifier.read text := by
  cases text with
  | nil => simp [beginsName, Utf16.head?] at h
  | cons u rest => simp only [read, h, if_true]

theorem read_hash (c : Context) (text : List CodeUnit) :
    read c (CodeUnit.hash :: text) = Identifier.readPrivate (CodeUnit.hash :: text) := by
  have hname : beginsName (CodeUnit.hash :: text) = false :=
    beginsName_cons_eq_false (by decide) (by decide) (by decide)
  have hnumber : beginsNumber (CodeUnit.hash :: text) = false := rfl
  simp only [read, hname, hnumber]
  rw [if_neg (by decide), if_neg (by decide), if_neg (by decide), if_neg (by decide),
    if_pos trivial]

end Lexeme

/-- A number sign is no trivia, unless it opens a hashbang. -/
theorem Trivia.first?_hash {m : Mode} {text : List CodeUnit}
    (h : ¬(m.sourceStart = true ∧ text.head? = some (CodeUnit.ofChar '!'))) :
    first? m (CodeUnit.hash :: text) = none := by
  rw [first?_eq_none_iff]
  rintro (⟨u, hu, hblank⟩ | ⟨kind, hm, hopener⟩)
  · obtain rfl : CodeUnit.hash = u := by simpa using hu
    exact absurd hblank (by decide)
  · cases kind with
    | hashbang =>
      obtain ⟨rest, rfl⟩ := (List.cons_prefix_cons.mp hopener).2
      exact h ⟨hm, rfl⟩
    | _ => exact absurd (List.cons_prefix_cons.mp hopener).1 (by decide)

namespace Scanner

open Identifier (Longest Classifies sign)

/-- A name may begin at the cursor, and `text` is where its items are: an identifier start or a
backslash stands there, or a number sign that opens no hashbang. -/
inductive AtName (s : Scanner) : Bool → List CodeUnit → Prop
  | plain {text : List CodeUnit} (hrest : s.cursor.rest = text)
      (hbegins : Lexeme.beginsName text = true) : AtName s false text
  | behindSign {text : List CodeUnit} (hrest : s.cursor.rest = CodeUnit.hash :: text)
      (hhashbang : ¬(s.cursor.location.offset = 0 ∧ text.head? = some (CodeUnit.ofChar '!'))) :
      AtName s true text

namespace AtName

variable {c : Context} {s : Scanner} {isPrivate : Bool} {text : List CodeUnit}

theorem rest_eq (h : s.AtName isPrivate text) : s.cursor.rest = sign isPrivate ++ text := by
  cases h with
  | plain hrest => exact hrest
  | behindSign hrest => exact hrest

theorem first?_eq_none (h : s.AtName isPrivate text) (c : Context) :
    Trivia.first? (s.triviaMode c) s.cursor.rest = none := by
  cases h with
  | plain hrest hbegins => exact Lexeme.first?_of_beginsName (by rwa [hrest]) _
  | behindSign hrest hhashbang =>
    rw [hrest]
    exact Trivia.first?_hash (by simpa [triviaMode] using hhashbang)

/-- **The name at the cursor** is read exactly if there are items and no backslash behind them. -/
theorem read_eq_ok_iff {w rest : List CodeUnit} {cs : List CodePoint} {escaped : Bool}
    (h : s.AtName isPrivate (w ++ rest)) (hlongest : Longest w rest cs escaped)
    {x : Reading Lexeme} :
    Lexeme.read c s.cursor.rest = .ok x ↔
      w ≠ [] ∧ rest.head? ≠ some CodeUnit.backslash ∧
        ∃ name : String, name.toList.map Char.toNat = cs ∧
          x = ⟨⟨Identifier.kindOf isPrivate name escaped, .name name⟩,
            (sign isPrivate ++ w).length, { unicodeEscape := escaped }⟩ := by
  have hname (y : Reading String) := Identifier.name_eq_ok_iff hlongest (x := y)
  cases h with
  | plain hrest hbegins =>
    rw [hrest, Lexeme.read_of_beginsName hbegins]
    constructor
    · intro h
      obtain ⟨y, _, hy, hlexeme, rfl⟩ := Reader.interpret_eq_ok_iff.mp h
      obtain ⟨hw, hbackslash, name, hcs, rfl⟩ := (hname y).mp hy
      obtain rfl := Except.ok.inj hlexeme
      exact ⟨hw, hbackslash, name, hcs, rfl⟩
    · rintro ⟨hw, hbackslash, name, hcs, rfl⟩
      have hy := (hname _).mpr ⟨hw, hbackslash, name, hcs, rfl⟩
      exact Reader.interpret_eq_ok_iff.mpr ⟨_, _, hy, rfl, rfl⟩
  | behindSign hrest _ =>
    rw [hrest, Lexeme.read_hash, Identifier.readPrivate_hash]
    split
    · next hbegins =>
      rw [Outcome.mapValue_shift_eq_ok_iff]
      constructor
      · rintro ⟨y, hy, rfl⟩
        obtain ⟨hw, hbackslash, name, hcs, rfl⟩ := (hname y).mp hy
        exact ⟨hw, hbackslash, name, hcs, by rw [Nat.add_comm]; rfl⟩
      · rintro ⟨hw, hbackslash, name, hcs, rfl⟩
        exact ⟨_, (hname _).mpr ⟨hw, hbackslash, name, hcs, rfl⟩, by rw [Nat.add_comm]; rfl⟩
    · next hbegins =>
      refine iff_of_false (by simp) ?_
      rintro ⟨hw, -⟩
      exact hbegins (hlongest.items.beginsName hw)

end AtName

/-- **Names.** Where a name may begin, the longest sequence of items there decides: the next token
is read exactly if it is not empty and no backslash follows it. The token is then written with these
items, its name is what they denote, and the name and the escapes in it tell what it is. -/
theorem next_iff_longest_name {c : Context} {s : Scanner} {isPrivate : Bool}
    {text : List CodeUnit} (hat : s.AtName isPrivate text) :
    (∃ w rest cs escaped, text = w ++ rest ∧ Longest w rest cs escaped) ∧
    ∀ w rest cs escaped, text = w ++ rest → Longest w rest cs escaped →
      ((∃ t s', s.next c = (.ok t, s')) ↔ w ≠ [] ∧ rest.head? ≠ some CodeUnit.backslash) ∧
      (w ≠ [] → rest.head? ≠ some CodeUnit.backslash →
        ∃ t s' name, s.next c = (.ok t, s') ∧ t.start = s.cursor.location ∧
          t.stop = s.cursor.location.offset + (sign isPrivate ++ w).length ∧
          s'.cursor.rest = rest ∧ t.value = .name name ∧ name.toList.map Char.toNat = cs ∧
          Classifies isPrivate name escaped t.kind) := by
  refine ⟨Identifier.exists_longest text, ?_⟩
  rintro w rest cs escaped rfl hlongest
  have hfirst := hat.first?_eq_none c
  have hread (x : Reading Lexeme) := hat.read_eq_ok_iff hlongest (c := c) (x := x)
  constructor
  · rw [exists_next_iff_of_first? hfirst]
    constructor
    · rintro ⟨x, hx⟩
      obtain ⟨hw, hbackslash, -⟩ := (hread x).mp hx
      exact ⟨hw, hbackslash⟩
    · rintro ⟨hw, hbackslash⟩
      obtain ⟨name, hcs⟩ := hlongest.items.exists_name
      exact ⟨_, (hread _).mpr ⟨hw, hbackslash, name, hcs, rfl⟩⟩
  · intro hw hbackslash
    obtain ⟨name, hcs⟩ := hlongest.items.exists_name
    have hx := (hread _).mpr ⟨hw, hbackslash, name, hcs, rfl⟩
    have hrest := hat.rest_eq
    rw [← List.append_assoc] at hrest
    obtain ⟨t, s', hnext, hkind, hvalue, hstart, hstop, hcursor⟩ :=
      exists_next_of_read hfirst hx (by rw [hrest]; simp)
    refine ⟨t, s', name, hnext, hstart, hstop, ?_, hvalue, hcs, ?_⟩
    · rw [hcursor, Cursor.rest_advance, hrest, List.drop_left]
    · rw [hkind]
      exact Identifier.classifies_kindOf isPrivate name escaped

end Scanner

end EcmaLex
