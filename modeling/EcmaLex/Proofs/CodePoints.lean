import Mathlib.Data.Nat.Bitwise
import EcmaLex.Proofs.CleanStops
import EcmaLex.Proofs.EscapeGrammar

/-!
# Code points and their classes

Decoding goes from one code point of a text to the next, and a class of code points is a bit for
each of them. This module says what both come to: the code points of a text are its first one and
those of what follows it, and a set that was built holds what it was built from, each code point
under a bit of its own.

* `Utf16.codePoints_of_head?`: decoding, one code point at a time, and `Utf16.induction` over them.
* `Utf16.ofString_lossy`: text without lone surrogates is not changed by decoding and encoding.
* `Utf16.ofChar_mem_of_mem_lossy`: what a string says about the text that it was decoded from.
* `CodePointSet.contains_build`: what a set holds.
* `CodePoint.exists_toChar?_of_accepts`: whatever may stand in a name is a character.
* `CodeUnit.isIdentifierStart_of_separates`: no name begins with white space.
-/

namespace EcmaLex

/-! ## Decoding -/

namespace Utf16

/-- **The code points of a text** are its first one and those behind it. -/
theorem codePoints_of_head? {text : List CodeUnit} {c : CodePoint} {width : Nat}
    (h : head? text = some (c, width)) : codePoints text = c :: codePoints (text.drop width) := by
  match text with
  | [] => simp [head?] at h
  | [u] =>
    obtain ⟨rfl, rfl⟩ := Prod.mk.inj (Option.some.inj h)
    rfl
  | u :: v :: rest =>
    rw [head?] at h
    rw [codePoints]
    split at h
    · next hpair =>
      obtain ⟨rfl, rfl⟩ := Prod.mk.inj (Option.some.inj h)
      rw [if_pos hpair]
      rfl
    · next hpair =>
      obtain ⟨rfl, rfl⟩ := Prod.mk.inj (Option.some.inj h)
      rw [if_neg hpair]
      rfl

/-- A text that is not empty begins with a code point. -/
theorem exists_head?_cons (u : CodeUnit) (rest : List CodeUnit) :
    ∃ c width, head? (u :: rest) = some (c, width) := by
  match rest with
  | [] => exact ⟨_, _, rfl⟩
  | v :: rest =>
    rw [head?]
    split
    · exact ⟨_, _, rfl⟩
    · exact ⟨_, _, rfl⟩

theorem width_le_length {text : List CodeUnit} {c : CodePoint} {width : Nat}
    (h : head? text = some (c, width)) : width ≤ text.length := by
  match text with
  | [] => simp [head?] at h
  | [u] =>
    obtain ⟨-, rfl⟩ := Prod.mk.inj (Option.some.inj h)
    exact Nat.le_refl 1
  | u :: v :: rest =>
    rw [head?] at h
    split at h
    · obtain ⟨-, rfl⟩ := Prod.mk.inj (Option.some.inj h)
      simp
    · obtain ⟨-, rfl⟩ := Prod.mk.inj (Option.some.inj h)
      simp

/-- The first code point is the first unit, or it is far beyond all units. -/
theorem head?_cons_cases {u : CodeUnit} {rest : List CodeUnit} {c : CodePoint} {width : Nat}
    (h : head? (u :: rest) = some (c, width)) : c = u.toNat ∧ width = 1 ∨ 0x10000 ≤ c := by
  match rest with
  | [] =>
    obtain ⟨rfl, rfl⟩ := Prod.mk.inj (Option.some.inj h)
    exact .inl ⟨rfl, rfl⟩
  | v :: rest =>
    rw [head?] at h
    split at h
    · obtain ⟨rfl, -⟩ := Prod.mk.inj (Option.some.inj h)
      exact .inr (Nat.le_trans (Nat.le_add_right _ _) (Nat.le_add_right _ _))
    · obtain ⟨rfl, rfl⟩ := Prod.mk.inj (Option.some.inj h)
      exact .inl ⟨rfl, rfl⟩

/-- A unit that is no lead surrogate is the first code point exactly if it is the first unit. -/
theorem eq_toNat_iff_of_head? {u v : CodeUnit} {rest : List CodeUnit} {c : CodePoint}
    {width : Nat} (h : head? (u :: rest) = some (c, width)) (hv : v.isLead = false) :
    c = v.toNat ↔ u = v := by
  constructor
  · intro hc
    rcases head?_cons_cases h with ⟨hu, -⟩ | hbig
    · exact UInt16.toNat_inj.mp (hu.symm.trans hc)
    · rw [hc] at hbig
      exact absurd v.toNat_lt (Nat.not_lt.mpr hbig)
  · rintro rfl
    rw [head?_cons_of_not_isLead hv] at h
    exact (Prod.mk.inj (Option.some.inj h)).1.symm

/-- A unit that is no surrogate is among the units of the first code point exactly if it is that
code point. -/
theorem mem_iff_of_head? {w rest : List CodeUnit} {v : CodeUnit} {c : CodePoint}
    (h : head? (w ++ rest) = some (c, w.length)) (hlead : v.isLead = false)
    (htrail : v.isTrail = false) : v ∈ w ↔ c = v.toNat := by
  match w with
  | [] => exact absurd (Identifier.width_pos h) (by decide)
  | [u] =>
    rw [List.mem_singleton, eq_comm]
    exact (eq_toNat_iff_of_head? h hlead).symm
  | u :: u' :: w =>
    rw [eq_toNat_iff_of_head? h hlead]
    simp only [List.cons_append, head?] at h
    split at h
    · next hpair =>
      rw [Bool.and_eq_true] at hpair
      obtain rfl : w = [] := by simpa using (Prod.mk.inj (Option.some.inj h)).2
      have hne : v ≠ u' := by
        rintro rfl
        rw [hpair.2] at htrail
        simp at htrail
      simp [hne, eq_comm]
    · simp at h

/-- A text that goes on differently further on begins with the same code point. -/
theorem head?_append_take {w rest : List CodeUnit} {c : CodePoint}
    (h : head? (w ++ rest) = some (c, w.length)) (n : Nat) :
    head? (w ++ rest.take n) = some (c, w.length) := by
  match w, rest, n with
  | _, [], n => rwa [List.take_nil]
  | [], _, _ => exact absurd (Identifier.width_pos h) (by decide)
  | [u], v :: rest, 0 =>
    rcases head?_cons_cases h with ⟨rfl, -⟩ | hbig
    · rfl
    · rw [List.singleton_append, head?] at h
      split at h <;> simp at h
      rw [← h] at hbig
      exact absurd u.toNat_lt (Nat.not_lt.mpr hbig)
  | [u], v :: rest, n + 1 => exact h
  | u :: v :: w, rest, n => exact h

theorem codePoints_append {w rest : List CodeUnit} {c : CodePoint}
    (h : head? (w ++ rest) = some (c, w.length)) :
    codePoints (w ++ rest) = c :: codePoints rest := by
  rw [codePoints_of_head? h, List.drop_left]

/-- Induction over the code points of a text. -/
@[elab_as_elim]
theorem induction {motive : List CodeUnit → Prop} (nil : motive [])
    (cons : ∀ w rest c, head? (w ++ rest) = some (c, w.length) → motive rest → motive (w ++ rest))
    (text : List CodeUnit) : motive text := by
  induction hn : text.length using Nat.strongRecOn generalizing text with
  | ind n ih =>
    cases text with
    | nil => exact nil
    | cons u rest =>
      obtain ⟨c, width, hhead⟩ := exists_head?_cons u rest
      have hpos := Identifier.width_pos hhead
      have hwidth := List.length_take_of_le (width_le_length hhead)
      rw [← List.take_append_drop width (u :: rest)] at hhead ⊢
      refine cons _ _ c (by rw [hhead, hwidth]) (ih _ ?_ _ rfl)
      rw [List.length_drop, ← hn, List.length_cons]
      omega

/-- Every code point of a text is one of its units, or far beyond all units. -/
theorem eq_toNat_of_mem_codePoints {text : List CodeUnit} {c : CodePoint}
    (h : c ∈ codePoints text) : (∃ u ∈ text, c = u.toNat) ∨ 0x10000 ≤ c := by
  induction text using Utf16.induction with
  | nil => simp [codePoints] at h
  | cons w rest d hd ih =>
    rw [codePoints_append hd] at h
    rcases List.mem_cons.mp h with rfl | hmem
    · cases w with
      | nil => exact absurd (Identifier.width_pos hd) (by decide)
      | cons u w =>
        rcases head?_cons_cases hd with ⟨rfl, -⟩ | hbig
        · exact .inl ⟨u, by simp, rfl⟩
        · exact .inr hbig
    · rcases ih hmem with ⟨v, hv, rfl⟩ | hbig
      · exact .inl ⟨v, List.mem_append_right w hv, rfl⟩
      · exact .inr hbig

/-- A unit that is no surrogate is a code point of every text it is in. -/
theorem toNat_mem_codePoints {text : List CodeUnit} {v : CodeUnit} (h : v ∈ text)
    (hlead : v.isLead = false) (htrail : v.isTrail = false) : v.toNat ∈ codePoints text := by
  induction text using Utf16.induction with
  | nil => simp at h
  | cons w rest c hc ih =>
    rw [codePoints_append hc]
    rcases List.mem_append.mp h with h | h
    · rw [(mem_iff_of_head? hc hlead htrail).mp h]
      exact List.mem_cons_self
    · exact List.mem_cons_of_mem _ (ih h)

end Utf16

/-! ## Characters -/

namespace CodePoint

variable {c : CodePoint} {ch : Char}

theorem toNat_of_toChar? (h : c.toChar? = some ch) : ch.toNat = c := by
  by_cases hvalid : c.isValidChar
  · rw [toChar?, dif_pos hvalid] at h
    obtain rfl := Option.some.inj h
    rfl
  · rw [toChar?, dif_neg hvalid] at h
    exact nomatch h

/-- A character other than the replacement character stands for its own code point only. -/
theorem toNat_of_toChar (h : c.toChar = ch) (hch : ch ≠ '\uFFFD') : ch.toNat = c := by
  unfold toChar at h
  cases hc : c.toChar? with
  | none =>
    rw [hc] at h
    exact absurd h.symm hch
  | some d =>
    rw [hc, Option.getD_some] at h
    rw [← h]
    exact toNat_of_toChar? hc

theorem toChar_of_toNat (ch : Char) : toChar ch.toNat = ch := by
  have hvalid : ch.toNat.isValidChar := ch.valid
  unfold toChar toChar?
  rw [dif_pos hvalid]
  rfl

end CodePoint

namespace Utf16

variable {text : List CodeUnit} {ch : Char}

theorem toList_lossy (us : List CodeUnit) :
    (lossy us).toList = (codePoints us).map CodePoint.toChar := by
  rw [lossy, String.toList_ofList]

/-- **A text without lone surrogates** is kept as a string. -/
theorem ofString_lossy (h : ∀ c ∈ codePoints text, ∃ ch, c.toChar? = some ch) :
    ofString (lossy text) = text := by
  rw [ofString, toList_lossy]
  induction text using Utf16.induction with
  | nil => rfl
  | cons w rest c hc ih =>
    rw [codePoints_append hc] at h ⊢
    obtain ⟨⟨ch, hch⟩, hrest⟩ := List.forall_mem_cons.mp h
    have hchar : (CodePoint.toChar c).toNat = c := by
      rw [CodePoint.toChar, hch, Option.getD_some, CodePoint.toNat_of_toChar? hch]
    rw [List.map_cons, List.flatMap_cons, hchar, CodePoint.encode_of_head? hc, ih hrest]

theorem lossy_cons_ne_empty (u : CodeUnit) (rest : List CodeUnit) : lossy (u :: rest) ≠ "" := by
  intro hempty
  have hnil := toList_lossy (u :: rest)
  obtain ⟨c, width, hhead⟩ := exists_head?_cons u rest
  rw [hempty, codePoints_of_head? hhead] at hnil
  simp at hnil

/-- The characters of a text that have one unit stand there as this unit, the replacement character
apart. -/
theorem ofChar_mem_of_mem_lossy (h : ch ∈ (lossy text).toList) (hch : ch ≠ '\uFFFD')
    (hlt : ch.toNat < 0x10000) : CodeUnit.ofChar ch ∈ text := by
  rw [toList_lossy, List.mem_map] at h
  obtain ⟨c, hc, hcch⟩ := h
  have hpoint := CodePoint.toNat_of_toChar hcch hch
  rcases eq_toNat_of_mem_codePoints hc with ⟨u, hu, rfl⟩ | hbig
  · rwa [CodeUnit.ofChar, hpoint, UInt16.ofNat_toNat]
  · exact absurd hlt (Nat.not_lt.mpr (hpoint ▸ hbig))

/-- So does the first one. -/
theorem head?_of_head?_lossy (h : (lossy text).toList.head? = some ch) (hch : ch ≠ '\uFFFD')
    (hlt : ch.toNat < 0x10000) : text.head? = some (CodeUnit.ofChar ch) := by
  rw [toList_lossy] at h
  cases text with
  | nil => simp [codePoints] at h
  | cons u rest =>
    obtain ⟨c, width, hhead⟩ := exists_head?_cons u rest
    rw [codePoints_of_head? hhead, List.map_cons, List.head?_cons, Option.some.injEq] at h
    have hpoint := CodePoint.toNat_of_toChar h hch
    rcases head?_cons_cases hhead with ⟨rfl, -⟩ | hbig
    · rw [List.head?_cons, CodeUnit.ofChar, hpoint, UInt16.ofNat_toNat]
    · exact absurd hlt (Nat.not_lt.mpr (hpoint ▸ hbig))

end Utf16

/-! ## Sets -/

namespace CodePointSet

theorem toNat_mask (c : CodePoint) : (mask c).toNat = 2 ^ (c % 32) := by
  have hlt : c % 32 < 32 := Nat.mod_lt _ (by decide)
  have hpow : 2 ^ (c % 32) < 2 ^ 32 := Nat.pow_lt_pow_right (by decide) hlt
  have hbit : (UInt32.ofNat (c % 32)).toNat = c % 32 :=
    UInt32.toNat_ofNat_of_lt' (Nat.lt_trans hlt (by decide))
  rw [mask, UInt32.toNat_shiftLeft, hbit, Nat.mod_mod, UInt32.toNat_one, Nat.one_shiftLeft,
    Nat.mod_eq_of_lt hpow]

/-- A mask picks one bit of a word. -/
theorem and_mask_ne_zero (w : UInt32) (c : CodePoint) :
    (w &&& mask c != 0) = w.toNat.testBit (c % 32) := by
  rw [Bool.eq_iff_iff, bne_iff_ne, ne_eq, ← UInt32.toNat_inj, UInt32.toNat_and, toNat_mask,
    UInt32.toNat_zero, Nat.and_two_pow]
  simp

/-- A set with one more code point that has a bit. -/
theorem contains_insert {s : CodePointSet} {c : Nat} (hc : c / 32 < s.words.size) (d : Nat) :
    (s.insert c).contains d = (d == c || s.contains d) := by
  unfold contains insert
  dsimp only
  rw [Array.getElem?_modify]
  by_cases hword : c / 32 = d / 32
  · have hsome : s.words[d / 32]? = some s.words[c / 32] := by
      rw [← hword, Array.getElem?_eq_getElem hc]
    have hsame : decide (c % 32 = d % 32) = (d == c) := by
      rw [Bool.eq_iff_iff, decide_eq_true_eq, beq_iff_eq]
      omega
    rw [if_pos hword, hsome, Option.map_some]
    dsimp only
    rw [and_mask_ne_zero, and_mask_ne_zero, UInt32.toNat_or, toNat_mask, Nat.testBit_or,
      Nat.testBit_two_pow, hsame, Bool.or_comm]
  · have hne : (d == c) = false := by
      rw [beq_eq_false_iff_ne]
      rintro rfl
      exact hword rfl
    rw [if_neg hword, hne, Bool.false_or]

theorem size_words_insert (s : CodePointSet) (c : CodePoint) :
    (s.insert c).words.size = s.words.size := by
  simp [insert]

theorem wordCount_eq : wordCount = 34816 := by decide

theorem contains_empty (c : Nat) : empty.contains c = false := by
  unfold contains empty
  dsimp only
  rw [Array.getElem?_replicate]
  split
  · next hsome =>
    split at hsome
    · obtain rfl := Option.some.inj hsome
      rw [and_mask_ne_zero, UInt32.toNat_zero, Nat.zero_testBit]
    · exact nomatch hsome
  · rfl

/-- **Insertions, one after the other.** What went in is what the set holds besides what it held:
no insertion touches the bit of another code point. -/
theorem contains_foldl_insert {cs : List Nat} {s : CodePointSet}
    (hs : s.words.size = wordCount) (hcs : ∀ d ∈ cs, d ≤ CodePoint.max) (c : Nat) :
    (cs.foldl insert s).words.size = wordCount ∧
      (cs.foldl insert s).contains c = (cs.contains c || s.contains c) := by
  induction cs generalizing s with
  | nil => exact ⟨hs, by simp⟩
  | cons d cs ih =>
    obtain ⟨hd, hcs⟩ := List.forall_mem_cons.mp hcs
    have hlt : d / 32 < s.words.size := by
      rw [CodePoint.max] at hd
      rw [hs, wordCount_eq]
      omega
    obtain ⟨hsize, hcontains⟩ := ih ((size_words_insert s d).trans hs) hcs
    refine ⟨hsize, ?_⟩
    rw [List.foldl_cons, hcontains, contains_insert hlt, List.contains_cons, ← Bool.or_assoc,
      Bool.or_comm (cs.contains c)]

/-- Whether `c` is a character outside ASCII with the property `p`. -/
def isOutsideAsciiWith (p : Char → Bool) (c : CodePoint) : Bool :=
  0x80 ≤ c && (CodePoint.toChar? c).any p

theorem mem_outsideAscii {c : Nat} : c ∈ outsideAscii ↔ 0x80 ≤ c ∧ c ≤ CodePoint.max := by
  rw [outsideAscii, List.mem_range'_1, CodePoint.max]
  omega

theorem le_max_of_any_toChar? {p : Char → Bool} {c : Nat}
    (h : (CodePoint.toChar? c).any p = true) : c ≤ CodePoint.max := by
  by_cases hvalid : c.isValidChar
  · unfold Nat.isValidChar at hvalid
    rw [CodePoint.max]
    omega
  · rw [CodePoint.toChar?, dif_neg hvalid] at h
    simp at h

/-- Going over a list and inserting what has a property. -/
theorem foldl_insertIf (p : Char → Bool) (cs : List CodePoint) (s : CodePointSet) :
    cs.foldl (insertIf p) s = (cs.filter fun c => c.toChar?.any p).foldl insert s := by
  rw [List.foldl_filter]
  rfl

/-- **What a set holds**: the code points it was given, and the characters outside ASCII with its
property. -/
theorem contains_build (p : Char → Bool) {extra : List CodePoint}
    (hextra : ∀ d ∈ extra, d ≤ CodePoint.max) (c : CodePoint) :
    (build p extra).contains c = (extra.contains c || isOutsideAsciiWith p c) := by
  have hcharacters : ∀ d ∈ outsideAscii.filter fun d => d.toChar?.any p, d ≤ CodePoint.max :=
    fun d hd => (mem_outsideAscii.mp (List.mem_filter.mp hd).1).2
  obtain ⟨hsize, hcontains⟩ :=
    contains_foldl_insert (s := empty) Array.size_replicate hcharacters c
  rw [build, foldl_insertIf, (contains_foldl_insert hsize hextra c).2, hcontains, contains_empty,
    Bool.or_false, isOutsideAsciiWith]
  congr 1
  -- a character is a code point, so the list has it
  rw [Bool.eq_iff_iff, List.contains_iff_mem, List.mem_filter, mem_outsideAscii, Bool.and_eq_true,
    decide_eq_true_eq, and_assoc]
  exact and_congr_right fun _ => and_iff_right_of_imp le_max_of_any_toChar?

end CodePointSet

/-! ## Identifier characters -/

namespace CodePoint

variable {c : CodePoint} {p : Char → Bool}

/-- **What may begin a name**, outside ASCII. -/
theorem isStartBy_eq (p : Char → Bool) (hc : ¬c < 0x80) :
    isStartBy (idStart p) c =
      (idStartNotXid.contains c || CodePointSet.isOutsideAsciiWith p c) := by
  have hmax : ∀ d ∈ idStartNotXid, d ≤ max := by decide
  rw [isStartBy, if_neg hc, idStart, Thunk.get, CodePointSet.contains_build p hmax c]

/-- **What may go on a name**, outside ASCII. -/
theorem isPartBy_eq (p : Char → Bool) (hc : ¬c < 0x80) :
    isPartBy (idContinue p) c = (c == 0x200C || c == 0x200D ||
      (idContinueNotXid.contains c || CodePointSet.isOutsideAsciiWith p c)) := by
  have hmax : ∀ d ∈ idContinueNotXid, d ≤ max := by decide
  rw [isPartBy, if_neg hc, idContinue, Thunk.get, CodePointSet.contains_build p hmax c]

theorem exists_toChar?_of_isOutsideAsciiWith (h : CodePointSet.isOutsideAsciiWith p c = true) :
    ∃ ch, c.toChar? = some ch := by
  rw [CodePointSet.isOutsideAsciiWith, Bool.and_eq_true, Option.any_eq_true] at h
  obtain ⟨-, ch, hch, -⟩ := h
  exact ⟨ch, hch⟩

/-- The code points that the grammar adds to the tables are characters. -/
theorem isSome_toChar?_of_mem_notXid :
    ∀ d ∈ idStartNotXid ++ idContinueNotXid ++ [0x200C, 0x200D],
      (toChar? d).isSome = true := by
  decide

theorem exists_toChar?_of_lt (hc : c < 0xD800) : ∃ ch, c.toChar? = some ch := by
  have hvalid : c.isValidChar := .inl hc
  exact ⟨_, by rw [toChar?, dif_pos hvalid]⟩

/-- **Whatever may begin a name is a character**, whichever table is asked. -/
theorem exists_toChar?_of_isStartBy (h : isStartBy (idStart p) c = true) :
    ∃ ch, c.toChar? = some ch := by
  by_cases hc : c < 0x80
  · exact exists_toChar?_of_lt (Nat.lt_trans hc (by decide))
  · rw [isStartBy_eq p hc, Bool.or_eq_true, List.contains_iff_mem] at h
    rcases h with h | h
    · exact Option.isSome_iff_exists.mp (isSome_toChar?_of_mem_notXid c (by simp [h]))
    · exact exists_toChar?_of_isOutsideAsciiWith h

/-- **Whatever may go on a name is a character**, whichever table is asked. -/
theorem exists_toChar?_of_isPartBy (h : isPartBy (idContinue p) c = true) :
    ∃ ch, c.toChar? = some ch := by
  by_cases hc : c < 0x80
  · exact exists_toChar?_of_lt (Nat.lt_trans hc (by decide))
  · rw [isPartBy_eq p hc, Bool.or_eq_true, Bool.or_eq_true, Bool.or_eq_true, beq_iff_eq,
      beq_iff_eq, List.contains_iff_mem] at h
    rcases h with (rfl | rfl) | h | h
    · exact ⟨_, rfl⟩
    · exact ⟨_, rfl⟩
    · exact Option.isSome_iff_exists.mp (isSome_toChar?_of_mem_notXid c (by simp [h]))
    · exact exists_toChar?_of_isOutsideAsciiWith h

/-- What is no character stands in no name, whichever tables are asked. -/
theorem not_by_of_toChar?_eq_none (hc : c.toChar? = none) (p q : Char → Bool) :
    isStartBy (idStart p) c = false ∧ isPartBy (idContinue q) c = false := by
  constructor
  · rw [← Bool.not_eq_true]
    intro h
    obtain ⟨ch, hch⟩ := exists_toChar?_of_isStartBy h
    rw [hc] at hch
    exact nomatch hch
  · rw [← Bool.not_eq_true]
    intro h
    obtain ⟨ch, hch⟩ := exists_toChar?_of_isPartBy h
    rw [hc] at hch
    exact nomatch hch

/-- **Whatever may stand in a name is a character.** No surrogate is among it. -/
theorem exists_toChar?_of_accepts {first : Bool} (h : Identifier.accepts first c = true) :
    ∃ ch, c.toChar? = some ch := by
  cases first with
  | true =>
    rw [Identifier.accepts, if_pos rfl, isIdentifierStart, identifierStarts] at h
    exact exists_toChar?_of_isStartBy h
  | false =>
    rw [Identifier.accepts, if_neg (by decide), isIdentifierPart, identifierParts] at h
    exact exists_toChar?_of_isPartBy h

/-- What is no character may not stand in a name. -/
theorem not_identifier_of_toChar?_eq_none (h : c.toChar? = none) :
    c.isIdentifierStart = false ∧ c.isIdentifierPart = false := by
  rw [isIdentifierStart, identifierStarts, isIdentifierPart, identifierParts]
  exact not_by_of_toChar?_eq_none h _ _

/-- What stands for the end of a text, as a value beyond the last code point, stands in no name. -/
theorem not_identifier_of_max_lt (hc : max < c) :
    c.isIdentifierStart = false ∧ c.isIdentifierPart = false := by
  have hinvalid : ¬c.isValidChar := by
    have hlt : (0x10FFFF : Nat) < c := hc
    unfold Nat.isValidChar
    omega
  exact not_identifier_of_toChar?_eq_none (by rw [toChar?, dif_neg hinvalid])

end CodePoint

namespace CodeUnit

/-- The units outside ASCII that are blank or end a line. -/
def separatorsOutsideAscii : List Nat :=
  [0xA0, 0x1680, 0x2000, 0x2001, 0x2002, 0x2003, 0x2004, 0x2005, 0x2006, 0x2007, 0x2008, 0x2009,
    0x200A, 0x2028, 0x2029, 0x202F, 0x205F, 0x3000, 0xFEFF]

theorem toNat_of_separates {u : CodeUnit} (h : u.isBlank = true ∨ u.isLineTerminator = true) :
    u.toNat ∈ [0x09, 0x0A, 0x0B, 0x0C, 0x0D, 0x20] ++ separatorsOutsideAscii := by
  simp only [isBlank, isLineTerminator, lineFeed, carriageReturn, lineSeparator,
    paragraphSeparator, Bool.or_eq_true, beq_iff_eq, Bool.and_eq_true, decide_eq_true_eq,
    UInt16.le_iff_toNat_le, UInt16.reduceToNat, ← UInt16.toNat_inj] at h
  simp only [separatorsOutsideAscii, List.cons_append, List.nil_append, List.mem_cons,
    List.not_mem_nil, or_false]
  omega

/-- White space is no half of a surrogate pair. -/
theorem isLead_of_separates {u : CodeUnit} (h : u.isBlank = true ∨ u.isLineTerminator = true) :
    u.isLead = false := by
  have hall : ∀ c ∈ [0x09, 0x0A, 0x0B, 0x0C, 0x0D, 0x20] ++ separatorsOutsideAscii,
      ¬(0xD800 ≤ c ∧ c ≤ 0xDBFF) := by decide
  have hnot := hall _ (toNat_of_separates h)
  rw [isLead, ← Bool.not_eq_true, Bool.and_eq_true, decide_eq_true_eq, decide_eq_true_eq,
    UInt16.le_iff_toNat_le, UInt16.le_iff_toNat_le]
  exact hnot

/-- **No name begins with white space.** -/
theorem isIdentifierStart_of_separates {u : CodeUnit}
    (h : u.isBlank = true ∨ u.isLineTerminator = true) :
    CodePoint.isIdentifierStart u.toNat = false := by
  have hascii : ∀ c ∈ [0x09, 0x0A, 0x0B, 0x0C, 0x0D, 0x20],
      CodePoint.isIdentifierStart c = false := by decide
  have hothers : ∀ c ∈ separatorsOutsideAscii, ¬c < 0x80 ∧
      (CodePoint.idStartNotXid.contains c ||
        CodePointSet.isOutsideAsciiWith Unicode.isXidStart c) = false := by
    decide +kernel
  rcases List.mem_append.mp (toNat_of_separates h) with hmem | hmem
  · exact hascii _ hmem
  · obtain ⟨hbig, hout⟩ := hothers _ hmem
    rw [CodePoint.isIdentifierStart, CodePoint.identifierStarts,
      CodePoint.isStartBy_eq _ hbig, hout]

end CodeUnit

end EcmaLex
