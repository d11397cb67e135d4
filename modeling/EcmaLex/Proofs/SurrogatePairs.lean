import EcmaLex.Proofs.CodePoints
import EcmaLex.Scanner.Basic
import Mathlib.Data.List.Chain

/-!
# Surrogate pairs

A lead surrogate with a trail surrogate right behind it is one code point. So all that decoding has
to know of a text that is cut in two is whether such a pair meets at the cut: `JoinsPair`.

* `Utf16.codePoints_append_of_not_joinsPair`: where no pair is cut, the parts are decoded apart.
* `Utf16.codePoints_foldl_push_iff`: which code points come back when they are encoded and decoded.
* `Cursor.walks_iff`: a cursor that goes on by the width of one code point after the other meets
  the code points of the text, and nothing else.
* `Utf16.codePoints_roundTrip`: the three ways to take a text apart and put it together agree.
* `Text.not_splitsPair_of_isWhole`, `Text.isWellFormed_of_drop_eq`: what may be cut out of a source.
-/

namespace EcmaLex

/-! ## Surrogates as values -/

namespace CodePoint

/-- A lead surrogate that stands for itself. -/
def IsLead (c : CodePoint) : Prop := 0xD800 ≤ c ∧ c ≤ 0xDBFF

/-- A trail surrogate that stands for itself. -/
def IsTrail (c : CodePoint) : Prop := 0xDC00 ≤ c ∧ c ≤ 0xDFFF

end CodePoint

namespace CodeUnit

variable {u v : CodeUnit}

theorem isLead_iff : u.isLead = true ↔ CodePoint.IsLead u.toNat := by
  simp [isLead, CodePoint.IsLead, UInt16.le_iff_toNat_le]

theorem isTrail_iff : u.isTrail = true ↔ CodePoint.IsTrail u.toNat := by
  simp [isTrail, CodePoint.IsTrail, UInt16.le_iff_toNat_le]

/-- The code point of a pair is in range. -/
theorem ofPair_le_max (hu : u.isLead = true) (hv : v.isTrail = true) :
    CodePoint.ofPair u v ≤ CodePoint.max := by
  have hlead : u.toNat ≤ 0xDBFF := (isLead_iff.mp hu).2
  have htrail : v.toNat ≤ 0xDFFF := (isTrail_iff.mp hv).2
  show 0x10000 + (u.toNat - 0xD800) * 0x400 + (v.toNat - 0xDC00) ≤ 0x10FFFF
  omega

end CodeUnit

namespace CodePoint

variable {c : CodePoint} {u : CodeUnit}

theorem IsLead.not_isTrail (h : c.IsLead) : ¬c.IsTrail :=
  fun htrail => absurd (Nat.le_trans htrail.1 h.2) (by decide)

/-- Beyond all units a code point is encoded as a pair. -/
theorem encode_of_lt {n : Nat} (hlt : 0xFFFF < n) (hmax : n ≤ 0x10FFFF) :
    ∃ u v : CodeUnit, encode n = [u, v] ∧ u.isLead = true ∧ v.isTrail = true ∧
      ofPair u v = n := by
  have hu : (UInt16.ofNat (0xD800 + (n - 0x10000) / 0x400)).toNat =
      0xD800 + (n - 0x10000) / 0x400 :=
    UInt16.toNat_ofNat_of_lt' (show _ < 65536 by omega)
  have hv : (UInt16.ofNat (0xDC00 + (n - 0x10000) % 0x400)).toNat =
      0xDC00 + (n - 0x10000) % 0x400 :=
    UInt16.toNat_ofNat_of_lt' (show _ < 65536 by omega)
  refine ⟨_, _, if_pos hlt, CodeUnit.isLead_iff.mpr ?_, CodeUnit.isTrail_iff.mpr ?_, ?_⟩
  · rw [hu]
    exact ⟨Nat.le_add_right _ _, show 0xD800 + (n - 0x10000) / 0x400 ≤ 0xDBFF by omega⟩
  · rw [hv]
    exact ⟨Nat.le_add_right _ _, show 0xDC00 + (n - 0x10000) % 0x400 ≤ 0xDFFF by omega⟩
  · show 0x10000 + (UInt16.toNat _ - 0xD800) * 0x400 + (UInt16.toNat _ - 0xDC00) = n
    omega

/-- A code point of one unit. -/
theorem encode_of_not_lt {n : Nat} (hle : ¬0xFFFF < n) :
    ∃ u : CodeUnit, encode n = [u] ∧ u.toNat = n :=
  ⟨UInt16.ofNat n, if_neg hle, UInt16.toNat_ofNat_of_lt' (show _ < 65536 by omega)⟩

theorem codePoints_encode (hmax : c ≤ max) : Utf16.codePoints c.encode = [c] := by
  by_cases hlt : 0xFFFF < c
  · obtain ⟨u, v, hencode, hu, hv, hpair⟩ := encode_of_lt hlt hmax
    simp [hencode, Utf16.codePoints, hu, hv, hpair]
  · obtain ⟨u, hencode, hu⟩ := encode_of_not_lt hlt
    rw [hencode, Utf16.codePoints, hu]

/-- Only a lead surrogate by itself ends with a lead surrogate. -/
theorem isLead_of_mem_getLast?_encode (hmax : c ≤ max) (h : u ∈ c.encode.getLast?)
    (hu : u.isLead = true) : c.IsLead := by
  have hlead := CodeUnit.isLead_iff.mp hu
  by_cases hlt : 0xFFFF < c
  · obtain ⟨_, v, hencode, -, hv, -⟩ := encode_of_lt hlt hmax
    obtain rfl : v = u := by simpa [hencode] using h
    exact absurd (CodeUnit.isTrail_iff.mp hv) hlead.not_isTrail
  · obtain ⟨v, hencode, rfl⟩ := encode_of_not_lt hlt
    obtain rfl : v = u := by simpa [hencode] using h
    exact hlead

/-- Only a trail surrogate by itself begins with a trail surrogate. -/
theorem isTrail_of_mem_head?_encode (hmax : c ≤ max) (h : u ∈ c.encode.head?)
    (hu : u.isTrail = true) : c.IsTrail := by
  have htrail := CodeUnit.isTrail_iff.mp hu
  by_cases hlt : 0xFFFF < c
  · obtain ⟨v, _, hencode, hv, -, -⟩ := encode_of_lt hlt hmax
    obtain rfl : v = u := by simpa [hencode] using h
    exact absurd htrail (CodeUnit.isLead_iff.mp hv).not_isTrail
  · obtain ⟨v, hencode, rfl⟩ := encode_of_not_lt hlt
    obtain rfl : v = u := by simpa [hencode] using h
    exact htrail

theorem encode_ne_nil (c : CodePoint) : c.encode ≠ [] := by
  unfold encode
  split <;> simp

end CodePoint

namespace Utf16

/-! ## Cuts -/

/-- The first text ends with a lead surrogate, and the second one begins with the trail surrogate
that makes a pair of it. -/
def JoinsPair (a b : List CodeUnit) : Prop :=
  ∃ u ∈ a.getLast?, ∃ v ∈ b.head?, u.isLead = true ∧ v.isTrail = true

variable {a b us : List CodeUnit} {cs : List CodePoint} {c : CodePoint}

/-- **Where no pair is cut, the parts are decoded apart.** -/
theorem codePoints_append_of_not_joinsPair (h : ¬JoinsPair a b) :
    codePoints (a ++ b) = codePoints a ++ codePoints b := by
  fun_induction codePoints a with
  | case1 => rfl
  | case2 u =>
    cases b with
    | nil => rfl
    | cons v b =>
      have hpair : ¬(u.isLead && v.isTrail) = true := by
        rw [Bool.and_eq_true]
        exact fun hpair => h ⟨u, rfl, v, rfl, hpair⟩
      rw [List.singleton_append, codePoints, if_neg hpair]
      rfl
  | case3 u v rest hpair ih =>
    rw [List.cons_append, List.cons_append, codePoints, if_pos hpair, List.cons_append, ih]
    rintro ⟨w, hw, hb⟩
    refine h ⟨w, ?_, hb⟩
    rw [List.getLast?_cons_cons, List.getLast?_cons, Option.mem_def.mp hw]
    rfl
  | case4 u v rest hpair ih =>
    rw [List.cons_append, List.cons_append, codePoints, if_neg hpair, List.cons_append,
      ← List.cons_append, ih]
    rintro ⟨w, hw, hb⟩
    exact h ⟨w, by rwa [List.getLast?_cons_cons], hb⟩

/-! ## Encoding and decoding -/

/-- One code point put behind a text. -/
def push (buffer : List CodeUnit) (c : CodePoint) : List CodeUnit := buffer ++ c.encode

theorem foldl_push (buffer : List CodeUnit) (cs : List CodePoint) :
    cs.foldl push buffer = buffer ++ encodeAll cs := by
  rw [encodeAll]
  induction cs generalizing buffer with
  | nil => rw [List.flatMap_nil, List.append_nil, List.foldl_nil]
  | cons c cs ih => rw [List.foldl_cons, ih, push, List.flatMap_cons, List.append_assoc]

theorem encodeAll_codePoints (us : List CodeUnit) : encodeAll (codePoints us) = us := by
  induction us using Utf16.induction with
  | nil => rfl
  | cons w rest c hc ih =>
    rw [codePoints_append hc, encodeAll, List.flatMap_cons, CodePoint.encode_of_head? hc]
    exact congrArg _ ih

/-- What a text can be decoded to: nothing is out of range, and no lead surrogate stands in front
of a trail surrogate, because the two would have been a pair. -/
structure IsDecoded (cs : List CodePoint) : Prop where
  le_max : ∀ c ∈ cs, c ≤ CodePoint.max
  unpaired : cs.IsChain fun c d => ¬(c.IsLead ∧ d.IsTrail)

/-- The first code point is in range. If it is a lead surrogate, no trail surrogate follows. -/
theorem head?_bounds {w rest : List CodeUnit} (h : head? (w ++ rest) = some (c, w.length)) :
    c ≤ CodePoint.max ∧ (c.IsLead → ∀ v ∈ rest.head?, v.isTrail = false) := by
  match w, rest with
  | [], _ => exact absurd (Identifier.width_pos h) (by decide)
  | [u], [] =>
    obtain ⟨rfl, -⟩ := Prod.mk.inj (Option.some.inj h)
    exact ⟨Nat.le_trans (Nat.le_of_lt u.toNat_lt) (by decide), by simp⟩
  | [u], v :: rest =>
    rw [List.singleton_append, head?] at h
    split at h
    · simp at h
    · next hpair =>
      obtain ⟨rfl, -⟩ := Prod.mk.inj (Option.some.inj h)
      refine ⟨Nat.le_trans (Nat.le_of_lt u.toNat_lt) (by decide), fun hlead => ?_⟩
      simpa [CodeUnit.isLead_iff.mpr hlead] using hpair
  | u :: v :: w, rest =>
    rw [List.cons_append, List.cons_append, head?] at h
    split at h
    · next hpair =>
      rw [Bool.and_eq_true] at hpair
      obtain ⟨rfl, -⟩ := Prod.mk.inj (Option.some.inj h)
      refine ⟨CodeUnit.ofPair_le_max hpair.1 hpair.2, fun hlead => ?_⟩
      have hbig : 0x10000 ≤ CodePoint.ofPair u v :=
        Nat.le_trans (Nat.le_add_right _ _) (Nat.le_add_right _ _)
      exact absurd (Nat.le_trans hbig hlead.2) (by decide)
    · simp at h

/-- A text decodes to a trail surrogate first only if it begins with one. -/
theorem isTrail_of_mem_head?_codePoints {d : CodePoint} (h : d ∈ (codePoints us).head?)
    (hd : d.IsTrail) : ∃ v ∈ us.head?, v.isTrail = true := by
  cases us with
  | nil => simp [codePoints] at h
  | cons u rest =>
    obtain ⟨c, width, hhead⟩ := exists_head?_cons u rest
    rw [codePoints_of_head? hhead] at h
    obtain rfl := Option.some.inj h
    refine ⟨u, rfl, CodeUnit.isTrail_iff.mpr ?_⟩
    rcases head?_cons_cases hhead with ⟨rfl, -⟩ | hbig
    · exact hd
    · exact absurd (Nat.le_trans hbig hd.2) (by decide)

theorem isDecoded_codePoints (us : List CodeUnit) : IsDecoded (codePoints us) := by
  induction us using Utf16.induction with
  | nil => exact ⟨by simp [codePoints], by simp [codePoints]⟩
  | cons w rest c hc ih =>
    obtain ⟨hmax, hnext⟩ := head?_bounds hc
    rw [codePoints_append hc]
    refine ⟨List.forall_mem_cons.mpr ⟨hmax, ih.le_max⟩, List.isChain_cons.mpr ⟨?_, ih.unpaired⟩⟩
    rintro d hd ⟨hlead, htrail⟩
    obtain ⟨v, hv, hvtrail⟩ := isTrail_of_mem_head?_codePoints hd htrail
    rw [hnext hlead v hv] at hvtrail
    exact absurd hvtrail (by decide)

/-- What may come from decoding comes back. -/
theorem IsDecoded.codePoints_encodeAll (h : IsDecoded cs) : codePoints (encodeAll cs) = cs := by
  induction cs with
  | nil => rfl
  | cons c cs ih =>
    obtain ⟨hmax, hrest⟩ := List.forall_mem_cons.mp h.le_max
    obtain ⟨hnext, hchain⟩ := List.isChain_cons.mp h.unpaired
    have hcut : ¬JoinsPair c.encode (encodeAll cs) := by
      rintro ⟨u, hu, v, hv, hlead, htrail⟩
      cases cs with
      | nil => simp [encodeAll] at hv
      | cons d cs =>
        rw [encodeAll, List.flatMap_cons,
          List.head?_append_of_ne_nil _ (CodePoint.encode_ne_nil d)] at hv
        exact hnext d rfl ⟨CodePoint.isLead_of_mem_getLast?_encode hmax hu hlead,
          CodePoint.isTrail_of_mem_head?_encode (hrest d List.mem_cons_self) hv htrail⟩
    rw [encodeAll, List.flatMap_cons, ← encodeAll, codePoints_append_of_not_joinsPair hcut,
      CodePoint.codePoints_encode hmax, ih ⟨hrest, hchain⟩, List.singleton_append]

/-- **The code points that come back** when they are put one behind the other and decoded. -/
theorem codePoints_foldl_push_iff : codePoints (cs.foldl push []) = cs ↔ IsDecoded cs := by
  rw [foldl_push, List.nil_append]
  constructor
  · intro h
    rw [← h]
    exact isDecoded_codePoints _
  · exact IsDecoded.codePoints_encodeAll

end Utf16

/-! ## Walking -/

namespace Cursor

/-- The cursor `n` units further on the same line, or at the end if fewer are left. -/
def advanceInLine (a : Cursor) : Nat → Cursor
  | 0 => a
  | n + 1 => a.stepInLine.advanceInLine n

/-- From `a` to `b` by one code point after the other, each time by its width, up to the end. -/
inductive Walks : Cursor → List CodePoint → Cursor → Prop
  | done {a : Cursor} : Utf16.head? a.rest = none → Walks a [] a
  | step {a b : Cursor} {c : CodePoint} {width : Nat} {cs : List CodePoint} :
      Utf16.head? a.rest = some (c, width) → Walks (a.advanceInLine width) cs b →
      Walks a (c :: cs) b

variable {a b : Cursor} {w rest : List CodeUnit} {cs : List CodePoint}

/-- Over the units `w` the cursor moves as many columns. -/
theorem advanceInLine_append (h : a.rest = w ++ rest) :
    a.advanceInLine w.length =
      ⟨⟨a.location.line, a.location.column + w.length, a.location.offset + w.length⟩, rest⟩ := by
  induction w generalizing a with
  | nil =>
    rw [List.nil_append] at h
    rw [← h]
    rfl
  | cons u w ih =>
    have hstep : a.stepInLine = ⟨a.location.step, w ++ rest⟩ := by
      rw [stepInLine, h]
      rfl
    rw [List.length_cons, advanceInLine, ih (by rw [hstep]), hstep]
    simp only [Location.step, Nat.add_comm, Nat.add_left_comm]

/-- **Walking meets the code points of the text**, and ends where the text does. -/
theorem walks_iff :
    Walks a cs b ↔ cs = Utf16.codePoints a.rest ∧
      b = ⟨⟨a.location.line, a.location.column + a.rest.length,
        a.location.offset + a.rest.length⟩, []⟩ := by
  obtain ⟨location, text⟩ := a
  dsimp only
  induction text using Utf16.induction generalizing location cs with
  | nil =>
    constructor
    · intro h
      cases h with
      | done => exact ⟨rfl, rfl⟩
      | step hhead => simp [Utf16.head?] at hhead
    · rintro ⟨rfl, rfl⟩
      exact .done rfl
  | cons w rest c hc ih =>
    have hadvance := advanceInLine_append (a := ⟨location, w ++ rest⟩) rfl
    rw [Utf16.codePoints_append hc, List.length_append, ← Nat.add_assoc, ← Nat.add_assoc]
    constructor
    · intro h
      cases h with
      | done hnone => simp [hc] at hnone
      | step hhead hwalk =>
        obtain ⟨rfl, rfl⟩ := Prod.mk.inj (Option.some.inj (hc.symm.trans hhead))
        rw [hadvance, ih] at hwalk
        exact ⟨congrArg _ hwalk.1, hwalk.2⟩
    · rintro ⟨rfl, rfl⟩
      refine .step hc ?_
      rw [hadvance, ih]
      exact ⟨rfl, rfl⟩

end Cursor

namespace Utf16

/-- **Encoding and decoding are inverse**, and a scanner that walks over a source meets the same
code points as decoding does, up to the end of the source. -/
theorem codePoints_roundTrip :
    (∀ us, (codePoints us).foldl push [] = us) ∧
      (∀ cs, codePoints (cs.foldl push []) = cs ↔ IsDecoded cs) ∧
      ∀ us cs b, Cursor.Walks (Scanner.ofSource us).cursor cs b ↔
        cs = codePoints us ∧ b = ⟨⟨1, us.length, us.length⟩, []⟩ := by
  refine ⟨fun us => ?_, fun cs => codePoints_foldl_push_iff, fun us cs b => ?_⟩
  · rw [foldl_push, List.nil_append, encodeAll_codePoints]
  · rw [Cursor.walks_iff]
    simp [Scanner.ofSource, Scanner.startingAt, Location.start]

end Utf16

/-! ## Well-formed texts -/

theorem CodePoint.not_surrogate_of_toChar? {c : CodePoint} {ch : Char}
    (h : c.toChar? = some ch) : ¬c.IsLead ∧ ¬c.IsTrail := by
  have hc : ch.toNat = c := toNat_of_toChar? h
  have hvalid : ch.toNat < 0xD800 ∨ 0xDFFF < ch.toNat ∧ ch.toNat < 0x110000 := ch.valid
  subst hc
  constructor
  · intro hlead
    have hge : 0xD800 ≤ ch.toNat := hlead.1
    have hle : ch.toNat ≤ 0xDBFF := hlead.2
    omega
  · intro htrail
    have hge : 0xDC00 ≤ ch.toNat := htrail.1
    have hle : ch.toNat ≤ 0xDFFF := htrail.2
    omega

namespace Utf16

variable {a b w : List CodeUnit}

theorem isWellFormed_iff :
    isWellFormed w = true ↔ ∀ c ∈ codePoints w, ∃ ch, c.toChar? = some ch := by
  simp [isWellFormed, Option.isSome_iff_exists]

/-- **A well-formed text is kept as a string.** -/
theorem ofString_lossy_of_isWellFormed (h : isWellFormed w = true) : ofString (lossy w) = w :=
  ofString_lossy (isWellFormed_iff.mp h)

/-- Two parts of a text are well-formed if the text is and no pair is cut, and the other way
round. -/
theorem isWellFormed_append_iff (h : ¬JoinsPair a b) :
    isWellFormed (a ++ b) = true ↔ isWellFormed a = true ∧ isWellFormed b = true := by
  rw [isWellFormed, codePoints_append_of_not_joinsPair h, List.all_append, Bool.and_eq_true]
  rfl

/-- Wherever the text stands, no pair is cut at its ends: it does not begin with the second half of
one, and does not end with the first. -/
structure IsWhole (w : List CodeUnit) : Prop where
  head : ∀ v ∈ w.head?, v.isTrail = false
  last : ∀ u ∈ w.getLast?, u.isLead = false

theorem isWhole_nil : IsWhole [] := ⟨by simp, by simp⟩

theorem IsWhole.append (ha : IsWhole a) (hb : IsWhole b) : IsWhole (a ++ b) := by
  constructor
  · intro v hv
    rw [List.head?_append, Option.mem_def, Option.or_eq_some_iff] at hv
    rcases hv with hv | ⟨-, hv⟩
    · exact ha.head v hv
    · exact hb.head v hv
  · intro u hu
    rw [List.getLast?_append, Option.mem_def, Option.or_eq_some_iff] at hu
    rcases hu with hu | ⟨-, hu⟩
    · exact hb.last u hu
    · exact ha.last u hu

/-- A text between two units that are no surrogates. -/
theorem isWhole_of_ends {u v : CodeUnit} (hu : w.head? = some u) (hv : w.getLast? = some v)
    (htrail : u.isTrail = false) (hlead : v.isLead = false) : IsWhole w := by
  constructor
  · intro u' hu'
    obtain rfl := Option.some.inj (hu.symm.trans hu')
    exact htrail
  · intro v' hv'
    obtain rfl := Option.some.inj (hv.symm.trans hv')
    exact hlead

/-- The halves of pairs do not come alone in a well-formed text. -/
theorem isWhole_of_isWellFormed (h : isWellFormed w = true) : IsWhole w := by
  rw [isWellFormed_iff] at h
  have hnone {c : CodePoint} (hc : c ∈ codePoints w) : ¬c.IsLead ∧ ¬c.IsTrail := by
    obtain ⟨ch, hch⟩ := h c hc
    exact CodePoint.not_surrogate_of_toChar? hch
  constructor
  · intro v hv
    obtain ⟨rest, rfl⟩ := List.head?_eq_some_iff.mp hv
    by_contra htrail
    rw [Bool.not_eq_false] at htrail
    have hlead : v.isLead = false := by
      rw [← Bool.not_eq_true, CodeUnit.isLead_iff]
      exact fun hlead => hlead.not_isTrail (CodeUnit.isTrail_iff.mp htrail)
    have hmem : v.toNat ∈ codePoints (v :: rest) := by
      rw [codePoints_of_head? (head?_cons_of_not_isLead hlead rest)]
      exact List.mem_cons_self
    exact (hnone hmem).2 (CodeUnit.isTrail_iff.mp htrail)
  · intro u hu
    obtain ⟨init, rfl⟩ := List.getLast?_eq_some_iff.mp hu
    by_contra hlead
    rw [Bool.not_eq_false] at hlead
    have hcut : ¬JoinsPair init [u] := by
      rintro ⟨_, -, v, hv, -, htrail⟩
      obtain rfl : u = v := by simpa using hv
      exact (CodeUnit.isLead_iff.mp hlead).not_isTrail (CodeUnit.isTrail_iff.mp htrail)
    have hmem : u.toNat ∈ codePoints (init ++ [u]) := by
      rw [codePoints_append_of_not_joinsPair hcut]
      exact List.mem_append_right _ List.mem_cons_self
    exact (hnone hmem).1 (CodeUnit.isLead_iff.mp hlead)

theorem IsWhole.not_joinsPair (h : IsWhole w) (rest : List CodeUnit) : ¬JoinsPair w rest := by
  rintro ⟨u, hu, -, -, hlead, -⟩
  rw [h.last u hu] at hlead
  exact absurd hlead (by decide)

theorem not_joinsPair_of_head (h : ∀ v ∈ b.head?, v.isTrail = false) : ¬JoinsPair a b := by
  rintro ⟨-, -, v, hv, -, htrail⟩
  rw [h v hv] at htrail
  exact absurd htrail (by decide)

end Utf16

/-! ## Cuts in a source -/

namespace Text

open Utf16 (JoinsPair IsWhole isWellFormed isWellFormed_append_iff)

/-- The offset falls between the two halves of a surrogate pair. -/
def SplitsPair (text : List CodeUnit) (n : Nat) : Prop := JoinsPair (text.take n) (text.drop n)

variable {source w rest : List CodeUnit} {i : Nat}

theorem not_splitsPair_of_head (h : source.drop i = rest)
    (hrest : ∀ v ∈ rest.head?, v.isTrail = false) : ¬SplitsPair source i := by
  rw [SplitsPair, h]
  exact Utf16.not_joinsPair_of_head hrest

theorem take_of_drop_eq (h : source.drop i = w ++ rest) :
    source.take (i + w.length) = source.take i ++ w := by
  rw [List.take_add, h, List.take_left]

theorem drop_of_drop_eq (h : source.drop i = w ++ rest) :
    source.drop (i + w.length) = rest := by
  rw [← List.drop_drop, h, List.drop_left]

/-- Behind a part of the source, only its last unit and what follows it matter. -/
theorem not_splitsPair_of_last (h : source.drop i = w ++ rest) (hne : w ≠ [])
    (hw : ¬JoinsPair w rest) : ¬SplitsPair source (i + w.length) := by
  rw [SplitsPair, take_of_drop_eq h, drop_of_drop_eq h]
  rintro ⟨u, hu, hv⟩
  rw [List.getLast?_append_of_ne_nil _ hne] at hu
  exact hw ⟨u, hu, hv⟩

/-- **At the ends of a whole part of the source** no pair is cut. -/
theorem not_splitsPair_of_isWhole (h : source.drop i = w ++ rest) (hne : w ≠ [])
    (hw : IsWhole w) : ¬SplitsPair source i ∧ ¬SplitsPair source (i + w.length) := by
  refine ⟨not_splitsPair_of_head h fun v hv => ?_,
    not_splitsPair_of_last h hne (hw.not_joinsPair rest)⟩
  rw [List.head?_append_of_ne_nil _ hne] at hv
  exact hw.head v hv

/-- **A part of a well-formed source** is well-formed where no pair is cut. -/
theorem isWellFormed_of_drop_eq (hsource : isWellFormed source = true)
    (h : source.drop i = w ++ rest) (hi : ¬SplitsPair source i) (hw : ¬JoinsPair w rest) :
    isWellFormed w = true := by
  rw [← List.take_append_drop i source, isWellFormed_append_iff hi, h,
    isWellFormed_append_iff hw] at hsource
  exact hsource.2.1

end Text

end EcmaLex
