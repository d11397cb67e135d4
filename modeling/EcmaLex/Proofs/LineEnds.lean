import Mathlib.Data.List.TakeWhile
import EcmaLex.Location

/-!
# Line ends

`Location.after` moves a location over a text one terminator sequence at a time. Here the result is
said without moving anything: the units that end a line are *counted*.

* A line terminator ends its line, except that a carriage return right before a line feed leaves
  that to the line feed (`Text.endsLineAt`).
* `Text.lineEnds` lists the offsets right after such units. The line of a location is the number of
  line ends before it, and its column is the distance to the last one (`after_eq`).

A cut of a text is *clean* if it does not stand between a carriage return and its line feed. Moving
over a text in two steps is moving over it at once exactly because the steps meet at a clean cut
(`after_append`); every scanner has to stop at one.
-/

namespace EcmaLex

namespace Text

/-- Whether a line terminator sequence of the text ends with the unit at an offset. -/
def endsLineAt (text : List CodeUnit) (i : Nat) : Bool :=
  text[i]?.any CodeUnit.isLineTerminator &&
    !(text[i]? == some CodeUnit.carriageReturn && text[i + 1]? == some CodeUnit.lineFeed)

/-- The offsets at which lines begin, that of the first line left out. -/
def lineEnds (text : List CodeUnit) : List Nat :=
  ((List.range text.length).filter (endsLineAt text)).map (· + 1)

@[simp] theorem lineEnds_nil : lineEnds [] = [] := rfl

theorem endsLineAt_succ (u : CodeUnit) (rest : List CodeUnit) (i : Nat) :
    endsLineAt (u :: rest) (i + 1) = endsLineAt rest i := by
  simp only [endsLineAt, List.getElem?_cons_succ]

/-- The line ends of a text, unit by unit. -/
theorem lineEnds_cons (u : CodeUnit) (rest : List CodeUnit) :
    lineEnds (u :: rest) =
      (if endsLineAt (u :: rest) 0 then [1] else []) ++ (lineEnds rest).map (· + 1) := by
  have hshift : endsLineAt (u :: rest) ∘ Nat.succ = endsLineAt rest :=
    funext (endsLineAt_succ u rest)
  unfold lineEnds
  rw [List.length_cons, List.range_succ_eq_map, List.filter_cons, List.filter_map, hshift]
  split <;> simp [Function.comp_def]

/-- The column at the end of a text that begins in column `column`. -/
def lastColumn (column : Nat) (text : List CodeUnit) : Nat :=
  match (lineEnds text).getLast? with
  | some e => text.length - e
  | none => column + text.length

/-- The column after one more unit in front. -/
theorem lastColumn_cons (column : Nat) (u : CodeUnit) (rest : List CodeUnit) :
    lastColumn column (u :: rest) =
      lastColumn (if endsLineAt (u :: rest) 0 then 0 else column + 1) rest := by
  unfold lastColumn
  rw [lineEnds_cons, List.getLast?_append, List.getLast?_map]
  cases h : (lineEnds rest).getLast? with
  | some e => simp
  | none =>
    by_cases hu : endsLineAt (u :: rest) 0 = true
    · simp [hu]
    · simp [hu]
      omega

end Text

/-! ## Locations by counting -/

namespace Location

open Text

/-- A location moves over a unit either to the next column or to the next line. Read like this, a
carriage return before a line feed is a column of its line, which the line feed then ends. -/
theorem after_cons (l : Location) (u : CodeUnit) (rest : List CodeUnit) :
    l.after (u :: rest) =
      (if endsLineAt (u :: rest) 0 then l.newLine 1 else l.step).after rest := by
  cases rest with
  | nil => by_cases hu : u.isLineTerminator <;> simp [after, endsLineAt, hu]
  | cons v rest =>
    rw [after]
    by_cases hcr : u = CodeUnit.carriageReturn ∧ v = CodeUnit.lineFeed
    · obtain ⟨rfl, rfl⟩ := hcr
      -- the line feed ends the line, from one column further
      have hlf : l.step.after (CodeUnit.lineFeed :: rest) = (l.newLine 2).after rest := by
        cases rest with
        | nil => rfl
        | cons w rest => rfl
      simp [endsLineAt, hlf]
    · have hends : endsLineAt (u :: v :: rest) 0 = u.isLineTerminator := by
        by_cases hu : u = CodeUnit.carriageReturn <;> simp_all [endsLineAt]
      rw [if_neg hcr, hends]
      split <;> rfl

@[simp] theorem after_nil (l : Location) : l.after [] = l := rfl

/-- **Lines and columns are counted.** The line grows by the number of line ends, the column is the
distance to the last one, and the offset grows by the length. -/
theorem after_eq (l : Location) (text : List CodeUnit) :
    l.after text =
      ⟨l.line + (lineEnds text).length, lastColumn l.column text, l.offset + text.length⟩ := by
  induction text generalizing l with
  | nil => simp [lastColumn]
  | cons u rest ih =>
    rw [after_cons, ih, lineEnds_cons, lastColumn_cons]
    split <;> simp [newLine, step] <;> omega

@[simp] theorem offset_after (l : Location) (text : List CodeUnit) :
    (l.after text).offset = l.offset + text.length := by
  rw [after_eq]

end Location

/-! ## Clean cuts -/

/-- Only line terminators can be carriage returns. -/
theorem CodeUnit.ne_return_of_not_isLineTerminator {u : CodeUnit}
    (h : ¬u.isLineTerminator = true) : u ≠ CodeUnit.carriageReturn := by
  rintro rfl
  exact h (by decide)

namespace Text

/-- The cut of a text after its first `n` units stands between a carriage return and its line
feed. -/
def SplitsLineEnd (text : List CodeUnit) : Nat → Prop
  | 0 => False
  | n + 1 => text[n]? = some CodeUnit.carriageReturn ∧ text[n + 1]? = some CodeUnit.lineFeed

/-- A place in a text, given by the number of units before it, that splits no line terminator
sequence. -/
structure CleanCut (text : List CodeUnit) (n : Nat) : Prop where
  le : n ≤ text.length
  whole : ¬SplitsLineEnd text n

/-- The unit behind a run does not belong to it. -/
theorem eq_false_of_getElem?_takeWhile {p : CodeUnit → Bool} {text : List CodeUnit} {v : CodeUnit}
    (h : text[(text.takeWhile p).length]? = some v) : p v = false := by
  have hsplit : text[(text.takeWhile p).length]? = (text.dropWhile p).head? := by
    calc text[(text.takeWhile p).length]?
        = (text.takeWhile p ++ text.dropWhile p)[(text.takeWhile p).length]? := by
          rw [List.takeWhile_append_dropWhile]
      _ = (text.dropWhile p).head? := by
          rw [List.getElem?_append_right (Nat.le_refl _), Nat.sub_self, List.head?_eq_getElem?]
  have hnot := List.head?_dropWhile_not p text
  rw [← hsplit, h] at hnot
  exact hnot

namespace CleanCut

variable {u : CodeUnit} {text rest : List CodeUnit} {n m : Nat}

theorem zero (text : List CodeUnit) : CleanCut text 0 := ⟨Nat.zero_le _, id⟩

/-- A cut is clean if the unit before it is no carriage return. -/
theorem of_before (hle : n + 1 ≤ text.length) (h : text[n]? ≠ some CodeUnit.carriageReturn) :
    CleanCut text (n + 1) :=
  ⟨hle, fun hcut => h hcut.1⟩

/-- A cut is clean if the unit after it is no line feed. -/
theorem of_after (hle : n ≤ text.length) (h : text[n]? ≠ some CodeUnit.lineFeed) :
    CleanCut text n := by
  refine ⟨hle, ?_⟩
  cases n with
  | zero => exact id
  | succ n => exact fun hcut => h hcut.2

/-- The end of a text is a clean cut. -/
theorem length (text : List CodeUnit) : CleanCut text text.length :=
  of_after (Nat.le_refl _) (by simp)

/-- A clean cut of what follows a clean cut is a clean cut. -/
theorem add (hn : CleanCut text n) (hm : CleanCut (text.drop n) m) : CleanCut text (n + m) := by
  have hle := hm.le
  rw [List.length_drop] at hle
  have := hn.le
  refine ⟨by omega, ?_⟩
  cases m with
  | zero => exact hn.whole
  | succ m =>
    have hw := hm.whole
    rw [← Nat.add_assoc]
    simpa only [SplitsLineEnd, List.getElem?_drop, Nat.add_assoc] using hw

/-- The cut after one unit, if that unit is no carriage return. -/
theorem one (h : u ≠ CodeUnit.carriageReturn) : CleanCut (u :: rest) 1 :=
  of_before (by simp) (by simpa using h)

/-- One more unit in front of a clean cut. -/
theorem cons (hu : u ≠ CodeUnit.carriageReturn) (h : CleanCut rest n) :
    CleanCut (u :: rest) (1 + n) :=
  (one hu).add h

theorem succ (hu : u ≠ CodeUnit.carriageReturn) (h : CleanCut rest n) :
    CleanCut (u :: rest) (n + 1) := by
  rw [Nat.add_comm]
  exact cons hu h

/-- Without the first unit of a text its clean cuts stay clean. -/
theorem tail (h : CleanCut (u :: rest) (n + 1)) : CleanCut rest n := by
  refine ⟨Nat.le_of_succ_le_succ h.le, ?_⟩
  cases n with
  | zero => exact id
  | succ n => exact h.whole

/-- A cut behind units without a carriage return. -/
theorem of_not_mem (hle : n ≤ text.length) (h : CodeUnit.carriageReturn ∉ text.take n) :
    CleanCut text n := by
  cases n with
  | zero => exact zero text
  | succ n =>
    apply of_before hle
    intro hcr
    apply h
    rw [← List.getElem?_take_of_lt (Nat.lt_succ_self n)] at hcr
    exact List.mem_of_getElem? hcr

theorem of_isPrefixOf {a : List CodeUnit} (h : a <+: text) (ha : CodeUnit.carriageReturn ∉ a) :
    CleanCut text a.length := by
  apply of_not_mem h.length_le
  rw [← List.prefix_iff_eq_take.mp h]
  exact ha

/-- Every cut within a run of units is clean if the run has no carriage return. -/
theorem of_le_takeWhile {p : CodeUnit → Bool} (hp : p CodeUnit.carriageReturn = false)
    (hn : n ≤ (text.takeWhile p).length) : CleanCut text n := by
  have hpre := List.takeWhile_prefix p (l := text)
  apply of_not_mem (Nat.le_trans hn hpre.length_le)
  intro hmem
  have htake : text.take n = (text.takeWhile p).take n := by
    rw [List.prefix_iff_eq_take.mp hpre, List.take_take, Nat.min_eq_left hn]
  rw [htake] at hmem
  have htrue := List.mem_takeWhile_imp (List.mem_of_mem_take hmem)
  rw [hp] at htrue
  exact absurd htrue (by decide)

/-- A clean cut stays one when what follows is cut off. -/
theorem append_left {a b : List CodeUnit} (h : CleanCut (a ++ b) n) (hn : n ≤ a.length) :
    CleanCut a n := by
  refine ⟨hn, ?_⟩
  cases n with
  | zero => exact id
  | succ n =>
    rintro ⟨hcr, hlf⟩
    refine h.whole ⟨?_, ?_⟩
    · rw [List.getElem?_append_left hn, hcr]
    · have hlt : n + 1 < a.length := (List.getElem?_eq_some_iff.mp hlf).1
      rw [List.getElem?_append_left hlt, hlf]

end CleanCut

end Text

namespace Location

open Text

/-- The unit in front of a clean cut ends its line with the rest of the text cut off as it does
with the rest in place. -/
theorem endsLineAt_append {u : CodeUnit} {a b : List CodeUnit}
    (h : CleanCut (u :: a ++ b) (a.length + 1)) :
    endsLineAt (u :: a ++ b) 0 = endsLineAt (u :: a) 0 := by
  cases a with
  | nil =>
    have hw := h.whole
    by_cases hu : u = CodeUnit.carriageReturn <;> simp_all [endsLineAt, SplitsLineEnd]
  | cons v a => simp [endsLineAt]

/-- **Moving in steps.** Moving over a text is moving over its parts one after the other, if they
meet at a clean cut. -/
theorem after_append (l : Location) (a b : List CodeUnit) (h : CleanCut (a ++ b) a.length) :
    l.after (a ++ b) = (l.after a).after b := by
  induction a generalizing l with
  | nil => rfl
  | cons u a ih =>
    have htail : CleanCut (a ++ b) a.length := by
      cases a with
      | nil => exact .zero _
      | cons v a => exact ⟨by simp, by simpa [SplitsLineEnd] using h.whole⟩
    rw [List.cons_append, after_cons, after_cons, ← List.cons_append, endsLineAt_append h]
    exact ih _ htail

end Location

/-! ## Cursors -/

namespace Cursor

@[simp] theorem rest_advance (c : Cursor) (n : Nat) : (c.advance n).rest = c.rest.drop n := rfl

@[simp] theorem location_advance (c : Cursor) (n : Nat) :
    (c.advance n).location = c.location.after (c.rest.take n) := rfl

theorem offset_advance (c : Cursor) (n : Nat) :
    (c.advance n).location.offset = c.location.offset + (c.rest.take n).length := by
  rw [location_advance, Location.offset_after]

/-- Where the first unit is on its line anyway, it does not matter that it is taken for a
delimiter. -/
theorem advancePastOpener_eq {c : Cursor} {u : CodeUnit} (h : c.rest.head? = some u)
    (hu : u.isLineTerminator = false) (n : Nat) : c.advancePastOpener n = c.advance n := by
  obtain ⟨l, rest⟩ := c
  cases rest with
  | nil => simp at h
  | cons v rest =>
    obtain rfl : v = u := by simpa using h
    cases n with
    | zero => rfl
    | succ n =>
      have hends : Text.endsLineAt (v :: rest.take n) 0 = false := by simp [Text.endsLineAt, hu]
      simp [advancePastOpener, stepInLine, advance, Location.after_cons, hends]

end Cursor

end EcmaLex
