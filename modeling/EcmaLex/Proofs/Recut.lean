import Mathlib.Tactic.SplitIfs
import EcmaLex.Comment
import EcmaLex.Proofs.Readings

/-!
# Readers do not look past a separator

A token is often followed by what helps to end it: a number by what is no name, a punctuator by what
makes it no longer one. Here the text behind a token is replaced. `Recut n text text'` says that two
texts agree in their first `n` units, and that the second one then stops, with a blank, a line feed
or the end. A reader that took at most these `n` units of the first text takes the same of the
second:

* `Outcome.reach` is the number of units that decided a result, and a *local* reader depends on
  nothing else, whether it succeeds or fails;
* a *stable* reader keeps its readings wherever the text is cut behind them;
* a reader that is *stable at its end* keeps them where it is cut right behind them. These look at
  what follows, and rely on its being a separator.
-/

namespace EcmaLex

/-! ## Recut texts -/

namespace Text

/-- A blank or a line feed, the two ways to set tokens apart. -/
def isSeparator (u : CodeUnit) : Bool := u == CodeUnit.ofChar ' ' || u == CodeUnit.lineFeed

/-- A text that begins with a separator, or is empty. -/
def Stops (text : List CodeUnit) : Prop := ∀ u, text.head? = some u → isSeparator u = true

/-- The texts agree in their first `n` units, after which the second one stops. -/
inductive Recut : Nat → List CodeUnit → List CodeUnit → Prop
  | here {text text' : List CodeUnit} (h : Stops text') : Recut 0 text text'
  | unit {n : Nat} {u : CodeUnit} {rest rest' : List CodeUnit} (h : Recut n rest rest') :
      Recut (n + 1) (u :: rest) (u :: rest')

theorem eq_of_isSeparator {u : CodeUnit} (h : isSeparator u = true) :
    u = CodeUnit.ofChar ' ' ∨ u = CodeUnit.lineFeed := by
  rw [isSeparator, Bool.or_eq_true, beq_iff_eq, beq_iff_eq] at h
  exact h

/-- A property that neither separator has fails on what stops. -/
theorem Stops.any_head? {p : CodeUnit → Bool} {text : List CodeUnit} (h : Stops text)
    (hp : ∀ u, isSeparator u = true → p u = false) : text.head?.any p = false := by
  cases hu : text.head? with
  | none => rfl
  | some u => exact hp u (h u hu)

/-- Separators are code points by themselves. -/
theorem Stops.utf16_head? {text : List CodeUnit} (h : Stops text) :
    Utf16.head? text = none ∨ ∃ u, isSeparator u = true ∧ Utf16.head? text = some (u.toNat, 1) := by
  match text with
  | [] => exact .inl rfl
  | [u] => exact .inr ⟨u, h u rfl, rfl⟩
  | u :: v :: rest =>
    have hu := h u rfl
    have hlead : u.isLead = false := by
      rcases eq_of_isSeparator hu with rfl | rfl <;> decide
    exact .inr ⟨u, hu, by simp [Utf16.head?, hlead]⟩

namespace Recut

variable {n k : Nat} {u : CodeUnit} {text text' rest : List CodeUnit}

/-- The first units of a text in front of what stops. -/
theorem of_take {after : List CodeUnit} (hn : n ≤ text.length) (hafter : Stops after) :
    Recut n text (text.take n ++ after) := by
  induction n generalizing text with
  | zero => exact .here hafter
  | succ n ih =>
    cases text with
    | nil => simp at hn
    | cons u rest => exact .unit (ih (Nat.le_of_succ_le_succ hn))

theorem exists_cons (h : Recut n (u :: rest) text') (hn : 0 < n) :
    ∃ rest', text' = u :: rest' ∧ Recut (n - 1) rest rest' := by
  cases h with
  | here => omega
  | unit h => exact ⟨_, rfl, h⟩

theorem le_length (h : Recut n text text') : n ≤ text.length := by
  induction h with
  | here => exact Nat.zero_le _
  | unit _ ih => exact Nat.succ_le_succ ih

theorem drop (h : Recut n text text') (hk : k ≤ n) :
    Recut (n - k) (text.drop k) (text'.drop k) := by
  induction h generalizing k with
  | here h =>
    obtain rfl : k = 0 := Nat.le_zero.mp hk
    exact .here h
  | unit h ih =>
    cases k with
    | zero => exact .unit h
    | succ k =>
      rw [List.drop_succ_cons, List.drop_succ_cons, Nat.add_sub_add_right]
      exact ih (Nat.le_of_succ_le_succ hk)

theorem take_eq (h : Recut n text text') (hk : k ≤ n) : text'.take k = text.take k := by
  induction h generalizing k with
  | here =>
    obtain rfl : k = 0 := Nat.le_zero.mp hk
    simp
  | unit _ ih =>
    cases k with
    | zero => simp
    | succ k => rw [List.take_succ_cons, List.take_succ_cons, ih (Nat.le_of_succ_le_succ hk)]

theorem stops (h : Recut 0 text text') : Stops text' := by
  cases h with
  | here h => exact h

theorem head?_eq (h : Recut n text text') (hn : 0 < n) : text'.head? = text.head? := by
  cases h with
  | here => omega
  | unit _ => rfl

/-- A property that neither separator has does not come up by a cut. -/
theorem any_head? {p : CodeUnit → Bool} (h : Recut n text text')
    (hp : ∀ u, isSeparator u = true → p u = false) (htext : text.head?.any p = false) :
    text'.head?.any p = false := by
  cases h with
  | here h => exact h.any_head? hp
  | unit _ => exact htext

theorem head?_ne {v : CodeUnit} (h : Recut n text text') (hv : isSeparator v = false)
    (htext : text.head? ≠ some v) : text'.head? ≠ some v := by
  cases h with
  | here h =>
    intro hhead
    rw [h v hhead] at hv
    exact absurd hv (by simp)
  | unit _ => exact htext

/-- A code point within the common part. No cut makes a surrogate pair out of a lone surrogate. -/
theorem utf16_head? {c : CodePoint} {width : Nat} (h : Recut n text text')
    (hc : Utf16.head? text = some (c, width)) (hn : width ≤ n) :
    Utf16.head? text' = some (c, width) := by
  have htrail {v : CodeUnit} (hv : isSeparator v = true) : v.isTrail = false := by
    rcases eq_of_isSeparator hv with rfl | rfl <;> decide
  cases h with
  | here => exact absurd (Identifier.width_pos hc) (by omega)
  | @unit n u rest rest' h =>
    cases h with
    | @here rest rest' hstop =>
      -- one unit is common, so the code point is that unit
      have hcu : c = u.toNat ∧ width = 1 := by
        cases rest with
        | nil => simpa [Utf16.head?, eq_comm] using hc
        | cons v rest =>
          simp only [Utf16.head?] at hc
          split at hc
          · obtain ⟨-, rfl⟩ := Prod.mk.inj (Option.some.inj hc)
            omega
          · obtain ⟨rfl, rfl⟩ := Prod.mk.inj (Option.some.inj hc)
            exact ⟨rfl, rfl⟩
      rw [hcu.1, hcu.2]
      cases rest' with
      | nil => rfl
      | cons v rest' => simp [Utf16.head?, htrail (hstop v rfl)]
    | unit _ => exact hc

/-- A run of units that no separator belongs to, within the first `k` units. -/
theorem take_takeWhile {p : CodeUnit → Bool} (h : Recut n text text')
    (hp : ∀ u, isSeparator u = true → p u = false)
    (hn : ((text.take k).takeWhile p).length ≤ n) :
    (text'.take k).takeWhile p = (text.take k).takeWhile p := by
  induction h generalizing k with
  | @here text text' hstop =>
    -- nothing in common: the run was empty, and a separator begins none
    have hnil : (text.take k).takeWhile p = [] := List.length_eq_zero_iff.mp (Nat.le_zero.mp hn)
    rw [hnil]
    cases k with
    | zero => simp
    | succ k =>
      cases text' with
      | nil => simp
      | cons v rest => rw [List.take_succ_cons, List.takeWhile_cons, hp v (hstop v rfl)]; rfl
  | @unit n u rest rest' _ ih =>
    cases k with
    | zero => simp
    | succ k =>
      rw [List.take_succ_cons, List.take_succ_cons, List.takeWhile_cons, List.takeWhile_cons]
      by_cases hu : p u = true
      · rw [if_pos hu, if_pos hu]
        rw [List.take_succ_cons, List.takeWhile_cons, if_pos hu, List.length_cons] at hn
        rw [ih (Nat.le_of_succ_le_succ hn)]
      · rw [if_neg hu, if_neg hu]

theorem takeWhile_eq {p : CodeUnit → Bool} (h : Recut n text text')
    (hp : ∀ u, isSeparator u = true → p u = false) (hn : (text.takeWhile p).length ≤ n) :
    text'.takeWhile p = text.takeWhile p := by
  have := h.take_takeWhile (k := max text.length text'.length) hp
  rw [List.take_of_length_le (Nat.le_max_left _ _),
    List.take_of_length_le (Nat.le_max_right _ _)] at this
  exact this hn

/-- What stands at the beginning of the second text and has no separator is common to both. -/
theorem prefix_take {a : List CodeUnit} (h : Recut n text text')
    (ha : ∀ v ∈ a, isSeparator v = false) (hpre : a <+: text') : a <+: text.take n := by
  induction h generalizing a with
  | here hstop =>
    cases a with
    | nil => exact List.nil_prefix
    | cons v a =>
      obtain ⟨b, rfl⟩ := hpre
      have hv := hstop v rfl
      rw [ha v List.mem_cons_self] at hv
      exact absurd hv (by simp)
  | unit _ ih =>
    cases a with
    | nil => exact List.nil_prefix
    | cons v a =>
      obtain ⟨rfl, hrest⟩ := List.cons_prefix_cons.mp hpre
      rw [List.take_succ_cons]
      refine List.cons_prefix_cons.mpr ⟨rfl, ih (fun w hw => ?_) hrest⟩
      exact ha w (List.mem_cons_of_mem _ hw)

end Recut

end Text

open Text (Recut Stops isSeparator)

/-- No separator opens a comment. -/
theorem Trivia.not_isSeparator_of_mem_opener (kind : Comment.Kind) :
    ∀ u ∈ kind.opener, isSeparator u = false := by
  have hall : kind.opener.all (fun u => !isSeparator u) = true := by cases kind <;> decide
  simpa using hall

/-! ## Results under a recut -/

namespace Outcome

variable {α β : Type}

/-- The number of units that decided a result: those taken, or those up to the one that did not
fit. -/
def reach : Outcome α → Nat
  | .ok x => x.length
  | .error f => f.stop + 1

@[simp] theorem reach_shift (o : Outcome α) (n : Nat) (flags : TokenFlags) :
    (o.shift n flags).reach = n + o.reach := by
  cases o with
  | ok x => rfl
  | error f => exact Nat.add_assoc n f.stop 1

@[simp] theorem reach_mapValue (o : Outcome α) (f : α → β) : (o.mapValue f).reach = o.reach := by
  cases o <;> rfl

end Outcome

namespace Reader

variable {α β : Type}

/-- The result depends only on the units that decided it. -/
def Local (r : Reader α) : Prop :=
  ∀ ⦃n : Nat⦄ ⦃text text' : List CodeUnit⦄, Recut n text text' → (r text).reach ≤ n →
    r text' = r text

/-- A reading stays where the text is cut behind it. -/
def Stable (r : Reader α) : Prop :=
  ∀ ⦃n : Nat⦄ ⦃text text' : List CodeUnit⦄ ⦃x : Reading α⦄, Recut n text text' →
    r text = .ok x → x.length ≤ n → r text' = .ok x

/-- A reading stays where the text is cut right behind it. -/
def StableAtEnd (r : Reader α) : Prop :=
  ∀ ⦃text text' : List CodeUnit⦄ ⦃x : Reading α⦄, r text = .ok x → Recut x.length text text' →
    r text' = .ok x

theorem Local.stable {r : Reader α} (h : r.Local) : r.Stable := by
  intro n text text' x hcut hx hn
  rw [h hcut (by rw [hx]; exact hn), hx]

theorem Stable.atEnd {r : Reader α} (h : r.Stable) : r.StableAtEnd := by
  intro text text' x hx hcut
  exact h hcut hx (Nat.le_refl _)

theorem local_pure (a : α) : (pure a : Reader α).Local := by
  intro n text text' _ _
  rfl

theorem stable_note (flags : TokenFlags) : (note flags).Stable := by
  intro n text text' x _ hx _
  exact hx

theorem stable_fail (cause : LexError.Cause) : (fail cause : Reader α).Stable := by
  intro n text text' x _ hx _
  exact absurd hx fail_ne_ok

theorem stable_takeWhile {p : CodeUnit → Bool} (hp : ∀ u, isSeparator u = true → p u = false) :
    (takeWhile p).Stable := by
  intro n text text' x hcut hx hn
  obtain rfl := Except.ok.inj hx
  simp only [takeWhile, hcut.takeWhile_eq hp hn]

/-! ### Readers one after the other -/

/-- A sequence looks at what its first reader looks at. -/
theorem reach_le_bind (r : Reader α) (next : α → Reader β) (text : List CodeUnit) :
    (r text).reach ≤ ((r >>= next) text).reach := by
  show _ ≤ (r.andThen next text).reach
  unfold andThen
  cases r text with
  | error f => exact Nat.le_refl _
  | ok x =>
    dsimp only
    rw [Outcome.reach_shift]
    exact Nat.le_add_right _ _

theorem Local.bind {r : Reader α} {next : α → Reader β} (hr : r.Local)
    (hnext : ∀ a, (next a).Local) : (r >>= next).Local := by
  intro n text text' hcut hreach
  change (r.andThen next text).reach ≤ n at hreach
  show r.andThen next text' = r.andThen next text
  unfold andThen at hreach ⊢
  cases hx : r text with
  | error f =>
    rw [hx] at hreach
    rw [hr hcut (by rw [hx]; exact hreach), hx]
  | ok x =>
    rw [hx] at hreach
    dsimp only at hreach
    rw [Outcome.reach_shift] at hreach
    have hle : x.length ≤ n := by omega
    have hrest := hnext x.value (hcut.drop hle) (by omega)
    rw [hr hcut (by rw [hx]; exact hle), hx]
    dsimp only
    rw [hrest]

/-- The second reader is cut where the sequence is, the first one somewhere behind its reading. -/
theorem Stable.bind_atEnd {r : Reader α} {next : α → Reader β} (hr : r.Stable)
    (hnext : ∀ a, (next a).StableAtEnd) : (r >>= next).StableAtEnd := by
  intro text text' y hy hcut
  obtain ⟨z, w, hz, hw, rfl⟩ := bind_eq_ok_iff.mp hy
  have hrest := hcut.drop (Nat.le_add_right z.length w.length)
  rw [Nat.add_sub_cancel_left] at hrest
  refine bind_eq_ok_iff.mpr ⟨z, w, hr hcut hz (Nat.le_add_right _ _), ?_, rfl⟩
  exact hnext z.value hw hrest

/-- Nothing is taken behind the first reader. -/
theorem StableAtEnd.bind_pure {r : Reader α} (hr : r.StableAtEnd) (f : α → β) :
    (r >>= fun a => pure (f a)).StableAtEnd := by
  intro text text' y hy hcut
  obtain ⟨z, w, hz, hw, rfl⟩ := bind_eq_ok_iff.mp hy
  obtain rfl := Except.ok.inj hw
  exact bind_eq_ok_iff.mpr ⟨z, _, hr hz hcut, rfl, rfl⟩

theorem Stable.bind {r : Reader α} {next : α → Reader β} (hr : r.Stable)
    (hnext : ∀ a, (next a).Stable) : (r >>= next).Stable := by
  intro n text text' y hcut hy hn
  obtain ⟨z, w, hz, hw, rfl⟩ := bind_eq_ok_iff.mp hy
  dsimp only at hn
  have hrest := hcut.drop (k := z.length) (by omega)
  refine bind_eq_ok_iff.mpr ⟨z, w, hr hcut hz (by omega), ?_, rfl⟩
  exact hnext z.value hrest hw (by omega)

/-- What was read, and its text, do not change, and so does not what they are turned into. -/
theorem StableAtEnd.interpret {r : Reader α} (hr : r.StableAtEnd)
    (f : Reading α → List CodeUnit → Except LexError.Cause β) : (r.interpret f).StableAtEnd := by
  intro text text' y hy hcut
  obtain ⟨z, b, hz, hb, rfl⟩ := interpret_eq_ok_iff.mp hy
  refine interpret_eq_ok_iff.mpr ⟨z, b, hr hz hcut, ?_, rfl⟩
  rw [hcut.take_eq (Nat.le_refl z.length)]
  exact hb

theorem Stable.interpret {r : Reader α} (hr : r.Stable)
    (f : Reading α → List CodeUnit → Except LexError.Cause β) : (r.interpret f).Stable := by
  intro n text text' y hcut hy hn
  obtain ⟨z, b, hz, hb, rfl⟩ := interpret_eq_ok_iff.mp hy
  refine interpret_eq_ok_iff.mpr ⟨z, b, hr hcut hz hn, ?_, rfl⟩
  rw [hcut.take_eq hn]
  exact hb

end Reader

end EcmaLex
