import EcmaLex.Proofs.EscapeGrammar
import EcmaLex.Proofs.StableReaders

/-!
# A search for the end of a template span

`Template.search` looks for the first backtick or opening of a substitution, and all it knows of
escapes is that a backslash hides the one unit after it. `Template.escapes` are the texts behind the
backslashes on its way.

An escape may take many units or, if it is invalid, give up in its middle. Whoever reads escapes and
goes on where they end still comes to the same delimiter, because no escape takes a backtick, a
dollar sign or a backslash behind its first unit (`Template.escape_resumes`,
`Template.search_of_resumes`).
-/

namespace EcmaLex

namespace Template

/-! ## The search -/

/-- Where a span ends: the number of units in front of its closing delimiter, and whether that is
the backtick that ends the template. -/
structure Ending where
  length : Nat
  last : Bool
  deriving DecidableEq, Repr

namespace Ending

/-- The number of units of the delimiter itself. -/
def width (e : Ending) : Nat := if e.last then 1 else 2

/-- The end as seen from `n` units earlier. -/
def after (n : Nat) (e : Ending) : Ending := ⟨n + e.length, e.last⟩

@[simp] theorem length_after (n : Nat) (e : Ending) : (e.after n).length = n + e.length := rfl

@[simp] theorem after_zero : after 0 = id := by
  funext e
  show Ending.mk (0 + e.length) e.last = e
  rw [Nat.zero_add]

theorem after_after (n m : Nat) (e : Ending) : (e.after m).after n = e.after (n + m) := by
  simp [after, Nat.add_assoc]

end Ending

/-- The first backtick or opening of a substitution that no backslash hides. `hidden` tells whether
one hides the first unit. -/
def search (hidden : Bool) : List CodeUnit → Option Ending
  | [] => none
  | u :: rest =>
    if hidden then (search false rest).map (Ending.after 1)
    else if u = CodeUnit.backtick then some ⟨0, true⟩
    else if u = CodeUnit.dollar ∧ rest.head? = some CodeUnit.leftBrace then some ⟨0, false⟩
    else (search (u == CodeUnit.backslash) rest).map (Ending.after 1)

/-- The texts right behind the backslashes, other than hidden ones, among the first units of a
text. -/
def escapes (hidden : Bool) : Nat → List CodeUnit → List (List CodeUnit)
  | 0, _ => []
  | _, [] => []
  | n + 1, u :: rest =>
    if hidden then escapes false n rest
    else if u = CodeUnit.backslash then rest :: escapes true n rest
    else escapes false n rest

/-! ## Units that do not matter to the search -/

/-- The units that neither end a span nor begin an escape. -/
def Inert (u : CodeUnit) : Prop :=
  u ≠ CodeUnit.backtick ∧ u ≠ CodeUnit.dollar ∧ u ≠ CodeUnit.backslash

theorem search_cons_of_inert {u : CodeUnit} (hu : Inert u) (hidden : Bool) (rest : List CodeUnit) :
    search hidden (u :: rest) = (search false rest).map (Ending.after 1) := by
  obtain ⟨htick, hdollar, hescape⟩ := hu
  rw [search]
  cases hidden with
  | true => rw [if_pos rfl]
  | false =>
    rw [if_neg (by decide), if_neg htick, if_neg (fun h => hdollar h.1),
      beq_eq_false_iff_ne.mpr hescape]

theorem escapes_cons_of_inert {u : CodeUnit} (hu : Inert u) (hidden : Bool) (n : Nat)
    (rest : List CodeUnit) : escapes hidden (n + 1) (u :: rest) = escapes false n rest := by
  rw [escapes, if_neg hu.2.2]
  split <;> rfl

theorem search_append_of_inert {w : List CodeUnit} (hw : ∀ u ∈ w, Inert u)
    (rest : List CodeUnit) :
    search false (w ++ rest) = (search false rest).map (Ending.after w.length) := by
  induction w with
  | nil => simp
  | cons u w ih =>
    rw [List.forall_mem_cons] at hw
    rw [List.cons_append, search_cons_of_inert hw.1, ih hw.2, Option.map_map]
    congr 1
    funext e
    show (e.after w.length).after 1 = e.after (w.length + 1)
    rw [Ending.after_after, Nat.add_comm]

theorem escapes_append_of_inert {w : List CodeUnit} (hw : ∀ u ∈ w, Inert u) (n : Nat)
    (rest : List CodeUnit) : escapes false (w.length + n) (w ++ rest) = escapes false n rest := by
  induction w with
  | nil => rw [List.length_nil, Nat.zero_add, List.nil_append]
  | cons u w ih =>
    rw [List.forall_mem_cons] at hw
    rw [List.length_cons, Nat.add_right_comm, List.cons_append, escapes_cons_of_inert hw.1,
      ih hw.2]

end Template

/-! ## Escapes behind their first unit -/

/-- Whether it succeeds or not, reading stops behind units with the property `p` only. -/
def Outcome.StopsBehind {α : Type} (p : CodeUnit → Prop) (text : List CodeUnit) :
    Outcome α → Prop
  | .ok x => ∀ u ∈ text.take x.length, p u
  | .error f => ∀ u ∈ text.take f.stop, p u

namespace Outcome

variable {α β : Type} {p : CodeUnit → Prop} {text : List CodeUnit}

theorem stopsBehind_failHere (p : CodeUnit → Prop) (text : List CodeUnit)
    (cause : LexError.Cause) : StopsBehind p text (failHere cause : Outcome α) := by
  intro u hu
  simp at hu

theorem StopsBehind.shift {o : Outcome α} {n : Nat} {flags : TokenFlags}
    (hn : ∀ u ∈ text.take n, p u) (h : StopsBehind p (text.drop n) o) :
    StopsBehind p text (o.shift n flags) := by
  have hadd (k : Nat) (hk : ∀ u ∈ (text.drop n).take k, p u) : ∀ u ∈ text.take (n + k), p u := by
    rw [List.take_add]
    intro u hu
    rcases List.mem_append.mp hu with hu | hu
    · exact hn u hu
    · exact hk u hu
  cases o with
  | ok x => exact hadd x.length h
  | error f => exact hadd f.stop h

/-- Readers one after the other stop behind such units if each does. -/
theorem StopsBehind.bind {r : Reader α} {next : α → Reader β} (hr : StopsBehind p text (r text))
    (hnext : ∀ a text, StopsBehind p text (next a text)) :
    StopsBehind p text ((r >>= next) text) := by
  show StopsBehind p text (r.andThen next text)
  unfold Reader.andThen
  cases hx : r text with
  | error f =>
    rw [hx] at hr
    exact hr
  | ok x =>
    rw [hx] at hr
    exact .shift hr (hnext x.value _)

end Outcome

namespace Template

open Outcome (StopsBehind)

theorem inert_of_hexDigit? {u : CodeUnit} {d : Nat} (h : u.hexDigit? = some d) : Inert u := by
  have hne : u.hexDigit? ≠ none := by
    rw [h]
    exact Option.some_ne_none d
  refine ⟨?_, ?_, ?_⟩ <;>
  · rintro rfl
    exact hne (by decide)

theorem inert_of_isDecimalDigit {u : CodeUnit} (h : u.isDecimalDigit = true) : Inert u := by
  refine ⟨?_, ?_, ?_⟩ <;>
  · rintro rfl
    exact absurd h (by decide)

theorem stopsBehind_hexDigit (error : EscapeError) (text : List CodeUnit) :
    StopsBehind Inert text (Escape.hexDigit error text) := by
  cases text with
  | nil => exact Outcome.stopsBehind_failHere _ _ _
  | cons u rest =>
    simp only [Escape.hexDigit]
    split
    · next d hd =>
      intro v hv
      obtain rfl : v = u := by simpa using hv
      exact inert_of_hexDigit? hd
    · exact Outcome.stopsBehind_failHere _ _ _

theorem stopsBehind_pure {α : Type} (a : α) (text : List CodeUnit) :
    StopsBehind Inert text ((pure a : Reader α) text) := by
  intro u hu
  rw [List.take_zero] at hu
  simp at hu

theorem stopsBehind_hexPair (text : List CodeUnit) :
    StopsBehind Inert text (Escape.hexPair text) :=
  .bind (stopsBehind_hexDigit _ _) fun _ text =>
    .bind (stopsBehind_hexDigit _ text) fun _ text => stopsBehind_pure _ text

theorem stopsBehind_hexQuad (text : List CodeUnit) :
    StopsBehind Inert text (Escape.hexQuad text) :=
  .bind (stopsBehind_hexDigit _ _) fun _ text =>
    .bind (stopsBehind_hexDigit _ text) fun _ text =>
      .bind (stopsBehind_hexDigit _ text) fun _ text =>
        .bind (stopsBehind_hexDigit _ text) fun _ text => stopsBehind_pure _ text

theorem stopsBehind_bracedDigits (value : Nat) (count : Int32) (text : List CodeUnit) :
    StopsBehind Inert text (Escape.bracedDigits value count text) := by
  induction text generalizing value count with
  | nil => exact Outcome.stopsBehind_failHere _ _ _
  | cons u rest ih =>
    simp only [Escape.bracedDigits]
    split
    · next d hd =>
      split
      · exact Outcome.stopsBehind_failHere _ _ _
      · exact .shift (by simpa using inert_of_hexDigit? hd) (ih _ _)
    · split
      · next hend =>
        rw [Bool.and_eq_true, beq_iff_eq] at hend
        intro v hv
        obtain rfl : v = u := by simpa using hv
        rw [hend.2]
        exact ⟨by decide, by decide, by decide⟩
      · exact Outcome.stopsBehind_failHere _ _ _

theorem stopsBehind_unicode (text : List CodeUnit) :
    StopsBehind Inert text (Escape.unicode text) := by
  unfold Escape.unicode
  split
  · split
    · next hu =>
      subst hu
      refine .shift ?_ (stopsBehind_bracedDigits _ _ _)
      simp only [List.take_succ_cons, List.take_zero, List.mem_singleton, forall_eq]
      exact ⟨by decide, by decide, by decide⟩
    · exact stopsBehind_hexQuad _
  · exact stopsBehind_hexQuad _

/-- Behind a backslash, a search may take up `k` units further: the one unit that it hides is not
taken and does not matter, or the others that are taken do not. -/
inductive Resumes : List CodeUnit → Nat → Prop
  | refused {u : CodeUnit} {rest : List CodeUnit} (hu : Inert u) : Resumes (u :: rest) 0
  | taken {u : CodeUnit} {rest : List CodeUnit} {k : Nat} (hk : ∀ v ∈ rest.take k, Inert v) :
      Resumes (u :: rest) (k + 1)

theorem Resumes.one (u : CodeUnit) (rest : List CodeUnit) : Resumes (u :: rest) 1 :=
  .taken (by simp)

theorem Resumes.take {rest : List CodeUnit} {k : Nat} (h : Resumes rest k) {n : Nat} (hn : 0 < n) :
    Resumes (rest.take n) k := by
  obtain ⟨n, rfl⟩ := Nat.exists_eq_add_of_le' hn
  cases h with
  | refused hu => exact .refused hu
  | taken hk =>
    refine .taken fun v hv => hk v ?_
    rw [List.take_take] at hv
    exact (List.take_sublist_take_left (Nat.min_le_left _ _)).subset hv

theorem Resumes.of_stopsBehind {α : Type} {u : CodeUnit} {rest : List CodeUnit} {o : Outcome α}
    {f : α → Option CodePoint} (h : StopsBehind Inert rest o) :
    Resumes (u :: rest) (Escape.stopOf ((o.shift 1 ∅).mapValue f)) := by
  cases o with
  | ok x =>
    show Resumes (u :: rest) (1 + x.length)
    rw [Nat.add_comm]
    exact .taken h
  | error e =>
    show Resumes (u :: rest) (1 + e.stop)
    rw [Nat.add_comm]
    exact .taken h

/-- The longest octal escape begins with the first digit and takes only digits. -/
theorem resumes_octalDigits {u : CodeUnit} (rest : List CodeUnit) (hu : u.isOctalDigit = true) :
    Resumes (u :: rest) (Escape.octalDigits (u :: rest)).length := by
  have hprefix : Escape.octalDigits (u :: rest) <+: u :: rest :=
    (List.takeWhile_prefix _).trans (List.take_prefix _ _)
  obtain ⟨ds, hds⟩ : ∃ ds, Escape.octalDigits (u :: rest) = u :: ds := by
    unfold Escape.octalDigits
    dsimp only
    split <;> exact ⟨_, by rw [List.take_succ_cons, List.takeWhile_cons_of_pos hu]⟩
  rw [hds] at hprefix ⊢
  refine .taken fun v hv => ?_
  have htake := List.prefix_iff_eq_take.mp (List.cons_prefix_cons.mp hprefix).2
  rw [← htake] at hv
  have hmem : v ∈ Escape.octalDigits (u :: rest) := hds ▸ List.mem_cons_of_mem u hv
  exact inert_of_isDecimalDigit
    (CodeUnit.isDecimalDigit_of_isOctalDigit (List.mem_takeWhile_imp hmem))

/-- **Escapes and the search.** An escape, valid or not, takes no backtick, dollar sign or backslash
behind its first unit. -/
theorem escape_resumes (refusal : Option EscapeError) (u : CodeUnit) (rest : List CodeUnit) :
    Resumes (u :: rest) (Escape.stopOf (Escape.body refusal (u :: rest))) := by
  rw [Escape.body]
  split
  · -- a line feed behind a carriage return is taken along
    cases rest with
    | nil => exact .one u []
    | cons v rest =>
      show Resumes (u :: v :: rest) (Escape.lineTerminatorLength (u :: v :: rest))
      rw [Escape.lineTerminatorLength]
      split
      · next hcrlf =>
        refine .taken ?_
        simp only [List.take_succ_cons, List.take_zero, List.mem_singleton, forall_eq, hcrlf.2]
        exact ⟨by decide, by decide, by decide⟩
      · exact .one u (v :: rest)
  split
  · exact .one u rest
  split
  · exact .of_stopsBehind (stopsBehind_hexPair rest)
  split
  · exact .of_stopsBehind (stopsBehind_unicode rest)
  split
  · exact .one u rest
  split
  · next hoctal =>
    cases refusal with
    | some e =>
      exact .refused (inert_of_isDecimalDigit (CodeUnit.isDecimalDigit_of_isOctalDigit hoctal))
    | none => exact resumes_octalDigits rest hoctal
  split
  · next hdigit => exact .refused (inert_of_isDecimalDigit hdigit)
  · -- the second half of a surrogate pair is no ASCII character
    cases rest with
    | nil => exact .one u []
    | cons v rest =>
      rw [Utf16.head?]
      by_cases hpair : (u.isLead && v.isTrail) = true
      · rw [if_pos hpair]
        rw [Bool.and_eq_true] at hpair
        refine .taken ?_
        simp only [List.take_succ_cons, List.take_zero, List.mem_singleton, forall_eq]
        refine ⟨?_, ?_, ?_⟩ <;>
        · rintro rfl
          exact absurd hpair.2 (by decide)
      · rw [if_neg hpair]
        exact .one u (v :: rest)

/-- From a hidden unit on the search goes as from the unit where reading resumes. -/
theorem search_of_resumes {rest : List CodeUnit} {k : Nat} (h : Resumes rest k)
    (hle : k ≤ rest.length) :
    search true rest = (search false (rest.drop k)).map (Ending.after k) ∧
      ∀ n, escapes true (k + n) rest = escapes false n (rest.drop k) := by
  cases h with
  | @refused u rest hu =>
    constructor
    · rw [search_cons_of_inert hu, List.drop_zero, search_cons_of_inert hu, Option.map_map,
        Ending.after_zero, Function.id_comp]
    · intro n
      rw [Nat.zero_add]
      cases n with
      | zero => rfl
      | succ n => rw [escapes_cons_of_inert hu, List.drop_zero, escapes_cons_of_inert hu]
  | @taken u rest k hk =>
    have hlength : (rest.take k).length = k := List.length_take_of_le (Nat.le_of_succ_le_succ hle)
    have hrest := List.take_append_drop k rest
    constructor
    · have hfound := search_append_of_inert hk (rest.drop k)
      rw [hrest, hlength] at hfound
      rw [search, if_pos rfl, hfound, Option.map_map, List.drop_succ_cons]
      congr 1
      funext e
      show (e.after k).after 1 = e.after (k + 1)
      rw [Ending.after_after, Nat.add_comm]
    · intro n
      have hfound := escapes_append_of_inert hk n (rest.drop k)
      rw [hrest, hlength] at hfound
      rw [Nat.add_right_comm, escapes, if_pos rfl, hfound, List.drop_succ_cons]

end Template

end EcmaLex
