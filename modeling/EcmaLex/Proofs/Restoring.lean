import EcmaLex.Proofs.PositionTracking

/-!
# Going back to a checkpoint undoes everything

A checkpoint keeps the places, the flags and the line start of a scanner, but of its comments only
the number. Going back cuts the list of comments to that number. This gives the old list back
because a call for a token, whether it succeeds or fails, only adds comments at the end
(`Scanner.Extends`), and because a checkpoint that was taken later keeps at least as many comments
(`Session.Keeps`).

The places of a scanner hold no more of the source than their offsets tell (`Cursor.IsPlaceOf`), so
the unit at the cursor is the one that stands at the offset gone back to.

The main result is `Session.restore_undoes`.
-/

namespace EcmaLex

/-! ## Places of a source -/

/-- A place of a source: what is left there is what the source has from the offset on. -/
structure Cursor.IsPlaceOf (c : Cursor) (source : List CodeUnit) : Prop where
  offset_le : c.location.offset ≤ source.length
  rest_eq : c.rest = source.drop c.location.offset

namespace Cursor.IsPlaceOf

variable {c : Cursor} {source : List CodeUnit}

theorem advance (h : c.IsPlaceOf source) (n : Nat) : (c.advance n).IsPlaceOf source := by
  have hle := h.offset_le
  have hlen : (c.rest.take n).length = min n (source.length - c.location.offset) := by
    rw [h.rest_eq, List.length_take, List.length_drop]
  refine ⟨?_, ?_⟩
  · rw [offset_advance, hlen]
    omega
  · rw [offset_advance, rest_advance, hlen, h.rest_eq, List.drop_drop]
    rcases Nat.le_total n (source.length - c.location.offset) with hn | hn
    · rw [Nat.min_eq_left hn]
    · rw [Nat.min_eq_right hn, List.drop_eq_nil_of_le (by omega),
        List.drop_eq_nil_of_le (by omega)]

/-- Nothing is left only at the end of the source. -/
theorem offset_eq_length (h : c.IsPlaceOf source) (hrest : c.rest = []) :
    c.location.offset = source.length := by
  have hle := h.offset_le
  rw [h.rest_eq, List.drop_eq_nil_iff] at hrest
  omega

/-- What stands in front of a part of the rest is between the two places in the source. -/
theorem extract_eq {gap rest : List CodeUnit} (h : c.IsPlaceOf source)
    (hrest : c.rest = gap ++ rest) :
    source.extract c.location.offset (c.location.offset + gap.length) = gap := by
  rw [List.extract_eq_take_drop, Nat.add_sub_cancel_left, ← h.rest_eq, hrest, List.take_left]

/-- What is moved over is between the two places in the source. -/
theorem extract_advance (h : c.IsPlaceOf source) (n : Nat) :
    source.extract c.location.offset (c.advance n).location.offset = c.rest.take n := by
  rw [offset_advance]
  exact h.extract_eq (List.take_append_drop n c.rest).symm

theorem stepInLine (h : c.IsPlaceOf source) : c.stepInLine.IsPlaceOf source := by
  unfold Cursor.stepInLine
  split
  · exact h
  · next u rest hrest =>
    have hdrop : source.drop c.location.offset = u :: rest := by rw [← h.rest_eq, hrest]
    have hlt : c.location.offset < source.length := by
      have := congrArg List.length hdrop
      simp only [List.length_drop, List.length_cons] at this
      omega
    refine ⟨hlt, ?_⟩
    show rest = source.drop (c.location.offset + 1)
    rw [← List.drop_drop, hdrop, List.drop_succ_cons, List.drop_zero]

theorem advancePastOpener (h : c.IsPlaceOf source) (n : Nat) :
    (c.advancePastOpener n).IsPlaceOf source := by
  cases n with
  | zero => exact h
  | succ n => exact h.stepInLine.advance n

theorem of_startingAt (source : List CodeUnit) (start : Location) :
    (Scanner.startingAt source start).cursor.IsPlaceOf source := by
  refine ⟨Nat.min_le_right _ _, ?_⟩
  show source.drop start.offset = source.drop (min start.offset source.length)
  rw [Tracks.drop_min]

end Cursor.IsPlaceOf

/-! ## What a call leaves of a scanner -/

namespace Scanner

/-- The scanner remembers places of the source, and its comments begin with `kept`. -/
structure Keeps (s : Scanner) (source : List CodeUnit) (kept : List Comment) : Prop where
  cursor : s.cursor.IsPlaceOf source
  tokenStart : s.tokenStart.IsPlaceOf source
  comments : kept <+: s.comments.toList

variable {source : List CodeUnit} {kept : List Comment} {c : Context} {s s' : Scanner}

theorem Keeps.of_startingAt (source : List CodeUnit) (start : Location) :
    (startingAt source start).Keeps source [] :=
  ⟨.of_startingAt source start, .of_startingAt source start, List.nil_prefix⟩

/-- What is kept does not depend on flags. -/
theorem Keeps.with_flags (h : s.Keeps source kept) (flags : TokenFlags) :
    ({ s with flags } : Scanner).Keeps source kept :=
  ⟨h.cursor, h.tokenStart, h.comments⟩

theorem Keeps.pass (h : s.Keeps source kept) (collect : Bool) (t : Trivia) :
    (s.pass collect t).Keeps source kept := by
  refine ⟨h.cursor.advance _, h.tokenStart, ?_⟩
  unfold Scanner.pass
  dsimp only
  split
  · split
    · rw [Array.toList_push]
      exact h.comments.trans (List.prefix_append _ _)
    · exact h.comments
  · exact h.comments

/-- Passing trivia leads to another place of the source. -/
theorem Passes.isPlaceOf {ts : List Trivia} (hp : Passes c s ts s')
    (h : s.cursor.IsPlaceOf source) : s'.cursor.IsPlaceOf source := by
  induction hp with
  | done _ => exact h
  | piece _ _ ih => exact ih (h.advance _)

theorem Keeps.passes {ts : List Trivia} (hp : Passes c s ts s') (h : s.Keeps source kept) :
    s'.Keeps source kept := by
  induction hp with
  | done _ => exact h
  | piece _ _ ih => exact ih (h.pass _ _)

/-- Whatever was read, and wherever reading stopped. -/
theorem Keeps.settle {start : Cursor} {seek : Nat → Cursor} (h : s.Keeps source kept)
    (hstart : start.IsPlaceOf source) (hseek : ∀ n, (seek n).IsPlaceOf source)
    (o : Outcome Lexeme) : (s.settle c start seek o).2.Keeps source kept := by
  cases o with
  | ok x => exact ⟨hseek _, hstart, h.comments⟩
  | error f => exact ⟨hseek _, hstart, h.comments⟩

theorem Keeps.readHere (h : s.Keeps source kept) (r : Reader Lexeme) :
    (s.readHere c r).2.Keeps source kept :=
  h.settle h.cursor h.cursor.advance _

theorem Keeps.readAgain (h : s.Keeps source kept) (r : Reader Lexeme) :
    (s.readAgain c r).2.Keeps source kept :=
  h.settle h.tokenStart h.tokenStart.advance _

theorem Keeps.readAfterTrivia (h : s.Keeps source kept)
    (choose : List CodeUnit → Reader Lexeme) :
    (s.readAfterTrivia c choose).2.Keeps source kept := by
  obtain ⟨ts, s₁, hp, hcases⟩ := readAfterTrivia_cases c choose s
  have h₁ := (h.with_flags ∅).passes hp
  rcases hcases with ⟨-, heq⟩ | ⟨-, heq⟩
  · rw [heq]
    exact h₁
  · rw [heq]
    exact h₁.readHere _

theorem Keeps.of_next {r : Except LexError Token} (h : s.Keeps source kept)
    (hnext : s.next c = (r, s')) : s'.Keeps source kept := by
  have hkeeps : (s.next c).2.Keeps source kept := h.readAfterTrivia _
  rwa [hnext] at hkeeps

theorem Keeps.of_continueTemplate {r : Except LexError Token} (h : s.Keeps source kept)
    (htemplate : s.continueTemplate c = (r, s')) : s'.Keeps source kept := by
  have hkeeps : (s.continueTemplate c).2.Keeps source kept := (h.with_flags _).readAgain _
  rwa [htemplate] at hkeeps

theorem Keeps.run (h : s.Keeps source kept) (c : Context) :
    (s.run c).final.Keeps source kept := by
  fun_induction Scanner.run c s with
  | case1 s e s' hnext => exact h.of_next hnext
  | case2 s t s' hnext ht => exact h.of_next hnext
  | case3 s t s' hnext ht ih => exact ih (h.of_next hnext)

/-- A checkpoint that keeps enough comments is a safe place to go back to. -/
theorem Keeps.restore {k : Checkpoint} (h : s.Keeps source kept)
    (hcursor : k.cursor.IsPlaceOf source) (htoken : k.tokenStart.IsPlaceOf source)
    (hcount : kept.length ≤ k.commentCount) : (s.restore k).Keeps source kept := by
  refine ⟨hcursor, htoken, ?_⟩
  show kept <+: (s.comments.take k.commentCount).toList
  rw [Array.take_eq_extract, Array.toList_extract, List.extract_eq_take_drop, List.drop_zero]
  exact List.prefix_take_iff.mpr ⟨h.comments, hcount⟩

/-- **Going back, if nothing was lost of the comments.** -/
theorem restore_checkpoint (h : s.comments.toList <+: s'.comments.toList) :
    s'.restore s.checkpoint = s := by
  have hcomments : s'.comments.take s.comments.size = s.comments := by
    apply Array.toList_inj.mp
    rw [Array.take_eq_extract, Array.toList_extract, List.extract_eq_take_drop, List.drop_zero,
      Nat.sub_zero, ← Array.length_toList]
    exact (List.prefix_iff_eq_take.mp h).symm
  show Scanner.mk s.cursor s.tokenStart s.flags s.lineStart (s'.comments.take s.comments.size) = s
  rw [hcomments]

end Scanner

/-! ## Sessions -/

namespace Session

/-- The session after commands. -/
def afterAll (s : Session) (cmds : List Command) : Session :=
  cmds.foldl (fun s cmd => (s.perform cmd).2) s

/-- The scanner of a session keeps the comments `kept`, and so does every return to a checkpoint
from number `slot` on. -/
structure Keeps (s : Session) (source : List CodeUnit) (slot : Nat) (kept : List Comment) :
    Prop where
  scanner : s.scanner.Keeps source kept
  places : ∀ k ∈ s.saved, k.cursor.IsPlaceOf source ∧ k.tokenStart.IsPlaceOf source
  counts : ∀ (i : Nat) (k : Checkpoint), slot ≤ i → s.saved[i]? = some k →
    kept.length ≤ k.commentCount

variable {source : List CodeUnit} {slot : Nat} {kept : List Comment} {s : Session}

theorem Keeps.of_startingAt (source : List CodeUnit) (start : Location) :
    Keeps ⟨.startingAt source start, #[]⟩ source 0 [] :=
  ⟨.of_startingAt source start, by simp, by simp⟩

/-- **One command.** Comments are only lost by taking them, or by going back too far. -/
theorem Keeps.perform (h : s.Keeps source slot kept) {cmd : Command}
    (hrestore : ∀ i, cmd = .restore i → kept = [] ∨ slot ≤ i)
    (htake : cmd = .takeComments → kept = []) : (s.perform cmd).2.Keeps source slot kept := by
  have hscanner := h.scanner
  cases cmd with
  | next c => exact ⟨hscanner.readAfterTrivia _, h.places, h.counts⟩
  | regExp c =>
    exact ⟨hscanner.settle hscanner.tokenStart hscanner.tokenStart.advancePastOpener _, h.places,
      h.counts⟩
  | template c => exact ⟨(hscanner.with_flags _).readAgain _, h.places, h.counts⟩
  | jsxChild c => exact ⟨(hscanner.with_flags _).readHere _, h.places, h.counts⟩
  | jsxName c => exact ⟨hscanner.readAgain _, h.places, h.counts⟩
  | jsxAttribute c => exact ⟨hscanner.readAfterTrivia _, h.places, h.counts⟩
  | all c => exact ⟨hscanner.run c, h.places, h.counts⟩
  | save =>
    refine ⟨hscanner, ?_, ?_⟩
    · intro k hk
      rcases Array.mem_push.mp hk with hk | rfl
      · exact h.places k hk
      · exact ⟨hscanner.cursor, hscanner.tokenStart⟩
    · intro i k hi hk
      rw [Session.perform, Array.getElem?_push] at hk
      split at hk
      · obtain rfl := Option.some.inj hk
        exact hscanner.comments.length_le
      · exact h.counts i k hi hk
  | restore i =>
    unfold Session.perform
    dsimp only
    split
    · exact h
    · next k hk =>
      obtain ⟨hcursor, htoken⟩ := h.places k (Array.mem_of_getElem? hk)
      refine ⟨hscanner.restore hcursor htoken ?_, h.places, h.counts⟩
      rcases hrestore i rfl with rfl | hi
      · exact Nat.zero_le _
      · exact h.counts i k hi hk
  | comments => exact h
  | takeComments =>
    obtain rfl := htake rfl
    exact ⟨⟨hscanner.cursor, hscanner.tokenStart, List.nil_prefix⟩, h.places, h.counts⟩

/-- **Any number of commands.** -/
theorem Keeps.afterAll (h : s.Keeps source slot kept) {cmds : List Command}
    (hrestore : ∀ i, .restore i ∈ cmds → kept = [] ∨ slot ≤ i)
    (htake : .takeComments ∈ cmds → kept = []) : (s.afterAll cmds).Keeps source slot kept := by
  induction cmds generalizing s with
  | nil => exact h
  | cons cmd cmds ih =>
    have hstep : (s.perform cmd).2.Keeps source slot kept := by
      apply h.perform
      · rintro i rfl
        exact hrestore i List.mem_cons_self
      · rintro rfl
        exact htake List.mem_cons_self
    exact ih hstep (fun i hi => hrestore i (List.mem_cons_of_mem _ hi))
      (fun hi => htake (List.mem_cons_of_mem _ hi))

/-- Checkpoints stay in their slots. -/
theorem getElem?_saved_afterAll {k : Checkpoint} (cmds : List Command)
    (h : s.saved[slot]? = some k) : (s.afterAll cmds).saved[slot]? = some k := by
  induction cmds generalizing s with
  | nil => exact h
  | cons cmd cmds ih =>
    refine ih ?_
    cases cmd with
    | save =>
      have hlt := (Array.getElem?_eq_some_iff.mp h).1
      show (s.saved.push s.scanner.checkpoint)[slot]? = some k
      rw [Array.getElem?_push, if_neg (by omega), h]
    | restore i =>
      unfold Session.perform
      dsimp only
      split <;> exact h
    | _ => exact h

/-- **Going back to a checkpoint undoes everything.** Take any session over a source, save its
scanner, and perform any commands. Going back then gives the same scanner but for its comments; and
if comments were not taken away and no older checkpoint was gone back to, the comments are the same
too, so that all later commands are answered as they would have been. What a scanner holds of the
source is what stands at its offsets. -/
theorem restore_undoes (source : List CodeUnit) (start : Location) (before cmds : List Command) :
    let s := afterAll ⟨.startingAt source start, #[]⟩ before
    let after := (s.perform .save).2.afterAll cmds
    let back := (after.perform (.restore s.saved.size)).2
    s.scanner.cursor.IsPlaceOf source ∧ s.scanner.tokenStart.IsPlaceOf source ∧
      { back.scanner with comments := s.scanner.comments } = s.scanner ∧
      (.takeComments ∉ cmds → (∀ i, .restore i ∈ cmds → s.saved.size ≤ i) →
        back.scanner = s.scanner ∧
        ∀ later, back.performAll later = performAll ⟨s.scanner, after.saved⟩ later) := by
  intro s after back
  have hstart : Keeps ⟨.startingAt source start, #[]⟩ source 0 [] :=
    ⟨⟨.of_startingAt source start, .of_startingAt source start, List.nil_prefix⟩, by simp, by simp⟩
  have hs : s.Keeps source 0 [] := hstart.afterAll (fun _ _ => .inl rfl) (fun _ => rfl)
  have hslot : after.saved[s.saved.size]? = some s.scanner.checkpoint :=
    getElem?_saved_afterAll cmds Array.getElem?_push_size
  have hback : back = ⟨after.scanner.restore s.scanner.checkpoint, after.saved⟩ := by
    show (after.perform (.restore s.saved.size)).2 = _
    simp only [Session.perform, hslot]
  refine ⟨hs.scanner.cursor, hs.scanner.tokenStart, by rw [hback]; rfl, ?_⟩
  intro htake hrestore
  -- right after saving, the scanner and the new checkpoint keep all comments
  have hsaved : (s.perform .save).2.Keeps source s.saved.size s.scanner.comments.toList := by
    refine ⟨⟨hs.scanner.cursor, hs.scanner.tokenStart, List.prefix_refl _⟩, ?_, ?_⟩
    · exact (hs.perform (by simp) (by simp)).places
    · intro i k hi hk
      have hlt : i < (s.saved.push s.scanner.checkpoint).size :=
        (Array.getElem?_eq_some_iff.mp hk).1
      rw [Array.size_push] at hlt
      obtain rfl : i = s.saved.size := by omega
      obtain rfl := Option.some.inj (Array.getElem?_push_size.symm.trans hk)
      exact Nat.le_of_eq Array.length_toList
  have hafter := hsaved.afterAll (fun i hi => .inr (hrestore i hi)) (fun hi => absurd hi htake)
  have hscanner : back.scanner = s.scanner := by
    rw [hback]
    exact Scanner.restore_checkpoint hafter.scanner.comments
  refine ⟨hscanner, ?_⟩
  intro later
  rw [← hscanner, hback]

/-- After a name a comment and a string without an end: the failed call leaves a comment and a place
in the middle of the string, and a checkpoint taken there is gone back to before the older one. -/
theorem restore_undoes_after_error :
    let source : List CodeUnit := [0x61, 0x2F, 0x2A, 0x78, 0x2A, 0x2F, 0x27, 0x62]
    let c : Context := { collectComments := true }
    let cmds : List Command := [.next c, .save, .all c, .restore 2]
    let s := afterAll ⟨.startingAt source .start, #[]⟩ [.save, .next c]
    let after := (s.perform .save).2.afterAll cmds
    .takeComments ∉ cmds ∧ (∀ i, .restore i ∈ cmds → s.saved.size ≤ i) ∧
      after.scanner.comments.size = 1 ∧ after.scanner.cursor.rest = [] ∧
      (after.perform (.restore s.saved.size)).2.scanner = s.scanner := by
  intro source c cmds s after
  have htake : .takeComments ∉ cmds := by decide
  have hrestore : ∀ i, .restore i ∈ cmds → s.saved.size ≤ i := by
    have hsize : s.saved.size = 1 := by decide +kernel
    intro i hi
    obtain rfl : i = 2 := by simpa [cmds] using hi
    omega
  exact ⟨htake, hrestore, by decide +kernel, by decide +kernel,
    ((restore_undoes source .start [.save, .next c] cmds).2.2.2 htake hrestore).1⟩

end Session

end EcmaLex
