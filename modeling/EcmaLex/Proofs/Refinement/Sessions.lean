import EcmaLex.Proofs.CursorSafety
import EcmaLex.Proofs.Refinement.Calls

/-!
# Sessions on machine words

What is true of sessions of a scanner is true of sessions of a machine, because a machine answers
as a scanner does.

* `Machine.Session.locations_isCounted`: all loops of the machine taken together keep lines and
  columns right, although each of them decides for itself how it moves.
* `Machine.Session.performAll_isSafe`: no command gets stuck while there is room in the words. No
  slice and no difference is out of range then, no sum overflows, and all loops end.
-/

namespace EcmaLex

open Text

/-! ## Locations in words -/

/-- A location in a scan of `source` from `start` on, as words hold it: its line and its column are
the low bits of those that counting gives. -/
structure Location.IsCountedInWords (l : Location) (source : List CodeUnit) (start : Location) :
    Prop where
  start_le : min start.offset source.length ≤ l.offset
  le_length : l.offset ≤ source.length
  line_eq : l.line =
    (start.line + (lineEnds (source.extract (min start.offset source.length) l.offset)).length) %
      UInt32.size
  column_eq : l.column =
    lastColumn start.column (source.extract (min start.offset source.length) l.offset) %
      UInt32.size

namespace Location

variable {l start : Location} {source : List CodeUnit}

theorem IsCounted.wrap (h : l.IsCounted source start) : l.wrap.IsCountedInWords source start := by
  refine ⟨h.start_le, h.le_length, ?_, ?_⟩
  · show (UInt32.ofNat l.line).toNat = _
    rw [UInt32.toNat_ofNat', h.line_eq]
    rfl
  · show (UInt32.ofNat l.column).toNat = _
    rw [UInt32.toNat_ofNat', h.column_eq]
    rfl

theorem IsCounted.inRange (h : l.IsCounted source start) : l.InRange source start := by
  have hlength : (source.extract (min start.offset source.length) l.offset).length ≤
      source.length := by
    rw [List.extract_eq_take_drop, List.length_take, List.length_drop]
    omega
  have hline := (start.line_after_le (source.extract (min start.offset source.length) l.offset)).2
  have hcolumn := start.column_after_le (source.extract (min start.offset source.length) l.offset)
  rw [Location.after_eq] at hline hcolumn
  dsimp only at hline hcolumn
  rw [← h.line_eq] at hline
  rw [← h.column_eq] at hcolumn
  exact ⟨by omega, by omega, h.le_length⟩

/-- A location that is not too far from the start is in words what it is. -/
theorem InRange.wrap_eq (h : l.InRange source start)
    (hline : start.line + source.length < UInt32.size)
    (hcolumn : start.column + source.length < UInt32.size) : l.wrap = l := by
  have hl := h.line_le
  have hc := h.column_le
  exact Location.wrap_eq (by omega) (by omega)

end Location

namespace Reply

/-- The locations of a reply in words. -/
theorem locations_wrap (r : Reply) : r.wrap.locations = r.locations.map Location.wrap := by
  have htoken (t : Token) : t.wrap.locations = t.locations.map Location.wrap := by
    unfold Token.wrap Token.locations
    cases t.endLocation <;> rfl
  cases r with
  | token r =>
    cases r with
    | ok t => exact htoken t
    | error e => rfl
  | tokens r =>
    cases r with
    | ok ts =>
      show (ts.map Token.wrap).flatMap Token.locations = (ts.flatMap Token.locations).map _
      rw [List.flatMap_map, List.map_flatMap]
      simp only [htoken]
    | error e => rfl
  | comments ks =>
    show (ks.map Comment.wrap).toList.flatMap _ = (ks.toList.flatMap _).map _
    rw [Array.toList_map, List.flatMap_map, List.map_flatMap]
    rfl
  | saved _ => rfl
  | restored _ => rfl
  | noSuchSlot => rfl

/-- A reply whose locations words hold is in words what it is. -/
theorem wrap_eq {r : Reply} (h : ∀ l ∈ r.locations, l.wrap = l) : r.wrap = r := by
  have htoken (t : Token) (ht : ∀ l ∈ t.locations, l.wrap = l) : t.wrap = t := by
    have hstart := ht t.start List.mem_cons_self
    have hend : t.endLocation.map Location.wrap = t.endLocation := by
      cases hl : t.endLocation with
      | none => rfl
      | some l => exact congrArg some (ht l (by simp [Token.locations, hl]))
    unfold Token.wrap
    rw [hstart, hend]
  have herror (e : LexError) (he : e.location.wrap = e.location) : e.wrap = e := by
    show ({ e with location := e.location.wrap } : LexError) = e
    rw [he]
  cases r with
  | token r =>
    cases r with
    | ok t => exact congrArg (Reply.token <| .ok ·) (htoken t h)
    | error e => exact congrArg (Reply.token <| .error ·) (herror e (h _ List.mem_cons_self))
  | tokens r =>
    cases r with
    | ok ts =>
      have hts : ts.map Token.wrap = ts := by
        refine (List.map_congr_left fun t ht => htoken t fun l hl => h l ?_).trans ts.map_id'
        exact List.mem_flatMap.mpr ⟨t, ht, hl⟩
      exact congrArg (Reply.tokens <| .ok ·) hts
    | error e => exact congrArg (Reply.tokens <| .error ·) (herror e (h _ List.mem_cons_self))
  | comments ks =>
    have hks : ks.map Comment.wrap = ks := by
      refine (Array.map_congr_left fun k hk => ?_).trans ks.map_id'
      have hmem (l : Location) (hl : l ∈ [k.start, k.stop]) : l.wrap = l :=
        h l (List.mem_flatMap.mpr ⟨k, Array.mem_toList_iff.mpr hk, hl⟩)
      show ({ k with start := k.start.wrap, stop := k.stop.wrap } : Comment) = k
      rw [hmem k.start (by simp), hmem k.stop (by simp)]
    exact congrArg Reply.comments hks
  | saved _ => rfl
  | restored _ => rfl
  | noSuchSlot => rfl

end Reply

/-! ## Sessions -/

namespace Machine

/-- The locations that a machine holds: those of its cursor and of its comments. -/
def locations (m : Machine) : List Location :=
  m.location :: m.comments.toList.flatMap fun k => [k.start, k.stop]

theorem locations_image (b : Build) (source : List CodeUnit) (s : Scanner) :
    (image b source s).locations =
      (s.cursor.location :: (Reply.comments s.comments).locations).map Location.wrap := by
  rw [List.map_cons, ← Reply.locations_wrap]
  rfl

/-- A machine whose indices lie inside its source. -/
structure Safe (source : List CodeUnit) (start : Location) (m : Machine) : Prop where
  source_eq : m.source = source
  tokenStart_le : m.tokenStart ≤ m.index
  index_le : m.index ≤ source.length
  /-- The unit that is kept is the one at the index. -/
  current : m.current = m.charAt m.index
  /-- There is none exactly at the end. -/
  isAtEnd_iff : m.isAtEnd = true ↔ m.index = source.length
  inRange : m.location.InRange source start ∧ m.tokenLocation.InRange source start
  comments : ∀ k ∈ m.comments, k.IsSlice source

theorem charAt_eq_endOfSource_iff {m : Machine} {i : Nat} :
    m.charAt i = CodePoint.endOfSource ↔ m.source.length ≤ i := by
  unfold charAt
  cases hi : m.source[i]? with
  | none => simpa using List.getElem?_eq_none_iff.mp hi
  | some u =>
    have hlt := (List.getElem?_eq_some_iff.mp hi).1
    have hne : u.toNat ≠ CodePoint.endOfSource := toNat_ne_endOfSource u
    simpa [hne] using hlt

/-- The image of a scanner inside the source, where there is room in the words. -/
theorem safe_image {source : List CodeUnit} {start : Location} {s : Scanner} (b : Build)
    (h : s.Safe source start) (hline : start.line + source.length < UInt32.size)
    (hcolumn : start.column + source.length < UInt32.size) :
    (image b source s).Safe source start ∧ (image b source s).location = s.cursor.location := by
  have hcursor := h.inRange.1.wrap_eq hline hcolumn
  have htoken := h.inRange.2.wrap_eq hline hcolumn
  have hle := h.isPlaceOf.offset_le
  have hcurrent : unitAt s.cursor.rest = (image b source s).charAt s.cursor.location.offset := by
    rw [unitAt, h.isPlaceOf.rest_eq, List.head?_drop]
    rfl
  refine ⟨⟨rfl, h.tokenStart_le, hle, hcurrent, ?_, ⟨?_, ?_⟩, ?_⟩, hcursor⟩
  · have hend : (image b source s).charAt s.cursor.location.offset = CodePoint.endOfSource ↔
        source.length ≤ s.cursor.location.offset := charAt_eq_endOfSource_iff
    show (unitAt s.cursor.rest == CodePoint.endOfSource) = true ↔
      s.cursor.location.offset = source.length
    rw [beq_iff_eq, hcurrent, hend]
    omega
  · show s.cursor.location.wrap.InRange source start
    rw [hcursor]
    exact h.inRange.1
  · show s.tokenStart.location.wrap.InRange source start
    rw [htoken]
    exact h.inRange.2
  · intro k hk
    obtain ⟨k, hmem, rfl⟩ := Array.mem_map.mp hk
    obtain ⟨hdelimiters, hstop, htext⟩ := h.comments k hmem
    exact ⟨hdelimiters, hstop, htext⟩

namespace Session

/-- Regular expression rescans are only made where the last token starts with a slash. -/
def RegExpsAtSlashes (s : Session) : List Command → Prop
  | [] => True
  | cmd :: cmds =>
    (∀ c, cmd = .regExp c → s.machine.source[s.machine.tokenStart]? = some CodeUnit.slash) ∧
      ∀ reply s', s.perform cmd = some (reply, s') → s'.RegExpsAtSlashes cmds

variable {b : Build} {source : List CodeUnit} {s : EcmaLex.Session} {a : Cursor}

/-- A machine reads regular expressions again where its scanner does. -/
theorem regExpsAtSlashes_image (h : s.Follows a) (ha : (Machine.image b source s.scanner).Admits a)
    (cmds : List Command) :
    RegExpsAtSlashes (s.image b source) cmds ↔ s.RegExpsAtSlashes cmds := by
  induction cmds generalizing s with
  | nil => exact Iff.rfl
  | cons cmd cmds ih =>
    have hplace := (ha.of_reaches h.scanner.tokenStart).place
    have hunit : source[s.scanner.tokenStart.location.offset]? =
        s.scanner.tokenStart.rest.head? := by
      rw [hplace.rest_eq, List.head?_drop]
      rfl
    have hstep := ih (h.perform cmd).1 ha.image
    have hperform := EcmaLex.Session.perform_image h ha cmd
    show (∀ c, cmd = .regExp c → source[s.scanner.tokenStart.location.offset]? = _) ∧ _ ↔ _ ∧ _
    rw [hunit, ← hstep, hperform]
    refine and_congr_right fun _ => ⟨fun hrest => hrest _ _ rfl, ?_⟩
    rintro hrest reply s' heq
    obtain ⟨-, rfl⟩ := Prod.mk.inj (Option.some.inj heq)
    exact hrest

/-- A session from the start of a scan, in words. -/
theorem image_startingAt (b : Build) (source : List CodeUnit) (line column : UInt32)
    (offset : Nat) :
    EcmaLex.Session.image b source
      ⟨.startingAt source ⟨line.toNat, column.toNat, offset⟩, #[]⟩ =
        ⟨startingAt b source line column offset, #[]⟩ := by
  show Session.mk (Machine.image b source _) (#[].map _) = _
  rw [Machine.image_startingAt, Array.map_empty]

/-- **A session in words**, from the start of a scan. Every command is answered. -/
theorem performAll_image_startingAt {line column : UInt32} (offset : Nat) (cmds : List Command)
    (hroom : b = .checked → Room source line column) :
    performAll ⟨startingAt b source line column offset, #[]⟩ cmds =
      some ((EcmaLex.Session.performAll
        ⟨.startingAt source ⟨line.toNat, column.toNat, offset⟩, #[]⟩ cmds).map fun r =>
          (r.1.wrap, Machine.image b source r.2)) := by
  rw [← image_startingAt]
  exact EcmaLex.Session.performAll_image (EcmaLex.Session.follows_startingAt source _)
    (admits_startingAt offset hroom) cmds

/-- **Wherever a session comes to, all calls are answered** as the scanner there answers them. -/
theorem ready_of_performAll {line column : UInt32} {offset : Nat} {cmds : List Command}
    {replies : List (Reply × Machine)} (hroom : b = .checked → Room source line column)
    (h : performAll ⟨startingAt b source line column offset, #[]⟩ cmds = some replies) :
    ∀ r ∈ replies, r.2.Ready := by
  have hstart := admits_startingAt offset hroom
  rw [performAll_image_startingAt offset cmds hroom] at h
  obtain rfl := Option.some.inj h
  intro r hr
  obtain ⟨r, hmem, rfl⟩ := List.mem_map.mp hr
  have hfollows :=
    ((EcmaLex.Session.follows_startingAt source _).performAll cmds r hmem).1
  have hcursor := hstart.of_reaches hfollows.reaches_cursor
  have htoken := hstart.of_reaches hfollows.tokenStart
  exact ready_image hcursor.image htoken.image

/-- **Positions are tracked exactly.** Scan a source from any location on, with any commands,
whether they succeed or fail. After each of them the machine stands at the line and the column that
counting the line ends gives, as far as words hold them, and so do all collected comments, and all
tokens, ends of tokens and errors replied. Where lines and columns have room in their words, they
are the counted ones. -/
theorem locations_isCounted (b : Build) (source : List CodeUnit) (line column : UInt32)
    (offset : Nat) (cmds : List Command) (hroom : b = .checked → Room source line column)
    (hslashes : RegExpsAtSlashes ⟨startingAt b source line column offset, #[]⟩ cmds) :
    let start : Location := ⟨line.toNat, column.toNat, offset⟩
    ∃ replies, performAll ⟨startingAt b source line column offset, #[]⟩ cmds = some replies ∧
      replies.length = cmds.length ∧
      ∀ r ∈ replies, ∀ l ∈ r.2.locations ++ r.1.locations,
        l.IsCountedInWords source start ∧
        (start.line + source.length < UInt32.size → start.column + source.length < UInt32.size →
          l.IsCounted source start) := by
  intro start
  have hfollows := EcmaLex.Session.follows_startingAt source start
  rw [← image_startingAt, regExpsAtSlashes_image hfollows (admits_startingAt offset hroom)]
    at hslashes
  have hcounted := EcmaLex.Session.isCounted_of_performAll source start cmds hslashes
  obtain ⟨hlength, hsafe⟩ := hfollows.performAll_safe cmds
  refine ⟨_, performAll_image_startingAt offset cmds hroom, ?_, ?_⟩
  · rw [List.length_map, hlength]
  intro r hr l hl
  obtain ⟨r, hmem, rfl⟩ := List.mem_map.mp hr
  obtain ⟨hcursor, -, hcomments, hreply⟩ := hcounted r hmem
  -- a location in words comes from one of the scanner, or of its reply
  rw [locations_image, Reply.locations_wrap, ← List.map_append] at hl
  obtain ⟨l, hfrom, rfl⟩ := List.mem_map.mp hl
  have hl : l.IsCounted source start := by
    rcases List.mem_append.mp hfrom with hl | hl
    · rcases List.mem_cons.mp hl with rfl | hl
      · exact hcursor
      · obtain ⟨k, hk, hl⟩ := List.mem_flatMap.mp hl
        have hk := hcomments k (Array.mem_toList_iff.mp hk)
        simp only [List.mem_cons, List.not_mem_nil, or_false] at hl
        rcases hl with rfl | rfl
        · exact hk.1
        · exact hk.2
    · exact hreply l hl
  refine ⟨hl.wrap, fun hline hcolumn => ?_⟩
  rw [hl.inRange.wrap_eq hline hcolumn]
  exact hl

/-- A name, a line end of two units, and a slash that is read again as a regular expression; then
back behind the name and on to the end. The scan starts in the middle of a line. -/
theorem locations_isCounted_rescan :
    let source : List CodeUnit := [0x61, 0x0D, 0x0A, 0x2F, 0x62, 0x2F, 0x67, 0x2028, 0x63]
    let cmds : List Command :=
      [.next {}, .save, .next {}, .regExp { locations := true }, .restore 0, .all {}]
    RegExpsAtSlashes ⟨startingAt .checked source 7 4 0, #[]⟩ cmds ∧
      ∃ replies, performAll ⟨startingAt .checked source 7 4 0, #[]⟩ cmds = some replies ∧
        replies.length = 6 ∧
        ∀ r ∈ replies, ∀ l ∈ r.2.locations ++ r.1.locations, l.IsCounted source ⟨7, 4, 0⟩ := by
  intro source cmds
  have hroom : Room source 7 4 := ⟨by decide, by decide, by decide⟩
  have hslashes : RegExpsAtSlashes ⟨startingAt .checked source 7 4 0, #[]⟩ cmds := by
    rw [← image_startingAt, regExpsAtSlashes_image (EcmaLex.Session.follows_startingAt source _)
      (admits_startingAt 0 fun _ => hroom)]
    refine ⟨by simp, by simp, by simp, fun _ _ => ?_, by simp, by simp, trivial⟩
    decide +kernel
  obtain ⟨replies, hreplies, hlength, hcounted⟩ :=
    locations_isCounted .checked source 7 4 0 cmds (fun _ => hroom) hslashes
  refine ⟨hslashes, replies, hreplies, hlength, ?_⟩
  intro r hr l hl
  exact (hcounted r hr l hl).2 hroom.line hroom.column

/-- The differences that no routine looks at, since a test stands right in front of them: the value
of a unit as a digit, and the halves of a code point in two units. -/
structure DifferencesAreExact : Prop where
  digit {r : Radix} {u : CodeUnit} {d : Nat} : r.digit? u = some d →
    u.toNat = 0x30 + d ∨ ∃ k, d = k + 10 ∧ (u.toNat = 0x61 + k ∨ u.toNat = 0x41 + k)
  encode {c : CodePoint} : 0xFFFF < c → ∃ n, c = 0x10000 + n ∧
    c.encode = [UInt16.ofNat (0xD800 + n / 0x400), UInt16.ofNat (0xDC00 + n % 0x400)]

theorem differencesAreExact : DifferencesAreExact where
  digit {r u d} h := by
    have h := (Option.filter_eq_some_iff.mp h).1
    unfold CodeUnit.hexDigit? at h
    simp only [Bool.and_eq_true, decide_eq_true_eq, UInt16.le_iff_toNat_le,
      UInt16.reduceToNat] at h
    split at h
    · next hdigit =>
      obtain rfl := Option.some.inj h
      exact .inl (by omega)
    split at h
    · next hletter =>
      obtain rfl := Option.some.inj h
      exact .inr ⟨u.toNat - 0x61, rfl, .inl (by omega)⟩
    split at h
    · next hletter =>
      obtain rfl := Option.some.inj h
      exact .inr ⟨u.toNat - 0x41, rfl, .inr (by omega)⟩
    · simp at h
  encode {c} hc := by
    have hc' : (0x10000 : Nat) ≤ c := hc
    refine ⟨c - 0x10000, (Nat.add_sub_cancel' hc').symm, ?_⟩
    rw [CodePoint.encode, if_pos hc]

/-- **Scanning is safe.** Every command of every session is answered where lines, columns and
counters have room in their words. So no command gets stuck: no slice and no difference of indices
is out of range, no sum overflows, and every loop comes to its end. After each command the machine
stands inside the source with the unit that the source has there, all parts of the reply lie inside
the source, and the error, if there is one, is justified. The differences of values that a routine
takes without a look are exact as well. -/
theorem performAll_isSafe (b : Build) (source : List CodeUnit) (line column : UInt32)
    (offset : Nat) (cmds : List Command) (hroom : Room source line column) :
    let start : Location := ⟨line.toNat, column.toNat, offset⟩
    (∃ replies, performAll ⟨startingAt b source line column offset, #[]⟩ cmds = some replies ∧
      replies.length = cmds.length ∧
      ∀ r ∈ replies, r.2.Safe source start ∧ r.1.Safe source start r.2.location) ∧
    DifferencesAreExact := by
  intro start
  refine ⟨?_, differencesAreExact⟩
  obtain ⟨hlength, hsafe⟩ :=
    (EcmaLex.Session.follows_startingAt source start).performAll_safe cmds
  refine ⟨_, performAll_image_startingAt offset cmds fun _ => hroom, ?_, ?_⟩
  · rw [List.length_map, hlength]
  intro r hr
  obtain ⟨r, hmem, rfl⟩ := List.mem_map.mp hr
  obtain ⟨hscanner, hreply⟩ := hsafe r hmem
  obtain ⟨hmachine, hlocation⟩ := safe_image b hscanner hroom.line hroom.column
  refine ⟨hmachine, ?_⟩
  rw [hlocation, Reply.wrap_eq fun l hl => (hreply.inRange l hl).wrap_eq hroom.line hroom.column]
  exact hreply

/-- Rescans in front of the first token, after an error and at the end, each of them an error, and a
number with a separator at its end. -/
theorem performAll_isSafe_rescans :
    let source : List CodeUnit := [0x31, 0x5F]
    let cmds : List Command := [.regExp {}, .template {}, .jsxName {}, .save,
      .next { next := true }, .regExp {}, .restore 0, .all {}, .template {}]
    Room source 1 0 ∧
      ∃ replies, performAll ⟨startingAt .checked source 1 0 0, #[]⟩ cmds = some replies ∧
        replies.length = 9 ∧ ∀ r ∈ replies, r.2.index ≤ 2 ∧
          ∀ e, r.1.error? = some e → e.cause ≠ .invalidNumericLiteral := by
  intro source cmds
  have hroom : Room source 1 0 := ⟨by decide, by decide, by decide⟩
  obtain ⟨⟨replies, hreplies, hlength, hsafe⟩, -⟩ :=
    performAll_isSafe .checked source 1 0 0 cmds hroom
  refine ⟨hroom, replies, hreplies, hlength, ?_⟩
  intro r hr
  obtain ⟨hmachine, hreply⟩ := hsafe r hr
  exact ⟨hmachine.index_le, fun e he => (hreply.error he).cause_ne⟩

end Session

end Machine

end EcmaLex
