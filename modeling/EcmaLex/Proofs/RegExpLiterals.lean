import EcmaLex.Proofs.Calls
import EcmaLex.Proofs.CodePoints
import EcmaLex.Proofs.ReaderBounds
import EcmaLex.Proofs.StableTokens
import EcmaLex.Proofs.TriviaGrammar

/-!
# Regular expression literals

A pattern is delimited and not parsed. What delimits it is an automaton with two states, inside and
outside of a class, in which a backslash hides the unit behind it: the pattern ends at the first
slash that the automaton meets outside and not hidden, and no line may end before. The flags are the
identifier parts that follow, all of them.

* `RegExp.pattern_eq_ok_iff`: the pattern that is read is the delimited one.
* `RegExp.flags_eq_ok_iff`: flags are read exactly if they are proper.
* `Scanner.next_iff_delimits`: literals as tokens.
* `Scanner.rescanRegExp_eq_next`: a slash that is read again as a literal gives what would have been
  read if a literal had been asked for at once.
-/

namespace EcmaLex

namespace RegExp

/-! ## Patterns -/

/-- Where the automaton stands: in a class or not, and whether the next unit is hidden by a
backslash. -/
structure State where
  inClass : Bool
  hidden : Bool
  deriving DecidableEq, Repr

/-- One unit. A hidden one changes nothing but that the next is not hidden. -/
def State.step (q : State) (u : CodeUnit) : State :=
  if q.hidden then { q with hidden := false }
  else if u = CodeUnit.backslash then { q with hidden := true }
  else if u = CodeUnit.leftBracket then { q with inClass := true }
  else if u = CodeUnit.rightBracket then { q with inClass := false }
  else q

/-- The state in which a slash ends the pattern, and in which the automaton begins. -/
def State.outside : State := ⟨false, false⟩

/-- From the state `q` on, the automaton meets a slash at a position of the text that ends the
pattern. -/
def EndsAt (q : State) (text : List CodeUnit) (n : Nat) : Prop :=
  text[n]? = some CodeUnit.slash ∧ (text.take n).foldl State.step q = .outside

/-- From the state `q` on, the pattern at the beginning of the text has the length `n`: there it
ends, not before, and on the same line. -/
structure Delimits (q : State) (text : List CodeUnit) (n : Nat) : Prop where
  endsAt : EndsAt q text n
  first : ∀ m < n, ¬EndsAt q text m
  inLine : ∀ u ∈ text.take n, u.isLineTerminator = false

theorem not_delimits_nil (q : State) (n : Nat) : ¬Delimits q [] n := by
  intro h
  have := h.endsAt.1
  simp at this

theorem endsAt_zero_iff {q : State} {u : CodeUnit} {rest : List CodeUnit} :
    EndsAt q (u :: rest) 0 ↔ u = CodeUnit.slash ∧ q = .outside := by
  simp [EndsAt]

theorem endsAt_succ_iff {q : State} {u : CodeUnit} {rest : List CodeUnit} {n : Nat} :
    EndsAt q (u :: rest) (n + 1) ↔ EndsAt (q.step u) rest n := by
  simp [EndsAt]

theorem delimits_zero_iff {q : State} {u : CodeUnit} {rest : List CodeUnit} :
    Delimits q (u :: rest) 0 ↔ u = CodeUnit.slash ∧ q = .outside := by
  rw [← @endsAt_zero_iff q u rest]
  exact ⟨Delimits.endsAt, fun h => ⟨h, by simp, by simp⟩⟩

/-- One unit of a pattern. -/
theorem delimits_succ_iff {q : State} {u : CodeUnit} {rest : List CodeUnit} {n : Nat} :
    Delimits q (u :: rest) (n + 1) ↔
      u.isLineTerminator = false ∧ ¬(u = CodeUnit.slash ∧ q = .outside) ∧
        Delimits (q.step u) rest n := by
  constructor
  · intro h
    have hline := h.inLine
    rw [List.take_succ_cons, List.forall_mem_cons] at hline
    refine ⟨hline.1, ?_, endsAt_succ_iff.mp h.endsAt, ?_, hline.2⟩
    · rw [← @endsAt_zero_iff q u rest]
      exact h.first 0 (Nat.succ_pos n)
    · intro m hm
      rw [← endsAt_succ_iff]
      exact h.first (m + 1) (Nat.succ_lt_succ hm)
  · rintro ⟨hu, hnot, h⟩
    refine ⟨endsAt_succ_iff.mpr h.endsAt, ?_, ?_⟩
    · intro m hm
      cases m with
      | zero => rwa [endsAt_zero_iff]
      | succ m =>
        rw [endsAt_succ_iff]
        exact h.first m (Nat.lt_of_succ_lt_succ hm)
    · rw [List.take_succ_cons, List.forall_mem_cons]
      exact ⟨hu, h.inLine⟩

/-- A unit that is neither hidden, nor a backslash, nor the end of the pattern. -/
theorem delimits_plain_iff {inClass : Bool} {u : CodeUnit} {rest : List CodeUnit} {n : Nat}
    (hline : u.isLineTerminator = false) (hescape : u ≠ CodeUnit.backslash)
    (hend : ¬(u = CodeUnit.slash ∧ inClass = false)) :
    Delimits ⟨inClass, false⟩ (u :: rest) n ↔
      ∃ k, n = k + 1 ∧ Delimits
        ⟨u == CodeUnit.leftBracket || (inClass && u != CodeUnit.rightBracket), false⟩ rest k := by
  have hstep : (State.mk inClass false).step u =
      ⟨u == CodeUnit.leftBracket || (inClass && u != CodeUnit.rightBracket), false⟩ := by
    simp only [State.step, Bool.false_eq_true, if_false, if_neg hescape]
    by_cases hleft : u = CodeUnit.leftBracket
    · rw [if_pos hleft, beq_iff_eq.mpr hleft, Bool.true_or]
    · rw [if_neg hleft, beq_eq_false_iff_ne.mpr hleft, Bool.false_or]
      by_cases hright : u = CodeUnit.rightBracket
      · rw [if_pos hright, bne, beq_iff_eq.mpr hright, Bool.not_true, Bool.and_false]
      · rw [if_neg hright, bne, beq_eq_false_iff_ne.mpr hright, Bool.not_false, Bool.and_true]
  have hend' : ¬(u = CodeUnit.slash ∧ State.mk inClass false = .outside) := by
    simpa [State.outside] using hend
  cases n with
  | zero => simp [delimits_zero_iff, hend']
  | succ n => simp [delimits_succ_iff, hline, hend', hstep]

/-- A backslash, and the unit that it hides. -/
theorem delimits_hidden_iff {inClass : Bool} {v : CodeUnit} {rest : List CodeUnit} {n : Nat} :
    Delimits ⟨inClass, false⟩ (CodeUnit.backslash :: v :: rest) n ↔
      ∃ k, n = k + 2 ∧ v.isLineTerminator = false ∧ Delimits ⟨inClass, false⟩ rest k := by
  have hline : CodeUnit.backslash.isLineTerminator = false := by decide
  have hslash : CodeUnit.backslash ≠ CodeUnit.slash := by decide
  have hhides : (State.mk inClass false).step CodeUnit.backslash = ⟨inClass, true⟩ := rfl
  have hhidden : (State.mk inClass true).step v = ⟨inClass, false⟩ := rfl
  have hinside : State.mk inClass true ≠ .outside := by simp [State.outside]
  match n with
  | 0 => simp [delimits_zero_iff, hslash]
  | 1 => simp [delimits_succ_iff, delimits_zero_iff, hhides, hinside]
  | k + 2 => simp [delimits_succ_iff, hline, hslash, hhides, hhidden, hinside]

/-- No pattern goes on where its line ends. -/
theorem not_delimits_of_isLineTerminator {q : State} {u : CodeUnit} {rest : List CodeUnit}
    {n : Nat} (hu : u.isLineTerminator = true) : ¬Delimits q (u :: rest) n := by
  intro h
  cases n with
  | zero =>
    rw [(delimits_zero_iff.mp h).1] at hu
    exact absurd hu (by decide)
  | succ n =>
    rw [(delimits_succ_iff.mp h).1] at hu
    exact absurd hu (by decide)

/-- **The pattern that is read is the one that is delimited.** -/
theorem pattern_eq_ok_iff {inClass : Bool} {text : List CodeUnit} {n : Nat} :
    pattern inClass text = .ok n ↔ Delimits ⟨inClass, false⟩ text n := by
  fun_induction pattern inClass text generalizing n with
  | case1 inClass => simp [not_delimits_nil]
  | case2 inClass u rest hline => simp [not_delimits_of_isLineTerminator hline]
  | case3 inClass hline =>
    -- the backslash has nothing to hide
    cases n with
    | zero => exact iff_of_false (by simp) fun h => absurd (delimits_zero_iff.mp h).1 (by decide)
    | succ n => simp [delimits_succ_iff, not_delimits_nil]
  | case4 inClass v rest hv hline => simp [delimits_hidden_iff, hv]
  | case5 inClass v rest hv k hk hline ih =>
    rw [Bool.not_eq_true] at hv
    simp [delimits_hidden_iff, ← ih, hk, hv, eq_comm]
  | case6 inClass v rest hv k hk hline ih => simp [delimits_hidden_iff, ← ih, hk]
  | case7 inClass u rest hline hescape hend =>
    have hstate : State.mk inClass false = .outside := by rw [hend.2]; rfl
    cases n with
    | zero => simp [delimits_zero_iff, hend.1, hstate]
    | succ n => simp [delimits_succ_iff, hend.1, hstate]
  | case8 inClass u rest hline hescape hend inClass' k hk =>
    rename_i ih
    have hplain : Delimits _ (u :: rest) n ↔ ∃ k, n = k + 1 ∧ Delimits ⟨inClass', false⟩ rest k :=
      delimits_plain_iff (by simpa using hline) hescape hend
    simp [hplain, ← ih, hk, eq_comm]
  | case9 inClass u rest hline hescape hend inClass' k hk =>
    rename_i ih
    have hplain : Delimits _ (u :: rest) n ↔ ∃ k, n = k + 1 ∧ Delimits ⟨inClass', false⟩ rest k :=
      delimits_plain_iff (by simpa using hline) hescape hend
    simp [hplain, ← ih, hk]

/-! ## Flags -/

/-- The identifier parts that the text begins with, all of them, are the characters `fs`, and no
backslash comes next. -/
structure FlagRun (text : List CodeUnit) (fs : List Char) : Prop where
  run_eq : (Utf16.codePoints text).takeWhile CodePoint.isIdentifierPart = fs.map Char.toNat
  ends : ((Utf16.codePoints text).dropWhile CodePoint.isIdentifierPart).head? ≠
    some CodeUnit.backslash.toNat

/-- The text begins with the flags `fs`. Each is one of the letters, none comes twice, and `u` and
`v` exclude each other. -/
structure ProperFlags (text : List CodeUnit) (fs : List Char) : Prop extends FlagRun text fs where
  letters : ∀ f ∈ fs, f ∈ ['d', 'g', 'i', 'm', 's', 'u', 'v', 'y']
  distinct : fs.Nodup
  exclusive : ¬('u' ∈ fs ∧ 'v' ∈ fs)

section FlagRun
variable {text : List CodeUnit} {c : CodePoint} {width : Nat} {fs : List Char}

theorem flagRun_nil_iff : FlagRun [] fs ↔ fs = [] := by
  constructor
  · intro h
    simpa [Utf16.codePoints, eq_comm] using h.run_eq
  · rintro rfl
    exact ⟨rfl, by simp [Utf16.codePoints]⟩

theorem flagRun_iff_of_not_part (hhead : Utf16.head? text = some (c, width))
    (hc : c.isIdentifierPart = false) :
    FlagRun text fs ↔ fs = [] ∧ c ≠ CodeUnit.backslash.toNat := by
  have hnot : ¬c.isIdentifierPart = true := by simp [hc]
  have htake := List.takeWhile_cons_of_neg (l := Utf16.codePoints (text.drop width)) hnot
  have hdrop := List.dropWhile_cons_of_neg (l := Utf16.codePoints (text.drop width)) hnot
  constructor
  · rintro ⟨hrun, hends⟩
    rw [Utf16.codePoints_of_head? hhead] at hrun hends
    rw [htake] at hrun
    rw [hdrop] at hends
    exact ⟨by simpa [eq_comm] using hrun, by simpa using hends⟩
  · rintro ⟨rfl, hne⟩
    refine ⟨?_, ?_⟩
    · rw [Utf16.codePoints_of_head? hhead, htake]
      rfl
    · rw [Utf16.codePoints_of_head? hhead, hdrop]
      simpa using hne

theorem flagRun_iff_of_part (hhead : Utf16.head? text = some (c, width))
    (hc : c.isIdentifierPart = true) :
    FlagRun text fs ↔ ∃ f fs', fs = f :: fs' ∧ f.toNat = c ∧ FlagRun (text.drop width) fs' := by
  have htake := List.takeWhile_cons_of_pos (l := Utf16.codePoints (text.drop width)) hc
  have hdrop := List.dropWhile_cons_of_pos (l := Utf16.codePoints (text.drop width)) hc
  constructor
  · rintro ⟨hrun, hends⟩
    rw [Utf16.codePoints_of_head? hhead] at hrun hends
    rw [htake] at hrun
    rw [hdrop] at hends
    obtain ⟨f, fs', rfl, hf, hfs⟩ := List.map_eq_cons_iff.mp hrun.symm
    exact ⟨f, fs', rfl, hf, hfs.symm, hends⟩
  · rintro ⟨f, fs', rfl, hf, hrun, hends⟩
    refine ⟨?_, ?_⟩
    · rw [Utf16.codePoints_of_head? hhead, htake, hrun, List.map_cons, hf]
    · rw [Utf16.codePoints_of_head? hhead, hdrop]
      exact hends

end FlagRun

/-- A letter that is a flag is one unit, which is its own code point. -/
theorem toNat_of_isFlag {u : CodeUnit} {rest : List CodeUnit} {c : CodePoint} {width : Nat}
    (hhead : Utf16.head? (u :: rest) = some (c, width)) (hflag : isFlag c.toChar = true) :
    c.toChar.toNat = c ∧ width = 1 := by
  have hreplacement : c.toChar ≠ '\uFFFD' := by
    intro h
    rw [h] at hflag
    exact absurd hflag (by decide)
  obtain ⟨d, hd⟩ := @width_of_isFlag u rest (by rwa [Lexeme.offender, hhead])
  rw [hhead] at hd
  exact ⟨CodePoint.toNat_of_toChar rfl hreplacement, (Prod.mk.inj (Option.some.inj hd)).2⟩

section Flags
variable {seen : List Char} {u : CodeUnit} {rest : List CodeUnit} {c : CodePoint} {width : Nat}
  {x : Reading (List Char)}

/-- No flags follow where no identifier part does. -/
theorem flags_of_not_part (hhead : Utf16.head? (u :: rest) = some (c, width))
    (hc : c.isIdentifierPart = false) :
    flags seen (u :: rest) = .ok x ↔ u ≠ CodeUnit.backslash ∧ x = ⟨[], 0, ∅⟩ := by
  rw [flags]
  by_cases hescape : u = CodeUnit.backslash
  · simp [hescape]
  · rw [if_neg hescape, hhead, Option.any_some]
    dsimp only
    rw [if_pos (by rw [hc]; rfl), Except.ok.injEq, eq_comm]
    exact ⟨fun h => ⟨hescape, h⟩, And.right⟩

/-- One flag. -/
theorem flags_of_part (hhead : Utf16.head? (u :: rest) = some (c, width))
    (hc : c.isIdentifierPart = true) :
    flags seen (u :: rest) = .ok x ↔
      isFlag c.toChar = true ∧ c.toChar ∉ seen ∧ ∃ z, flags (seen ++ [c.toChar]) rest = .ok z ∧
        x = ⟨c.toChar :: z.value, 1 + z.length, z.flags⟩ := by
  have hescape : u ≠ CodeUnit.backslash := by
    rintro rfl
    rw [Utf16.head?_cons_of_not_isLead (by decide)] at hhead
    obtain ⟨rfl, -⟩ := Prod.mk.inj (Option.some.inj hhead)
    exact absurd hc (by decide)
  have hoffender : Lexeme.offender (u :: rest) = c.toChar := by rw [Lexeme.offender, hhead]
  rw [flags, if_neg hescape, hhead, Option.any_some, hoffender]
  dsimp only
  rw [if_neg (by rw [hc]; decide)]
  by_cases hflag : isFlag c.toChar = true
  · by_cases hseen : c.toChar ∈ seen
    · simp [hflag, hseen]
    · rw [if_neg (by simp [hflag]), if_neg (by simpa using hseen),
        Outcome.mapValue_shift_eq_ok_iff]
      simp [hflag, hseen]
  · simp [hflag]

end Flags

/-- **Flags are read exactly if they are proper**, apart from those that exclude each other. -/
theorem flags_eq_ok_iff {seen : List Char} {text : List CodeUnit} {x : Reading (List Char)} :
    flags seen text = .ok x ↔
      ∃ fs, FlagRun text fs ∧ (∀ f ∈ fs, isFlag f = true ∧ f ∉ seen) ∧ fs.Nodup ∧
        x = ⟨fs, fs.length, ∅⟩ := by
  induction text generalizing seen x with
  | nil =>
    simp only [flagRun_nil_iff]
    constructor
    · intro h
      exact ⟨[], rfl, by simp, List.nodup_nil, (Except.ok.inj h).symm⟩
    · rintro ⟨fs, rfl, -, -, rfl⟩
      rfl
  | cons u rest ih =>
    obtain ⟨c, width, hhead⟩ := Utf16.exists_head?_cons u rest
    cases hc : c.isIdentifierPart with
    | false =>
      have hescape : u ≠ CodeUnit.backslash ↔ c ≠ CodeUnit.backslash.toNat :=
        not_congr (Utf16.eq_toNat_iff_of_head? hhead (by decide)).symm
      simp only [flags_of_not_part hhead hc, flagRun_iff_of_not_part hhead hc, hescape]
      constructor
      · rintro ⟨hne, rfl⟩
        exact ⟨[], ⟨rfl, hne⟩, by simp, List.nodup_nil, rfl⟩
      · rintro ⟨fs, ⟨rfl, hne⟩, -, -, rfl⟩
        exact ⟨hne, rfl⟩
    | true =>
      simp only [flags_of_part hhead hc, flagRun_iff_of_part hhead hc, ih]
      constructor
      · rintro ⟨hflag, hseen, z, ⟨fs, hrun, hfs, hnodup, rfl⟩, rfl⟩
        obtain ⟨hchar, rfl⟩ := toNat_of_isFlag hhead hflag
        refine ⟨_, ⟨_, fs, rfl, hchar, hrun⟩, ?_, ?_, ?_⟩
        · rw [List.forall_mem_cons]
          refine ⟨⟨hflag, hseen⟩, ?_⟩
          intro f hf
          obtain ⟨hletter, hnew⟩ := hfs f hf
          exact ⟨hletter, fun hmem => hnew (List.mem_append_left _ hmem)⟩
        · rw [List.nodup_cons]
          refine ⟨?_, hnodup⟩
          intro hmem
          exact (hfs _ hmem).2 (by simp)
        · simp [Nat.add_comm]
      · rintro ⟨_, ⟨f, fs, rfl, rfl, hrun⟩, hfs, hnodup, rfl⟩
        rw [List.forall_mem_cons] at hfs
        obtain ⟨⟨hflag, hseen⟩, hfs⟩ := hfs
        rw [List.nodup_cons] at hnodup
        rw [CodePoint.toChar_of_toNat]
        have hwidth := (toNat_of_isFlag hhead (by rwa [CodePoint.toChar_of_toNat])).2
        rw [hwidth, List.drop_succ_cons, List.drop_zero] at hrun
        refine ⟨hflag, hseen, _, ⟨fs, hrun, ?_, hnodup.2, rfl⟩, by simp [Nat.add_comm]⟩
        intro g hg
        obtain ⟨hletter, hnew⟩ := hfs g hg
        refine ⟨hletter, ?_⟩
        rw [List.mem_append, List.mem_singleton]
        rintro (hmem | rfl)
        · exact hnew hmem
        · exact hnodup.1 hg

/-! ## Literals -/

/-- What follows the opening slash. -/
theorem body_eq_ok_iff {text : List CodeUnit} {x : Reading Literal} :
    body text = .ok x ↔
      ∃ n fs, Delimits .outside text n ∧ FlagRun (text.drop (n + 1)) fs ∧
        (∀ f ∈ fs, f ∈ ['d', 'g', 'i', 'm', 's', 'u', 'v', 'y']) ∧ fs.Nodup ∧
        x = ⟨⟨text.take n, fs⟩, n + 1 + fs.length, ∅⟩ := by
  have hletters (f : Char) :
      (isFlag f = true ∧ f ∉ []) ↔ f ∈ ['d', 'g', 'i', 'm', 's', 'u', 'v', 'y'] := by
    rw [isFlag, List.contains_eq_mem, decide_eq_true_eq]
    simp
  unfold body
  constructor
  · intro h
    split at h
    · simp at h
    · next n hn =>
      obtain ⟨y, hy, rfl⟩ := Outcome.mapValue_shift_eq_ok_iff.mp h
      obtain ⟨fs, hrun, hfs, hnodup, rfl⟩ := flags_eq_ok_iff.mp hy
      exact ⟨n, fs, pattern_eq_ok_iff.mp hn, hrun, fun f hf => (hletters f).mp (hfs f hf), hnodup,
        by simp⟩
  · rintro ⟨n, fs, hdelimits, hrun, hfs, hnodup, rfl⟩
    have hflags : flags [] (text.drop (n + 1)) = .ok ⟨fs, fs.length, ∅⟩ :=
      flags_eq_ok_iff.mpr ⟨fs, hrun, fun f hf => (hletters f).mpr (hfs f hf), hnodup, rfl⟩
    rw [pattern_eq_ok_iff.mpr hdelimits]
    exact Outcome.mapValue_shift_eq_ok_iff.mpr ⟨_, hflags, by simp⟩

theorem Literal.toLexeme_eq_ok_iff {l : Literal} {x : Lexeme} :
    l.toLexeme = .ok x ↔ ¬('u' ∈ l.flags ∧ 'v' ∈ l.flags) ∧
      x = ⟨.regExpLiteral, .regExp (Utf16.lossy l.pattern) (String.ofList l.flags)⟩ := by
  unfold toLexeme
  split
  · next hboth =>
    have hconflict : 'u' ∈ l.flags ∧ 'v' ∈ l.flags := by simpa using hboth
    exact iff_of_false (by simp) fun h => h.1 hconflict
  · next hboth =>
    rw [Except.ok.injEq, eq_comm]
    exact ⟨fun h => ⟨by simpa using hboth, h⟩, And.right⟩

/-- **A literal is read** exactly if its pattern is delimited and its flags are proper. -/
theorem read_eq_ok_iff {u : CodeUnit} {text : List CodeUnit} {x : Reading Lexeme} :
    read (u :: text) = .ok x ↔
      ∃ n fs, Delimits .outside text n ∧ ProperFlags (text.drop (n + 1)) fs ∧
        x = ⟨⟨.regExpLiteral, .regExp (Utf16.lossy (text.take n)) (String.ofList fs)⟩,
          n + fs.length + 2, ∅⟩ := by
  have hlength (n k : Nat) : n + k + 2 = 1 + (n + 1 + k) := by omega
  constructor
  · intro h
    obtain ⟨z, lexeme, hz, hlexeme, rfl⟩ := Reader.interpret_eq_ok_iff.mp h
    obtain ⟨y, hy, rfl⟩ := Outcome.shift_eq_ok_iff.mp hz
    obtain ⟨n, fs, hdelimits, hrun, hfs, hnodup, rfl⟩ := body_eq_ok_iff.mp hy
    obtain ⟨hexclusive, rfl⟩ := Literal.toLexeme_eq_ok_iff.mp hlexeme
    refine ⟨n, fs, hdelimits, ⟨hrun, hfs, hnodup, hexclusive⟩, ?_⟩
    rw [hlength]
    rfl
  · rintro ⟨n, fs, hdelimits, hproper, rfl⟩
    have hbody := body_eq_ok_iff.mpr
      ⟨n, fs, hdelimits, hproper.toFlagRun, hproper.letters, hproper.distinct, rfl⟩
    have hlexeme := (Literal.toLexeme_eq_ok_iff (l := ⟨text.take n, fs⟩)).mpr
      ⟨hproper.exclusive, rfl⟩
    refine Reader.interpret_eq_ok_iff.mpr
      ⟨_, _, Outcome.shift_eq_ok_iff.mpr ⟨_, hbody, rfl⟩, hlexeme, ?_⟩
    rw [hlength]
    rfl

/-- How a literal is written. -/
def Literal.units (l : Literal) : List CodeUnit :=
  CodeUnit.slash :: (l.pattern ++ CodeUnit.slash :: l.flags.map CodeUnit.ofChar)

/-- The flags that are read are written one unit each. -/
theorem FlagRun.take_eq {text : List CodeUnit} {fs : List Char} (h : FlagRun text fs)
    (hfs : ∀ f ∈ fs, isFlag f = true) : text.take fs.length = fs.map CodeUnit.ofChar := by
  induction fs generalizing text with
  | nil => rfl
  | cons f fs ih =>
    obtain ⟨hf, hfs⟩ := List.forall_mem_cons.mp hfs
    cases text with
    | nil => exact absurd (flagRun_nil_iff.mp h) (by simp)
    | cons u rest =>
      obtain ⟨c, width, hhead⟩ := Utf16.exists_head?_cons u rest
      cases hc : c.isIdentifierPart with
      | false => exact absurd ((flagRun_iff_of_not_part hhead hc).mp h).1 (by simp)
      | true =>
        obtain ⟨_, _, hcons, rfl, hrun⟩ := (flagRun_iff_of_part hhead hc).mp h
        obtain ⟨rfl, rfl⟩ := List.cons.inj hcons
        have hflag : isFlag (CodePoint.toChar f.toNat) = true := by
          rwa [CodePoint.toChar_of_toNat]
        have hu : f.toNat = u.toNat := by
          rcases Utf16.head?_cons_cases hhead with ⟨hu, -⟩ | hbig
          · exact hu
          · exact absurd (Nat.lt_of_le_of_lt hbig (lt_of_isFlag hflag)) (by decide)
        rw [(toNat_of_isFlag hhead hflag).2, List.drop_succ_cons, List.drop_zero] at hrun
        rw [List.length_cons, List.take_succ_cons, List.map_cons, ih hrun hfs, CodeUnit.ofChar, hu,
          UInt16.ofNat_toNat]

/-- What is read is what is written. -/
theorem take_eq_units {text : List CodeUnit} {n : Nat} {fs : List Char}
    (hdelimits : Delimits .outside text n) (hproper : ProperFlags (text.drop (n + 1)) fs) :
    (CodeUnit.slash :: text).take (n + fs.length + 2) = (Literal.mk (text.take n) fs).units := by
  have hflag (f : Char) (hf : f ∈ fs) : isFlag f = true := by
    simpa [isFlag] using hproper.letters f hf
  have hend := hdelimits.endsAt.1
  have hlt : n < text.length := (List.getElem?_eq_some_iff.mp hend).1
  have hcut : text.drop n = CodeUnit.slash :: text.drop (n + 1) := by
    rw [List.drop_eq_getElem_cons hlt, (List.getElem?_eq_some_iff.mp hend).2]
  rw [List.take_succ_cons, Literal.units, Nat.add_assoc, List.take_add, hcut, List.take_succ_cons,
    hproper.toFlagRun.take_eq hflag]

/-- Shown as a string, a pattern is on one line. -/
theorem Delimits.inLine_lossy {q : State} {text : List CodeUnit} {n : Nat}
    (h : Delimits q text n) :
    ∀ ch ∈ (Utf16.lossy (text.take n)).toList, ch ∉ ['\n', '\r', '\u2028', '\u2029'] := by
  intro ch hch hline
  have hends : ['\n', '\r', '\u2028', '\u2029'].all (fun ch => ch != '\uFFFD' &&
      decide (ch.toNat < 0x10000) && (CodeUnit.ofChar ch).isLineTerminator) = true := by decide
  have hend := List.all_eq_true.mp hends ch hline
  rw [Bool.and_eq_true, Bool.and_eq_true, bne_iff_ne, decide_eq_true_eq] at hend
  obtain ⟨⟨hne, hlt⟩, hterminator⟩ := hend
  rw [h.inLine _ (Utf16.ofChar_mem_of_mem_lossy hch hne hlt)] at hterminator
  exact absurd hterminator (by decide)

/-- The text of a pattern is not empty, does not make a comment of the slash before it, and is on
one line. -/
structure IsPattern (pattern : String) : Prop where
  ne_empty : pattern ≠ ""
  not_star : pattern.toList.head? ≠ some '*'
  inLine : ∀ ch ∈ pattern.toList, ch ∉ ['\n', '\r', '\u2028', '\u2029']

/-- Behind a slash that opens no comment, what is delimited is the text of a pattern. -/
theorem Delimits.isPattern {text : List CodeUnit} {n : Nat} (h : Delimits .outside text n)
    (hslash : text.head? ≠ some CodeUnit.slash) (hstar : text.head? ≠ some CodeUnit.star) :
    IsPattern (Utf16.lossy (text.take n)) := by
  obtain ⟨n, rfl⟩ : ∃ k, n = k + 1 := by
    refine Nat.exists_eq_succ_of_ne_zero ?_
    rintro rfl
    exact hslash (List.head?_eq_getElem?.trans h.endsAt.1)
  refine ⟨?_, ?_, h.inLine_lossy⟩
  · cases text with
    | nil => exact absurd h (not_delimits_nil _ _)
    | cons u rest =>
      rw [List.take_succ_cons]
      exact Utf16.lossy_cons_ne_empty u (rest.take n)
  · intro hhead
    have hu := Utf16.head?_of_head?_lossy hhead (by decide) (by decide)
    exact hstar (by rwa [List.head?_take, if_neg (Nat.succ_ne_zero n)] at hu)

end RegExp

/-- A slash that opens no comment is no trivia. -/
theorem Trivia.first?_slash {m : Mode} {text : List CodeUnit}
    (hslash : text.head? ≠ some CodeUnit.slash) (hstar : text.head? ≠ some CodeUnit.star) :
    first? m (CodeUnit.slash :: text) = none := by
  rw [first?_eq_none_iff]
  rintro (⟨u, hu, hblank⟩ | ⟨kind, -, hopener⟩)
  · obtain rfl : CodeUnit.slash = u := by simpa using hu
    exact absurd hblank (by decide)
  · cases kind with
    | singleLine =>
      obtain ⟨rest, rfl⟩ := (List.cons_prefix_cons.mp hopener).2
      exact hslash rfl
    | multiLine =>
      obtain ⟨rest, rfl⟩ := (List.cons_prefix_cons.mp hopener).2
      exact hstar rfl
    | htmlOpen => exact absurd (List.cons_prefix_cons.mp hopener).1 (by decide)
    | htmlClose => exact absurd (List.cons_prefix_cons.mp hopener).1 (by decide)
    | hashbang => exact absurd (List.cons_prefix_cons.mp hopener).1 (by decide)

/-- Where an expression may start, a slash begins a literal. -/
theorem Lexeme.read_slash {c : Context} (hregExp : c.allowRegExp = true) (text : List CodeUnit) :
    read c (CodeUnit.slash :: text) = RegExp.read (CodeUnit.slash :: text) := by
  have hname : beginsName (CodeUnit.slash :: text) = false := by cases text <;> rfl
  have hnumber : beginsNumber (CodeUnit.slash :: text) = false := rfl
  simp only [read, hname, hnumber]
  rw [if_neg (by decide), if_neg (by decide), if_neg (by decide), if_neg (by decide),
    if_neg (by decide), if_pos ⟨trivial, hregExp⟩]

/-- A slash is read, alone or with an equals sign, where one stands. -/
theorem Lexeme.slash_of_read {c : Context} {text : List CodeUnit} {x : Reading Lexeme}
    (h : read c text = .ok x)
    (hx : x.value.kind = .punctuator .slash ∨ x.value.kind = .punctuator .slashAssign) :
    (∃ rest, text = CodeUnit.slash :: rest) ∧ x.flags = ∅ := by
  obtain ⟨p, hkind, hunits⟩ : ∃ p : Punctuator, x.value.kind = .punctuator p ∧
      p.units.head? = some CodeUnit.slash := by
    rcases hx with hx | hx
    · exact ⟨_, hx, rfl⟩
    · exact ⟨_, hx, rfl⟩
  cases text with
  | nil =>
    obtain rfl := Except.ok.inj h
    simp at hkind
  | cons u rest =>
    obtain ⟨hfind, hreading⟩ := punctuator_of_read h hkind
    rw [Punctuator.head?_units_of_matchesAt (List.find?_some hfind)] at hunits
    exact ⟨⟨rest, by rw [Option.some.inj hunits]⟩, by rw [hreading]⟩

namespace Scanner

open RegExp (Delimits ProperFlags IsPattern Literal)

/-- **Regular expression literals.** Where one may stand, a slash that opens no comment is the
beginning of a token exactly if a pattern is delimited behind it and proper flags follow; there are
no others. -/
theorem next_iff_delimits {c : Context} {s : Scanner} {text : List CodeUnit}
    (hregExp : c.allowRegExp = true) (hrest : s.cursor.rest = CodeUnit.slash :: text)
    (hslash : text.head? ≠ some CodeUnit.slash) (hstar : text.head? ≠ some CodeUnit.star) :
    ((∃ t s', s.next c = (.ok t, s')) ↔
      ∃ n fs, Delimits .outside text n ∧ ProperFlags (text.drop (n + 1)) fs) ∧
    ∀ n fs, Delimits .outside text n → ProperFlags (text.drop (n + 1)) fs →
      IsPattern (Utf16.lossy (text.take n)) ∧
      ∃ t s', s.next c = (.ok t, s') ∧ t.kind = .regExpLiteral ∧
        t.value = .regExp (Utf16.lossy (text.take n)) (String.ofList fs) ∧
        t.start = s.cursor.location ∧
        t.stop = s.cursor.location.offset + (Literal.mk (text.take n) fs).units.length ∧
        s.cursor.rest = (Literal.mk (text.take n) fs).units ++ s'.cursor.rest := by
  have hfirst : Trivia.first? (s.triviaMode c) s.cursor.rest = none := by
    rw [hrest]
    exact Trivia.first?_slash hslash hstar
  have hread : Lexeme.read c s.cursor.rest = RegExp.read (CodeUnit.slash :: text) := by
    rw [hrest, Lexeme.read_slash hregExp]
  constructor
  · rw [exists_next_iff_of_first? hfirst, hread]
    constructor
    · rintro ⟨x, hx⟩
      obtain ⟨n, fs, hdelimits, hproper, -⟩ := RegExp.read_eq_ok_iff.mp hx
      exact ⟨n, fs, hdelimits, hproper⟩
    · rintro ⟨n, fs, hdelimits, hproper⟩
      exact ⟨_, RegExp.read_eq_ok_iff.mpr ⟨n, fs, hdelimits, hproper, rfl⟩⟩
  · intro n fs hdelimits hproper
    refine ⟨hdelimits.isPattern hslash hstar, ?_⟩
    have hx := hread.trans (RegExp.read_eq_ok_iff.mpr ⟨n, fs, hdelimits, hproper, rfl⟩)
    have hinside := Lexeme.inside_read c s.cursor.rest
    rw [hx] at hinside
    have hunits := RegExp.take_eq_units hdelimits hproper
    rw [← hrest] at hunits
    obtain ⟨t, s', hnext, hkind, hvalue, hstart, hstop, hcursor⟩ :=
      exists_next_of_read hfirst hx hinside
    refine ⟨t, s', hnext, hkind, hvalue, hstart, ?_, ?_⟩
    · rw [hstop, ← hunits, List.length_take, Nat.min_eq_left hinside]
    · rw [hcursor, Cursor.rest_advance, ← hunits, List.take_append_drop]

/-- A slash in a class and an escaped slash do not end the pattern. -/
theorem next_iff_delimits_class :
    let text : List CodeUnit := [0x5B, 0x2F, 0x5D, 0x5C, 0x2F, 0x2F, 0x67, 0x69, 0x3B]
    let s := ofSource (CodeUnit.slash :: text)
    ∃ t s', s.next { allowRegExp := true } = (.ok t, s') ∧ t.kind = .regExpLiteral ∧
      t.value = .regExp "[/]\\/" "gi" ∧ t.stop = 9 ∧ s'.cursor.rest = [0x3B] := by
  intro text s
  have hdelimits : Delimits .outside text 5 := RegExp.pattern_eq_ok_iff.mp (by decide +kernel)
  have hproper : ProperFlags (text.drop (5 + 1)) ['g', 'i'] :=
    ⟨⟨by decide +kernel, by decide +kernel⟩, by simp, by decide, by decide⟩
  obtain ⟨-, t, s', hnext, hkind, hvalue, -, hstop, hrest⟩ :=
    (next_iff_delimits (c := { allowRegExp := true }) rfl
      (show s.cursor.rest = CodeUnit.slash :: text from rfl) (by decide)
      (by decide)).2 5 ['g', 'i'] hdelimits hproper
  refine ⟨t, s', hnext, hkind, hvalue.trans (by decide +kernel), hstop, ?_⟩
  exact (List.append_cancel_left (hrest.symm.trans (by rfl)))

/-- **A slash read again.** The literal that is read in the place of a slash, or of a slash with an
equals sign, is the token that would have come if one had been asked for at once, and the error is
the same if there is none. The scanners are equal after a token; after an error they agree but for
the line, which was no longer at its start once the slash was taken. -/
theorem rescanRegExp_eq_next {c : Context} {s s' : Scanner} {t : Token}
    (h : s.next c = (.ok t, s'))
    (ht : t.kind = .punctuator .slash ∨ t.kind = .punctuator .slashAssign) :
    let asked := s.next { c with allowRegExp := true }
    let again := s'.rescanRegExp c
    again.1 = asked.1 ∧ ((∃ t', asked.1 = .ok t') → again.2 = asked.2) ∧
      { again.2 with lineStart := asked.2.lineStart } = asked.2 := by
  intro asked again
  obtain ⟨ts, s₁, x, hp, hclosed, hx, rfl, rfl⟩ := next_eq_ok_iff.mp h
  obtain ⟨⟨text, htext⟩, hflags⟩ := Lexeme.slash_of_read hx ht
  -- asked for at once, the literal is read where the same trivia end
  have hasked : asked = s₁.settle c s₁.cursor s₁.cursor.advance (RegExp.read s₁.cursor.rest) := by
    have hp' := hp.congr { c with allowRegExp := true } rfl rfl
    have hread : Lexeme.read { c with allowRegExp := true } s₁.cursor.rest =
        RegExp.read s₁.cursor.rest := by
      rw [htext]
      exact Lexeme.read_slash rfl text
    show readAfterTrivia _ _ s = _
    rw [hp'.readAfterTrivia_eq hclosed, readHere, hread]
    rfl
  -- read again, it starts where the slash did, and the slash left no flags
  have hagain : again = { s₁ with
      cursor := s₁.cursor.advance x.length
      tokenStart := s₁.cursor
      lineStart := false }.settle c s₁.cursor s₁.cursor.advance (RegExp.read s₁.cursor.rest) := by
    have hseek : s₁.cursor.advancePastOpener = s₁.cursor.advance :=
      funext (Cursor.advancePastOpener_eq (by rw [htext, List.head?_cons]) (by decide))
    have hkind : (x.value.kind == .eof) = false := by
      rcases ht with ht | ht <;> rw [show x.value.kind = _ from ht] <;> rfl
    show settle c s₁.cursor s₁.cursor.advancePastOpener (RegExp.read s₁.cursor.rest) _ = _
    rw [hseek, took, hflags, TokenFlags.union_empty, hkind, Bool.and_false]
  rw [hasked, hagain]
  cases hread : RegExp.read s₁.cursor.rest with
  | error f =>
    refine ⟨rfl, ?_, rfl⟩
    rintro ⟨t', hok⟩
    simp [settle] at hok
  | ok y =>
    have hstate : (s₁.lineStart && y.value.kind == .eof) = false := by
      rw [Lexeme.kind_of_regExp hread]
      exact Bool.and_false _
    simp [settle, hstate]

/-- A line break and a comment in front of a slash that was taken with the equals sign of the
pattern. -/
theorem rescanRegExp_eq_next_slashAssign :
    let source : List CodeUnit := [0x0A, 0x2F, 0x2A, 0x2A, 0x2F, 0x2F, 0x3D, 0x61, 0x2F, 0x67]
    let c : Context := { collectComments := true }
    ∃ t s' t', (ofSource source).next c = (.ok t, s') ∧ t.kind = .punctuator .slashAssign ∧
      (s'.rescanRegExp c).1 = .ok t' ∧ t'.value = .regExp "=a" "g" ∧
      s'.rescanRegExp c = (ofSource source).next { c with allowRegExp := true } ∧
      (s'.rescanRegExp c).2.comments.size = 1 := by
  intro source c
  have hkind : ((ofSource source).next c).1.toOption.map Token.kind =
      some (.punctuator .slashAssign) := by decide +kernel
  have hvalue : ((ofSource source).next { c with allowRegExp := true }).1.toOption.map Token.value =
      some (.regExp "=a" "g") := by decide +kernel
  have hsize : ((ofSource source).next { c with allowRegExp := true }).2.comments.size = 1 := by
    decide +kernel
  rcases hnext : (ofSource source).next c with ⟨_ | t, s'⟩
  · simp [hnext, Except.toOption] at hkind
  rcases hasked : (ofSource source).next { c with allowRegExp := true } with ⟨_ | t', s''⟩
  · simp [hasked, Except.toOption] at hvalue
  have hslash : t.kind = .punctuator .slashAssign := by
    simpa [hnext, Except.toOption] using hkind
  obtain ⟨htoken, hscanner, -⟩ := rescanRegExp_eq_next hnext (.inr hslash)
  rw [hasked] at htoken hscanner hvalue hsize
  have hagain : s'.rescanRegExp c = (.ok t', s'') := Prod.ext htoken (hscanner ⟨t', rfl⟩)
  refine ⟨t, s', t', rfl, hslash, htoken, ?_, hagain, ?_⟩
  · simpa [Except.toOption] using hvalue
  · rw [hagain]
    exact hsize

end Scanner

end EcmaLex
