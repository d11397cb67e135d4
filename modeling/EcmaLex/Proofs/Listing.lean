import EcmaLex.Proofs.IdentifierGrammar
import EcmaLex.Proofs.RegExpLiterals
import EcmaLex.Proofs.Tiling
import EcmaLex.Report.Text

/-!
# Listings

A listing has one line for each token and each comment, in the order of the source. The comments in
front of a token are those that start before it, because tokens and comments tile the source. And no
line is broken: what is shown in quotes has its line feeds escaped, and of what is not, names and
regular expressions come from the source, which has no line feed there, nor an escape that denotes
one. Of the writing of numbers nothing is asked but that it has no line feed.

* `Tiles.exists_lists`: the lines of what tiles a source.
* `oneLine_lineOf` and `oneLine_commentLine`: the text of a line.
* `Lexeme.fitsLine_of_read`: what a token says of itself fits a line.

The main result is `Report.exists_listing`.
-/

namespace EcmaLex

/-! ## Texts on one line -/

/-- The text has no line feed. -/
def OneLine (s : String) : Prop := '\n' ∉ s.toList

instance (s : String) : Decidable (OneLine s) := inferInstanceAs (Decidable (_ ∉ _))

theorem oneLine_ofList_iff {chars : List Char} :
    OneLine (String.ofList chars) ↔ '\n' ∉ chars := by
  rw [OneLine, String.toList_ofList]

theorem OneLine.append {s t : String} (hs : OneLine s) (ht : OneLine t) : OneLine (s ++ t) := by
  rw [OneLine, String.toList_append, List.mem_append]
  exact not_or.mpr ⟨hs, ht⟩

/-- Digits are on one line. -/
theorem lineFeed_not_mem_toDigits {b : Nat} (hb : 1 < b) (hle : b ≤ 16) (n : Nat) :
    '\n' ∉ Nat.toDigits b n := by
  have hdigit : ∀ d < 16, '\n' ≠ Nat.digitChar d := by decide
  induction n using Nat.strongRecOn with
  | ind n ih =>
    by_cases hn : n < b
    · rw [Nat.toDigits_of_lt_base hn, List.mem_singleton]
      exact hdigit n (by omega)
    · have hmod : n % b < b := Nat.mod_lt n (by omega)
      rw [Nat.toDigits_of_base_le hb (Nat.le_of_not_lt hn), List.mem_append, List.mem_singleton]
      exact not_or.mpr ⟨ih _ (Nat.div_lt_self (by omega) hb), hdigit _ (by omega)⟩

theorem oneLine_toString (n : Nat) : OneLine (toString n) := by
  rw [Nat.toString_eq_ofList_toDigits, oneLine_ofList_iff]
  exact lineFeed_not_mem_toDigits (by decide) (by decide) n

namespace Quoted

/-- A line feed is escaped, and no other character is written with one. -/
theorem lineFeed_not_mem_escape (c : Char) : '\n' ∉ escape c := by
  unfold escape
  split_ifs with htab hreturn hfeed
  any_goals decide
  · rw [List.mem_singleton]
    exact Ne.symm hfeed
  · rw [List.mem_append, List.mem_append]
    have hdigits := lineFeed_not_mem_toDigits (b := 16) (by decide) (by decide) c.toNat
    exact not_or.mpr ⟨not_or.mpr ⟨by decide, hdigits⟩, by decide⟩

/-- **Quoted text is on one line.** -/
theorem oneLine_quote (s : String) : OneLine (quote s) := by
  rw [quote, oneLine_ofList_iff]
  simp [lineFeed_not_mem_escape]

end Quoted

namespace NumeralStyle

section Layout
variable {digits : List Char} (h : '\n' ∉ digits)
include h

theorem lineFeed_not_mem_positional (s : NumeralStyle) (point : Int) :
    '\n' ∉ s.positional digits point := by
  have hzeros (k : Nat) : '\n' ∉ List.replicate k '0' := by simp
  have htake (k : Nat) : '\n' ∉ digits.take k := fun hmem => h (List.mem_of_mem_take hmem)
  have hdrop (k : Nat) : '\n' ∉ digits.drop k := fun hmem => h (List.mem_of_mem_drop hmem)
  unfold positional
  dsimp only
  split_ifs
  · simp [h, hzeros]
  · simp [h, hzeros]
  · simp [htake, hdrop]
  · simp [h, hzeros]

theorem lineFeed_not_mem_scientific (point : Int) : '\n' ∉ scientific digits point := by
  have htake : '\n' ∉ digits.take 1 := fun hmem => h (List.mem_of_mem_take hmem)
  have htail : '\n' ∉ digits.tail := fun hmem => h (List.mem_of_mem_tail hmem)
  have hexponent := lineFeed_not_mem_toDigits (b := 10) (by decide) (by decide) (point - 1).natAbs
  unfold scientific
  dsimp only
  split_ifs <;> simp [htake, htail, hexponent]

end Layout

/-- **Number text is on one line.** -/
theorem oneLine_render_script (x : Binary64) : OneLine (script.render x) := by
  unfold render
  split
  · decide
  · split <;> decide
  · split <;> decide
  · next negative m e _ _ =>
    have hdigits := lineFeed_not_mem_toDigits (b := 10) (by decide) (by decide)
      (Binary64.shortest m e).coefficient
    have hpositional := lineFeed_not_mem_positional hdigits script
    have hscientific := lineFeed_not_mem_scientific hdigits
    rw [oneLine_ofList_iff]
    split_ifs <;> simp [hpositional, hscientific]

end NumeralStyle

/-! ## Lines -/

/-- What a value shows without quotes has no line feed. -/
def Token.Value.FitsLine : Token.Value → Prop
  | .name s => OneLine s
  | .regExp pattern flags => OneLine pattern ∧ OneLine flags
  | _ => True

namespace Report

theorem oneLine_place (l : Location) : OneLine (place l) :=
  ((oneLine_toString l.line).append (by decide)).append (oneLine_toString l.column)

theorem oneLine_name (kind : Token.Kind) : OneLine kind.name := by
  cases kind with
  | keyword => exact (by decide : OneLine "Keyword")
  | escapedKeyword => exact (by decide : OneLine "EscapedKeyword")
  | punctuator p => cases p <;> decide
  | _ => decide

theorem oneLine_quoted (units : List CodeUnit) : OneLine (quoted units) := Quoted.oneLine_quote _

section Lines
variable {numberText : Binary64 → String} (hnumber : ∀ x, OneLine (numberText x))
include hnumber

theorem oneLine_valueText {v : Token.Value} (h : v.FitsLine) :
    ∀ s ∈ valueText? numberText v, OneLine s := by
  intro s hs
  cases v with
  | none => exact nomatch hs
  | name name =>
    obtain rfl := Option.some.inj hs
    exact h
  | string units =>
    obtain rfl := Option.some.inj hs
    exact oneLine_quoted units
  | number x =>
    obtain rfl := Option.some.inj hs
    exact hnumber x
  | bigInt n literal =>
    obtain rfl := Option.some.inj hs
    exact (oneLine_toString n).append (by decide)
  | template cooked raw =>
    cases cooked with
    | none =>
      obtain rfl := Option.some.inj hs
      exact OneLine.append (by decide) (oneLine_quoted raw)
    | some cooked =>
      obtain rfl := Option.some.inj hs
      exact oneLine_quoted cooked
  | regExp pattern flags =>
    obtain rfl := Option.some.inj hs
    exact ((OneLine.append (by decide) h.1).append (by decide)).append h.2

/-- **The line of a token.** -/
theorem oneLine_lineOf {t : Token} (h : t.value.FitsLine) : OneLine (lineOf numberText t) := by
  have hhead : OneLine (place t.start ++ " " ++ t.kind.name) :=
    ((oneLine_place t.start).append (by decide)).append (oneLine_name t.kind)
  refine (hhead.append ?_).append ?_
  · split
    · next s hs => exact OneLine.append (by decide) (oneLine_valueText hnumber h s hs)
    · decide
  · split
    · exact OneLine.append (by decide) (Quoted.oneLine_quote _)
    · decide

end Lines

/-- **The line of a comment.** -/
theorem oneLine_commentLine (k : Comment) : OneLine (commentLine k) := by
  have hname : OneLine k.kind.name := by cases k.kind <;> decide
  exact ((((oneLine_place k.start).append (by decide)).append hname).append (by decide)).append
    (Quoted.oneLine_quote k.text)

end Report

/-! ## Values of tokens -/

namespace Identifier

variable {first escaped : Bool} {w rest text : List CodeUnit} {cs : List CodePoint}

/-- No item of a name denotes a line feed, be it an escape. -/
theorem Items.lineFeed_not_mem (h : Items first w rest cs escaped) : '\n'.toNat ∉ cs := by
  induction h with
  | nil => exact List.not_mem_nil
  | @cons first _ _ _ _ _ c _ _ hc _ ih =>
    have hne : '\n'.toNat ≠ c := by
      rintro rfl
      cases first <;> exact absurd hc (by decide)
    rw [List.mem_cons]
    exact not_or.mpr ⟨hne, ih⟩

theorem oneLine_of_name {x : Reading String} (h : name text = .ok x) : OneLine x.value := by
  obtain ⟨w, rest, cs, escaped, rfl, hlongest⟩ := exists_longest text
  obtain ⟨-, -, s, hs, rfl⟩ := (name_eq_ok_iff hlongest).mp h
  intro hmem
  refine hlongest.items.lineFeed_not_mem ?_
  rw [← hs]
  exact List.mem_map_of_mem hmem

end Identifier

namespace RegExp

/-- Flags are letters. -/
theorem ProperFlags.oneLine {text : List CodeUnit} {fs : List Char} (h : ProperFlags text fs) :
    OneLine (String.ofList fs) := by
  rw [oneLine_ofList_iff]
  exact fun hmem => absurd (h.letters _ hmem) (by decide)

end RegExp

namespace Lexeme

variable {text : List CodeUnit} {x : Reading Lexeme}

theorem fitsLine_of_identifier (h : Identifier.read text = .ok x) : x.value.value.FitsLine := by
  obtain ⟨z, b, hz, hb, rfl⟩ := Reader.interpret_eq_ok_iff.mp h
  obtain rfl := Except.ok.inj hb
  exact Identifier.oneLine_of_name hz

theorem fitsLine_of_private (h : Identifier.readPrivate text = .ok x) :
    x.value.value.FitsLine := by
  unfold Identifier.readPrivate at h
  dsimp only at h
  split at h
  · obtain ⟨z, hz, rfl⟩ := Outcome.mapValue_shift_eq_ok_iff.mp h
    exact Identifier.oneLine_of_name hz
  · exact nomatch h

theorem fitsLine_of_template {tagged first : Bool} (h : Template.read tagged first text = .ok x) :
    x.value.value.FitsLine := by
  obtain ⟨z, -, rfl⟩ := Outcome.mapValue_eq_ok_iff.mp h
  exact trivial

/-- **What a token says of itself fits a line.** -/
theorem fitsLine_of_read {c : Context} (h : read c text = .ok x) : x.value.value.FitsLine := by
  cases readsAs_of_read h with
  | eof _ hx =>
    subst hx
    exact trivial
  | name h => exact fitsLine_of_identifier h
  | number _ h =>
    rcases lexeme_of_numeric h with ⟨b, hvalue⟩ | ⟨n, literal, hvalue⟩ <;> rw [hvalue] <;>
      exact trivial
  | string _ h =>
    obtain ⟨units, hvalue⟩ := lexeme_of_stringLiteral h
    rw [hvalue]
    exact trivial
  | template h => exact fitsLine_of_template h
  | privateName _ h => exact fitsLine_of_private h
  | regExp h =>
    cases text with
    | nil => exact nomatch h
    | cons u text =>
      obtain ⟨n, fs, hdelimits, hproper, rfl⟩ := RegExp.read_eq_ok_iff.mp h
      exact ⟨fun hmem => hdelimits.inLine_lossy _ hmem (by decide), hproper.oneLine⟩
  | punctuator p _ hx =>
    subst hx
    exact trivial

end Lexeme

namespace Scanner

variable {html : Bool} {s s' : Scanner} {t : Token}

/-- A token of a run was read, or continues a template. -/
theorem Emits.fitsLine (h : Emits html s t s') : t.value.FitsLine := by
  cases h with
  | next _ _ hnext =>
    obtain ⟨_, _, x, -, -, hx, rfl, -⟩ := next_eq_ok_iff.mp hnext
    exact Lexeme.fitsLine_of_read hx
  | continued _ _ _ _ htemplate =>
    obtain ⟨x, hx, rfl, -⟩ := continueTemplate_eq_ok_iff.mp htemplate
    exact Lexeme.fitsLine_of_template (Lexeme.template_of_readContinuation hx).2

theorem EmitsAll.fitsLine {html : Nat → Bool} {ts : List Token} (h : EmitsAll html s ts s') :
    ∀ t ∈ ts, t.value.FitsLine := by
  induction h with
  | last he => exact List.forall_mem_singleton.mpr he.fitsLine
  | cons he _ _ ih => exact List.forall_mem_cons.mpr ⟨he.fitsLine, ih⟩

end Scanner

/-! ## The order of lines -/

namespace Trivia

variable {i j : Nat} {gap : List Trivia} {e : Comment.Extent}

theorem le_of_mem_extents (he : e ∈ extents i gap) : i ≤ e.start := by
  induction gap generalizing i with
  | nil => exact nomatch he
  | cons t ts ih =>
    rcases List.mem_append.mp he with he | he
    · cases t with
      | comment kind text =>
        obtain rfl := List.mem_singleton.mp he
        exact Nat.le_refl i
      | blank | lineBreak | unclosed => exact nomatch he
    · exact Nat.le_trans (Nat.le_add_right _ _) (ih he)

/-- The comments of a gap start in order. -/
theorem pairwise_extents (i : Nat) (gap : List Trivia) :
    (extents i gap).Pairwise fun a b => a.start < b.start := by
  induction gap generalizing i with
  | nil => exact .nil
  | cons t ts ih =>
    have hpos := t.length_pos
    cases t with
    | comment kind text =>
      refine List.pairwise_cons.mpr ⟨fun e he => ?_, ih _⟩
      have hle := le_of_mem_extents he
      show i < e.start
      omega
    | blank | lineBreak | unclosed => exact ih _

/-- They start in front of the end of the gap. -/
theorem Fills.lt_of_mem_extents {source : List CodeUnit} {m : Mode}
    (h : Fills source m i gap j) (he : e ∈ extents i gap) : e.start < j := by
  induction h with
  | done => exact nomatch he
  | @piece _ i j t ts _ _ _ _ _ hrest ih =>
    have hpos := t.length_pos
    have hle := hrest.le
    rcases List.mem_append.mp he with he | he
    · cases t with
      | comment kind text =>
        obtain rfl := List.mem_singleton.mp he
        show i < j
        omega
      | blank | lineBreak | unclosed => exact nomatch he
    · exact ih he

/-- The collected comments of a gap start in order, and within it. -/
theorem Fills.comments {source : List CodeUnit} {m : Mode} {ks : List Comment}
    (h : Fills source m i gap j) (hks : ks.map Comment.extent = extents i gap) :
    (ks.Pairwise fun a b => a.start.offset < b.start.offset) ∧
      ∀ k ∈ ks, i ≤ k.start.offset ∧ k.start.offset < j := by
  constructor
  · have hordered := pairwise_extents i gap
    rw [← hks, List.pairwise_map] at hordered
    exact hordered
  · intro k hk
    have hmem : k.extent ∈ extents i gap := by
      rw [← hks]
      exact List.mem_map_of_mem hk
    exact ⟨le_of_mem_extents hmem, h.lt_of_mem_extents hmem⟩

end Trivia

namespace Report

/-- What a line shows. -/
inductive Entry where
  | token (t : Token)
  | comment (k : Comment)

namespace Entry

/-- The line. -/
def line (numberText : Binary64 → String) : Entry → String
  | token t => lineOf numberText t
  | comment k => commentLine k

/-- The offset where the token or the comment starts. -/
def start : Entry → Nat
  | token t => t.start.offset
  | comment k => k.start.offset

def token? : Entry → Option Token
  | token t => some t
  | comment _ => none

def comment? : Entry → Option Comment
  | token _ => none
  | comment k => some k

end Entry

/-- The entries are the tokens and the comments, each once, by their starts, and their lines are
those of the listing. -/
structure Lists (numberText : Binary64 → String) (tokens : List Token) (comments : List Comment)
    (entries : List Entry) : Prop where
  tokens_eq : entries.filterMap Entry.token? = tokens
  comments_eq : entries.filterMap Entry.comment? = comments
  length_eq : entries.length = tokens.length + comments.length
  increasing : entries.Pairwise fun a b => a.start < b.start
  lines_eq : lines numberText tokens comments = entries.map (Entry.line numberText)

section Entries
variable {numberText : Binary64 → String}

theorem lists_nil : Lists numberText [] [] [] := ⟨rfl, rfl, rfl, .nil, rfl⟩

/-- The comments that start before the token stand in front of it. -/
theorem lines_cons {t : Token} {ts : List Token} {before after : List Comment}
    (hbefore : ∀ k ∈ before, k.start.offset < t.start.offset)
    (hafter : ∀ k ∈ after, t.start.offset < k.start.offset) :
    lines numberText (t :: ts) (before ++ after) =
      before.map commentLine ++ lineOf numberText t :: lines numberText ts after := by
  have hall : ∀ k ∈ before, decide (k.start.offset < t.start.offset) = true :=
    fun k hk => decide_eq_true (hbefore k hk)
  rw [lines, List.takeWhile_append_of_pos hall, List.dropWhile_append_of_pos hall]
  cases after with
  | nil => rw [List.takeWhile_nil, List.dropWhile_nil, List.append_nil]
  | cons k after =>
    have hnot : ¬k.start.offset < t.start.offset :=
      Nat.not_lt.mpr (Nat.le_of_lt (hafter k List.mem_cons_self))
    simp [hnot]

/-- The comments in front of a token, the token, and what comes after it. -/
theorem Lists.cons {t : Token} {ts : List Token} {before after : List Comment}
    {entries : List Entry} (h : Lists numberText ts after entries)
    (hbefore : before.Pairwise fun a b => a.start.offset < b.start.offset)
    (hlt : ∀ k ∈ before, k.start.offset < t.start.offset)
    (hgt : ∀ e ∈ entries, t.start.offset < e.start) :
    Lists numberText (t :: ts) (before ++ after) (before.map .comment ++ .token t :: entries) where
  tokens_eq := by
    have hnone : (before.map Entry.comment).filterMap Entry.token? = [] := by
      simp [Entry.token?]
    rw [List.filterMap_append, hnone, List.nil_append, List.filterMap_cons, h.tokens_eq]
    rfl
  comments_eq := by
    have hall : (before.map Entry.comment).filterMap Entry.comment? = before := by
      simp [List.filterMap_map, Entry.comment?, Function.comp_def]
    rw [List.filterMap_append, hall, List.filterMap_cons, h.comments_eq]
    rfl
  length_eq := by
    simp only [List.length_append, List.length_map, List.length_cons, h.length_eq]
    omega
  increasing := by
    refine List.pairwise_append.mpr ⟨List.pairwise_map.mpr hbefore,
      List.pairwise_cons.mpr ⟨hgt, h.increasing⟩, ?_⟩
    intro a ha b hb
    obtain ⟨k, hk, rfl⟩ := List.mem_map.mp ha
    rcases List.mem_cons.mp hb with rfl | hb
    · exact hlt k hk
    · exact Nat.lt_trans (hlt k hk) (hgt b hb)
  lines_eq := by
    have hafter : ∀ k ∈ after, t.start.offset < k.start.offset := by
      intro k hk
      rw [← h.comments_eq, List.mem_filterMap] at hk
      obtain ⟨e, he, hek⟩ := hk
      cases e with
      | token => exact nomatch hek
      | comment =>
        obtain rfl := Option.some.inj hek
        exact hgt _ he
    rw [lines_cons hlt hafter, h.lines_eq, List.map_append, List.map_map]
    rfl

theorem Lists.oneLine {ts : List Token} {ks : List Comment} {entries : List Entry}
    (h : Lists numberText ts ks entries) (hnumber : ∀ x, OneLine (numberText x))
    (hfits : ∀ t ∈ ts, t.value.FitsLine) : ∀ e ∈ entries, OneLine (e.line numberText) := by
  intro e he
  cases e with
  | token t =>
    refine oneLine_lineOf hnumber (hfits t ?_)
    rw [← h.tokens_eq]
    exact List.mem_filterMap.mpr ⟨_, he, rfl⟩
  | comment k => exact oneLine_commentLine k

end Entries

end Report

/-- **The lines of what tiles a source.** -/
theorem Tiles.exists_lists {numberText : Binary64 → String} {source : List CodeUnit}
    {html : Nat → Bool} {lineStart : Bool} {i : Nat} {ts : List Token} {es : List Comment.Extent}
    {ks : List Comment}
    (h : Tiles source html lineStart i ts es) (hks : ks.map Comment.extent = es) :
    ∃ entries, Report.Lists numberText ts ks entries ∧ ∀ e ∈ entries, i ≤ e.start := by
  induction h generalizing ks with
  | @last _ _ _ t _ hgap =>
    obtain ⟨hordered, hinside⟩ := hgap.comments hks
    have hnil : Report.Lists numberText [] [] [] := Report.lists_nil
    have hlists := hnil.cons hordered (fun k hk => (hinside k hk).2) (by simp)
    rw [List.append_nil] at hlists
    exact ⟨_, hlists, List.forall_mem_append.mpr ⟨List.forall_mem_map.mpr fun k hk =>
      (hinside k hk).1, List.forall_mem_singleton.mpr hgap.le⟩⟩
  | @token _ _ _ t _ _ _ hgap _ hlt _ _ ih =>
    obtain ⟨before, after, rfl, hbefore, hafter⟩ := List.map_eq_append_iff.mp hks
    obtain ⟨entries, hlists, hle⟩ := ih hafter
    obtain ⟨hordered, hinside⟩ := hgap.comments hbefore
    have hstart := hgap.le
    have hgt : ∀ e ∈ entries, t.start.offset < e.start :=
      fun e he => Nat.lt_of_lt_of_le hlt (hle e he)
    exact ⟨_, hlists.cons hordered (fun k hk => (hinside k hk).2) hgt,
      List.forall_mem_append.mpr ⟨List.forall_mem_map.mpr fun k hk => (hinside k hk).1,
        List.forall_mem_cons.mpr ⟨hstart, fun e he => by have := hgt e he; omega⟩⟩⟩

/-! ## Main result -/

/-- **A listing has a line for each token and each comment**, by their starts, and none of its lines
is broken if no number is written with a line feed. -/
theorem Report.exists_listing {numberText : Binary64 → String}
    (hnumber : ∀ x, OneLine (numberText x)) {source : List CodeUnit} {c : Context}
    (hcollect : c.collectComments = true)
    (herr : (TokenStream.ofSource source c).run.error = none) :
    let tokens := (TokenStream.ofSource source c).run.tokens
    let comments := (TokenStream.ofSource source c).run.final.scanner.comments.toList
    ∃ entries : List Entry,
      listing numberText tokens comments =
        String.join (entries.map fun e => e.line numberText ++ "\n") ∧
      entries.filterMap Entry.token? = tokens ∧ entries.filterMap Entry.comment? = comments ∧
      entries.length = tokens.length + comments.length ∧
      (entries.Pairwise fun a b => a.start < b.start) ∧
      ∀ e ∈ entries, '\n' ∉ (e.line numberText).toList := by
  intro tokens comments
  obtain ⟨hemits, -⟩ := TokenStream.emitsAll_of_run hcollect herr
  obtain ⟨htiling, -⟩ := Scanner.EmitsAll.tiling hemits
  obtain ⟨entries, hlists, -⟩ := htiling.tiles.exists_lists rfl
  refine ⟨entries, ?_, hlists.tokens_eq, hlists.comments_eq, hlists.length_eq, hlists.increasing,
    hlists.oneLine hnumber hemits.fitsLine⟩
  rw [listing, hlists.lines_eq, List.map_map]
  rfl

/-- The listing of `5=//`, a line end, and `/b/g`, with numbers as scripts write them: four tokens,
of which the last is the end, and a comment. -/
theorem Report.exists_listing_regExp :
    let numberText := NumeralStyle.script.render
    let source : List CodeUnit := [0x35, 0x3D, 0x2F, 0x2F, 0x0A, 0x2F, 0x62, 0x2F, 0x67]
    let run := (TokenStream.ofSource source { collectComments := true }).run
    (∀ x, OneLine (numberText x)) ∧ run.error = none ∧
      run.tokens.map Token.value =
        [.number ⟨0x4014000000000000⟩, .none, .regExp "b" "g", .none] ∧
      ∃ entries : List Entry,
        listing numberText run.tokens run.final.scanner.comments.toList =
          String.join (entries.map fun e => e.line numberText ++ "\n") ∧
        entries.length = 5 ∧ (entries.Pairwise fun a b => a.start < b.start) ∧
        ∀ e ∈ entries, '\n' ∉ (e.line numberText).toList := by
  intro numberText source run
  have herr : run.error = none := by decide +kernel
  have hvalues : run.tokens.map Token.value =
      [.number ⟨0x4014000000000000⟩, .none, .regExp "b" "g", .none] := by decide +kernel
  have hcomments : run.final.scanner.comments.toList.length = 1 := by decide +kernel
  obtain ⟨entries, htext, -, -, hlength, hordered, hlines⟩ :=
    exists_listing NumeralStyle.oneLine_render_script rfl herr
  have htokens : run.tokens.length = 4 := by
    rw [← List.length_map (f := Token.value), hvalues]
    rfl
  refine ⟨NumeralStyle.oneLine_render_script, herr, hvalues, entries, htext, ?_, hordered, hlines⟩
  rw [hlength, hcomments, htokens]

end EcmaLex
