import EcmaLex.Proofs.AddedSyntax
import EcmaLex.Proofs.BracketMatching

/-!
# Where a stream has nothing to decide

A stream chooses a goal for every token: after something that can end an expression a template may
be tagged, and elsewhere a slash begins a regular expression. Few tokens depend on the choice. A tag
only adds templates with invalid escapes, and a regular expression only stands where a punctuator
with a slash would have stood. Besides, a stream reads a brace again only if a substitution is open,
and that takes the head of a template.

So a source whose tokens are none of these is split by a stream as by its scanner alone.

* `Scanner.next_goal`: one token, whatever the goal.
* `TokenStream.advance_eq_next`: the stream's call is the scanner's.
* `tokenize_eq_tokenizeAll`: whole sources.
-/

namespace EcmaLex

/-- The kinds that decisions of a stream matter to: punctuators with a slash, where a regular
expression may be meant, and heads of templates, which open substitutions. -/
def Token.Kind.needsDecision : Token.Kind → Bool
  | .templateHead | .punctuator .slash | .punctuator .slashAssign | .punctuator .jsxSelfClosing =>
    true
  | _ => false

theorem Token.Kind.needsDecision_eq_false_iff {k : Token.Kind} :
    k.needsDecision = false ↔ k ≠ .templateHead ∧ k ≠ .punctuator .slash ∧
      k ≠ .punctuator .slashAssign ∧ k ≠ .punctuator .jsxSelfClosing := by
  unfold needsDecision
  split <;> simp_all

/-! ## Slashes -/

/-- A punctuator that begins with a slash is one of three. -/
theorem Punctuator.needsDecision_of_matchesAt {jsx : Bool} {rest : List CodeUnit} {p : Punctuator}
    (h : matchesAt jsx (CodeUnit.slash :: rest) p = true) :
    (Token.Kind.punctuator p).needsDecision = true := by
  have hhead := head?_units_of_matchesAt h
  clear h
  revert hhead
  cases p <;> decide

/-- Where regular expressions are looked for, all other tokens are the same. -/
theorem Lexeme.read_allowRegExp {c : Context} {text : List CodeUnit} {x : Reading Lexeme}
    (hregExp : c.allowRegExp = false) (h : read c text = .ok x)
    (hkind : x.value.kind.needsDecision = false) :
    read { c with allowRegExp := true } text = .ok x := by
  cases text with
  | nil => exact h
  | cons u rest =>
    simp only [read] at h ⊢
    split at h
    · next hname => rwa [if_pos hname]
    next hname =>
    split at h
    · next hnumber => rwa [if_neg hname, if_pos hnumber]
    next hnumber =>
    split at h
    · next hquote => rwa [if_neg hname, if_neg hnumber, if_pos hquote]
    next hquote =>
    split at h
    · next htick => rwa [if_neg hname, if_neg hnumber, if_neg hquote, if_pos htick]
    next htick =>
    split at h
    · next hhash => rwa [if_neg hname, if_neg hnumber, if_neg hquote, if_neg htick, if_pos hhash]
    next hhash =>
    rw [if_neg hname, if_neg hnumber, if_neg hquote, if_neg htick, if_neg hhash]
    by_cases hslash : u = CodeUnit.slash
    · subst hslash
      rw [if_neg (by simp [hregExp]), if_pos (by decide)] at h
      -- the slash would be a punctuator, and all of these are excluded
      obtain ⟨p, hp, rfl⟩ := kind_of_punctuator h
      rw [Punctuator.needsDecision_of_matchesAt (List.find?_some hp)] at hkind
      simp at hkind
    · rw [if_neg (fun h => hslash h.1)] at h
      rwa [if_neg (fun h => hslash h.1)]

namespace Scanner

variable {c : Context} {s s' : Scanner} {t : Token}

theorem next_allowRegExp (hregExp : c.allowRegExp = false) (h : s.next c = (.ok t, s'))
    (hkind : t.kind.needsDecision = false) :
    s.next { c with allowRegExp := true } = (.ok t, s') := by
  obtain ⟨ts, s₁, x, hp, hu, hx, rfl, rfl⟩ := next_eq_ok_iff.mp h
  have hp' := hp.congr { c with allowRegExp := true } rfl rfl
  have hx' := Lexeme.read_allowRegExp hregExp hx hkind
  exact next_eq_ok_iff.mpr ⟨ts, s₁, x, hp', hu, hx', rfl, rfl⟩

theorem next_taggedTemplate (h : s.next c = (.ok t, s')) :
    s.next { c with taggedTemplate := true } = (.ok t, s') := by
  have hadding : c.adding false true = { c with taggedTemplate := true } := by
    simp [Context.adding]
  rw [← hadding]
  exact (next_adding_iff.mp h).1

end Scanner

/-! ## Streams -/

namespace TokenStream

variable {s : TokenStream} {scanner : Scanner} {t : Token}

/-- **One token.** No substitution is open, and the token opens none. -/
theorem advance_eq_next (hregExp : s.context.allowRegExp = false) (hsubs : s.substitutions = [])
    (hnext : s.scanner.next s.context = (.ok t, scanner)) (hkind : t.kind.needsDecision = false) :
    ∃ s', s.advance = (.ok t, s') ∧ s'.scanner = scanner ∧ s'.context = s.context ∧
      s'.substitutions = [] := by
  have hgoal : s.scanner.next s.goal = (.ok t, scanner) := by
    unfold goal
    split
    · exact Scanner.next_taggedTemplate hnext
    · exact Scanner.next_allowRegExp hregExp hnext hkind
  have hcloses : s.closes? t = none := by
    unfold closes?
    rw [hsubs]
    simp
  refine ⟨_, advance_eq_ok_iff.mpr (.inl ⟨scanner, hgoal, hcloses, rfl⟩), scanner_track _ _ _,
    context_track _ _ _, ?_⟩
  have hmiddle := Scanner.continuesTemplate_of_next hnext
  unfold track
  dsimp only
  split
  · exact hsubs
  · exact hsubs
  · next hhead => simp [hhead, Token.Kind.needsDecision] at hkind
  · next hk => simp [hk, Token.Kind.continuesTemplate] at hmiddle
  · exact hsubs

/-- **Whole runs.** -/
theorem run_eq_run (hregExp : s.context.allowRegExp = false) (hsubs : s.substitutions = [])
    (herr : (s.scanner.run s.context).error = none)
    (hkinds : ∀ t ∈ (s.scanner.run s.context).tokens, t.kind.needsDecision = false) :
    s.run.tokens = (s.scanner.run s.context).tokens ∧ s.run.error = none ∧
      s.run.final.scanner = (s.scanner.run s.context).final := by
  generalize hc : s.context = c at hregExp herr hkinds ⊢
  generalize hscanner : s.scanner = scanner at herr hkinds ⊢
  fun_induction Scanner.run c scanner generalizing s with
  | case1 => simp at herr
  | case2 scanner t scanner' hnext ht =>
    obtain ⟨s', hadvance, hs', -, -⟩ := advance_eq_next (by rw [hc, hregExp]) hsubs
      (by rw [hscanner, hc, hnext]) (hkinds t List.mem_cons_self)
    rw [run_of_eof hadvance ht]
    exact ⟨rfl, rfl, hs'⟩
  | case3 scanner t scanner' hnext ht ih =>
    obtain ⟨hkind, hrest⟩ := List.forall_mem_cons.mp hkinds
    obtain ⟨s', hadvance, hs', hctx, hsubs'⟩ :=
      advance_eq_next (by rw [hc, hregExp]) hsubs (by rw [hscanner, hc, hnext]) hkind
    obtain ⟨htokens, herror, hfinal⟩ := ih hsubs' (hctx.trans hc) hs' herr hrest
    rw [run_of_ne_eof hadvance ht]
    exact ⟨congrArg (t :: ·) htokens, herror, hfinal⟩

end TokenStream

/-! ## Main result -/

/-- **A source without slashes and heads of templates.** If a scanner splits it into tokens of other
kinds, in a context that does not ask for regular expressions, then a stream gives the same tokens
and leaves the same scanner, with the same comments. -/
theorem tokenize_eq_tokenizeAll {source : List CodeUnit} {c : Context} {ts : List Token}
    (hregExp : c.allowRegExp = false)
    (hscan : ((Scanner.ofSource source).tokenizeAll c).1 = .ok ts)
    (hkinds : ∀ t ∈ ts, t.kind ≠ .templateHead ∧ t.kind ≠ .punctuator .slash ∧
      t.kind ≠ .punctuator .slashAssign ∧ t.kind ≠ .punctuator .jsxSelfClosing) :
    tokenize source c = .ok ts ∧
      (TokenStream.ofSource source c).run.final.scanner =
        ((Scanner.ofSource source).tokenizeAll c).2 := by
  obtain ⟨herr, rfl⟩ := Run.toExcept_eq_ok_iff.mp hscan
  have hneeds : ∀ t ∈ ((Scanner.ofSource source).run c).tokens, t.kind.needsDecision = false := by
    intro t ht
    exact Token.Kind.needsDecision_eq_false_iff.mpr (hkinds t ht)
  obtain ⟨htokens, herror, hfinal⟩ :=
    TokenStream.run_eq_run (s := .ofSource source c) hregExp rfl herr hneeds
  exact ⟨Run.toExcept_eq_ok_iff.mpr ⟨herror, htokens⟩, hfinal⟩

/-- A template behind a name, which the stream takes for tagged, a comment, and a template behind an
operator, where the stream would have taken a slash for a regular expression. -/
theorem tokenize_eq_tokenizeAll_templates :
    let source : List CodeUnit :=
      [0x66, 0x60, 0x61, 0x60, 0x2F, 0x2A, 0x63, 0x2A, 0x2F, 0x3D, 0x60, 0x5C, 0x6E, 0x60, 0x7D]
    let c : Context := { collectComments := true }
    let run := (Scanner.ofSource source).run c
    ((Scanner.ofSource source).tokenizeAll c).1 = .ok run.tokens ∧
      run.tokens.map Token.kind = [.identifier, .noSubstitutionTemplate, .punctuator .assign,
        .noSubstitutionTemplate, .punctuator .rightBrace, .eof] ∧
      tokenize source c = .ok run.tokens ∧
      (TokenStream.ofSource source c).run.final.scanner = run.final ∧
      run.final.comments.size = 1 := by
  intro source c run
  have hscan : ((Scanner.ofSource source).tokenizeAll c).1 = .ok run.tokens :=
    Run.toExcept_eq_ok_iff.mpr ⟨by decide +kernel, rfl⟩
  have hkinds : ∀ t ∈ run.tokens, t.kind ≠ .templateHead ∧ t.kind ≠ .punctuator .slash ∧
      t.kind ≠ .punctuator .slashAssign ∧ t.kind ≠ .punctuator .jsxSelfClosing := by
    decide +kernel
  obtain ⟨htokens, hfinal⟩ := tokenize_eq_tokenizeAll rfl hscan hkinds
  exact ⟨hscan, by decide +kernel, htokens, hfinal, by decide +kernel⟩

end EcmaLex
