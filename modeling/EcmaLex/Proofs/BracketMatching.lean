import EcmaLex.Proofs.Calls

/-!
# Braces and substitutions match

A token stream remembers how many braces are open and, for each open substitution of a template,
how many were open when it was opened. A reader of the tokens would rather keep one stack of what is
open, the innermost on top. The two are the same:

* `Opener.step?` and `Opener.replay` replay tokens on a stack, and get stuck where a token does not
  fit what is open.
* `TokenStream.Describes` says that the counter and the list of a stream describe a stack. No depth
  in such a list is larger than the counter (`Opener.depth_le_braces`), so the depth of the
  innermost substitution equals the counter exactly if no brace was opened inside it
  (`TokenStream.Describes.closes?_eq_some`).
* `TokenStream.Describes.advance` is one token, and `TokenStream.describes_replay_of_produces` any
  number of them.
-/

namespace EcmaLex

/-! ## Stacks of openers -/

/-- Something that is open: a brace, or a substitution of a template that is tagged or not. -/
inductive Opener where
  | brace
  | substitution (tagged : Bool)
  deriving DecidableEq, Repr

namespace Opener

/-- The stack after a token, `none` if the token does not fit. `tagged` tells whether a template
that begins with the token is tagged. -/
def step? (stack : List Opener) (tagged : Bool) : Token.Kind → Option (List Opener)
  | .punctuator .leftBrace => some (.brace :: stack)
  | .templateHead => some (.substitution tagged :: stack)
  | .punctuator .rightBrace =>
    match stack with
    | [] => some []
    | .brace :: below => some below
    | .substitution _ :: _ => none
  | .templateMiddle =>
    match stack with
    | .substitution tagged :: below => some (.substitution tagged :: below)
    | _ => none
  | .templateTail =>
    match stack with
    | .substitution _ :: below => some below
    | _ => none
  | _ => some stack

/-- The stack after tokens. A template is tagged if the token before its head can end an
expression. -/
def replay (previous : Option Token.Kind) (stack : List Opener) :
    List Token.Kind → Option (List Opener)
  | [] => some stack
  | kind :: kinds =>
    (step? stack (previous.any Token.Kind.endsExpression) kind).bind fun stack =>
      replay (some kind) stack kinds

/-- The number of open braces. -/
def braces (stack : List Opener) : Nat := stack.count .brace

/-- The open substitutions, each with the number of braces below it. -/
def substitutions : List Opener → List Substitution
  | [] => []
  | .brace :: below => substitutions below
  | .substitution tagged :: below => ⟨braces below, tagged⟩ :: substitutions below

@[simp] theorem braces_nil : braces [] = 0 := rfl

@[simp] theorem braces_brace (below : List Opener) : braces (.brace :: below) = braces below + 1 :=
  List.count_cons_self

@[simp] theorem braces_substitution (tagged : Bool) (below : List Opener) :
    braces (.substitution tagged :: below) = braces below :=
  List.count_cons_of_ne (by simp)

/-- No substitution is deeper than all open braces. -/
theorem depth_le_braces (stack : List Opener) :
    ∀ sub ∈ substitutions stack, sub.depth ≤ braces stack := by
  induction stack with
  | nil =>
    intro sub hsub
    simp [substitutions] at hsub
  | cons opener below ih =>
    intro sub hsub
    cases opener with
    | brace =>
      rw [braces_brace]
      exact Nat.le_succ_of_le (ih sub hsub)
    | substitution tagged =>
      rw [braces_substitution]
      rcases List.mem_cons.mp hsub with rfl | hsub
      · exact Nat.le_refl _
      · exact ih sub hsub

end Opener

/-! ## Which calls give the middle and the tail of a template -/

/-- The kinds of spans that stand behind a substitution. -/
def Token.Kind.continuesTemplate : Token.Kind → Bool
  | .templateMiddle | .templateTail => true
  | _ => false

namespace Lexeme

variable {text : List CodeUnit} {x : Reading Lexeme}

theorem continuesTemplate_of_template {tagged first : Bool}
    (h : Template.read tagged first text = .ok x) :
    x.value.kind.continuesTemplate = !first := by
  obtain ⟨z, -, rfl⟩ := Outcome.mapValue_eq_ok_iff.mp h
  show (Template.lexeme first z.value).kind.continuesTemplate = !first
  unfold Template.lexeme
  cases first <;> cases z.value.last <;> rfl

/-- Where a token is read for the first time, no template goes on. -/
theorem continuesTemplate_of_read {c : Context} (h : read c text = .ok x) :
    x.value.kind.continuesTemplate = false := by
  cases text with
  | nil =>
    obtain rfl := Except.ok.inj h
    rfl
  | cons u rest =>
    simp only [read] at h
    split at h
    · have hname := kind_of_identifier h
      revert hname
      cases x.value.kind <;> simp [Token.Kind.isIdentifierName, Token.Kind.continuesTemplate]
    split at h
    · rw [kind_of_numeric h]
      rfl
    split at h
    · rw [kind_of_stringLiteral h]
      rfl
    split at h
    · exact continuesTemplate_of_template h
    split at h
    · rw [kind_of_private h]
      rfl
    split at h
    · rw [kind_of_regExp h]
      rfl
    split at h
    · obtain ⟨p, -, rfl⟩ := kind_of_punctuator h
      rfl
    · simp [illegal] at h

end Lexeme

theorem Scanner.continuesTemplate_of_next {c : Context} {s s' : Scanner} {t : Token}
    (h : s.next c = (.ok t, s')) : t.kind.continuesTemplate = false := by
  obtain ⟨_, _, x, -, -, hx, rfl, -⟩ := next_eq_ok_iff.mp h
  exact Lexeme.continuesTemplate_of_read hx

theorem Scanner.continuesTemplate_of_continueTemplate {c : Context} {s s' : Scanner} {t : Token}
    (h : s.continueTemplate c = (.ok t, s')) : t.kind.continuesTemplate = true := by
  obtain ⟨x, hx, rfl, -⟩ := continueTemplate_eq_ok_iff.mp h
  exact Lexeme.continuesTemplate_of_template (Lexeme.template_of_readContinuation hx).2

/-! ## Streams -/

namespace TokenStream

variable {s s' : TokenStream} {t : Token} {stack : List Opener}

/-- The stream gives the tokens, one call after the other, and is then `s'`. -/
inductive Produces : TokenStream → List Token → TokenStream → Prop
  | nil {s : TokenStream} : Produces s [] s
  | cons {s s₁ s' : TokenStream} {t : Token} {ts : List Token}
      (hnext : s.next? = (some (.ok t), s₁)) (hrest : Produces s₁ ts s') : Produces s (t :: ts) s'

/-- The counter and the list of a stream describe what is open. -/
structure Describes (s : TokenStream) (stack : List Opener) : Prop where
  braces_eq : s.braces = Opener.braces stack
  substitutions_eq : s.substitutions = Opener.substitutions stack

@[simp] theorem previous_track (s : TokenStream) (t : Token) (tagged : Bool) :
    (s.track t tagged).previous = some t.kind := by
  unfold track
  dsimp only
  split <;> rfl

theorem finished_of_advance (h : s.advance = (.ok t, s')) : s'.finished = (t.kind == .eof) := by
  rcases advance_eq_ok_iff.mp h with ⟨_, -, -, rfl⟩ | ⟨_, _, _, _, -, -, -, rfl⟩
  · exact finished_track _ _ _
  · exact finished_track _ _ _

theorem advance_of_next? (h : s.next? = (some (.ok t), s')) : s.advance = (.ok t, s') := by
  unfold next? at h
  split at h
  · simp at h
  · rcases hadv : s.advance with ⟨r, s₁⟩
    rw [hadv] at h
    obtain ⟨hr, rfl⟩ := Prod.mk.inj h
    rw [Option.some.inj hr]

/-- The first tokens of a run are given one by one. -/
theorem exists_produces_take (hfinished : s.finished = false) (n : Nat) :
    ∃ s', s.Produces (s.run.tokens.take n) s' := by
  have hnext {s s' : TokenStream} {t : Token} (hf : s.finished = false)
      (hadv : s.advance = (.ok t, s')) : s.next? = (some (.ok t), s') := by
    simp [next?, hf, hadv]
  fun_induction TokenStream.run s generalizing n with
  | case1 s e s' hadv => exact ⟨s, by simpa using .nil⟩
  | case2 s t s' hadv ht =>
    cases n with
    | zero => exact ⟨s, .nil⟩
    | succ n => exact ⟨s', by simpa using .cons (hnext hfinished hadv) .nil⟩
  | case3 s t s' hadv ht ih =>
    cases n with
    | zero => exact ⟨s, .nil⟩
    | succ n =>
      have hgoes : s'.finished = false := by
        rw [finished_of_advance hadv]
        exact beq_eq_false_iff_ne.mpr ht
      obtain ⟨s₁, hproduces⟩ := ih hgoes n
      exact ⟨s₁, .cons (hnext hfinished hadv) hproduces⟩

namespace Describes

/-- **A brace closes a substitution exactly if one is on top.** Below a brace on top every depth is
smaller than the counter. -/
theorem closes?_eq_some (h : s.Describes stack) (ht : t.kind = .punctuator .rightBrace)
    {sub : Substitution} :
    s.closes? t = some sub ↔
      ∃ below, stack = .substitution sub.tagged :: below ∧ sub.depth = Opener.braces below := by
  rw [closes?, if_pos ht, h.substitutions_eq, h.braces_eq]
  rcases stack with _ | ⟨_ | tagged, below⟩
  · simp [Opener.substitutions]
  · have hlt : ∀ sub ∈ Opener.substitutions below, sub.depth ≠ Opener.braces below + 1 := by
      intro sub hsub
      have := Opener.depth_le_braces below sub hsub
      omega
    cases hsubs : Opener.substitutions below with
    | nil => simp [Opener.substitutions, hsubs]
    | cons first rest =>
      have hfirst := hlt first (by rw [hsubs]; exact List.mem_cons_self)
      simp only [Opener.substitutions, hsubs, List.head?_cons, Option.filter_some,
        Opener.braces_brace, beq_eq_false_iff_ne.mpr hfirst]
      simp
  · have htop : (Opener.substitutions (.substitution tagged :: below)).head?.filter
        (·.depth == Opener.braces (.substitution tagged :: below)) =
          some ⟨Opener.braces below, tagged⟩ := by
      simp [Opener.substitutions]
    rw [htop]
    constructor
    · intro heq
      obtain rfl := Option.some.inj heq
      exact ⟨below, rfl, rfl⟩
    · rintro ⟨below', hstack, hdepth⟩
      obtain ⟨htagged, rfl⟩ := List.cons.inj hstack
      rw [Opener.substitution.inj htagged, ← hdepth]

/-- Noting a token that was read for the first time. -/
theorem track (h : s.Describes stack) {tagged : Bool} {stack' : List Opener}
    (hkind : t.kind.continuesTemplate = false)
    (hstep : Opener.step? stack tagged t.kind = some stack') :
    (s.track t tagged).Describes stack' := by
  obtain ⟨hbraces, hsubs⟩ := h
  unfold Opener.step? at hstep
  unfold TokenStream.track
  split at hstep
  · next hk =>
    obtain rfl := Option.some.inj hstep
    rw [hk]
    exact ⟨by simp [hbraces], hsubs⟩
  · next hk =>
    obtain rfl := Option.some.inj hstep
    rw [hk]
    exact ⟨by simp [hbraces], by simp [hbraces, hsubs, Opener.substitutions]⟩
  · next hk =>
    rw [hk]
    split at hstep
    · obtain rfl := Option.some.inj hstep
      exact ⟨by simp [hbraces], hsubs⟩
    · obtain rfl := Option.some.inj hstep
      exact ⟨by simp [hbraces], hsubs⟩
    · simp at hstep
  · next hk => simp [hk, Token.Kind.continuesTemplate] at hkind
  · next hk => simp [hk, Token.Kind.continuesTemplate] at hkind
  · next hleft hhead hright hmiddle htail =>
    obtain rfl := Option.some.inj hstep
    split
    · next hk => exact absurd hk hleft
    · next hk => exact absurd hk hright
    · next hk => exact absurd hk hhead
    · next hk => exact absurd hk hmiddle
    · exact ⟨hbraces, hsubs⟩

/-- Noting the span behind a substitution that was just closed. A middle opens it again. -/
theorem track_continued {below : List Opener} (h : s.Describes below) (tagged : Bool)
    (hkind : t.kind.continuesTemplate = true) :
    ∃ stack', Opener.step? (.substitution tagged :: below) s.afterExpression t.kind = some stack' ∧
      (s.track t tagged).Describes stack' := by
  obtain ⟨hbraces, hsubs⟩ := h
  unfold Token.Kind.continuesTemplate at hkind
  unfold TokenStream.track
  split at hkind
  · next hk =>
    rw [hk]
    exact ⟨_, rfl, by simp [hbraces], by simp [hbraces, hsubs, Opener.substitutions]⟩
  · next hk =>
    rw [hk]
    exact ⟨_, rfl, hbraces, hsubs⟩
  · simp at hkind

/-- **One token of a stream.** It fits what is open, and the stream describes what is open after
it. -/
theorem advance (h : s.Describes stack) (hadv : s.advance = (.ok t, s')) :
    ∃ stack', Opener.step? stack s.afterExpression t.kind = some stack' ∧ s'.Describes stack' ∧
      s'.previous = some t.kind ∧ s'.context = s.context := by
  rcases advance_eq_ok_iff.mp hadv with
    ⟨scanner, hnext, hnone, rfl⟩ | ⟨brace, sub, scanner, scanner', hnext, hsub, htemplate, rfl⟩
  · have hkind := Scanner.continuesTemplate_of_next hnext
    -- a brace that closes no substitution does not find one on top
    obtain ⟨stack', hstep⟩ :
        ∃ stack', Opener.step? stack s.afterExpression t.kind = some stack' := by
      unfold Opener.step?
      split
      · exact ⟨_, rfl⟩
      · exact ⟨_, rfl⟩
      · next hk =>
        rcases stack with _ | ⟨_ | tagged, below⟩
        · exact ⟨_, rfl⟩
        · exact ⟨_, rfl⟩
        · have hsome : s.closes? t = some ⟨Opener.braces below, tagged⟩ :=
            (h.closes?_eq_some hk).mpr ⟨below, rfl, rfl⟩
          rw [hnone] at hsome
          simp at hsome
      · next hk => simp [hk, Token.Kind.continuesTemplate] at hkind
      · next hk => simp [hk, Token.Kind.continuesTemplate] at hkind
      · exact ⟨_, rfl⟩
    have hdescribes : ({ s with scanner } : TokenStream).Describes stack := ⟨h.1, h.2⟩
    exact ⟨stack', hstep, hdescribes.track hkind hstep, previous_track _ _ _, context_track _ _ _⟩
  · obtain ⟨below, rfl, -⟩ := (h.closes?_eq_some (kind_of_closes? hsub)).mp hsub
    have hdescribes : ({ s with
        substitutions := s.substitutions.tail, scanner := scanner' } : TokenStream).Describes
        below := by
      refine ⟨?_, ?_⟩
      · exact h.braces_eq.trans (Opener.braces_substitution _ _)
      · show s.substitutions.tail = _
        rw [h.substitutions_eq]
        rfl
    obtain ⟨stack', hstep, hdescribes'⟩ := hdescribes.track_continued sub.tagged
      (Scanner.continuesTemplate_of_continueTemplate htemplate)
    exact ⟨stack', hstep, hdescribes', previous_track _ _ _, context_track _ _ _⟩

/-- **Any number of tokens.** -/
theorem produces {ts : List Token} (h : s.Describes stack) (hp : s.Produces ts s') :
    ∃ stack', Opener.replay s.previous stack (ts.map Token.kind) = some stack' ∧
      s'.Describes stack' ∧ s'.context = s.context := by
  induction hp generalizing stack with
  | nil => exact ⟨stack, rfl, h, rfl⟩
  | @cons s _ _ t _ hnext _ ih =>
    obtain ⟨stack₁, hstep, h₁, hprevious, hcontext₁⟩ := h.advance (advance_of_next? hnext)
    obtain ⟨stack', hreplay, h', hcontext⟩ := ih h₁
    refine ⟨stack', ?_, h', hcontext.trans hcontext₁⟩
    rw [hprevious] at hreplay
    show (Opener.step? stack s.afterExpression t.kind).bind _ = some stack'
    rw [hstep]
    exact hreplay

/-- The middle or the tail of a template is scanned at a brace, as part of the template whose
substitution is on top. -/
theorem continueTemplate_of_next? (h : s.Describes stack) (hnext : s.next? = (some (.ok t), s'))
    (hkind : t.kind.continuesTemplate = true) :
    ∃ tagged below brace scanner, stack = .substitution tagged :: below ∧
      s.scanner.next s.goal = (.ok brace, scanner) ∧
      scanner.continueTemplate
        { s.context with taggedTemplate := s.context.taggedTemplate || tagged } =
          (.ok t, s'.scanner) := by
  rcases advance_eq_ok_iff.mp (advance_of_next? hnext) with
    ⟨scanner, hscan, -, -⟩ | ⟨brace, sub, scanner, scanner', hscan, hsub, htemplate, rfl⟩
  · rw [Scanner.continuesTemplate_of_next hscan] at hkind
    simp at hkind
  · obtain ⟨below, rfl, -⟩ := (h.closes?_eq_some (kind_of_closes? hsub)).mp hsub
    rw [scanner_track]
    exact ⟨sub.tagged, below, brace, scanner, rfl, hscan, htemplate⟩

end Describes

/-- **Braces and substitutions match.** Whatever tokens a stream has given, they replay on a stack
without getting stuck, and the stream's counter and list describe that stack. A middle or a tail
that comes next is scanned as part of a tagged template exactly if the context says so for all
templates, or the template on top of the stack is tagged. -/
theorem describes_replay_of_produces {source : List CodeUnit} {c : Context} {ts : List Token}
    (h : (ofSource source c).Produces ts s) :
    ∃ stack, Opener.replay none [] (ts.map Token.kind) = some stack ∧
      s.braces = stack.count .brace ∧ s.substitutions = Opener.substitutions stack ∧
      ∀ t s', s.next? = (some (.ok t), s') →
        t.kind = .templateMiddle ∨ t.kind = .templateTail →
        ∃ tagged below brace scanner, stack = .substitution tagged :: below ∧
          s.scanner.next s.goal = (.ok brace, scanner) ∧
          scanner.continueTemplate { c with taggedTemplate := c.taggedTemplate || tagged } =
            (.ok t, s'.scanner) := by
  have hstart : (ofSource source c).Describes [] := ⟨rfl, rfl⟩
  obtain ⟨stack, hreplay, hdescribes, hcontext⟩ := hstart.produces h
  refine ⟨stack, hreplay, hdescribes.braces_eq, hdescribes.substitutions_eq, ?_⟩
  intro t s' hnext hkind
  have hcontinues : t.kind.continuesTemplate = true := by
    rcases hkind with hk | hk
    · rw [hk]
      rfl
    · rw [hk]
      rfl
  have hscan := hdescribes.continueTemplate_of_next? hnext hcontinues
  rw [hcontext] at hscan
  exact hscan

/-- A tagged template, an object in its substitution, and in the object a template that is not
tagged. -/
theorem describes_replay_of_produces_nested :
    let source : List CodeUnit := [0x74, 0x60, 0x24, 0x7B, 0x7B, 0x60, 0x24, 0x7B]
    ∃ ts s, (ofSource source {}).Produces ts s ∧
      ts.map Token.kind =
        [.identifier, .templateHead, .punctuator .leftBrace, .templateHead] ∧
      s.braces = 1 ∧ s.substitutions = [⟨1, false⟩, ⟨0, true⟩] := by
  intro source
  obtain ⟨s, hproduces⟩ := exists_produces_take (s := ofSource source {}) rfl 4
  have hkinds : ((ofSource source {}).run.tokens.take 4).map Token.kind =
      [.identifier, .templateHead, .punctuator .leftBrace, .templateHead] := by
    decide +kernel
  obtain ⟨stack, hreplay, hbraces, hsubs, -⟩ := describes_replay_of_produces hproduces
  rw [hkinds] at hreplay
  obtain rfl : [.substitution false, .brace, .substitution true] = stack := Option.some.inj hreplay
  exact ⟨_, s, hproduces, hkinds, hbraces, hsubs⟩

end TokenStream

end EcmaLex
