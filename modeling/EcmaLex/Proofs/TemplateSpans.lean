import EcmaLex.Proofs.Calls
import EcmaLex.Proofs.StableTokens
import EcmaLex.Proofs.TemplateSearch

/-!
# Where template spans end

A span of a template is read item by item, but its end is where a plain search for it says, and raw
text and cooked value follow from the text in front of that end.

* `Template.step_span`: each step of `Template.span` takes a piece of the text that is a piece for
  the search as well.
* `Template.describes_of_span` and `Template.exists_span_of_search`: a span is read exactly where
  the search comes upon an end and, in a template without a tag, all escapes in front of it are
  valid.
* `Scanner.scansSpan`: the same for the tokens of a scanner, with their places, kinds and values.
-/

namespace EcmaLex

open Text (CleanCut)

namespace Template

/-! ## Escapes and items -/

/-- A text begins with what may stand behind a backslash in a template. Octal escapes may not. -/
def BeginsEscape (text : List CodeUnit) : Prop :=
  ∃ w rest units, text = w ++ rest ∧ Escape.Written false w rest units

/-- Some escape that begins among the first `n` units is invalid. -/
def HasInvalidEscape (n : Nat) (text : List CodeUnit) : Prop :=
  ∃ t ∈ escapes false n text, ¬BeginsEscape t

/-- In front of `after`, the items of a span are written `w` and denote `value`. A carriage return,
with the line feed after it if there is one, denotes a line feed. -/
inductive Items : List CodeUnit → List CodeUnit → List CodeUnit → Prop
  | nil {after : List CodeUnit} : Items [] after []
  | unit {u : CodeUnit} {w after value : List CodeUnit} (htick : u ≠ CodeUnit.backtick)
      (hdollar : ¬(u = CodeUnit.dollar ∧ (w ++ after).head? = some CodeUnit.leftBrace))
      (hescape : u ≠ CodeUnit.backslash) (hreturn : u ≠ CodeUnit.carriageReturn)
      (hrest : Items w after value) : Items (u :: w) after (u :: value)
  | carriageReturn {w after value : List CodeUnit}
      (halone : (w ++ after).head? ≠ some CodeUnit.lineFeed) (hrest : Items w after value) :
      Items (CodeUnit.carriageReturn :: w) after (CodeUnit.lineFeed :: value)
  | crlf {w after value : List CodeUnit} (hrest : Items w after value) :
      Items (CodeUnit.carriageReturn :: CodeUnit.lineFeed :: w) after (CodeUnit.lineFeed :: value)
  | escape {e w after units value : List CodeUnit}
      (hescape : Escape.Written false e (w ++ after) units) (hrest : Items w after value) :
      Items (CodeUnit.backslash :: (e ++ w)) after (units ++ value)

/-! ## Line ends in a raw text -/

theorem normalize_cons {u : CodeUnit} (hu : u ≠ CodeUnit.carriageReturn) (rest : List CodeUnit) :
    normalize (u :: rest) = u :: normalize rest := by
  cases rest with
  | nil => simp [normalize, hu]
  | cons v rest => rw [normalize, if_neg hu]

theorem normalize_return {rest : List CodeUnit} (h : rest.head? ≠ some CodeUnit.lineFeed) :
    normalize (CodeUnit.carriageReturn :: rest) = CodeUnit.lineFeed :: normalize rest := by
  cases rest with
  | nil => rfl
  | cons v rest => rw [normalize, if_pos rfl, if_neg (by simpa using h)]

theorem normalize_crlf (rest : List CodeUnit) :
    normalize (CodeUnit.carriageReturn :: CodeUnit.lineFeed :: rest) =
      CodeUnit.lineFeed :: normalize rest := by
  rw [normalize, if_pos rfl, if_pos rfl]

/-- Parts of a text are normalised apart unless the cut splits a line end. -/
theorem normalize_append {a b : List CodeUnit} (h : CleanCut (a ++ b) a.length) :
    normalize (a ++ b) = normalize a ++ normalize b := by
  fun_induction normalize a with
  | case1 => rfl
  | case2 u =>
    by_cases hu : u = CodeUnit.carriageReturn
    · subst hu
      rw [if_pos rfl]
      refine normalize_return ?_
      intro hb
      obtain ⟨rest, rfl⟩ := List.head?_eq_some_iff.mp hb
      exact h.whole ⟨rfl, rfl⟩
    · rw [if_neg hu]
      exact normalize_cons hu b
  | case3 rest ih =>
    show normalize (CodeUnit.carriageReturn :: CodeUnit.lineFeed :: (rest ++ b)) = _
    rw [normalize_crlf, ih h.tail.tail]
    rfl
  | case4 v rest hv ih =>
    rw [List.cons_append, normalize_return (by simpa using hv), ih h.tail]
    rfl
  | case5 u v rest hu ih =>
    rw [List.cons_append, normalize_cons hu, ih h.tail]
    rfl

/-! ## One piece after the other -/

/-- The first `k` units of a text are a piece of a span that denotes `cooked`, or nothing if it is
an invalid escape: the search, the line ends and the escapes of the text are those of the piece and
those behind it. -/
structure IsPiece (text : List CodeUnit) (k : Nat) (cooked : Option (List CodeUnit)) : Prop where
  search_eq : search false text = (search false (text.drop k)).map (Ending.after k)
  clean : CleanCut text k
  invalid_iff (n : Nat) :
    HasInvalidEscape (k + n) text ↔ cooked = none ∨ HasInvalidEscape n (text.drop k)
  items {units w after value : List CodeUnit} : cooked = some units → text.drop k = w ++ after →
    Items w after value → Items (text.take k ++ w) after (units ++ value)

/-- The delimiter stands behind the piece. -/
theorem IsPiece.le_of_search {text : List CodeUnit} {k : Nat} {cooked : Option (List CodeUnit)}
    {e : Ending} (hpiece : IsPiece text k cooked) (h : search false text = some e) :
    k ≤ e.length := by
  rw [hpiece.search_eq] at h
  obtain ⟨e, -, rfl⟩ := Option.map_eq_some_iff.mp h
  exact Nat.le_add_right k e.length

/-- A unit that denotes itself. -/
theorem isPiece_unit {u : CodeUnit} {rest : List CodeUnit} (htick : u ≠ CodeUnit.backtick)
    (hdollar : ¬(u = CodeUnit.dollar ∧ rest.head? = some CodeUnit.leftBrace))
    (hescape : u ≠ CodeUnit.backslash) (hreturn : u ≠ CodeUnit.carriageReturn) :
    IsPiece (u :: rest) 1 (some [u]) where
  search_eq := by
    rw [search, if_neg (by decide), if_neg htick, if_neg hdollar,
      beq_eq_false_iff_ne.mpr hescape]
    rfl
  clean := .one hreturn
  invalid_iff n := by
    unfold HasInvalidEscape
    rw [Nat.add_comm, escapes, if_neg (by decide), if_neg hescape]
    simp
  items := by
    intro units w after value hunits hrest hitems
    obtain rfl := Option.some.inj hunits
    obtain rfl : rest = w ++ after := hrest
    exact .unit htick hdollar hescape hreturn hitems

/-- A line end that begins with a carriage return. -/
theorem isPiece_return (rest : List CodeUnit) :
    IsPiece (CodeUnit.carriageReturn :: rest)
      (1 + if rest.head? = some CodeUnit.lineFeed then 1 else 0) (some [CodeUnit.lineFeed]) := by
  have hreturn : Inert CodeUnit.carriageReturn := ⟨by decide, by decide, by decide⟩
  have hfeed : Inert CodeUnit.lineFeed := ⟨by decide, by decide, by decide⟩
  have hclean := cleanCut_return rest
  by_cases hhead : rest.head? = some CodeUnit.lineFeed
  · rw [if_pos hhead] at hclean ⊢
    obtain ⟨rest, rfl⟩ := List.head?_eq_some_iff.mp hhead
    have hinert : ∀ u ∈ [CodeUnit.carriageReturn, CodeUnit.lineFeed], Inert u := by
      simp [hreturn, hfeed]
    refine ⟨search_append_of_inert hinert rest, hclean, ?_, ?_⟩
    · intro n
      have hescapes : escapes false (1 + 1 + n)
          (CodeUnit.carriageReturn :: CodeUnit.lineFeed :: rest) = escapes false n rest :=
        escapes_append_of_inert hinert n rest
      unfold HasInvalidEscape
      rw [hescapes]
      simp
    · intro units w after value hunits hrest hitems
      obtain rfl := Option.some.inj hunits
      exact .crlf hitems
  · rw [if_neg hhead] at hclean ⊢
    refine ⟨search_cons_of_inert hreturn false rest, hclean, ?_, ?_⟩
    · intro n
      unfold HasInvalidEscape
      rw [Nat.add_zero, Nat.add_comm, escapes_cons_of_inert hreturn]
      simp
    · intro units w after value hunits hrest hitems
      obtain rfl := Option.some.inj hunits
      obtain rfl : rest = w ++ after := hrest
      exact .carriageReturn hhead hitems

/-- An escape, as far as it is taken. -/
theorem isPiece_of_resumes {rest : List CodeUnit} {k : Nat} {cooked : Option (List CodeUnit)}
    (hresumes : Resumes rest k) (hclean : CleanCut rest k)
    (hcooked : cooked = none ↔ ¬BeginsEscape rest)
    (hwritten : ∀ units, cooked = some units →
      Escape.Written false (rest.take k) (rest.drop k) units) :
    IsPiece (CodeUnit.backslash :: rest) (1 + k) cooked := by
  obtain ⟨hsearch, hescapes⟩ := search_of_resumes hresumes hclean.le
  have hdrop : (CodeUnit.backslash :: rest).drop (1 + k) = rest.drop k := by
    rw [Nat.add_comm, List.drop_succ_cons]
  refine ⟨?_, .cons (by decide) hclean, ?_, ?_⟩
  · rw [search, if_neg (by decide), if_neg (by decide), if_neg (fun h => absurd h.1 (by decide)),
      show (CodeUnit.backslash == CodeUnit.backslash) = true from rfl, hsearch, hdrop,
      Option.map_map]
    congr 1
    funext e
    exact Ending.after_after 1 k e
  · intro n
    unfold HasInvalidEscape
    rw [Nat.add_assoc, Nat.add_comm 1, escapes, if_neg (by decide), if_pos rfl, hescapes, hdrop,
      hcooked]
    simp only [List.mem_cons, exists_eq_or_imp]
  · intro units w after value hunits hrest hitems
    have hescape := hwritten units hunits
    rw [hdrop] at hrest
    rw [hrest] at hescape
    rw [Nat.add_comm, List.take_succ_cons, List.cons_append]
    exact .escape hescape hitems

/-- A valid escape. -/
theorem isPiece_escape {rest : List CodeUnit} {e : Reading (Option CodePoint)}
    (he : Escape.body (some .templateOctal) rest = .ok e) :
    IsPiece (CodeUnit.backslash :: rest) (1 + e.length)
      (some (e.value.elim [] CodePoint.encode)) := by
  have hclean : Outcome.Clean rest (.ok e) := he ▸ Escape.clean_body _ rest
  have hresumes : Resumes rest e.length := by
    cases rest with
    | nil => simp [Escape.body] at he
    | cons u rest =>
      have := escape_resumes (some .templateOctal) u rest
      rw [he] at this
      exact this
  obtain ⟨w, after, rfl, hescape, hlength⟩ := Escape.exists_written_of_body he
  refine isPiece_of_resumes hresumes hclean ?_ ?_
  · have hbegins : BeginsEscape (w ++ after) := ⟨w, after, _, rfl, hescape⟩
    simp [hbegins]
  · intro units hunits
    obtain rfl := Option.some.inj hunits
    rw [hlength, List.take_left, List.drop_left]
    exact hescape

/-- An invalid escape, up to the unit that does not fit. -/
theorem isPiece_invalid {rest : List CodeUnit} {f : Fault} (hrest : rest ≠ [])
    (hf : Escape.body (some .templateOctal) rest = .error f) :
    IsPiece (CodeUnit.backslash :: rest) (1 + f.stop) none := by
  have hclean : Outcome.Clean rest (.error f : Outcome _) := hf ▸ Escape.clean_body _ rest
  have hresumes : Resumes rest f.stop := by
    obtain ⟨u, rest, rfl⟩ := List.exists_cons_of_ne_nil hrest
    have := escape_resumes (some .templateOctal) u rest
    rw [hf] at this
    exact this
  refine isPiece_of_resumes hresumes hclean.2 (iff_of_true rfl ?_) (by simp)
  rintro ⟨w, after, units, rfl, hescape⟩
  obtain ⟨e, he, -⟩ := Escape.exists_body_of_written
    (show Escape.Written (some EscapeError.templateOctal).isNone w after units from hescape)
  rw [hf] at he
  simp at he

/-! ## Spans -/

/-- What the search says of a span: the reading `x` ends behind the delimiter that was found, its
raw text is what stands in front of it, and its cooked value is what the items there denote, unless
an escape is invalid. -/
structure Describes (text : List CodeUnit) (e : Ending) (x : Reading Span) : Prop where
  search_eq : search false text = some e
  length_eq : x.length = e.length + e.width
  last_eq : x.value.last = e.last
  raw_eq : x.value.raw = normalize (text.take e.length)
  cooked_eq_none_iff : x.value.cooked = none ↔ HasInvalidEscape e.length text
  items {value : List CodeUnit} :
    x.value.cooked = some value → Items (text.take e.length) (text.drop e.length) value

/-- A span with no unit in front of its delimiter. -/
theorem describes_nil {text : List CodeUnit} {e : Ending} (hsearch : search false text = some e)
    (he : e.length = 0) : Describes text e ⟨⟨some [], [], e.last⟩, e.width, ∅⟩ where
  search_eq := hsearch
  length_eq := by rw [he, Nat.zero_add]
  last_eq := rfl
  raw_eq := by rw [he]; rfl
  cooked_eq_none_iff := by simp [he, HasInvalidEscape, escapes]
  items := by
    intro value hvalue
    obtain rfl := Option.some.inj hvalue
    rw [he]
    exact .nil

/-- **One piece more.** -/
theorem Describes.prepend {text : List CodeUnit} {k : Nat} {e : Ending} {x : Reading Span}
    {cooked : Option (List CodeUnit)} {flags : TokenFlags} (hx : Describes (text.drop k) e x)
    (hpiece : IsPiece text k cooked) :
    Describes text (e.after k)
      ⟨x.value.prepend cooked (normalize (text.take k)), k + x.length, flags⟩ where
  search_eq := by rw [hpiece.search_eq, hx.search_eq]; rfl
  length_eq := by
    show k + x.length = k + e.length + e.width
    rw [hx.length_eq, Nat.add_assoc]
  last_eq := hx.last_eq
  raw_eq := by
    have hcut : CleanCut (text.take k ++ (text.drop k).take e.length) (text.take k).length := by
      rw [← List.take_add, List.length_take_of_le hpiece.clean.le]
      refine CleanCut.append_left (b := text.drop (k + e.length)) ?_ ?_
      · rw [List.take_append_drop]
        exact hpiece.clean
      · rw [List.length_take]
        have := hpiece.clean.le
        omega
    show normalize (text.take k) ++ x.value.raw = normalize (text.take (k + e.length))
    rw [hx.raw_eq, List.take_add, normalize_append hcut]
  cooked_eq_none_iff := by
    show (x.value.prepend cooked _).cooked = none ↔ HasInvalidEscape (k + e.length) text
    rw [hpiece.invalid_iff, ← hx.cooked_eq_none_iff]
    unfold Span.prepend
    cases cooked <;> cases x.value.cooked <;> simp
  items := by
    intro value hvalue
    show Items (text.take (k + e.length)) (text.drop (k + e.length)) value
    unfold Span.prepend at hvalue
    cases hcooked : cooked with
    | none => simp [hcooked] at hvalue
    | some units =>
      cases hrest : x.value.cooked with
      | none => simp [hcooked, hrest] at hvalue
      | some more =>
        obtain rfl : units ++ more = value := by simpa [hcooked, hrest] using hvalue
        have hmore := hx.items hrest
        rw [List.drop_drop] at hmore
        rw [List.take_add]
        refine hpiece.items hcooked ?_ hmore
        rw [← List.drop_drop, List.take_append_drop]

/-- What `span` does on a text: it stands on the delimiter, or it takes a piece and goes on behind
it, or it fails. Then there is no delimiter, or the template has no tag and an escape is invalid. -/
inductive Step (tagged : Bool) (text : List CodeUnit) : Prop
  | ending (e : Ending) (hsearch : search false text = some e) (hlength : e.length = 0)
      (hspan : span tagged text = .ok ⟨⟨some [], [], e.last⟩, e.width, ∅⟩)
  | piece (k : Nat) (cooked : Option (List CodeUnit)) (hpos : 0 < k)
      (hpiece : IsPiece text k cooked) (htagged : cooked = none → tagged = true)
      (hspan : span tagged text = ((span tagged (text.drop k)).shift k ∅).mapValue
        (·.prepend cooked (normalize (text.take k))))
  | failure (f : Fault) (hspan : span tagged text = .error f)
      (hfails : search false text = none ∨ tagged = false ∧ ∃ k, 0 < k ∧ IsPiece text k none)

/-- **One step of a span.** -/
theorem step_span (tagged : Bool) (text : List CodeUnit) : Step tagged text := by
  cases text with
  | nil => exact .failure _ (by rw [span]; rfl) (.inl rfl)
  | cons u rest =>
    by_cases htick : u = CodeUnit.backtick
    · subst htick
      exact .ending ⟨0, true⟩ rfl rfl (span_backtick tagged rest)
    by_cases hdollar : u = CodeUnit.dollar ∧ rest.head? = some CodeUnit.leftBrace
    · refine .ending ⟨0, false⟩ ?_ rfl ?_
      · rw [search, if_neg (by decide), if_neg htick, if_pos hdollar]
      · rw [span, if_neg htick, if_pos hdollar]
        rfl
    by_cases hescape : u = CodeUnit.backslash
    · subst hescape
      have htake (k : Nat) : (CodeUnit.backslash :: rest).take (1 + k) =
          CodeUnit.backslash :: rest.take k := by
        rw [Nat.add_comm, List.take_succ_cons]
      have hdrop (k : Nat) : (CodeUnit.backslash :: rest).drop (1 + k) = rest.drop k := by
        rw [Nat.add_comm, List.drop_succ_cons]
      cases hbody : Escape.body (some .templateOctal) rest with
      | ok e =>
        refine .piece (1 + e.length) _ (by omega) (isPiece_escape hbody) (by simp) ?_
        rw [span_escape hbody, htake, hdrop]
      | error f =>
        by_cases hrest : rest = []
        · subst hrest
          refine .failure ⟨.unterminatedTemplate, 1, 1, ∅⟩ ?_ (.inl rfl)
          rw [span, if_neg htick, if_neg hdollar, if_pos rfl, if_pos rfl]
        have hpiece := isPiece_invalid hrest hbody
        cases tagged with
        | true =>
          refine .piece (1 + f.stop) none (by omega) hpiece (fun _ => rfl) ?_
          rw [span_invalid hrest hbody, htake, hdrop]
        | false =>
          refine .failure ⟨f.cause, 0, 1 + f.stop, ∅⟩ ?_ (.inr ⟨rfl, _, by omega, hpiece⟩)
          rw [span, if_neg htick, if_neg hdollar, if_pos rfl, if_neg hrest, hbody]
          rfl
    by_cases hreturn : u = CodeUnit.carriageReturn
    · subst hreturn
      refine .piece _ _ (by omega) (isPiece_return rest) (by simp) ?_
      have hraw : normalize ((CodeUnit.carriageReturn :: rest).take
          (1 + if rest.head? = some CodeUnit.lineFeed then 1 else 0)) = [CodeUnit.lineFeed] := by
        split
        · next hhead =>
          obtain ⟨rest, rfl⟩ := List.head?_eq_some_iff.mp hhead
          rfl
        · rfl
      rw [span_return, hraw, Nat.add_comm 1, List.drop_succ_cons]
    · have hpiece := isPiece_unit htick hdollar hescape hreturn
      refine .piece 1 (some [u]) (by omega) hpiece (by simp) ?_
      have hraw : normalize [u] = [u] := normalize_cons hreturn []
      rw [span_unit htick hdollar hescape hreturn, List.take_succ_cons, List.take_zero, hraw]
      rfl

/-- **What is read is what the search says.** -/
theorem describes_of_span {tagged : Bool} {text : List CodeUnit} {x : Reading Span}
    (h : span tagged text = .ok x) :
    ∃ e, Describes text e x ∧ (tagged = false → ¬HasInvalidEscape e.length text) := by
  -- each step leaves a shorter text
  induction hn : text.length using Nat.strong_induction_on generalizing text x with
  | _ n ih =>
    subst hn
    cases step_span tagged text with
    | ending e hsearch hlength hspan =>
      rw [hspan] at h
      obtain rfl := Except.ok.inj h
      refine ⟨e, describes_nil hsearch hlength, fun _ => ?_⟩
      simp [hlength, HasInvalidEscape, escapes]
    | piece k cooked hpos hpiece htagged hspan =>
      rw [hspan] at h
      obtain ⟨z, hz, rfl⟩ := Outcome.mapValue_shift_eq_ok_iff.mp h
      have hle := hpiece.clean.le
      obtain ⟨e, he, hvalid⟩ := ih _ (by rw [List.length_drop]; omega) hz rfl
      refine ⟨e.after k, he.prepend hpiece, ?_⟩
      intro hplain
      rw [Ending.length_after, hpiece.invalid_iff, not_or]
      exact ⟨fun hnone => by simp [htagged hnone] at hplain, hvalid hplain⟩
    | failure f hspan _ =>
      rw [hspan] at h
      simp at h

/-- **What the search finds is read**, all escapes in front of it being valid or the template having
a tag. -/
theorem exists_span_of_search {tagged : Bool} {text : List CodeUnit} {e : Ending}
    (h : search false text = some e)
    (hvalid : tagged = true ∨ ¬HasInvalidEscape e.length text) :
    ∃ x, span tagged text = .ok x := by
  induction hn : text.length using Nat.strong_induction_on generalizing text e with
  | _ n ih =>
    subst hn
    cases step_span tagged text with
    | ending _ _ _ hspan => exact ⟨_, hspan⟩
    | piece k cooked hpos hpiece _ hspan =>
      rw [hpiece.search_eq] at h
      obtain ⟨e, he, rfl⟩ := Option.map_eq_some_iff.mp h
      rw [Ending.length_after, hpiece.invalid_iff, not_or] at hvalid
      have hle := hpiece.clean.le
      obtain ⟨x, hx⟩ := ih _ (by rw [List.length_drop]; omega) he (hvalid.imp_right And.right) rfl
      rw [hspan, hx]
      exact ⟨_, rfl⟩
    | failure f _ hfails =>
      rcases hfails with hnone | ⟨rfl, k, -, hpiece⟩
      · simp [hnone] at h
      · rw [hpiece.search_eq] at h
        obtain ⟨e, -, rfl⟩ := Option.map_eq_some_iff.mp h
        rw [Ending.length_after, hpiece.invalid_iff] at hvalid
        simp at hvalid

/-- The delimiter that was found stands where the search says. -/
theorem search_drop {hidden : Bool} {text : List CodeUnit} {e : Ending}
    (h : search hidden text = some e) : search false (text.drop e.length) = some ⟨0, e.last⟩ := by
  induction text generalizing hidden e with
  | nil => simp [search] at h
  | cons u rest ih =>
    have hmore {hidden : Bool} (h : (search hidden rest).map (Ending.after 1) = some e) :
        search false ((u :: rest).drop e.length) = some ⟨0, e.last⟩ := by
      obtain ⟨e, he, rfl⟩ := Option.map_eq_some_iff.mp h
      rw [Ending.length_after, Nat.add_comm, List.drop_succ_cons]
      exact ih he
    rw [search] at h
    split at h
    · exact hmore h
    next hhidden =>
    split at h
    · next htick =>
      obtain rfl := Option.some.inj h
      rw [List.drop_zero, search, if_neg (by decide), if_pos htick]
    next htick =>
    split at h
    · next hdollar =>
      obtain rfl := Option.some.inj h
      rw [List.drop_zero, search, if_neg (by decide), if_neg htick, if_pos hdollar]
    · exact hmore h

/-- The delimiter that was found lies inside the text. -/
theorem length_le_of_search {hidden : Bool} {text : List CodeUnit} {e : Ending}
    (h : search hidden text = some e) : e.length + e.width ≤ text.length := by
  have hfound := search_drop h
  have hdrop : (text.drop e.length).length = text.length - e.length := List.length_drop
  cases hrest : text.drop e.length with
  | nil =>
    rw [hrest] at hfound
    exact nomatch hfound
  | cons u rest =>
    rw [hrest, List.length_cons] at hdrop
    cases hlast : e.last with
    | true =>
      rw [Ending.width, hlast, if_pos rfl]
      omega
    | false =>
      -- a dollar sign is a delimiter only with a brace behind it
      have hne : rest ≠ [] := by
        rintro rfl
        rw [hrest, hlast, search] at hfound
        simp [search] at hfound
      have hpos := List.length_pos_iff.mpr hne
      rw [Ending.width, hlast, if_neg (by decide)]
      omega

/-- **Items are read**, and what they denote is the cooked value. -/
theorem exists_span_of_items (tagged : Bool) {w after value : List CodeUnit} {last : Bool}
    (h : Items w after value) (hafter : search false after = some ⟨0, last⟩) :
    ∃ x, span tagged (w ++ after) = .ok x ∧ x.value.cooked = some value := by
  induction h with
  | @nil after =>
    rw [List.nil_append]
    cases step_span tagged after with
    | ending e _ _ hspan => exact ⟨_, hspan, rfl⟩
    | piece k cooked hpos hpiece _ _ =>
      exact absurd (hpiece.le_of_search hafter) (Nat.not_le.mpr hpos)
    | failure f _ hfails =>
      rcases hfails with hnone | ⟨-, k, hpos, hpiece⟩
      · simp [hnone] at hafter
      · exact absurd (hpiece.le_of_search hafter) (Nat.not_le.mpr hpos)
  | unit htick hdollar hescape hreturn _ ih =>
    obtain ⟨x, hx, hcooked⟩ := ih hafter
    rw [List.cons_append, span_unit htick hdollar hescape hreturn, hx]
    refine ⟨_, rfl, ?_⟩
    simp [Span.prepend, hcooked]
  | carriageReturn halone _ ih =>
    obtain ⟨x, hx, hcooked⟩ := ih hafter
    rw [List.cons_append, span_return, if_neg halone, List.drop_zero, hx]
    refine ⟨_, rfl, ?_⟩
    simp [Span.prepend, hcooked]
  | crlf _ ih =>
    obtain ⟨x, hx, hcooked⟩ := ih hafter
    rw [List.cons_append, List.cons_append, span_return, List.head?_cons, if_pos rfl,
      List.drop_succ_cons, List.drop_zero, hx]
    refine ⟨_, rfl, ?_⟩
    simp [Span.prepend, hcooked]
  | @escape e w after units value hescape _ ih =>
    obtain ⟨x, hx, hcooked⟩ := ih hafter
    have hwritten : Escape.Written (some EscapeError.templateOctal).isNone e (w ++ after) units :=
      hescape
    obtain ⟨y, hy, hunits, hlength⟩ := Escape.exists_body_of_written hwritten
    rw [List.cons_append, List.append_assoc, span_escape hy, hlength, List.drop_left, hx]
    refine ⟨_, rfl, ?_⟩
    simp [Span.prepend, hcooked, hunits]

/-- Without an escape, items denote their text with its line ends normalised. -/
theorem Items.eq_normalize {w after value : List CodeUnit} (h : Items w after value)
    (hw : CodeUnit.backslash ∉ w) : value = normalize w := by
  induction h with
  | nil => rfl
  | unit _ _ _ hreturn _ ih =>
    rw [normalize_cons hreturn, ← ih (fun hmem => hw (List.mem_cons_of_mem _ hmem))]
  | @carriageReturn w after value halone _ ih =>
    have hhead : w.head? ≠ some CodeUnit.lineFeed := by
      intro h
      obtain ⟨rest, rfl⟩ := List.head?_eq_some_iff.mp h
      exact halone rfl
    rw [normalize_return hhead, ← ih (fun hmem => hw (List.mem_cons_of_mem _ hmem))]
  | crlf _ ih =>
    rw [normalize_crlf,
      ← ih (fun hmem => hw (List.mem_cons_of_mem _ (List.mem_cons_of_mem _ hmem)))]
  | escape _ _ _ => exact absurd List.mem_cons_self hw

/-- A backtick begins neither a name nor a number. -/
theorem read_backtick (c : Context) (text : List CodeUnit) :
    Lexeme.read c (CodeUnit.backtick :: text) =
      read c.taggedTemplate true (CodeUnit.backtick :: text) := by
  have hname : Lexeme.beginsName (CodeUnit.backtick :: text) = false := by cases text <;> rfl
  have hnumber : Lexeme.beginsNumber (CodeUnit.backtick :: text) = false := rfl
  rw [Lexeme.read, if_neg (by simp [hname]), if_neg (by simp [hnumber]), if_neg (by decide),
    if_pos rfl]

/-- The kind of the token of a span, by the delimiters around it. -/
def kindOf (first last : Bool) : Token.Kind :=
  if first then if last then .noSubstitutionTemplate else .templateHead
  else if last then .templateTail else .templateMiddle

end Template

open Template in
/-- A call scans the span that begins with the one unit at `start` and goes on with `text`: it
succeeds if the search comes upon an end, unless there is an invalid escape in front of it and the
template has no tag, and the token is what the search says. -/
structure ScansSpan (c : Context) (first : Bool) (start : Cursor) (text : List CodeUnit)
    (call : Except LexError Token × Scanner) : Prop where
  ok_iff : (∃ t s', call = (.ok t, s')) ↔
    ∃ e, search false text = some e ∧
      (c.taggedTemplate = true ∨ ¬HasInvalidEscape e.length text)
  place {e : Ending} {t : Token} {s' : Scanner} : call = (.ok t, s') →
    search false text = some e →
    t.start = start.location ∧ t.stop = start.location.offset + (1 + (e.length + e.width)) ∧
      s'.cursor = start.advance (1 + (e.length + e.width))
  kind {e : Ending} {t : Token} {s' : Scanner} : call = (.ok t, s') →
    search false text = some e → t.kind = kindOf first e.last
  value {e : Ending} {t : Token} {s' : Scanner} : call = (.ok t, s') →
    search false text = some e →
    ∃ cooked, t.value = .template cooked (normalize (text.take e.length)) ∧
      (cooked = none ↔ HasInvalidEscape e.length text) ∧
      (∀ units, cooked = some units ↔
        Items (text.take e.length) (text.drop e.length) units) ∧
      (CodeUnit.backslash ∉ text.take e.length →
        cooked = some (normalize (text.take e.length)))

namespace Template

theorem kind_lexeme (first : Bool) (x : Span) : (lexeme first x).kind = kindOf first x.last := by
  cases first <;> cases h : x.last <;> simp [lexeme, kindOf, h]

/-- The cooked value of a span is what its items denote. -/
theorem Describes.cooked_eq_some_iff {tagged : Bool} {text : List CodeUnit} {e : Ending}
    {x : Reading Span} (hx : Describes text e x) (hspan : span tagged text = .ok x)
    {units : List CodeUnit} :
    x.value.cooked = some units ↔ Items (text.take e.length) (text.drop e.length) units := by
  constructor
  · exact hx.items
  · intro hitems
    obtain ⟨y, hy, hcooked⟩ := exists_span_of_items tagged hitems (search_drop hx.search_eq)
    rw [List.take_append_drop, hspan] at hy
    obtain rfl := Except.ok.inj hy
    exact hcooked

/-- Without an escape the cooked value is the raw text. -/
theorem Describes.cooked_eq_raw {text : List CodeUnit} {e : Ending} {x : Reading Span}
    (hx : Describes text e x) (hplain : CodeUnit.backslash ∉ text.take e.length) :
    x.value.cooked = some (normalize (text.take e.length)) := by
  have hescapes {n : Nat} {text : List CodeUnit} (h : CodeUnit.backslash ∉ text.take n) :
      escapes false n text = [] := by
    induction n generalizing text with
    | zero => rfl
    | succ n ih =>
      cases text with
      | nil => rfl
      | cons u rest =>
        rw [List.take_succ_cons, List.mem_cons, not_or] at h
        rw [escapes, if_neg (by decide), if_neg (fun hu => h.1 hu.symm)]
        exact ih h.2
  have hcooked : x.value.cooked ≠ none := by
    rw [Ne, hx.cooked_eq_none_iff, HasInvalidEscape, hescapes hplain]
    simp
  obtain ⟨units, hunits⟩ := Option.ne_none_iff_exists'.mp hcooked
  rw [hunits, (hx.items hunits).eq_normalize hplain]

/-- A call that settles what the reader of a span gives scans the span. -/
theorem scansSpan_settle (c : Context) (first : Bool) {s : Scanner} {start : Cursor} {u : CodeUnit}
    {text : List CodeUnit} (hrest : start.rest = u :: text) :
    ScansSpan c first start text
      (s.settle c start start.advance (read c.taggedTemplate first (u :: text))) := by
  -- the search that describes the span is the one that is asked for
  have hread {e : Ending} {t : Token} {s' : Scanner} (h : s.settle c start start.advance
      (read c.taggedTemplate first (u :: text)) = (.ok t, s')) (he : search false text = some e) :
      ∃ x flags, span c.taggedTemplate text = .ok x ∧ Describes text e x ∧
        let y : Reading Lexeme := ⟨lexeme first x.value, 1 + x.length, flags⟩
        t = .ofReading c start (start.advance y.length) s.flags y ∧
          s' = s.took start (start.advance y.length) y := by
    obtain ⟨y, hy, rfl, rfl⟩ := Scanner.settle_eq_ok_iff.mp h
    obtain ⟨x, hx, rfl⟩ := Outcome.mapValue_shift_eq_ok_iff.mp hy
    obtain ⟨e', hdescribes, -⟩ := describes_of_span hx
    obtain rfl := Option.some.inj (he.symm.trans hdescribes.search_eq)
    exact ⟨x, _, hx, hdescribes, rfl, rfl⟩
  refine ⟨⟨?_, ?_⟩, ?_, ?_, ?_⟩
  · rintro ⟨t, s', h⟩
    obtain ⟨y, hy, -⟩ := Scanner.settle_eq_ok_iff.mp h
    obtain ⟨x, hx, -⟩ := Outcome.mapValue_shift_eq_ok_iff.mp hy
    obtain ⟨e, he, hvalid⟩ := describes_of_span hx
    refine ⟨e, he.search_eq, ?_⟩
    cases htagged : c.taggedTemplate with
    | true => exact .inl rfl
    | false => exact .inr (hvalid htagged)
  · rintro ⟨e, he, hvalid⟩
    obtain ⟨x, hx⟩ := exists_span_of_search he hvalid
    exact ⟨_, _, Scanner.settle_eq_ok_iff.mpr
      ⟨_, Outcome.mapValue_shift_eq_ok_iff.mpr ⟨x, hx, rfl⟩, rfl, rfl⟩⟩
  · intro e t s' h he
    obtain ⟨x, flags, hx, hdescribes, rfl, rfl⟩ := hread h he
    have hle : 1 + x.length ≤ start.rest.length := by
      have hclean := clean_span c.taggedTemplate text
      rw [hx] at hclean
      rw [hrest, List.length_cons, Nat.add_comm]
      exact Nat.succ_le_succ hclean.le
    rw [← hdescribes.length_eq]
    refine ⟨rfl, ?_, rfl⟩
    show (start.advance (1 + x.length)).location.offset = _
    rw [Cursor.offset_advance, List.length_take, Nat.min_eq_left hle]
  · intro e t s' h he
    obtain ⟨x, flags, -, hdescribes, rfl, -⟩ := hread h he
    rw [← hdescribes.last_eq]
    exact kind_lexeme first x.value
  · intro e t s' h he
    obtain ⟨x, flags, hx, hdescribes, rfl, -⟩ := hread h he
    rw [← hdescribes.raw_eq]
    refine ⟨x.value.cooked, rfl, hdescribes.cooked_eq_none_iff, ?_, ?_⟩
    · exact fun units => hdescribes.cooked_eq_some_iff hx
    · rw [hdescribes.raw_eq]
      exact hdescribes.cooked_eq_raw

end Template

/-- **Template spans.** The spans of templates that a scanner reads, the first one from a backtick
behind trivia, the others from the brace before the cursor, are what a search for their end says. -/
theorem Scanner.scansSpan (c : Context) (s : Scanner) (text : List CodeUnit) :
    (∀ s₁, ({ s with flags := ∅ } : Scanner).skipTrivia c = (.ok (), s₁) →
      s₁.cursor.rest = CodeUnit.backtick :: text →
      ScansSpan c true s₁.cursor text (s.next c) ∧
        ScansSpan c true s₁.cursor text (s.nextJsxAttribute c)) ∧
    (s.tokenStart.rest = CodeUnit.rightBrace :: text →
      ScansSpan c false s.tokenStart text (s.continueTemplate c)) := by
  constructor
  · intro s₁ htrivia hrest
    have hspan := Template.scansSpan_settle c true (s := s₁) hrest
    rw [← Template.read_backtick, ← hrest] at hspan
    constructor
    · rw [next, readAfterTrivia, htrivia]
      exact hspan
    · rw [nextJsxAttribute, readAfterTrivia, htrivia]
      have hchoice : (s₁.cursor.rest.head?.any CodeUnit.isQuote) = false := by
        rw [hrest]
        rfl
      dsimp only
      rw [hchoice]
      exact hspan
  · intro hrest
    have hread : Template.readContinuation c.taggedTemplate s.tokenStart.rest =
        Template.read c.taggedTemplate false (CodeUnit.rightBrace :: text) := by
      rw [hrest]
      exact if_pos rfl
    rw [continueTemplate, readAgain, hread]
    exact Template.scansSpan_settle c false hrest

end EcmaLex
