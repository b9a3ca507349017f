import Mathlib.Data.List.Forall2
import ViewTree.Proofs.Markup.StartTags
/-!
# Raw text

The content of a raw text element is a single text, whatever stands in it, up to the first end tag
that closes it (`FirstEnd`), and reading goes on behind that end tag. Newlines at the beginning of a
textarea are not part of its content: the start tag drops one, and so does the text.
-/

namespace ViewTree.Markup

/-! ## The first end tag -/

/-- An end tag that closes a raw text element stands at the front: `</`, the letters of the tag in
any case, and anything up to the next `>`. -/
def RawEnd (tag cs rest : List Char) : Prop :=
  ∃ letters more, cs = '<' :: '/' :: (letters ++ (more ++ '>' :: rest)) ∧
    List.Forall₂ (fun l c => sameLetter l c) tag letters ∧ '>' ∉ more

/-- The first end tag that closes a raw text element, with the content in front of it and the text
behind it. -/
structure FirstEnd (tag cs content fromEnd rest : List Char) : Prop where
  split : cs = content ++ fromEnd
  ends : RawEnd tag fromEnd rest
  first : ∀ front behind after, content = front ++ behind → behind ≠ [] →
    ¬ RawEnd tag (behind ++ fromEnd) after

section

variable {tag cs content fromEnd rest : List Char}

theorem afterAngle?_eq_some :
    afterAngle? cs = some rest ↔ ∃ more, cs = more ++ '>' :: rest ∧ '>' ∉ more := by
  induction cs with
  | nil => simp [afterAngle?]
  | cons c cs ih =>
    by_cases hc : c = '>'
    · subst hc
      have hhere : afterAngle? ('>' :: cs) = some cs := rfl
      rw [hhere]
      constructor
      · intro h
        cases h
        exact ⟨[], rfl, List.not_mem_nil⟩
      · rintro ⟨more, hcs, hmore⟩
        cases more with
        | nil => rw [(List.cons.inj hcs).2]
        | cons x more =>
          obtain ⟨rfl, -⟩ := List.cons.inj hcs
          exact absurd List.mem_cons_self hmore
    · have hskip : afterAngle? (c :: cs) = afterAngle? cs := by
        simp [afterAngle?, List.dropWhile_cons_of_pos, hc]
      rw [hskip, ih]
      constructor
      · rintro ⟨more, rfl, hmore⟩
        exact ⟨c :: more, rfl, by simp [hmore, Ne.symm hc]⟩
      · rintro ⟨more, hcs, hmore⟩
        cases more with
        | nil => exact absurd (List.cons.inj hcs).1 hc
        | cons x more =>
          exact ⟨more, (List.cons.inj hcs).2, fun h => hmore (List.mem_cons_of_mem _ h)⟩

theorem stripLetters?_eq_some :
    rawEnd?.stripLetters? tag cs = some rest ↔
      ∃ letters, cs = letters ++ rest ∧ List.Forall₂ (fun l c => sameLetter l c) tag letters := by
  induction tag generalizing cs with
  | nil => simp [rawEnd?.stripLetters?]
  | cons l tag ih =>
    cases cs with
    | nil => simp [rawEnd?.stripLetters?]
    | cons c cs =>
      rw [rawEnd?.stripLetters?, Option.ite_none_right_eq_some, ih]
      constructor
      · rintro ⟨hc, letters, rfl, hletters⟩
        exact ⟨c :: letters, rfl, .cons hc hletters⟩
      · rintro ⟨letters, hcs, hletters⟩
        cases hletters with
        | cons hc hletters =>
          obtain ⟨rfl, rfl⟩ := List.cons.inj hcs
          exact ⟨hc, _, rfl, hletters⟩

theorem rawEnd?_eq_some : rawEnd? tag cs = some rest ↔ RawEnd tag cs rest := by
  constructor
  · intro h
    unfold rawEnd? at h
    split at h
    · obtain ⟨behind, hletters, hangle⟩ := Option.bind_eq_some_iff.1 h
      obtain ⟨letters, rfl, hsame⟩ := stripLetters?_eq_some.1 hletters
      obtain ⟨more, rfl, hmore⟩ := afterAngle?_eq_some.1 hangle
      exact ⟨letters, more, rfl, hsame, hmore⟩
    · cases h
  · rintro ⟨letters, more, rfl, hsame, hmore⟩
    exact Option.bind_eq_some_iff.2 ⟨more ++ '>' :: rest,
      stripLetters?_eq_some.2 ⟨letters, rfl, hsame⟩, afterAngle?_eq_some.2 ⟨more, rfl, hmore⟩⟩

theorem RawEnd.eq_cons (h : RawEnd tag cs rest) :
    ∃ behind, cs = '<' :: behind ∧ rest <:+ behind := by
  obtain ⟨letters, more, rfl, -, -⟩ := h
  exact ⟨_, rfl, '/' :: (letters ++ (more ++ ['>'])), by simp⟩

/-- No end tag begins with a character other than `<`. -/
theorem firstEnd_cons {c : Char} (hc : ∀ rest, ¬ RawEnd tag (c :: cs) rest) :
    FirstEnd tag (c :: cs) (c :: content) fromEnd rest ↔ FirstEnd tag cs content fromEnd rest := by
  constructor
  · rintro ⟨hsplit, hends, hfirst⟩
    exact ⟨(List.cons.inj hsplit).2, hends, fun front behind after hcontent =>
      hfirst (c :: front) behind after (by rw [hcontent, List.cons_append])⟩
  · rintro ⟨rfl, hends, hfirst⟩
    refine ⟨rfl, hends, fun front behind after hcontent hne => ?_⟩
    cases front with
    | nil =>
      rw [List.nil_append] at hcontent
      rw [← hcontent]
      exact hc after
    | cons x front => exact hfirst front behind after (List.cons.inj hcontent).2 hne

theorem rawText?_eq_some :
    rawText? tag cs = some (content, fromEnd, rest) ↔ FirstEnd tag cs content fromEnd rest := by
  induction cs generalizing content with
  | nil =>
    constructor
    · intro h
      cases h
    · intro h
      obtain ⟨behind, hend, -⟩ := h.ends.eq_cons
      simpa [hend] using h.split
  | cons c cs ih =>
    unfold rawText?
    split
    · rename_i after hend
      have hhere : RawEnd tag (c :: cs) after := rawEnd?_eq_some.1 hend
      constructor
      · intro h
        simp only [Option.some.injEq, Prod.mk.injEq] at h
        obtain ⟨rfl, rfl, rfl⟩ := h
        exact ⟨rfl, hhere, fun front behind after hcontent hne =>
          absurd (List.append_eq_nil_iff.1 hcontent.symm).2 hne⟩
      · rintro ⟨hsplit, hends, hfirst⟩
        cases content with
        | nil =>
          rw [List.nil_append] at hsplit
          subst hsplit
          have hsame := rawEnd?_eq_some.2 hends
          rw [hend] at hsame
          rw [Option.some.inj hsame]
        | cons x content =>
          rw [hsplit] at hhere
          exact absurd hhere (hfirst [] (x :: content) after rfl (List.cons_ne_nil _ _))
    · rename_i hnone
      have hc : ∀ rest, ¬ RawEnd tag (c :: cs) rest := by
        intro rest h
        rw [rawEnd?_eq_some.2 h] at hnone
        cases hnone
      constructor
      · intro h
        obtain ⟨⟨content', found⟩, hfound, heq⟩ := Option.map_eq_some_iff.1 h
        cases heq
        exact (firstEnd_cons hc).2 (ih.1 hfound)
      · intro h
        cases content with
        | nil =>
          have hends := h.ends
          rw [← List.nil_append fromEnd, ← h.split] at hends
          exact absurd hends (hc rest)
        | cons x content =>
          obtain ⟨rfl, -⟩ := List.cons.inj h.split
          rw [ih.2 ((firstEnd_cons hc).1 h)]
          rfl

theorem dropFirstNewline_of_ne {c : Char} (hc : c ≠ '\n') (name : String) (cs : List Char) :
    dropFirstNewline name (c :: cs) = c :: cs := by
  unfold dropFirstNewline
  split
  · rename_i heq
    exact absurd (List.cons.inj heq).1 hc
  · rfl

/-- A newline dropped in front of raw text is dropped in front of its content. -/
theorem FirstEnd.dropFirstNewline (h : FirstEnd tag cs content fromEnd rest) (name : String) :
    FirstEnd tag (dropFirstNewline name cs) (dropFirstNewline name content) fromEnd rest := by
  have hnewline : ∀ cs rest, ¬ RawEnd tag ('\n' :: cs) rest := by
    intro cs rest hend
    obtain ⟨behind, heq, -⟩ := hend.eq_cons
    exact absurd (List.cons.inj heq).1 (by decide)
  cases content with
  | nil =>
    obtain ⟨behind, hend, -⟩ := h.ends.eq_cons
    have hcs : cs = '<' :: behind := h.split.trans hend
    subst hcs
    exact h
  | cons c content =>
    obtain rfl := h.split
    by_cases hc : c = '\n'
    · subst hc
      simp only [List.cons_append, Markup.dropFirstNewline]
      split
      · exact (firstEnd_cons (hnewline _)).1 h
      · exact h
    · rw [List.cons_append] at h ⊢
      rw [dropFirstNewline_of_ne hc, dropFirstNewline_of_ne hc]
      exact h

theorem FirstEnd.rest_length_lt (h : FirstEnd tag cs content fromEnd rest) :
    rest.length < cs.length := by
  obtain ⟨behind, hend, hrest⟩ := h.ends.eq_cons
  have hlength := hrest.length_le
  rw [h.split, hend, List.length_append, List.length_cons]
  omega

end

/-! ## Reading inside an element -/

section

variable (total : Nat) (d : Dialect) {q : OpenElements} {e : OpenElement} {cs : List Char}

theorem step_push_of_isRawText (hraw : Platform.isRawText e.tag) (q : OpenElements)
    (cs : List Char) :
    step total d (q.push e) cs = rawStep total (q.push e) e.tag cs := by
  simp [step, OpenElements.push, Option.filter, hraw]

/-- At the end of the text the element is closed with a warning. -/
theorem events_push_nil : events total d (q.push e) [] =
    .warning (.unclosed e.tag e.span) :: .stop e.tag (between total [] []) ::
      (q.closeAll (between total [] [])).1 := by
  rw [events]
  rfl

variable (hraw : Platform.isRawText e.tag)
include hraw

/-- Up to its end tag an element has one text, and behind it the reader goes on as it was in front
of the element. -/
theorem events_push_of_firstEnd (hq : q.InStep) {content fromEnd rest : List Char}
    (h : FirstEnd (Text.asciiLower e.tag).toList cs content fromEnd rest) :
    events total d (q.push e) cs =
      textOf (dropFirstNewline (Text.asciiLower e.tag) content) (between total cs fromEnd) ++
        .stop e.tag (between total fromEnd rest) :: events total d q rest := by
  have hstep := (step_push_of_isRawText total d hraw q cs).trans
    (rawStep_of_some total hraw rfl (rawText?_eq_some.2 h))
  rw [ofStack_stack hq] at hstep
  rw [events_onward total d (by rw [hstep]; exact h.rest_length_lt), hstep, List.append_assoc]
  rfl

/-- Without an end tag the element is closed at once, and what was to be its content is text. -/
theorem events_push_of_no_end (hq : q.InStep) (hcs : cs ≠ [])
    (h : ∀ content fromEnd rest,
      ¬ FirstEnd (Text.asciiLower e.tag).toList cs content fromEnd rest) :
    events total d (q.push e) cs = .stop e.tag (between total cs cs) :: tail total q cs := by
  have hnone : rawText? (Text.asciiLower e.tag).toList cs = none :=
    Option.eq_none_iff_forall_ne_some.2 fun found hfound =>
      h _ _ _ (rawText?_eq_some.1 hfound)
  have hstep := (step_push_of_isRawText total d hraw q cs).trans
    (rawStep_of_none total hraw rfl hnone)
  rw [ofStack_stack hq] at hstep
  rw [events_stuck total d hcs (by rw [hstep]; exact Nat.lt_irrefl _), hstep]
  rfl

end

/-! ## Newlines in front of the text -/

/-- A newline is dropped in front of the raw text of a textarea only. -/
theorem dropFirstNewline_eq {name : String} (hraw : Platform.isRawText name)
    (content : List Char) :
    ∃ newlines, content = newlines ++ dropFirstNewline name content ∧ newlines.length ≤ 1 ∧
      (∀ c ∈ newlines, c = '\n') ∧ (Text.asciiLower name ≠ "textarea" → newlines = []) := by
  have hkept : ∃ newlines : List Char, content = newlines ++ content ∧ newlines.length ≤ 1 ∧
      (∀ c ∈ newlines, c = '\n') ∧ (Text.asciiLower name ≠ "textarea" → newlines = []) :=
    ⟨[], rfl, Nat.zero_le 1, List.forall_mem_nil _, fun _ => rfl⟩
  unfold dropFirstNewline
  split
  · split
    · rename_i cs hname
      refine ⟨['\n'], rfl, Nat.le_refl 1, List.forall_mem_singleton.2 rfl, fun harea => ?_⟩
      simp only [Bool.or_eq_true, decide_eq_true_eq] at hname
      obtain rfl | rfl := hname
      · exact absurd hraw (by decide +kernel)
      · exact absurd (by decide +kernel) harea
    · exact hkept
  · exact hkept

/-- The start tag drops a newline, and the text behind it another one. -/
theorem dropFirstNewlines_eq {tag : String} (hraw : Platform.isRawText tag) (content : List Char) :
    ∃ newlines, content = newlines ++
        dropFirstNewline (Text.asciiLower tag) (dropFirstNewline tag content) ∧
      newlines.length ≤ 2 ∧ (∀ c ∈ newlines, c = '\n') ∧
      (Text.asciiLower tag ≠ "textarea" → newlines = []) := by
  have hlower := asciiLower_of_isRawText hraw
  have hraw' : Platform.isRawText (Text.asciiLower tag) := by
    rw [Platform.isRawText, hlower]
    exact hraw
  obtain ⟨front, hfront, hone, hnewlines, hnone⟩ := dropFirstNewline_eq hraw content
  obtain ⟨more, hmore, hone', hnewlines', hnone'⟩ :=
    dropFirstNewline_eq hraw' (dropFirstNewline tag content)
  refine ⟨front ++ more, ?_, ?_, List.forall_mem_append.2 ⟨hnewlines, hnewlines'⟩, ?_⟩
  · rw [List.append_assoc, ← hmore]
    exact hfront
  · rw [List.length_append]
    omega
  · intro harea
    rw [hnone harea, hnone' (hlower.symm ▸ harea)]
    rfl

/-! ## The events of an element -/

namespace Event

/-- The event is a warning. -/
def isWarning : Event → Bool
  | warning _ => true
  | _ => false

end Event

/-- The events go on with the end of the element, or with one text and that end. -/
def EndsAfterText (tag : String) (es : List Event) : Prop :=
  ∃ stop behind, es = .stop tag stop :: behind ∨
    ∃ text place, es = .text text place :: .stop tag stop :: behind

/-- The events of a list that are not warnings. -/
def exceptWarnings (es : List Event) : List Event :=
  es.filter fun x => !x.isWarning

theorem exceptWarnings_of_isWarning {x : Event} (h : x.isWarning) (es : List Event) :
    exceptWarnings (x :: es) = exceptWarnings es :=
  List.filter_cons_of_neg (by simp [h])

theorem exceptWarnings_cons {x : Event} (h : x.isWarning = false) (es : List Event) :
    exceptWarnings (x :: es) = x :: exceptWarnings es :=
  List.filter_cons_of_pos (by simp [h])

theorem endsAfterText_textOf (text : List Char) (place : Span) (tag : String) (stop : Span)
    (es : List Event) :
    EndsAfterText tag (exceptWarnings (textOf text place ++ .stop tag stop :: es)) := by
  unfold textOf
  split
  · exact ⟨stop, _, .inl (exceptWarnings_cons rfl es)⟩
  · rw [List.singleton_append, exceptWarnings_cons rfl, exceptWarnings_cons rfl]
    exact ⟨stop, _, .inr ⟨_, place, rfl⟩⟩

theorem endsAfterText_stop (tag : String) (stop : Span) (es : List Event) :
    EndsAfterText tag (exceptWarnings (.stop tag stop :: es)) :=
  endsAfterText_textOf [] stop tag stop es

theorem endsAfterText_events_push (total : Nat) (d : Dialect) {q : OpenElements} {e : OpenElement}
    (hraw : Platform.isRawText e.tag) (hq : q.InStep) (cs : List Char) :
    EndsAfterText e.tag (exceptWarnings (events total d (q.push e) cs)) := by
  by_cases hends : ∃ content fromEnd rest,
      FirstEnd (Text.asciiLower e.tag).toList cs content fromEnd rest
  · obtain ⟨content, fromEnd, rest, hend⟩ := hends
    rw [events_push_of_firstEnd total d hraw hq hend]
    exact endsAfterText_textOf _ _ _ _ _
  · cases cs with
    | nil =>
      rw [events_push_nil, exceptWarnings_of_isWarning rfl]
      exact endsAfterText_stop _ _ _
    | cons c cs =>
      simp only [not_exists] at hends
      rw [events_push_of_no_end total d hraw hq (List.cons_ne_nil c cs) hends]
      exact endsAfterText_stop _ _ _

/-- Nothing but one text comes between the start tag of a raw text element and its end. If an end
tag follows, that text is what stands in front of the first one, less newlines at the beginning of a
textarea, and the reader goes on right behind the end tag with what was open before. -/
theorem rawText_inert (d : Dialect) (html : String) {before after : List Event} {tag : String}
    {attrs : List Attribute} {span : Span}
    (h : tokenize d html = before ++ .start tag attrs false span :: after)
    (hraw : Platform.isRawText tag) :
    EndsAfterText tag (exceptWarnings after) ∧
    ∃ behind, Text.dropBytes? span.stop html.toList = some behind ∧
      ∀ content fromEnd rest, FirstEnd (Text.asciiLower tag).toList behind content fromEnd rest →
        ∃ newlines text place o, content = newlines ++ text ∧ newlines.length ≤ 2 ∧
          (∀ c ∈ newlines, c = '\n') ∧ (Text.asciiLower tag ≠ "textarea" → newlines = []) ∧
          nest [] before = some o.tags ∧ o.InStep ∧
          after = textOf text place ++
            .stop tag (between (Text.byteLength html.toList) fromEnd rest) ::
              events (Text.byteLength html.toList) d o rest := by
  obtain ⟨q, behind, hq, hnest, hplace, rfl⟩ := exists_pushed h (.inr hraw)
  refine ⟨endsAfterText_events_push _ d (e := ⟨tag, span⟩) hraw hq _, behind, hplace, ?_⟩
  intro content fromEnd rest hend
  have hafter := events_push_of_firstEnd (Text.byteLength html.toList) d (e := ⟨tag, span⟩) hraw hq
    (hend.dropFirstNewline tag)
  obtain ⟨newlines, hcontent, htwo, hall, harea⟩ := dropFirstNewlines_eq hraw content
  exact ⟨newlines, _, _, q, hcontent, htwo, hall, harea, hnest, hq, hafter⟩

/-- Two newlines and a tag in front of an end tag in capitals. -/
theorem rawText_inert_textarea :
    EndsAfterText "textarea" (exceptWarnings
      [.text "<b>" ⟨11, 15⟩, .stop "textarea" ⟨15, 26⟩, .text "c" ⟨26, 27⟩]) ∧
    ∃ newlines text place o, "\n\n<b>".toList = newlines ++ text ∧ newlines.length ≤ 2 ∧
      (∀ c ∈ newlines, c = '\n') ∧ nest [] [] = some o.tags ∧
      [.text "<b>" ⟨11, 15⟩, .stop "textarea" ⟨15, 26⟩, .text "c" ⟨26, 27⟩] =
        textOf text place ++ .stop "textarea" ⟨15, 26⟩ :: events 27 .plain o ['c'] := by
  have htokens : tokenize .plain "<textarea>\n\n<b></TEXTAREA>c" =
      [] ++ .start "textarea" [] false ⟨0, 10⟩ ::
        [.text "<b>" ⟨11, 15⟩, .stop "textarea" ⟨15, 26⟩, .text "c" ⟨26, 27⟩] := by
    decide +kernel
  obtain ⟨hends, behind, hplace, hinert⟩ :=
    rawText_inert .plain _ htokens (by decide +kernel)
  have hbehind : behind = "\n\n<b></TEXTAREA>c".toList :=
    Option.some.inj (hplace.symm.trans (by decide +kernel))
  subst hbehind
  obtain ⟨newlines, text, place, o, hcontent, htwo, hall, -, hnest, -, hafter⟩ :=
    hinert "\n\n<b>".toList "</TEXTAREA>c".toList ['c']
      (rawText?_eq_some.1 (by decide +kernel))
  exact ⟨hends, newlines, text, place, o, hcontent, htwo, hall, hnest, hafter⟩

end ViewTree.Markup
