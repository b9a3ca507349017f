import ViewTree.Proofs.Markup.Warnings
/-!
# Elements without an end tag

Without the rules of HTML, an element that was opened by a start tag is closed by an end tag of its
name, or with a warning right in front of its end, and no other warning is about it
(`ClosedAloud`). Raw text is the exception: its element is closed without a word where no end tag
follows, and at what only looks like one (`closedAloud_iff`). The element is followed through the
steps: each of them leaves it open, closes it at its end tag, or closes it with a warning
(`Turn.outcome`).
-/

namespace ViewTree.Markup

/-! ## An open element -/

/-- What a step comes to for an element that is open, the others inside it and those around it. -/
inductive Outcome (total : Nat) (cs : List Char) (inner : List OpenElement) (e : OpenElement)
    (below : List OpenElement) (p : Progress) : Prop
  | kept {inner' : List OpenElement} (hstack : p.opened.stack = inner' ++ e :: below)
      (hnest : nest (inner.map (·.tag)) p.events = some (inner'.map (·.tag)))
      (hsilent : e.unclosed ∈ p.events → e ∈ inner)
      (hopened : ∀ x ∈ inner', x ∈ inner ∨ x.span.start = offset total cs)
  | ended {tag : String} (hend : endTag? cs = some (tag, p.rest))
      (htag : Text.asciiLower tag = Text.asciiLower e.tag)
      (hevents : p.events = inner.flatMap (OpenElements.implied (between total cs p.rest)) ++
        [.stop e.tag (between total cs p.rest)])
      (hstack : p.opened.stack = below)
  | warned {span : Span} {more : List Event}
      (hevents : p.events = inner.flatMap (OpenElements.implied span) ++
        e.unclosed :: .stop e.tag span :: more)
      (hsilent : e.unclosed ∈ more → e ∈ below)
      (hopened : ∀ x ∈ p.opened.stack, x ∈ below)

theorem nest_of_isAside {es : List Event} (h : ∀ x ∈ es, x.isAside) (tags : List String) :
    nest tags es = some tags := by
  induction es with
  | nil => rfl
  | cons x es ih =>
    obtain ⟨hx, hes⟩ := List.forall_mem_cons.1 h
    have hfirst : x.nest tags = some tags := by
      cases x with
      | text t span => cases tags <;> rfl
      | comment t span => cases tags <;> rfl
      | start => cases hx
      | stop => cases hx
      | warning => cases hx
    rw [nest_cons, hfirst]
    exact ih hes

/-- Closing an element inside takes it and what is inside of it off the stack. -/
theorem nest_ended (inside mid : List OpenElement) (x : OpenElement) (span : Span) :
    nest ((inside ++ x :: mid).map (·.tag))
      (inside.flatMap (OpenElements.implied span) ++ [.stop x.tag span]) =
        some (mid.map (·.tag)) := by
  rw [List.map_append]
  refine nest_trans (nest_implied span inside _) ?_
  simp [nest_cons, nest_nil, Event.nest]

section

variable {total : Nat} {d : Dialect} {o : OpenElements} {cs : List Char} {p : Progress}
  {inner below : List OpenElement} {e : OpenElement}

/-- A raw text element that ends stands inside of every open element that holds markup. -/
theorem outcome_raw {x : OpenElement} {outer : List OpenElement} {es : List Event} {stop : Span}
    (hstack : x :: outer = inner ++ e :: below) (hmarkup : Platform.isRawText e.tag = false)
    (hraw : Platform.isRawText x.tag) (hes : ∀ x ∈ es, x.isAside) (rest : List Char) :
    Outcome total cs inner e below ⟨es ++ [.stop x.tag stop], .ofStack outer, rest⟩ := by
  cases inner with
  | nil =>
    obtain ⟨rfl, -⟩ := List.cons.inj hstack
    rw [hmarkup] at hraw
    cases hraw
  | cons y inner =>
    obtain ⟨rfl, houter⟩ := List.cons.inj hstack
    refine .kept houter (nest_trans (nest_of_isAside hes _) ?_)
      (fun he => absurd he (unclosed_not_mem_rawEnded hes e _ _))
      fun y hy => .inl (List.mem_cons_of_mem _ hy)
    simp [nest_cons, nest_nil, Event.nest]

/-- A step leaves an element that holds markup open, closes it at its end tag, or closes it with a
warning. -/
theorem Turn.outcome (hd : d.expectHtml = false) (hp : Turn total d o cs p)
    (hstack : o.stack = inner ++ e :: below) (hmarkup : Platform.isRawText e.tag = false) :
    Outcome total cs inner e below p := by
  cases hp with
  | aside hes =>
    exact .kept hstack (nest_of_isAside hes _)
      (fun he => absurd he (unclosed_not_mem_of_isAside hes e)) fun x hx => .inl hx
  | stray hend =>
    exact .kept hstack (nest_strayEnd _ _ _)
      (fun he => absurd he (unclosed_not_mem_strayEnd e _ _)) fun x hx => .inl hx
  | @opened t hstart =>
    rw [openTag, closeImplied_of_not_html hd]
    dsimp only
    cases d.isUnary t.tag || t.slash with
    | true =>
      exact .kept hstack (by simp [nest_cons, nest_nil, Event.nest])
        (fun he => by cases List.mem_singleton.1 he) fun x hx => .inl hx
    | false =>
      have hpush : (o.push ⟨t.tag, between total cs t.rest⟩).stack =
          (⟨t.tag, between total cs t.rest⟩ :: inner) ++ e :: below :=
        congrArg (_ :: ·) hstack
      refine .kept hpush (by simp [nest_cons, nest_nil, Event.nest])
        (fun he => by cases List.mem_singleton.1 he) fun x hx => ?_
      obtain rfl | hx := List.mem_cons.1 hx
      · exact .inr rfl
      · exact .inl hx
  | @ended tag rest inside outer x hend hstack' htag =>
    rw [hstack'] at hstack
    -- What is closed stands around the element, is the element itself, or stands inside it.
    obtain ⟨mid, rfl, rfl⟩ | ⟨mid, rfl, houter⟩ := append_eq_append_cons hstack
    · exact .warned (by simp [OpenElements.implied, OpenElement.unclosed]; rfl)
        (fun he => List.mem_append_left _ (mem_of_unclosed_ended he))
        fun y hy => List.mem_append_right _ (List.mem_cons_of_mem _ hy)
    · cases mid with
      | nil =>
        obtain ⟨rfl, rfl⟩ := List.cons.inj houter
        exact .ended hend htag.symm (by rw [List.append_nil]) rfl
      | cons y mid =>
        obtain ⟨rfl, rfl⟩ := List.cons.inj houter
        exact .kept rfl (nest_ended inside mid x _)
          (fun he => List.mem_append_left _ (mem_of_unclosed_ended he))
          fun y hy => .inl (List.mem_append_right _ (List.mem_cons_of_mem _ hy))
  | rawEnded hraw hstack' hfound =>
    exact outcome_raw (hstack' ▸ hstack) hmarkup hraw (isAside_textOf _ _) _
  | rawUnended hraw hstack' hfound =>
    have hnone : ∀ x ∈ ([] : List Event), x.isAside := List.forall_mem_nil _
    exact outcome_raw (hstack' ▸ hstack) hmarkup hraw hnone _

end

/-! ## The end of an element -/

/-- The text has an end tag of the name, in any ASCII case, from the one end of the span to the
other. -/
def EndTagAt (html : List Char) (tag : String) (span : Span) : Prop :=
  ∃ cs name rest, Text.dropBytes? span.start html = some cs ∧ endTag? cs = some (name, rest) ∧
    Text.asciiLower name = Text.asciiLower tag ∧ Text.dropBytes? span.stop html = some rest

/-- From a place on, where elements with the tags are open inside the element, the events lead to
its end. That is an end tag of its own and nothing is said about the element, or the only warning
about it stands right in front of its end. -/
def ClosedAloud (html : List Char) (tags : List String) (e : OpenElement) (all es : List Event) :
    Prop :=
  ∃ inside stop behind, es = inside ++ .stop e.tag stop :: behind ∧ nest tags inside = some [] ∧
    ((EndTagAt html e.tag stop ∧ e.unclosed ∉ all) ∨
      ((∃ front, inside = front ++ [e.unclosed]) ∧ all.count e.unclosed = 1))

section

variable {html : List Char} {tags tags' : List String} {e : OpenElement} {all es fs : List Event}

/-- Events in front that do not mention the element. -/
theorem ClosedAloud.widen (h : ClosedAloud html tags e all es) (hfs : e.unclosed ∉ fs) :
    ClosedAloud html tags e (fs ++ all) es := by
  obtain ⟨inside, stop, behind, hes, hnest, hend⟩ := h
  refine ⟨inside, stop, behind, hes, hnest, ?_⟩
  rw [List.mem_append, List.count_append, List.count_eq_zero_of_not_mem hfs, Nat.zero_add]
  exact hend.imp_left fun hend => ⟨hend.1, fun he => he.elim hfs hend.2⟩

theorem ClosedAloud.prepend (h : ClosedAloud html tags' e es es)
    (hnest : nest tags fs = some tags') (hfs : e.unclosed ∉ fs) :
    ClosedAloud html tags e (fs ++ es) (fs ++ es) := by
  obtain ⟨inside, stop, behind, hes, hinside, hend⟩ := h.widen hfs
  refine ⟨fs ++ inside, stop, behind, by rw [List.append_assoc, ← hes], nest_trans hnest hinside,
    hend.imp_right fun hend => ⟨?_, hend.2⟩⟩
  obtain ⟨front, hfront⟩ := hend.1
  exact ⟨fs ++ front, by rw [hfront, List.append_assoc]⟩

/-- An element is closed aloud where it is closed with a warning. -/
theorem closedAloud_of_warning {stop : Span} (hnest : nest tags fs = some [])
    (hfs : e.unclosed ∉ fs) (hes : e.unclosed ∉ es) :
    ClosedAloud html tags e (fs ++ e.unclosed :: .stop e.tag stop :: es)
      (fs ++ e.unclosed :: .stop e.tag stop :: es) := by
  refine ⟨fs ++ [e.unclosed], stop, es, by simp, nest_trans hnest rfl, .inr ⟨⟨fs, rfl⟩, ?_⟩⟩
  have hstop : e.unclosed ≠ .stop e.tag stop := fun h => by cases h
  rw [List.count_append, List.count_eq_zero_of_not_mem hfs, List.count_cons_self,
    List.count_cons_of_ne hstop.symm, List.count_eq_zero_of_not_mem hes]

/-- An element is closed aloud where its end tag is. -/
theorem closedAloud_of_endTag {stop : Span} (hnest : nest tags fs = some [])
    (hend : EndTagAt html e.tag stop) (hfs : e.unclosed ∉ fs) (hes : e.unclosed ∉ es) :
    ClosedAloud html tags e (fs ++ .stop e.tag stop :: es) (fs ++ .stop e.tag stop :: es) := by
  refine ⟨fs, stop, es, rfl, hnest, .inl ⟨hend, fun he => ?_⟩⟩
  obtain he | he := List.mem_append.1 he
  · exact hfs he
  · obtain he | he := List.mem_cons.1 he
    · cases he
    · exact hes he

theorem nest_implied_nil (inner : List OpenElement) (span : Span) :
    nest (inner.map (·.tag)) (inner.flatMap (OpenElements.implied span)) = some [] := by
  have hnest := nest_implied span inner []
  rwa [List.append_nil] at hnest

theorem endTagAt_between_iff {cs rest : List Char} {tag : String} (hcs : cs <:+ html)
    (hrest : rest <:+ html) :
    EndTagAt html tag (between (Text.byteLength html) cs rest) ↔
      ∃ name, endTag? cs = some (name, rest) ∧ Text.asciiLower name = Text.asciiLower tag := by
  constructor
  · rintro ⟨cs', name, rest', hplace, hend, hname, hplace'⟩
    cases (dropBytes?_offset hcs).symm.trans hplace
    cases (dropBytes?_offset hrest).symm.trans hplace'
    exact ⟨name, hend, hname⟩
  · rintro ⟨name, hend, hname⟩
    exact ⟨cs, name, rest, dropBytes?_offset hcs, hend, hname, dropBytes?_offset hrest⟩

end

/-! ## The run -/

section

variable {html : List Char} {d : Dialect} (hd : d.expectHtml = false) {o : OpenElements}
  {cs : List Char} {inner below : List OpenElement} {e : OpenElement}

theorem closedAloud_closeAll (hstack : o.stack = inner ++ e :: below) (hinner : e ∉ inner)
    (hbelow : e ∉ below) (span : Span) :
    ClosedAloud html (inner.map (·.tag)) e (o.closeAll span).1 (o.closeAll span).1 := by
  have hall : (o.closeAll span).1 = inner.flatMap (OpenElements.implied span) ++
      e.unclosed :: .stop e.tag span :: below.flatMap (OpenElements.implied span) := by
    simp [OpenElements.closeAll, hstack, OpenElements.implied, OpenElement.unclosed]
  rw [hall]
  exact closedAloud_of_warning (nest_implied_nil inner span) (mt unclosed_mem_implied.1 hinner)
    (mt unclosed_mem_implied.1 hbelow)

theorem closedAloud_tail (hstack : o.stack = inner ++ e :: below) (hinner : e ∉ inner)
    (hbelow : e ∉ below) (total : Nat) (rest : List Char) :
    ClosedAloud html (inner.map (·.tag)) e (tail total o rest) (tail total o rest) := by
  obtain ⟨front, htail, hnest, hfront⟩ := tail_eq total o rest
  rw [htail]
  exact (closedAloud_closeAll hstack hinner hbelow _).prepend (hnest _) (hfront e)

/-- What a step leaves open is closed aloud later, or the step has done so. -/
theorem Outcome.closedAloud {p : Progress} {es : List Event}
    (h : Outcome (Text.byteLength html) cs inner e below p) (hcs : cs <:+ html)
    (hinner : e ∉ inner) (hbelow : e ∉ below)
    (hplace : e.span.start < offset (Text.byteLength html) cs)
    (hopen : ∀ inner', p.opened.stack = inner' ++ e :: below → e ∉ inner' →
      ClosedAloud html (inner'.map (·.tag)) e es es)
    (hclosed : e ∉ p.opened.stack → e.unclosed ∉ es) :
    ClosedAloud html (inner.map (·.tag)) e (p.events ++ es) (p.events ++ es) := by
  cases h with
  | @kept inner' hstack hnest hsilent hopened =>
    have hinner' : e ∉ inner' := fun he =>
      (hopened e he).elim hinner (Nat.ne_of_lt hplace)
    exact (hopen inner' hstack hinner').prepend hnest (mt hsilent hinner)
  | ended hend htag hevents hstack =>
    rw [hevents, List.append_assoc]
    have hplaced := (endTagAt_between_iff hcs ((endTag?_suffix hend).trans hcs)).2 ⟨_, hend, htag⟩
    exact closedAloud_of_endTag (nest_implied_nil inner _) hplaced
      (mt unclosed_mem_implied.1 hinner) (hclosed (hstack ▸ hbelow))
  | @warned span more hevents hsilent hopened =>
    rw [hevents, List.append_assoc]
    refine closedAloud_of_warning (nest_implied_nil inner span)
      (mt unclosed_mem_implied.1 hinner) fun he => ?_
    exact (List.mem_append.1 he).elim (mt hsilent hbelow) (hclosed fun he => hbelow (hopened e he))

include hd in
/-- Whatever comes, an open element that holds markup is closed aloud. -/
theorem closedAloud_events (ho : o.InStep) (hstack : o.stack = inner ++ e :: below)
    (hinner : e ∉ inner) (hbelow : e ∉ below) (hmarkup : Platform.isRawText e.tag = false)
    (hcs : cs <:+ html) (hplace : e.span.start < offset (Text.byteLength html) cs) :
    ClosedAloud html (inner.map (·.tag)) e (events (Text.byteLength html) d o cs)
      (events (Text.byteLength html) d o cs) := by
  -- What is open inside the element changes from step to step, what is around it does not.
  fun_induction events (Text.byteLength html) d o cs generalizing inner with
  | case1 o => exact closedAloud_closeAll hstack hinner hbelow _
  | case2 o c cs p hshort =>
    rename_i ih
    have hturn := step_turn (Text.byteLength html) d (c :: cs) ho
    have houtcome := hturn.outcome hd hstack hmarkup
    have hsuffix := step_suffix (Text.byteLength html) d o (c :: cs)
    have hforward := Nat.lt_of_lt_of_le hplace (offset_le hsuffix)
    exact houtcome.closedAloud hcs hinner hbelow hplace
      (fun inner' hstack' hinner' =>
        ih (inStep_step _ d ho _) hstack' hinner' (hsuffix.trans hcs) hforward)
      (fun he => unclosed_not_mem_events hd (inStep_step _ d ho _) he hforward)
  | case3 o c cs p =>
    have hturn := step_turn (Text.byteLength html) d (c :: cs) ho
    have houtcome := hturn.outcome hd hstack hmarkup
    exact houtcome.closedAloud hcs hinner hbelow hplace
      (fun inner' hstack' hinner' => closedAloud_tail hstack' hinner' hbelow _ _)
      (fun he => unclosed_not_mem_tail he _)

end

/-! ## Raw text -/

/-- The raw text from here on ends with the whole text, or at an end tag of the element's name. -/
def EndsInFull (tag : String) (cs : List Char) : Prop :=
  cs = [] ∨ ∃ content fromEnd name rest,
    FirstEnd (Text.asciiLower tag).toList cs content fromEnd rest ∧
      endTag? fromEnd = some (name, rest) ∧ Text.asciiLower name = Text.asciiLower tag

/-- What is balanced does not end an element that it did not open. -/
theorem nest_append_stop {es fs : List Event} {tag : String} {span : Span}
    (h : nest [] es = some []) : nest [] (es ++ .stop tag span :: fs) = none := by
  rw [nest_append, h]
  rfl

/-- The end of an element is the first end that is not balanced. -/
theorem stop_unique {es es' fs fs' : List Event} {tag tag' : String} {span span' : Span}
    (h : es ++ .stop tag span :: fs = es' ++ .stop tag' span' :: fs') (hes : nest [] es = some [])
    (hes' : nest [] es' = some []) : es = es' ∧ span = span' := by
  obtain ⟨back, rfl, -⟩ | ⟨front, rfl, hfront⟩ := append_eq_append_cons h
  · rw [nest_append_stop hes'] at hes
    cases hes
  · cases front with
    | nil =>
      obtain ⟨heq, -⟩ := List.cons.inj hfront
      cases heq
      exact ⟨(List.append_nil es).symm, rfl⟩
    | cons x front =>
      obtain ⟨rfl, -⟩ := List.cons.inj hfront
      rw [nest_append_stop hes] at hes'
      cases hes'

/-- An end behind texts is closed aloud only at an end tag. -/
theorem ClosedAloud.endTagAt {html : List Char} {e : OpenElement} {all fs es : List Event}
    {stop : Span} (h : ClosedAloud html [] e all (fs ++ .stop e.tag stop :: es))
    (hfs : ∀ x ∈ fs, x.isAside) : EndTagAt html e.tag stop := by
  obtain ⟨inside, stop', behind, heq, hnest, hend⟩ := h
  obtain ⟨rfl, rfl⟩ := stop_unique heq (nest_of_isAside hfs []) hnest
  obtain ⟨hend, -⟩ | ⟨⟨front, rfl⟩, -⟩ := hend
  · exact hend
  · exact absurd (List.mem_append_right front (List.mem_singleton_self _))
      (unclosed_not_mem_of_isAside hfs e)

section

variable {html : List Char} {d : Dialect} (hd : d.expectHtml = false) {q : OpenElements}
  {cs : List Char} {e : OpenElement} (hq : q.InStep) (hcs : cs <:+ html)
  (hraw : Platform.isRawText e.tag)
include hd hq hcs hraw

theorem closedAloud_of_endsInFull (hnew : e ∉ q.stack)
    (hplace : e.span.start < offset (Text.byteLength html) cs) (h : EndsInFull e.tag cs) :
    ClosedAloud html [] e (events (Text.byteLength html) d (q.push e) cs)
      (events (Text.byteLength html) d (q.push e) cs) := by
  obtain rfl | ⟨content, fromEnd, name, rest, hfirst, hend, hname⟩ := h
  · rw [events_push_nil]
    exact closedAloud_of_warning (nest_nil []) List.not_mem_nil (mt unclosed_mem_implied.1 hnew)
  · have hfromEnd : fromEnd <:+ cs := ⟨content, hfirst.split.symm⟩
    have hrest := (endTag?_suffix hend).trans hfromEnd
    rw [events_push_of_firstEnd _ d hraw hq hfirst]
    exact closedAloud_of_endTag (nest_of_isAside (isAside_textOf _ _) [])
      ((endTagAt_between_iff (hfromEnd.trans hcs) (hrest.trans hcs)).2 ⟨name, hend, hname⟩)
      (unclosed_not_mem_of_isAside (isAside_textOf _ _) e)
      (unclosed_not_mem_events hd hq hnew (Nat.lt_of_lt_of_le hplace (offset_le hrest)))

omit hd in
theorem endsInFull_of_closedAloud {all : List Event}
    (h : ClosedAloud html [] e all (events (Text.byteLength html) d (q.push e) cs)) :
    EndsInFull e.tag cs := by
  by_cases hends : ∃ content fromEnd rest,
      FirstEnd (Text.asciiLower e.tag).toList cs content fromEnd rest
  · obtain ⟨content, fromEnd, rest, hfirst⟩ := hends
    have hfromEnd : fromEnd <:+ html := List.IsSuffix.trans ⟨content, hfirst.split.symm⟩ hcs
    obtain ⟨behind, hbehind, hrest⟩ := hfirst.ends.eq_cons
    have hrest' : rest <:+ fromEnd := hbehind ▸ hrest.trans (List.suffix_cons '<' behind)
    rw [events_push_of_firstEnd _ d hraw hq hfirst] at h
    obtain ⟨name, hend, hname⟩ := (endTagAt_between_iff hfromEnd (hrest'.trans hfromEnd)).1
      (h.endTagAt (isAside_textOf _ _))
    exact .inr ⟨content, fromEnd, name, rest, hfirst, hend, hname⟩
  · refine .inl (Decidable.byContradiction fun hne => ?_)
    simp only [not_exists] at hends
    rw [events_push_of_no_end _ d hraw hq hne hends] at h
    have hnone : ∀ x ∈ ([] : List Event), x.isAside := List.forall_mem_nil _
    obtain ⟨name, hend, -⟩ := (endTagAt_between_iff hcs hcs).1 (ClosedAloud.endTagAt h hnone)
    exact absurd (endTag?_length hend) (Nat.lt_irrefl _)

end

/-! ## Every element -/

/-- Where a start tag opens an element: what is open around it, and the text behind the tag. -/
structure Entered (d : Dialect) (html : List Char) (e : OpenElement) (before after : List Event)
    (q : OpenElements) (behind : List Char) : Prop where
  inStep : q.InStep
  place : Text.dropBytes? e.span.stop html = some behind
  suffix : behind <:+ html
  follows : after = events (Text.byteLength html) d (q.push e) (dropFirstNewline e.tag behind)
  new : e ∉ q.stack
  silent : e.unclosed ∉ before
  forward : e.span.start < offset (Text.byteLength html) (dropFirstNewline e.tag behind)

theorem exists_entered {d : Dialect} (hd : d.expectHtml = false) {html tag : String}
    {attrs : List Attribute} {span : Span} {before after : List Event}
    (h : tokenize d html = before ++ .start tag attrs false span :: after)
    (hsource : StartTagAt html.toList tag span) :
    ∃ q behind, Entered d html.toList ⟨tag, span⟩ before after q behind := by
  obtain ⟨earlier, o, cs, t, hmet, rfl, rfl, hunary, rfl, rfl⟩ := exists_met h (.inl hsource)
  have hnone : ∀ x ∈ OpenElements.none.stack, x.span.start <
      offset (Text.byteLength html.toList) html.toList := List.forall_mem_nil _
  obtain ⟨hstack, hearlier⟩ := hmet.reads.early hd inStep_none (Nat.le_refl _) hnone
  have hcs := hmet.reads.suffix
  have hrest := startTag?_suffix _ cs hmet.starts
  have hforward := offset_lt hrest (startTag?_length hmet.starts) (byteLength_le_of_suffix hcs)
  have hbehind : offset (Text.byteLength html.toList) t.rest ≤
      offset (Text.byteLength html.toList) (dropFirstNewline t.tag t.rest) :=
    offset_le (dropFirstNewline_suffix t.tag t.rest)
  simp only [closeImplied_of_not_html hd, List.append_nil, openTag, ← hunary]
  exact ⟨o, t.rest, hmet.inStep, dropBytes?_offset (hrest.trans hcs), hrest.trans hcs, rfl,
    fun he => Nat.lt_irrefl _ (hstack _ he), fun he => Nat.lt_irrefl _ (hearlier _ he),
    Nat.lt_of_lt_of_le hforward hbehind⟩

/-- Without the rules of HTML, the element of a start tag that the text has is closed at an end tag
of its name, or with a warning right in front of its end, unless it holds raw text that ends neither
with the text nor at an end tag of its name. -/
theorem closedAloud_iff {d : Dialect} (hd : d.expectHtml = false) {html tag : String}
    {attrs : List Attribute} {span : Span} {before after : List Event}
    (h : tokenize d html = before ++ .start tag attrs false span :: after)
    (hsource : StartTagAt html.toList tag span) :
    ClosedAloud html.toList [] ⟨tag, span⟩ (tokenize d html) after ↔
      (Platform.isRawText tag → ∃ behind, Text.dropBytes? span.stop html.toList = some behind ∧
        EndsInFull tag (dropFirstNewline tag behind)) := by
  obtain ⟨q, behind, hq, hplace, hbehind, rfl, hnew, hsilent, hforward⟩ :=
    exists_entered hd h hsource
  have hcs := (dropFirstNewline_suffix tag behind).trans hbehind
  have hbefore : OpenElement.unclosed ⟨tag, span⟩ ∉ before ++ [.start tag attrs false span] := by
    intro he
    obtain he | he := List.mem_append.1 he
    · exact hsilent he
    · cases List.mem_singleton.1 he
  rw [h, List.append_cons]
  constructor
  · intro hclosed hraw
    exact ⟨behind, hplace, endsInFull_of_closedAloud (e := ⟨tag, span⟩) hq hcs hraw hclosed⟩
  · intro hends
    refine ClosedAloud.widen ?_ hbefore
    cases hmarkup : Platform.isRawText tag with
    | true =>
      obtain ⟨behind', hplace', hends⟩ := hends hmarkup
      cases hplace.symm.trans hplace'
      exact closedAloud_of_endsInFull hd (e := ⟨tag, span⟩) hq hcs hmarkup hnew hforward hends
    | false =>
      have hstack : (q.push ⟨tag, span⟩).stack = [] ++ ⟨tag, span⟩ :: q.stack := rfl
      exact closedAloud_events hd (inStep_push q _) hstack List.not_mem_nil hnew hmarkup hcs
        hforward

/-- An element without an end tag inside one that has one in another case. -/
theorem closedAloud_nested :
    ClosedAloud "<P><b>x</p>".toList [] ⟨"b", ⟨3, 6⟩⟩ (tokenize .plain "<P><b>x</p>")
      [.text "x" ⟨6, 7⟩, .warning (.unclosed "b" ⟨3, 6⟩), .stop "b" ⟨7, 11⟩,
        .stop "P" ⟨7, 11⟩] := by
  have htokens : tokenize .plain "<P><b>x</p>" =
      [.start "P" [] false ⟨0, 3⟩] ++ .start "b" [] false ⟨3, 6⟩ ::
        [.text "x" ⟨6, 7⟩, .warning (.unclosed "b" ⟨3, 6⟩), .stop "b" ⟨7, 11⟩,
          .stop "P" ⟨7, 11⟩] := by
    decide +kernel
  have hsource : StartTagAt "<P><b>x</p>".toList "b" ⟨3, 6⟩ := ⟨">x</p>".toList, by decide +kernel⟩
  exact (closedAloud_iff rfl htokens hsource).2 fun hraw => absurd hraw (by decide +kernel)

/-- A script without an end tag is closed in front of its content, without a warning. -/
theorem script_not_closedAloud :
    Dialect.plain.expectHtml = false ∧
      tokenize .plain "<script>abc" =
        [] ++ .start "script" [] false ⟨0, 8⟩ :: [.stop "script" ⟨8, 8⟩, .text "abc" ⟨8, 11⟩] ∧
      StartTagAt "<script>abc".toList "script" ⟨0, 8⟩ ∧
      ¬ ClosedAloud "<script>abc".toList [] ⟨"script", ⟨0, 8⟩⟩ (tokenize .plain "<script>abc")
        [.stop "script" ⟨8, 8⟩, .text "abc" ⟨8, 11⟩] := by
  refine ⟨rfl, by decide +kernel, ⟨">abc".toList, by decide +kernel⟩, fun h => ?_⟩
  have hnone : ∀ x ∈ ([] : List Event), x.isAside := List.forall_mem_nil _
  obtain ⟨cs, name, rest, hplace, hend, -⟩ := ClosedAloud.endTagAt h hnone
  have hcs : cs = "abc".toList := Option.some.inj (hplace.symm.trans (by decide +kernel))
  subst hcs
  cases hend

end ViewTree.Markup
