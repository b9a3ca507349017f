import ViewTree.Proofs.Markup.RawText
/-!
# Warnings about elements

Without the rules of HTML, a step warns only about elements that are open (`Turn.mem_of_unclosed`),
and what it opens has its start tag where the step began (`Turn.mem_stack`). So a warning about an
element stands behind all that is in front of its start tag (`Reads.early`), and nothing is said
about an element that is closed (`unclosed_not_mem_events`).
-/

namespace ViewTree.Markup

/-! ## Warnings and what is open -/

/-- The warning that the element has no end tag. -/
def OpenElement.unclosed (e : OpenElement) : Event :=
  .warning (.unclosed e.tag e.span)

theorem unclosed_inj {e x : OpenElement} : e.unclosed = x.unclosed ↔ e = x := by
  obtain ⟨tag, span⟩ := e
  obtain ⟨tag', span'⟩ := x
  simp [OpenElement.unclosed]

theorem unclosed_mem_implied {span : Span} {stack : List OpenElement} {e : OpenElement} :
    e.unclosed ∈ stack.flatMap (OpenElements.implied span) ↔ e ∈ stack := by
  rw [List.mem_flatMap]
  constructor
  · rintro ⟨x, hx, he⟩
    obtain he | he := List.mem_cons.1 he
    · rwa [unclosed_inj.1 he]
    · cases List.mem_singleton.1 he
  · exact fun he => ⟨e, he, List.mem_cons_self⟩

theorem unclosed_not_mem_of_isAside {es : List Event} (h : ∀ x ∈ es, x.isAside) (e : OpenElement) :
    e.unclosed ∉ es :=
  fun he => by cases h _ he

theorem mem_of_unclosed_ended {inside : List OpenElement} {e : OpenElement} {tag : String}
    {span stop : Span}
    (he : e.unclosed ∈ inside.flatMap (OpenElements.implied span) ++ [.stop tag stop]) :
    e ∈ inside := by
  obtain he | he := List.mem_append.1 he
  · exact unclosed_mem_implied.1 he
  · cases List.mem_singleton.1 he

theorem unclosed_not_mem_rawEnded {es : List Event} (h : ∀ x ∈ es, x.isAside) (e : OpenElement)
    (tag : String) (stop : Span) : e.unclosed ∉ es ++ [.stop tag stop] := by
  intro he
  obtain he | he := List.mem_append.1 he
  · exact unclosed_not_mem_of_isAside h e he
  · cases List.mem_singleton.1 he

theorem unclosed_not_mem_strayEnd (e : OpenElement) (tag : String) (span : Span) :
    e.unclosed ∉ OpenElements.strayEnd tag span := by
  unfold OpenElements.strayEnd
  split
  · simp [OpenElement.unclosed]
  · split <;> simp [OpenElement.unclosed]

theorem closeImplied_of_not_html {d : Dialect} (hd : d.expectHtml = false) (o : OpenElements)
    (tag : String) (place : Nat) : closeImplied d o tag place = ([], o) := by
  simp [closeImplied, hd]

theorem offset_le {total : Nat} {cs rest : List Char} (h : rest <:+ cs) :
    offset total cs ≤ offset total rest := by
  obtain ⟨front, rfl⟩ := h
  rw [offset, offset, Text.byteLength_append]
  omega

theorem offset_lt {total : Nat} {cs rest : List Char} (h : rest <:+ cs)
    (hshort : rest.length < cs.length) (htotal : Text.byteLength cs ≤ total) :
    offset total cs < offset total rest := by
  have hpos := (length_lt_iff_taken_pos h).1 hshort
  rw [taken] at hpos
  rw [offset, offset]
  omega

theorem byteLength_le_of_suffix {cs rest : List Char} (h : rest <:+ cs) :
    Text.byteLength rest ≤ Text.byteLength cs :=
  (Nat.le_add_left _ _).trans_eq (taken_add_byteLength h)

section

variable {total : Nat} {d : Dialect} (hd : d.expectHtml = false) {o : OpenElements}
  {cs : List Char} {p : Progress}
include hd

/-- A step warns only about what is open. -/
theorem Turn.mem_of_unclosed (hp : Turn total d o cs p) {e : OpenElement}
    (he : e.unclosed ∈ p.events) : e ∈ o.stack := by
  cases hp with
  | aside hes => exact absurd he (unclosed_not_mem_of_isAside hes e)
  | stray hend => exact absurd he (unclosed_not_mem_strayEnd e _ _)
  | ended hend hstack htag =>
    rw [hstack]
    exact List.mem_append_left _ (mem_of_unclosed_ended he)
  | opened hstart =>
    rw [openTag, closeImplied_of_not_html hd] at he
    cases List.mem_singleton.1 he
  | rawEnded hraw hstack hfound =>
    exact absurd he (unclosed_not_mem_rawEnded (isAside_textOf _ _) e _ _)
  | rawUnended hraw hstack hfound => cases List.mem_singleton.1 he

/-- What is open after a step was open before it, or its start tag stands where the step began. -/
theorem Turn.mem_stack (hp : Turn total d o cs p) {x : OpenElement} (hx : x ∈ p.opened.stack) :
    x ∈ o.stack ∨ x.span.start = offset total cs := by
  cases hp with
  | aside hes => exact .inl hx
  | stray hend => exact .inl hx
  | ended hend hstack htag =>
    rw [hstack]
    exact .inl (List.mem_append_right _ (List.mem_cons_of_mem _ hx))
  | opened hstart =>
    rw [openTag, closeImplied_of_not_html hd] at hx
    dsimp only at hx
    split at hx
    · exact .inl hx
    · obtain rfl | hx := List.mem_cons.1 hx
      · exact .inr rfl
      · exact .inl hx
  | rawEnded hraw hstack hfound =>
    rw [hstack]
    exact .inl (List.mem_cons_of_mem _ hx)
  | rawUnended hraw hstack hfound =>
    rw [hstack]
    exact .inl (List.mem_cons_of_mem _ hx)

theorem Turn.not_mem_stack (hp : Turn total d o cs p) {e : OpenElement} (he : e ∉ o.stack)
    (hplace : e.span.start < offset total cs) : e ∉ p.opened.stack := by
  intro hx
  obtain hx | hx := hp.mem_stack hd hx
  · exact he hx
  · exact absurd hx (Nat.ne_of_lt hplace)

omit hd in
/-- Where no step goes on, the rest of the text is taken before everything is closed. -/
theorem tail_eq (total : Nat) (o : OpenElements) (rest : List Char) :
    ∃ front, tail total o rest = front ++ (o.closeAll (between total [] [])).1 ∧
      (∀ tags, nest tags front = some tags) ∧ ∀ e : OpenElement, e.unclosed ∉ front := by
  refine ⟨_, rfl, fun tags => ?_, fun e => ?_⟩
  · cases tags <;> split <;> rfl
  · split <;> simp [OpenElement.unclosed]

omit hd in
theorem unclosed_not_mem_tail {e : OpenElement} (he : e ∉ o.stack) (rest : List Char) :
    e.unclosed ∉ tail total o rest := by
  obtain ⟨front, htail, -, hfront⟩ := tail_eq total o rest
  rw [htail]
  exact fun h => (List.mem_append.1 h).elim (hfront e) fun h => he (unclosed_mem_implied.1 h)

/-- Nothing is said about an element that is closed. -/
theorem unclosed_not_mem_events (ho : o.InStep) {e : OpenElement} (he : e ∉ o.stack)
    (hplace : e.span.start < offset total cs) : e.unclosed ∉ events total d o cs := by
  fun_induction events total d o cs with
  | case1 o => exact fun h => he (unclosed_mem_implied.1 h)
  | case2 o c cs p hshort =>
    rename_i ih
    have hturn := step_turn total d (c :: cs) ho
    have hlater := ih (inStep_step total d ho _) (hturn.not_mem_stack hd he hplace)
      (Nat.lt_of_lt_of_le hplace (offset_le (step_suffix total d o _)))
    exact fun h => (List.mem_append.1 h).elim (fun h => he (hturn.mem_of_unclosed hd h)) hlater
  | case3 o c cs p =>
    have hturn := step_turn total d (c :: cs) ho
    exact fun h => (List.mem_append.1 h).elim (fun h => he (hturn.mem_of_unclosed hd h))
      (unclosed_not_mem_tail (hturn.not_mem_stack hd he hplace) _)

/-- Everything opened or warned about up to a place has its start tag in front of it. -/
theorem Reads.early {o' : OpenElements} {cs' : List Char} {es : List Event}
    (h : Reads total d o cs es o' cs') (ho : o.InStep) (htotal : Text.byteLength cs ≤ total)
    (hstack : ∀ x ∈ o.stack, x.span.start < offset total cs) :
    (∀ x ∈ o'.stack, x.span.start < offset total cs') ∧
      ∀ x : OpenElement, x.unclosed ∈ es → x.span.start < offset total cs' := by
  induction h with
  | here => exact ⟨hstack, fun x hx => by cases hx⟩
  | @onward o o' c cs cs' es hshort hreads ih =>
    have hturn := step_turn total d (c :: cs) ho
    have hsuffix := step_suffix total d o (c :: cs)
    have hforward := offset_lt hsuffix hshort htotal
    have hopen : ∀ x ∈ (step total d o (c :: cs)).opened.stack,
        x.span.start < offset total (step total d o (c :: cs)).rest := by
      intro x hx
      obtain hx | hx := hturn.mem_stack hd hx
      · exact (hstack x hx).trans hforward
      · rwa [hx]
    have hlength := (taken_add_byteLength hsuffix)
    obtain ⟨hstack', hlater⟩ := ih (inStep_step total d ho _) (by omega) hopen
    refine ⟨hstack', fun x hx => ?_⟩
    obtain hx | hx := List.mem_append.1 hx
    · exact (hstack x (hturn.mem_of_unclosed hd hx)).trans_le
        (offset_le (hreads.suffix.trans hsuffix))
    · exact hlater x hx

end

end ViewTree.Markup
