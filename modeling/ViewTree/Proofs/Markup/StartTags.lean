import ViewTree.Proofs.Markup.Hedges
import ViewTree.Proofs.Markup.Turns
/-!
# Where start tags come from

A start tag among the events of a text is found by one of the steps (`exists_reads_start`). It
stands in the text, or it repairs a stray end tag (`Turn.start`); one that stands in the text is met
with what is open there (`exists_met`), and its element is the innermost behind it
(`exists_pushed`).
-/

namespace ViewTree.Markup

/-- An element of two lists one after the other is in the first or in the second. -/
theorem append_eq_append_cons {α : Type} {as bs before after : List α} {x : α}
    (h : as ++ bs = before ++ x :: after) :
    (∃ back, as = before ++ x :: back ∧ after = back ++ bs) ∨
      ∃ front, before = as ++ front ∧ bs = front ++ x :: after := by
  obtain ⟨front, hbefore, hbs⟩ | ⟨back, has, hafter⟩ := List.append_eq_append_iff.1 h
  · exact .inr ⟨front, hbefore, hbs⟩
  · cases back with
    | nil => exact .inr ⟨[], by simpa using has.symm, hafter.symm⟩
    | cons y back =>
      obtain ⟨rfl, rfl⟩ := List.cons.inj hafter
      exact .inl ⟨back, has, rfl⟩

/-! ## Steps that find a start tag -/

section

variable {total : Nat} {d : Dialect} {o : OpenElements} {cs : List Char}

theorem startTag?_implied (span : Span) (inside : List OpenElement) :
    ∀ x ∈ inside.flatMap (OpenElements.implied span), x.startTag? = none := by
  intro x hx
  obtain ⟨e, -, hx⟩ := List.mem_flatMap.1 hx
  simp only [OpenElements.implied, List.mem_cons, List.not_mem_nil, or_false] at hx
  obtain rfl | rfl := hx
  · rfl
  · rfl

theorem startTag?_of_isAside {x : Event} (h : x.isAside) : x.startTag? = none := by
  cases x <;> first | rfl | cases h

/-- What a start tag closes before it opens its own element is found without any start. -/
theorem startTag?_closeImplied (ho : o.InStep) (tag : String) (place : Nat) :
    ∀ x ∈ (closeImplied d o tag place).1, x.startTag? = none := by
  have hone {q : OpenElements} (hq : q.InStep) {closes : Bool} {name : String}
      (h : closes → q.last = some name) :
      ∀ x ∈ (if closes then q.close name ⟨place, place⟩ else ([], q)).1, x.startTag? = none := by
    rw [close_when hq h]
    cases closes with
    | true => exact List.forall_mem_singleton.2 rfl
    | false => exact List.forall_mem_nil _
  unfold closeImplied
  split
  · refine List.forall_mem_append.2 ⟨hone ho (by simp +contextual), hone ?_ (by simp +contextual)⟩
    split
    · exact inStep_close ho _ _
    · exact ho
  · exact List.forall_mem_nil _

variable {p : Progress} {tag : String} {attrs : List Attribute} {unary : Bool} {span : Span}
  {before after front back : List Event}

/-- A start tag is found where one stands in the text, behind what it closes, or it repairs a stray
end tag of a break or a paragraph. -/
theorem Turn.start (hp : Turn total d o cs p) (ho : o.InStep)
    (hevents : p.events = front ++ .start tag attrs unary span :: back) :
    (∃ t, startTag? total cs = some t ∧ p = openTag total d o cs t ∧ t.tag = tag ∧
      span = between total cs t.rest ∧ unary = (d.isUnary tag || t.slash) ∧
      front = (closeImplied d o tag (offset total t.rest)).1 ∧ back = []) ∨
    ∃ rest, endTag? cs = some (tag, rest) ∧ span = between total cs rest ∧ p.rest = rest ∧
      (Text.asciiLower tag = "br" ∨ Text.asciiLower tag = "p") := by
  have hmem : .start tag attrs unary span ∈ p.events := by simp [hevents]
  have habsurd (h : ∀ x ∈ p.events, x.startTag? = none) : False := by
    cases h _ hmem
  cases hp with
  | aside hes => exact (habsurd fun x hx => startTag?_of_isAside (hes x hx)).elim
  | ended _ _ _ =>
    exact (habsurd (List.forall_mem_append.2
      ⟨startTag?_implied _ _, List.forall_mem_singleton.2 rfl⟩)).elim
  | rawEnded _ _ _ =>
    exact (habsurd (List.forall_mem_append.2
      ⟨fun x hx => startTag?_of_isAside (isAside_textOf _ _ x hx),
        List.forall_mem_singleton.2 rfl⟩)).elim
  | rawUnended _ _ _ => exact (habsurd (List.forall_mem_singleton.2 rfl)).elim
  | @stray name rest hend =>
    right
    simp only [OpenElements.strayEnd] at hmem
    split at hmem
    · rename_i hbr
      simp only [List.mem_singleton, Event.start.injEq] at hmem
      obtain ⟨rfl, -, -, rfl⟩ := hmem
      exact ⟨rest, hend, rfl, rfl, .inl hbr⟩
    · split at hmem
      · rename_i hp
        simp only [List.mem_cons, Event.start.injEq, reduceCtorEq, List.not_mem_nil, or_false]
          at hmem
        obtain ⟨rfl, -, -, rfl⟩ := hmem
        exact ⟨rest, hend, rfl, rfl, .inr hp⟩
      · cases hmem
  | @opened t hstart =>
    left
    simp only [openTag] at hevents
    obtain ⟨back, hclosed, -⟩ | ⟨front', rfl, hopening⟩ := append_eq_append_cons hevents
    · have hin : .start tag attrs unary span ∈
          (closeImplied d o t.tag (offset total t.rest)).1 := by
        simp [hclosed]
      cases startTag?_closeImplied ho t.tag _ _ hin
    · obtain ⟨rfl, heq⟩ | ⟨_, -, hnil⟩ := List.append_eq_cons_iff.1 hopening.symm
      · simp only [List.cons.injEq, Event.start.injEq] at heq
        obtain ⟨⟨rfl, -, rfl, rfl⟩, rfl⟩ := heq
        exact ⟨t, hstart, rfl, rfl, rfl, rfl, List.append_nil _, rfl⟩
      · simp at hnil

/-- A start tag among the events is found in one of the steps, which reads something. -/
theorem exists_reads_start (ho : o.InStep)
    (h : events total d o cs = before ++ .start tag attrs unary span :: after) :
    ∃ earlier o' cs' front back, Reads total d o cs earlier o' cs' ∧ before = earlier ++ front ∧
      (step total d o' cs').events = front ++ .start tag attrs unary span :: back ∧
      after = back ++ events total d (step total d o' cs').opened (step total d o' cs').rest := by
  fun_induction events total d o cs generalizing before with
  | case1 o =>
    have hmem : .start tag attrs unary span ∈ (o.closeAll (between total [] [])).1 := by simp [h]
    cases startTag?_implied _ _ _ hmem
  | case2 o c cs p hshort =>
    rename_i ih
    obtain ⟨back, hevents, rfl⟩ | ⟨front, rfl, hrest⟩ := append_eq_append_cons h
    · exact ⟨[], o, c :: cs, before, back, .here o (c :: cs), rfl, hevents, rfl⟩
    · obtain ⟨earlier, o', cs', front', back, hreads, rfl, hevents, hafter⟩ :=
        ih (inStep_step total d ho _) hrest
      exact ⟨p.events ++ earlier, o', cs', front', back, .onward hshort hreads, by simp, hevents,
        hafter⟩
  | case3 o c cs p =>
    rename_i hstuck
    obtain ⟨back, hevents, -⟩ | ⟨front, rfl, hrest⟩ := append_eq_append_cons h
    · -- A step that finds a start tag gets on.
      refine absurd ?_ hstuck
      obtain ⟨t, hstart, hp, -⟩ | ⟨rest, hend, -, hp, -⟩ :=
        (step_turn total d _ ho).start ho hevents
      · have hrest := dropFirstNewline_suffix t.tag t.rest
        have hopen : p.rest = dropFirstNewline t.tag t.rest := congrArg Progress.rest hp
        rw [hopen]
        exact Nat.lt_of_le_of_lt hrest.length_le (startTag?_length hstart)
      · rw [hp]
        exact endTag?_length hend
    · have hmem : .start tag attrs unary span ∈ tail total p.opened p.rest := by simp [hrest]
      simp only [tail, List.cons_append, List.mem_cons, List.mem_append, reduceCtorEq, false_or]
        at hmem
      obtain hwarning | hclosing := hmem
      · split at hwarning <;> simp at hwarning
      · cases startTag?_implied _ _ _ hclosing

end

/-! ## Start tags of the text -/

/-- The text has a start tag at the place: a `<` and the tag's name behind it. -/
def StartTagAt (html : List Char) (tag : String) (span : Span) : Prop :=
  ∃ behind, Text.dropBytes? span.start html = some ('<' :: (tag.toList ++ behind))

theorem dropBytes?_offset {html cs : List Char} (h : cs <:+ html) :
    Text.dropBytes? (offset (Text.byteLength html) cs) html = some cs := by
  have hplace := dropBytes?_of_suffix h (Text.dropBytes?_zero html)
  rwa [← offset_of_suffix h (Text.dropBytes?_zero html)] at hplace

/-- No start tag stands where an end tag does. -/
theorem not_startTagAt_of_endTag? {html cs rest : List Char} {tag : String} (hcs : cs <:+ html)
    (h : endTag? cs = some (tag, rest)) :
    ¬ StartTagAt html tag (between (Text.byteLength html) cs rest) := by
  rintro ⟨behind, hplace⟩
  obtain ⟨mid, rfl, -, c, part, htag, hc⟩ := endTag?_eq_some h
  have hsame := Option.some.inj ((dropBytes?_offset hcs).symm.trans hplace)
  rw [htag, List.cons_append, List.cons_append] at hsame
  obtain ⟨rfl, -⟩ := List.cons.inj (List.cons.inj hsame).2
  revert hc
  decide

section

variable (d : Dialect) (html : String)

/-- A start tag that the reader meets: what it found in front of it, what is open there, the text
from the tag on, and the tag. -/
structure Met (earlier : List Event) (o : OpenElements) (cs : List Char) (t : StartTag) : Prop where
  reads : Reads (Text.byteLength html.toList) d .none html.toList earlier o cs
  starts : startTag? (Text.byteLength html.toList) cs = some t

variable {d html} {tag : String} {attrs : List Attribute} {unary : Bool} {span : Span}
  {before after : List Event}

theorem Met.inStep {earlier : List Event} {o : OpenElements} {cs : List Char} {t : StartTag}
    (h : Met d html earlier o cs t) : o.InStep :=
  h.reads.inStep inStep_none

/-- A start tag among the events of a text is met there, if the text has one at the place or it is
that of a raw text element, which no repair makes. -/
theorem exists_met (h : tokenize d html = before ++ .start tag attrs unary span :: after)
    (hsource : StartTagAt html.toList tag span ∨ Platform.isRawText tag) :
    ∃ earlier o cs t, Met d html earlier o cs t ∧ t.tag = tag ∧
      span = between (Text.byteLength html.toList) cs t.rest ∧
      unary = (d.isUnary tag || t.slash) ∧
      before = earlier ++
        (closeImplied d o tag (offset (Text.byteLength html.toList) t.rest)).1 ∧
      after = events (Text.byteLength html.toList) d
        (openTag (Text.byteLength html.toList) d o cs t).opened
        (openTag (Text.byteLength html.toList) d o cs t).rest := by
  obtain ⟨earlier, o, cs, front, back, hreads, rfl, hevents, rfl⟩ :=
    exists_reads_start inStep_none h
  have ho := hreads.inStep inStep_none
  obtain ⟨t, hstart, hp, rfl, hspan, hunary, rfl, rfl⟩ | ⟨rest, hend, rfl, -, hname⟩ :=
    (step_turn _ d cs ho).start ho hevents
  · exact ⟨earlier, o, cs, t, ⟨hreads, hstart⟩, rfl, hspan, hunary, rfl, by rw [hp]; rfl⟩
  · obtain hsource | hraw := hsource
    · exact absurd hsource (not_startTagAt_of_endTag? hreads.suffix hend)
    · obtain hname | hname := hname <;> simp [Platform.isRawText, hname] at hraw

/-- Behind such a start tag the reader goes on with the element open. -/
theorem exists_pushed (h : tokenize d html = before ++ .start tag attrs false span :: after)
    (hsource : StartTagAt html.toList tag span ∨ Platform.isRawText tag) :
    ∃ (q : OpenElements) (behind : List Char), q.InStep ∧ nest [] before = some q.tags ∧
      Text.dropBytes? span.stop html.toList = some behind ∧
      after = events (Text.byteLength html.toList) d (q.push ⟨tag, span⟩)
        (dropFirstNewline tag behind) := by
  obtain ⟨earlier, o, cs, t, hmet, rfl, rfl, hunary, rfl, rfl⟩ := exists_met h hsource
  refine ⟨_, t.rest, inStep_closeImplied d hmet.inStep t.tag _,
    nest_trans hmet.reads.nest_eq (nest_closeImplied d o t.tag _),
    dropBytes?_offset ((startTag?_suffix _ cs hmet.starts).trans hmet.reads.suffix), ?_⟩
  simp only [openTag, ← hunary]
  rfl

end

end ViewTree.Markup
