import ViewTree.Proofs.Markup.Nesting
import ViewTree.Proofs.Markup.Scanning
/-!
# Printed markup reads back

Under a dialect that takes markup as it is written, reading what a well-formed forest prints gives
exactly its events, and no warning. One step of the reader takes each printed piece off the front
of the text (`read_opening`, `read_end`, `read_text`, `read_comment`); the round trip is an
induction over the trees with the text behind them left open.
-/

namespace ViewTree.Markup

/-- A dialect that takes markup as it is written: nothing is closed on the quiet, no tag is unary
by its name, and comments are kept. What it does with newlines in values is left open. -/
structure Dialect.AsWritten (d : Dialect) : Prop where
  no_html : d.expectHtml = false
  no_unary : ∀ tag, d.isUnary tag = false
  comments : d.keepComments = true

section

variable (total : Nat) (d : Dialect)

/-- The events of what is left of a text, without their places. -/
def read (o : OpenElements) (cs : List Char) : List Event :=
  (events total d o cs).map Event.unplaced

/-- A step that reads something is followed by the events of the rest. -/
theorem read_of_step {o : OpenElements} {cs : List Char} {p : Progress}
    (hstep : step total d o cs = p) (hshort : p.rest.length < cs.length) :
    read total d o cs = p.events.map Event.unplaced ++ read total d p.opened p.rest := by
  cases cs with
  | nil => exact absurd hshort (Nat.not_lt_zero _)
  | cons c cs =>
    subst hstep
    rw [read, events]
    simp only [hshort, dif_pos, List.map_append, read]

/-- The innermost open element holds markup. -/
def OpenElements.HoldsMarkup (o : OpenElements) : Prop :=
  o.last.filter Platform.isRawText = Option.none

theorem step_eq_markupStep {o : OpenElements} (h : o.HoldsMarkup) (cs : List Char) :
    step total d o cs = markupStep total d o cs := by
  rw [step, h]

theorem holdsMarkup_push {tag : String} (h : IsElementTag tag) (o : OpenElements) (span : Span) :
    (o.push ⟨tag, span⟩).HoldsMarkup := by
  have hraw : Platform.isRawText tag = false := by
    simpa [Platform.isRawText] using h.not_raw
  simp [OpenElements.HoldsMarkup, OpenElements.push, hraw]

/-- Closing the element opened last gives back what was open before. -/
theorem close_push {o : OpenElements} (h : o.InStep) (tag : String) (span span' : Span) :
    (o.push ⟨tag, span⟩).close tag span' = ([.stop tag span'], o) := by
  obtain ⟨stack, last⟩ := o
  have hlast : last = (stack.map (·.tag)).head? := h
  simp [OpenElements.push, OpenElements.close, OpenElements.ofStack, hlast]

/-! ## One piece of markup -/

variable {d}

/-- Markup that begins with a name after its `<` is a start tag or none at all. -/
theorem markupStep_opening (o : OpenElements) {c : Char} (hc : isNameStart c) {cs : List Char}
    {t : StartTag} (h : startTag? total ('<' :: c :: cs) = some t) :
    markupStep total d o ('<' :: c :: cs) = openTag total d o ('<' :: c :: cs) t := by
  have hbang : c ≠ '!' := isNameStart_ne hc (by decide)
  have hslash : c ≠ '/' := isNameStart_ne hc (by decide)
  have hend : endTag? ('<' :: c :: cs) = Option.none := by
    unfold endTag?
    split <;> simp_all
  have hdoctype : doctype? ('<' :: c :: cs) = Option.none := by
    refine doctype?_eq_none ?_
    rintro x r ⟨⟩
    exact hbang
  rw [markupStep, comment?_eq_none hbang, conditional?_eq_none hbang, hdoctype, hend, h]

theorem read_opening (hd : d.AsWritten) {o : OpenElements} (ho : o.HoldsMarkup) {tag : String}
    (htag : IsElementTag tag) {attrs : List (String × String)}
    (hattrs : ∀ a ∈ attrs, IsAttrName a.1) (slash : Bool) (rest : List Char) :
    ∃ span, read total d o (printOpening tag attrs ++ (printClose slash ++ rest)) =
      Tree.startEvent tag attrs slash ::
        read total d (if slash then o else o.push ⟨tag, span⟩) rest := by
  obtain ⟨found, hfound, hwritten⟩ := startTag?_print total htag.name hattrs slash rest
  obtain ⟨c, part, hname, hc⟩ := htag.name.eq_cons
  have hcs : printOpening tag attrs ++ (printClose slash ++ rest) =
      '<' :: c :: (part ++ (attrs.flatMap printAttr ++ (printClose slash ++ rest))) := by
    simp [printOpening, hname]
  have hstep := (step_eq_markupStep total d ho _).trans
    (markupStep_opening total o hc (hcs ▸ hfound))
  rw [← hcs] at hstep
  -- A newline is dropped only behind tags that no printed element has.
  have hnewline : dropFirstNewline tag rest = rest := by
    unfold dropFirstNewline
    split
    · have harea : tag ≠ "textarea" := by
        rintro rfl
        exact htag.not_raw (by decide)
      simp [htag.not_pre, harea]
    · rfl
  have himplied (place : Nat) : closeImplied d o tag place = ([], o) := by
    simp [closeImplied, hd.no_html]
  refine ⟨between total (printOpening tag attrs ++ (printClose slash ++ rest)) rest, ?_⟩
  rw [read_of_step total d hstep]
  · simp only [openTag, himplied, hd.no_unary, Bool.false_or, hnewline, List.nil_append,
      List.map_cons, List.map_nil, Event.unplaced, List.cons_append, Tree.startEvent,
      decode_written d tag hwritten]
  · simp only [openTag, hnewline, List.length_append, printOpening, List.length_cons]
    omega

theorem read_end {o : OpenElements} (ho : o.InStep) {tag : String} (htag : IsElementTag tag)
    (span : Span) (rest : List Char) :
    read total d (o.push ⟨tag, span⟩) (printEnd tag ++ rest) =
      .stop tag .nowhere :: read total d o rest := by
  have hend := endTag?_print htag.name rest
  have hslash : ('/' : Char) ≠ '!' := by decide
  have hmarkup : markupStep total d (o.push ⟨tag, span⟩) (printEnd tag ++ rest) =
      ⟨[.stop tag (between total (printEnd tag ++ rest) rest)], o, rest⟩ := by
    have hdoctype : doctype? (printEnd tag ++ rest) = Option.none := by
      refine doctype?_eq_none ?_
      rintro x r ⟨⟩
      exact hslash
    rw [markupStep, hend, hdoctype, printEnd, List.cons_append, List.cons_append,
      comment?_eq_none hslash, conditional?_eq_none hslash]
    simp only [close_push ho]
  have hstep := (step_eq_markupStep total d (holdsMarkup_push htag o span) _).trans hmarkup
  rw [read_of_step total d hstep]
  · rfl
  · simp only [printEnd, List.length_append, List.length_cons]
    omega

theorem read_comment (hd : d.AsWritten) {o : OpenElements} (ho : o.HoldsMarkup) {t : String}
    (ht : IsCommentText t) (rest : List Char) :
    read total d o ((Tree.comment t).print ++ rest) =
      .comment t .nowhere :: read total d o rest := by
  have hcs : (Tree.comment t).print ++ rest =
      '<' :: '!' :: '-' :: '-' :: (t.toList ++ (['-', '-', '>'] ++ rest)) := by
    simp [Tree.print]
  have hcomment := comment?_print ht rest
  rw [← hcs] at hcomment
  have hmarkup : markupStep total d o ((Tree.comment t).print ++ rest) =
      ⟨[.comment t (between total ((Tree.comment t).print ++ rest) rest)], o, rest⟩ := by
    rw [markupStep, hcomment]
    simp only [hd.comments, if_true, String.ofList_toList]
  have hstep := (step_eq_markupStep total d ho _).trans hmarkup
  rw [read_of_step total d hstep]
  · rfl
  · rw [hcs]
    simp only [List.length_append, List.length_cons]
    omega

/-- A text ends at the end of all text and where markup begins. -/
def EndsText (rest : List Char) : Prop :=
  rest = [] ∨ (rest.head? = some '<' ∧ opensMarkup rest)

theorem textRun_of_endsText {rest : List Char} (h : EndsText rest) : textRun rest = ([], rest) := by
  rcases h with rfl | ⟨hhead, hopens⟩
  · rfl
  · cases rest with
    | nil => rfl
    | cons c rest =>
      cases hhead
      simp [textRun, hopens]

/-- What holds no `<` is text, whatever is behind it. -/
theorem textRun_append {t : List Char} (ht : '<' ∉ t) (rest : List Char) :
    textRun (t ++ rest) = (t ++ (textRun rest).1, (textRun rest).2) := by
  induction t with
  | nil => rfl
  | cons c t ih =>
    have hc : (c != '<') = true := by
      simp only [bne_iff_ne, ne_eq]
      rintro rfl
      simp at ht
    rw [List.cons_append, textRun, hc, Bool.true_or, if_pos rfl,
      ih (fun h => ht (List.mem_cons_of_mem c h)), List.cons_append]

theorem markupStep_text (o : OpenElements) {c : Char} (hc : c ≠ '<') (cs : List Char) :
    markupStep total d o (c :: cs) = textStep total o (c :: cs) := by
  have hcomment : comment? (c :: cs) = Option.none := by
    unfold comment?
    split <;> simp_all
  have hconditional : conditional? (c :: cs) = Option.none := by
    simp [conditional?, Text.startsWith, Text.stripStart?, hc.symm]
  have hdoctype : doctype? (c :: cs) = Option.none := by
    refine doctype?_eq_none ?_
    rintro x r ⟨⟩
    exact absurd rfl hc
  have hend : endTag? (c :: cs) = Option.none := by
    unfold endTag?
    split <;> simp_all
  have hstart : startTag? total (c :: cs) = Option.none := by
    have hopen : startTagOpen? (c :: cs) = Option.none := by
      unfold startTagOpen?
      split <;> simp_all
    simp [startTag?, hopen]
  rw [markupStep, hcomment, hconditional, hdoctype, hend, hstart]

theorem read_text {o : OpenElements} (ho : o.HoldsMarkup) {t : String} (ht : IsPlainText t)
    {rest : List Char} (hrest : EndsText rest) :
    read total d o (t.toList ++ rest) = .text t .nowhere :: read total d o rest := by
  obtain ⟨hne, hangle⟩ := ht
  obtain ⟨c, cs, hcs⟩ := List.exists_cons_of_ne_nil hne
  have hc : c ≠ '<' := by
    rintro rfl
    simp [hcs] at hangle
  have hmarkup : markupStep total d o (t.toList ++ rest) =
      ⟨[.text t (between total (t.toList ++ rest) rest)], o, rest⟩ := by
    rw [hcs, List.cons_append, markupStep_text total o hc, ← List.cons_append, ← hcs, textStep,
      textRun_append hangle, textRun_of_endsText hrest, List.append_nil, hcs]
    simp only [← hcs, String.ofList_toList]
  have hstep := (step_eq_markupStep total d ho _).trans hmarkup
  rw [read_of_step total d hstep]
  · rfl
  · simp only [hcs, List.length_append, List.length_cons]
    omega

/-! ## Trees -/

theorem endsText_end {tag : String} (h : IsElementTag tag) (rest : List Char) :
    EndsText (printEnd tag ++ rest) := by
  refine .inr ⟨rfl, ?_⟩
  simp [opensMarkup, endTag?_print h.name]

theorem endsText_opening {tag : String} (h : IsElementTag tag) (attrs : List (String × String))
    (slash : Bool) (rest : List Char) :
    EndsText (printOpening tag attrs ++ (printClose slash ++ rest)) := by
  refine .inr ⟨rfl, ?_⟩
  have hopen := startTagOpen?_print h.name (endsTagName_attrs attrs slash rest)
  simp [opensMarkup, printOpening, hopen]

theorem endsText_print {t : Tree} (ht : t.WellFormed) (hnot : t.isText = false)
    (rest : List Char) : EndsText (t.print ++ rest) := by
  cases t with
  | element tag attrs content =>
    have h := endsText_opening ht.1 attrs false (Tree.printAll content ++ printEnd tag ++ rest)
    simpa [Tree.print, printClose] using h
  | closed tag attrs =>
    have h := endsText_opening ht.1 attrs true rest
    simpa [Tree.print, printClose] using h
  | text t => cases hnot
  | comment t =>
    refine .inr ⟨rfl, ?_⟩
    simp [opensMarkup, Tree.print, Text.startsWith, Text.stripStart?]

/-- The trees behind a text end it. -/
theorem endsText_printAll {ts : List Tree} (hts : Tree.WellFormedAll ts)
    (hnot : ∀ u ∈ ts.head?, u.isText = false) {rest : List Char} (hrest : EndsText rest) :
    EndsText (Tree.printAll ts ++ rest) := by
  cases ts with
  | nil => exact hrest
  | cons t ts =>
    rw [Tree.printAll, List.append_assoc]
    exact endsText_print hts.1 (hnot t rfl) _

mutual

/-- Reading a printed tree gives its events and goes on behind it with the same elements open. -/
theorem read_print (hd : d.AsWritten) : (t : Tree) → t.WellFormed → (o : OpenElements) →
    o.HoldsMarkup → o.InStep → (rest : List Char) → (t.isText → EndsText rest) →
    read total d o (t.print ++ rest) = t.events ++ read total d o rest
  | .element tag attrs content, ht, o, ho, hin, rest, _ => by
    obtain ⟨htag, hattrs, hcontent⟩ := ht
    -- The content is read with the element open, and a text at its end stops at the end tag.
    obtain ⟨span, hopening⟩ := read_opening total hd ho htag hattrs false
      (Tree.printAll content ++ (printEnd tag ++ rest))
    have hinside := read_printAll hd content hcontent (o.push ⟨tag, span⟩)
      (holdsMarkup_push htag o span) (inStep_push o _) (printEnd tag ++ rest)
      (endsText_end htag rest)
    have hprint : (Tree.element tag attrs content).print ++ rest =
        printOpening tag attrs ++
          (printClose false ++ (Tree.printAll content ++ (printEnd tag ++ rest))) := by
      simp [Tree.print, printClose]
    rw [hprint, hopening]
    simp only [Bool.false_eq_true, if_false, hinside, read_end total hin htag span rest, Tree.events,
      List.cons_append, List.append_assoc, List.nil_append]
  | .closed tag attrs, ht, o, ho, _, rest, _ => by
    obtain ⟨span, hopening⟩ := read_opening total hd ho ht.1 ht.2 true rest
    have hprint : (Tree.closed tag attrs).print ++ rest =
        printOpening tag attrs ++ (printClose true ++ rest) := by
      simp [Tree.print, printClose]
    rw [hprint, hopening]
    rfl
  | .text _, ht, _, ho, _, _, hrest => read_text total ho ht (hrest rfl)
  | .comment _, ht, _, ho, _, rest, _ => read_comment total hd ho ht rest

/-- The same for trees one after the other. -/
theorem read_printAll (hd : d.AsWritten) : (ts : List Tree) → Tree.WellFormedAll ts →
    (o : OpenElements) → o.HoldsMarkup → o.InStep → (rest : List Char) → EndsText rest →
    read total d o (Tree.printAll ts ++ rest) = Tree.eventsAll ts ++ read total d o rest
  | [], _, _, _, _, _, _ => rfl
  | t :: ts, ⟨ht, hapart, hts⟩, o, ho, hin, rest, hrest => by
    have hfirst := read_print hd t ht o ho hin (Tree.printAll ts ++ rest)
      (fun htext => endsText_printAll hts (hapart htext) hrest)
    have hothers := read_printAll hd ts hts o ho hin rest hrest
    rw [Tree.printAll, List.append_assoc, hfirst, hothers, Tree.eventsAll, List.append_assoc]

end

end

/-- Reading what a well-formed forest prints gives exactly its events in order, whatever the
dialect does with newlines in values; a warning would be an event. -/
theorem tokenize_print {d : Dialect} (hd : d.AsWritten) {ts : List Tree}
    (h : Tree.WellFormedAll ts) :
    (tokenize d (String.ofList (Tree.printAll ts))).map Event.unplaced = Tree.eventsAll ts := by
  have hread := read_printAll (Text.byteLength (Tree.printAll ts)) hd ts h .none rfl
    inStep_none [] (.inl rfl)
  rw [List.append_nil] at hread
  rw [tokenize, String.toList_ofList]
  exact hread.trans (by simp [read, events, OpenElements.closeAll, OpenElements.none])

/-- A qualified name, a value of special characters, and a comment that almost ends early. -/
theorem tokenize_print_qualified :
    Dialect.AsWritten ⟨false, fun _ => false, fun _ => true, true, true, false⟩ ∧
      Tree.WellFormedAll [.text "a > b", .element "svg:A" [("x", "<&\"")]
        [.closed "br" [], .comment " --- "]] ∧
      (tokenize ⟨false, fun _ => false, fun _ => true, true, true, false⟩
        (String.ofList (Tree.printAll [.text "a > b", .element "svg:A" [("x", "<&\"")]
          [.closed "br" [], .comment " --- "]]))).map Event.unplaced =
        Tree.eventsAll [.text "a > b", .element "svg:A" [("x", "<&\"")]
          [.closed "br" [], .comment " --- "]] := by
  have hdialect : Dialect.AsWritten ⟨false, fun _ => false, fun _ => true, true, true, false⟩ :=
    ⟨rfl, fun _ => rfl, rfl⟩
  have hname : IsElementTag "svg:A" := by
    refine ⟨.inr ⟨['s', 'v', 'g'], ['A'], ?_, ?_, rfl⟩, by decide, by decide⟩
    · exact ⟨by decide, List.all_eq_true.1 (by decide)⟩
    · exact ⟨by decide, List.all_eq_true.1 (by decide)⟩
  have hbr : IsElementTag "br" :=
    ⟨.inl ⟨by decide, List.all_eq_true.1 (by decide)⟩, by decide, by decide⟩
  have hattr : ∀ a ∈ [("x", "<&\"")], IsAttrName a.1 := by
    rintro a (_ | ⟨_, ⟨⟩⟩)
    exact ⟨by decide, List.all_eq_true.1 (by decide)⟩
  have hcomment : IsCommentText " --- " :=
    ⟨by decide, by decide, by decide⟩
  have hts : Tree.WellFormedAll [.text "a > b",
      .element "svg:A" [("x", "<&\"")] [.closed "br" [], .comment " --- "]] := by
    refine ⟨⟨by decide, by decide⟩, by simp [Tree.isText], ⟨hname, hattr, ?_⟩,
      by simp [Tree.isText], trivial⟩
    exact ⟨⟨hbr, by simp⟩, by simp [Tree.isText], hcomment, by simp [Tree.isText], trivial⟩
  exact ⟨hdialect, hts, tokenize_print hdialect hts⟩

end ViewTree.Markup
