import ViewTree.Markup.Tokenizer
/-!
# The events of markup are well nested

Whatever the text and the dialect, an end tag is reported only for the innermost element that is
open, in the spelling it was opened with, and in the end nothing is open. Elements are opened and
closed in several places; each is shown to turn the stack of open elements into the one that its
events leave (`nest_close`, `nest_openTag`, `nest_rawStep`), and the run is an induction over the
steps.
-/

namespace ViewTree.Markup

/-! ## Reading events -/

/-- The tags of the elements open after an event, innermost first. An end is refused unless it has
the tag of the innermost. -/
def Event.nest : List String → Event → Option (List String)
  | tags, .start tag _ unary _ => some (if unary then tags else tag :: tags)
  | [], .stop _ _ => none
  | top :: tags, .stop tag _ => if tag = top then some tags else none
  | tags, .text _ _ => some tags
  | tags, .comment _ _ => some tags
  | tags, .warning _ => some tags

/-- The tags of the elements open after events, innermost first. -/
def nest (tags : List String) (es : List Event) : Option (List String) :=
  es.foldlM Event.nest tags

/-- Every end belongs to the innermost open element, and every element is ended. -/
def WellNested (es : List Event) : Prop :=
  nest [] es = some []

instance (es : List Event) : Decidable (WellNested es) :=
  inferInstanceAs (Decidable (nest [] es = some []))

theorem nest_nil (tags : List String) : nest tags [] = some tags := rfl

theorem nest_cons (tags : List String) (e : Event) (es : List Event) :
    nest tags (e :: es) = (e.nest tags).bind fun t => nest t es := rfl

theorem nest_append (tags : List String) (es fs : List Event) :
    nest tags (es ++ fs) = (nest tags es).bind fun t => nest t fs :=
  List.foldlM_append

/-- Events that lead from one stack to the next can be read one after the other. -/
theorem nest_trans {a b c : List String} {es fs : List Event} (h : nest a es = some b)
    (h' : nest b fs = some c) : nest a (es ++ fs) = some c := by
  rw [nest_append, h]
  exact h'

/-! ## Opening and closing -/

/-- The tags of the open elements, innermost first. -/
def OpenElements.tags (o : OpenElements) : List String :=
  o.stack.map (·.tag)

/-- The remembered tag is that of the innermost open element. -/
def OpenElements.InStep (o : OpenElements) : Prop :=
  o.last = o.tags.head?

theorem inStep_none : OpenElements.none.InStep := rfl

theorem inStep_push (o : OpenElements) (e : OpenElement) : (o.push e).InStep := rfl

theorem inStep_ofStack (stack : List OpenElement) : (OpenElements.ofStack stack).InStep := by
  simp [OpenElements.InStep, OpenElements.tags, OpenElements.ofStack]

theorem inStep_close {o : OpenElements} (h : o.InStep) (tag : String) (span : Span) :
    (o.close tag span).2.InStep := by
  unfold OpenElements.close
  dsimp only
  split
  · exact h
  · exact inStep_ofStack _

/-- Ending elements that had no end of their own takes them off the stack. -/
theorem nest_implied (span : Span) (es : List OpenElement) (tags : List String) :
    nest (es.map (·.tag) ++ tags) (es.flatMap (OpenElements.implied span)) = some tags := by
  induction es with
  | nil => rfl
  | cons e es ih =>
    have first : nest ((e :: es).map (·.tag) ++ tags) (OpenElements.implied span e) =
        some (es.map (·.tag) ++ tags) := by
      simp [OpenElements.implied, nest_cons, nest_nil, Event.nest]
    rw [List.flatMap_cons]
    exact nest_trans first ih

/-- A stray end opens no element that it does not close. -/
theorem nest_strayEnd (tag : String) (span : Span) (tags : List String) :
    nest tags (OpenElements.strayEnd tag span) = some tags := by
  unfold OpenElements.strayEnd
  split
  · rfl
  · split
    · simp [nest_cons, nest_nil, Event.nest]
    · rfl

theorem nest_close (o : OpenElements) (tag : String) (span : Span) :
    nest o.tags (o.close tag span).1 = some (o.close tag span).2.tags := by
  unfold OpenElements.close
  dsimp only
  generalize hd : (fun e : OpenElement => Text.asciiLower e.tag != Text.asciiLower tag) = differs
  split
  · exact nest_strayEnd tag span o.tags
  · rename_i e below hdrop
    have hstack : o.tags =
        (o.stack.takeWhile differs).map (·.tag) ++ e.tag :: below.map (·.tag) := by
      rw [← List.map_cons, ← List.map_append, ← hdrop, List.takeWhile_append_dropWhile]
      rfl
    rw [hstack]
    refine nest_trans (nest_implied span _ _) ?_
    simp [nest_cons, nest_nil, Event.nest, OpenElements.ofStack, OpenElements.tags]

theorem nest_closeAll (o : OpenElements) (span : Span) :
    nest o.tags (o.closeAll span).1 = some [] := by
  have h := nest_implied span o.stack []
  rwa [List.append_nil] at h

/-! ## Steps -/

section

variable (total : Nat) (d : Dialect)

/-- The events of the step turn the elements open before it into those open after it. -/
def Progress.Follows (p : Progress) (o : OpenElements) : Prop :=
  nest o.tags p.events = some p.opened.tags

theorem nest_closeImplied (o : OpenElements) (tag : String) (place : Nat) :
    nest o.tags (closeImplied d o tag place).1 = some (closeImplied d o tag place).2.tags := by
  -- A closing that does not happen leaves the stack as it is.
  have one (q : OpenElements) (c : Bool) (name : String) :
      nest q.tags (if c then q.close name ⟨place, place⟩ else ([], q)).1 =
        some (if c then q.close name ⟨place, place⟩ else ([], q)).2.tags := by
    cases c
    · rfl
    · exact nest_close q name ⟨place, place⟩
  unfold closeImplied
  split
  · exact nest_trans (one o _ "p") (one _ _ tag)
  · rfl

theorem inStep_closeImplied {o : OpenElements} (h : o.InStep) (tag : String) (place : Nat) :
    (closeImplied d o tag place).2.InStep := by
  have one {q : OpenElements} (hq : q.InStep) (c : Bool) (name : String) :
      (if c then q.close name ⟨place, place⟩ else ([], q)).2.InStep := by
    cases c
    · exact hq
    · exact inStep_close hq name ⟨place, place⟩
  unfold closeImplied
  split
  · exact one (one h _ "p") _ tag
  · exact h

theorem nest_openTag (o : OpenElements) (cs : List Char) (t : StartTag) :
    (openTag total d o cs t).Follows o := by
  unfold openTag
  dsimp only
  refine nest_trans (nest_closeImplied d o t.tag (offset total t.rest)) ?_
  cases hu : d.isUnary t.tag || t.slash
  · simp [nest_cons, nest_nil, Event.nest, OpenElements.push, OpenElements.tags]
  · simp [nest_cons, nest_nil, Event.nest]

theorem inStep_openTag {o : OpenElements} (h : o.InStep) (cs : List Char) (t : StartTag) :
    (openTag total d o cs t).opened.InStep := by
  unfold openTag
  dsimp only
  cases hu : d.isUnary t.tag || t.slash
  · exact inStep_push _ _
  · exact inStep_closeImplied d h t.tag _

theorem nest_textStep (o : OpenElements) (cs : List Char) : (textStep total o cs).Follows o := by
  unfold textStep
  split
  · rfl
  · rfl

theorem inStep_textStep {o : OpenElements} (h : o.InStep) (cs : List Char) :
    (textStep total o cs).opened.InStep := by
  unfold textStep
  split
  · exact h
  · exact h

theorem nest_markupStep (o : OpenElements) (cs : List Char) :
    (markupStep total d o cs).Follows o := by
  unfold markupStep
  split
  · cases d.keepComments <;> rfl
  · rfl
  · rfl
  · exact nest_close o _ _
  · exact nest_openTag total d o cs _
  · exact nest_textStep total o cs

theorem inStep_markupStep {o : OpenElements} (h : o.InStep) (cs : List Char) :
    (markupStep total d o cs).opened.InStep := by
  unfold markupStep
  split
  · exact h
  · exact h
  · exact h
  · exact inStep_close h _ _
  · exact inStep_openTag total d h cs _
  · exact inStep_textStep total h cs

theorem nest_rawStep (o : OpenElements) (tag : String) (cs : List Char) :
    (rawStep total o tag cs).Follows o := by
  unfold rawStep
  dsimp only
  split
  · -- The text in front of the closing leaves the stack as it is.
    rename_i content _ _ _
    generalize (if Text.asciiLower tag = "textarea" then _ else content) = text
    refine nest_trans (b := o.tags) ?_ (nest_close o _ _)
    cases text <;> rfl
  · exact nest_close o _ _

theorem inStep_rawStep {o : OpenElements} (h : o.InStep) (tag : String) (cs : List Char) :
    (rawStep total o tag cs).opened.InStep := by
  unfold rawStep
  dsimp only
  split
  · exact inStep_close h _ _
  · exact inStep_close h _ _

theorem nest_step (o : OpenElements) (cs : List Char) : (step total d o cs).Follows o := by
  unfold step
  split
  · exact nest_rawStep total o _ cs
  · exact nest_markupStep total d o cs

theorem inStep_step {o : OpenElements} (h : o.InStep) (cs : List Char) :
    (step total d o cs).opened.InStep := by
  unfold step
  split
  · exact inStep_rawStep total h _ cs
  · exact inStep_markupStep total d h cs

/-! ## Runs -/

theorem nest_tail (o : OpenElements) (rest : List Char) :
    nest o.tags (tail total o rest) = some [] := by
  unfold tail
  dsimp only
  refine nest_trans (b := o.tags) ?_ (nest_closeAll o _)
  split <;> rfl

/-- Reading a text to its end closes whatever was open at its beginning. -/
theorem nest_events (o : OpenElements) (cs : List Char) :
    nest o.tags (events total d o cs) = some [] := by
  fun_induction events total d o cs with
  | case1 o => exact nest_closeAll o _
  | case2 o c cs p hshort ih => exact nest_trans (nest_step total d o (c :: cs)) ih
  | case3 o c cs p hstuck =>
    exact nest_trans (nest_step total d o (c :: cs)) (nest_tail total p.opened p.rest)

end

/-- What is open, and what is left to read, at some moment of reading a text: at its beginning,
after a step, and after any closing that a step makes before it goes on. -/
inductive Moment (d : Dialect) (html : String) : OpenElements → List Char → Prop
  | start : Moment d html .none html.toList
  | step {o : OpenElements} {cs : List Char} (h : Moment d html o cs) (hcs : cs ≠ []) :
      Moment d html (step (Text.byteLength html.toList) d o cs).opened
        (step (Text.byteLength html.toList) d o cs).rest
  | closing {o : OpenElements} {cs : List Char} (h : Moment d html o cs) (tag : String)
      (span : Span) : Moment d html (o.close tag span).2 cs
  | ended {o : OpenElements} {cs : List Char} (h : Moment d html o cs) (span : Span) :
      Moment d html (o.closeAll span).2 []

/-- The events of a text are well nested, and at every moment of reading it the remembered tag is
that of the innermost open element. -/
theorem tokenize_wellNested (d : Dialect) (html : String) :
    WellNested (tokenize d html) ∧
      ∀ o cs, Moment d html o cs → o.last = (o.stack.map (·.tag)).head? := by
  refine ⟨nest_events _ d .none html.toList, ?_⟩
  intro o cs h
  induction h with
  | start => exact inStep_none
  | step _ _ ih => exact inStep_step _ d ih _
  | closing _ tag span ih => exact inStep_close ih tag span
  | ended => exact inStep_none

/-- A text with an element left open at its end, after the first step of reading it. -/
theorem tokenize_wellNested_unclosed :
    WellNested (tokenize .plain "<A>x") ∧
      (step 4 .plain .none ['<', 'A', '>', 'x']).opened.last = some "A" := by
  obtain ⟨hnested, hlast⟩ := tokenize_wellNested .plain "<A>x"
  refine ⟨hnested, ?_⟩
  have hstep := hlast _ _ (.step .start (by decide))
  exact hstep.trans (by decide +kernel)

/-- A stray paragraph end, an element left open inside another and one at the end of the text. -/
example : WellNested (tokenize .plain "</p><A><b></a><br>") := by
  decide +kernel

end ViewTree.Markup
