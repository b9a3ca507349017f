import ViewTree.Proofs.Markup.Turns
/-!
# Comments

Whether comments are kept decides about the events of comments and about nothing else. The reader
that drops them goes step by step with the one that keeps them: they have the same elements open and
the same text left (`step_exceptComments`).
-/

namespace ViewTree.Markup

namespace Event

/-- The event is a comment. -/
def isComment : Event → Bool
  | comment _ _ => true
  | _ => false

theorem isComment_of_not_isAside {x : Event} (h : x.isAside = false) : x.isComment = false := by
  cases x with
  | comment t span => cases h
  | _ => rfl

end Event

/-- The events of a list that are not comments. -/
def exceptComments (es : List Event) : List Event :=
  es.filter fun x => !x.isComment

theorem exceptComments_append (es fs : List Event) :
    exceptComments (es ++ fs) = exceptComments es ++ exceptComments fs :=
  List.filter_append ..

theorem exceptComments_of_forall {es : List Event} (h : ∀ x ∈ es, x.isComment = false) :
    exceptComments es = es := by
  apply List.filter_eq_self.2
  intro x hx
  simp [h x hx]

/-- The same progress, with the comments left out of the events. -/
def Progress.exceptComments (p : Progress) : Progress :=
  { p with events := Markup.exceptComments p.events }

/-! ## Steps -/

section

variable (total : Nat) (d : Dialect) (o : OpenElements) (cs : List Char)

theorem exceptComments_close (tag : String) (span : Span) :
    exceptComments (o.close tag span).1 = (o.close tag span).1 :=
  exceptComments_of_forall fun x hx =>
    Event.isComment_of_not_isAside (not_isAside_close o tag span x hx)

theorem exceptComments_openTag (t : StartTag) :
    (openTag total d o cs t).exceptComments = openTag total d o cs t := by
  have hclosed : exceptComments (closeImplied d o t.tag (offset total t.rest)).1 =
      (closeImplied d o t.tag (offset total t.rest)).1 :=
    exceptComments_of_forall fun x hx =>
      Event.isComment_of_not_isAside (not_isAside_closeImplied d o t.tag _ x hx)
  simp only [openTag, Progress.exceptComments, exceptComments_append, hclosed]
  rfl

theorem exceptComments_textStep :
    (textStep total o cs).exceptComments = textStep total o cs := by
  unfold textStep
  split
  · rfl
  · rfl

theorem exceptComments_rawStep (tag : String) :
    (rawStep total o tag cs).exceptComments = rawStep total o tag cs := by
  unfold rawStep
  dsimp only
  split
  · rename_i content fromEnd rest _
    generalize (if Text.asciiLower tag = "textarea" then _ else content) = text
    have htext : exceptComments
        (if text.isEmpty then [] else [.text (String.ofList text) (between total cs fromEnd)]) =
          if text.isEmpty then [] else [.text (String.ofList text) (between total cs fromEnd)] := by
      split
      · rfl
      · rfl
    simp only [Progress.exceptComments, exceptComments_append, exceptComments_close, htext]
  · simp only [Progress.exceptComments, exceptComments_close]

/-- The reader that drops comments makes the same step, but for their events. -/
theorem step_exceptComments :
    step total { d with keepComments := false } o cs =
      (step total { d with keepComments := true } o cs).exceptComments := by
  unfold step
  split
  · exact (exceptComments_rawStep total o cs _).symm
  · unfold markupStep
    split
    · rfl
    · rfl
    · rfl
    · simp only [Progress.exceptComments, exceptComments_close]
    · exact (exceptComments_openTag total { d with keepComments := true } o cs _).symm
    · exact (exceptComments_textStep total o cs).symm

theorem exceptComments_closeAll (span : Span) :
    exceptComments (o.closeAll span).1 = (o.closeAll span).1 := by
  apply exceptComments_of_forall
  intro x hx
  exact Event.isComment_of_not_isAside (not_isAside_implied span o.stack x hx)

theorem exceptComments_tail : exceptComments (tail total o cs) = tail total o cs := by
  unfold tail
  dsimp only
  rw [exceptComments_append, exceptComments_closeAll]
  split
  · rfl
  · rfl

/-- Both readers go on in lock step from any place, by induction on the steps of the one that keeps
comments. -/
theorem events_exceptComments :
    events total { d with keepComments := false } o cs =
      exceptComments (events total { d with keepComments := true } o cs) := by
  generalize hkept : { d with keepComments := true } = kept
  have hstep (o : OpenElements) (cs : List Char) :
      step total { d with keepComments := false } o cs = (step total kept o cs).exceptComments := by
    rw [← hkept]
    exact step_exceptComments total d o cs
  fun_induction events total kept o cs with
  | case1 o =>
    rw [events]
    exact (exceptComments_closeAll o _).symm
  | case2 o c cs p hshort ih =>
    rw [events_onward _ _ (by rw [hstep]; exact hshort), hstep, exceptComments_append, ← ih]
    rfl
  | case3 o c cs p hstuck =>
    rw [events_stuck _ _ (List.cons_ne_nil c cs) (by rw [hstep]; exact hstuck), hstep,
      exceptComments_append, exceptComments_tail]
    rfl

end

/-- Whatever the text and the dialect, dropping comments while reading gives the events that keeping
them gives, with the comments left out. -/
theorem tokenize_exceptComments (d : Dialect) (html : String) :
    tokenize { d with keepComments := false } html =
      exceptComments (tokenize { d with keepComments := true } html) :=
  events_exceptComments _ d .none html.toList

/-- A comment between texts, one that is not closed, and one inside of raw text. -/
example : tokenize .plain "a<!--b-->c<script><!----></script><!--" =
    [.text "a" ⟨0, 1⟩, .text "c" ⟨9, 10⟩, .start "script" [] false ⟨10, 18⟩,
      .text "<!---->" ⟨18, 25⟩, .stop "script" ⟨25, 34⟩, .text "<!--" ⟨34, 38⟩] := by
  decide +kernel

end ViewTree.Markup
