import ViewTree.Proofs.Markup.Hedges
/-!
# What stands between two tags

Well nested events are the events of a content: texts, comments, warnings and elements in turn, each
element with the content between its tags. In contrast to a hedge nothing of the events is left out,
so what runs along the events can be followed along the content down to the texts. The content is
read off the events from behind (`content`), and it is the only one with those events
(`content_events`, `WellNested.events_content`).
-/

namespace ViewTree.Markup

/-- What stands between two tags, or outside of all, the first piece of it in front of those
behind it. -/
inductive Content where
  | nil
  | text (t : String) (span : Span) (behind : Content)
  | comment (t : String) (span : Span) (behind : Content)
  | warning (w : Warning) (behind : Content)
  | unary (tag : String) (attrs : List Attribute) (span : Span) (behind : Content)
  | paired (tag : String) (attrs : List Attribute) (span : Span) (inside : Content)
      (stopTag : String) (stop : Span) (behind : Content)

namespace Content

/-- The events of a content in order. -/
def events : Content → List Event
  | nil => []
  | text t span behind => .text t span :: behind.events
  | comment t span behind => .comment t span :: behind.events
  | warning w behind => .warning w :: behind.events
  | unary tag attrs span behind => .start tag attrs true span :: behind.events
  | paired tag attrs span inside stopTag stop behind =>
    .start tag attrs false span :: (inside.events ++ .stop stopTag stop :: behind.events)

/-- The texts of a content in order. -/
def texts : Content → List String
  | nil => []
  | text t _ behind => t :: behind.texts
  | comment _ _ behind => behind.texts
  | warning _ behind => behind.texts
  | unary _ _ _ behind => behind.texts
  | paired _ _ _ inside _ _ behind => inside.texts ++ behind.texts

end Content

/-- The text of an event that is one. -/
def Event.text? : Event → Option String
  | text t _ => some t
  | _ => none

theorem Content.texts_eq (c : Content) : c.texts = c.events.filterMap Event.text? := by
  induction c with
  | nil => rfl
  | text t span behind ih => exact congrArg (t :: ·) ih
  | comment t span behind ih => exact ih
  | warning w behind ih => exact ih
  | unary tag attrs span behind ih => exact ih
  | paired tag attrs span inside stopTag stop behind ihinside ihbehind =>
    rw [texts, events, List.filterMap_cons_none rfl, List.filterMap_append, ihinside, ihbehind]
    rfl

/-- What is read of the events in front of the first end tag whose element begins before them, and
then each such end tag with what is read behind it. -/
def contents : List Event → Content × List (String × Span × Content)
  | [] => (.nil, [])
  | .text t span :: es => (contents es).map (.text t span) id
  | .comment t span :: es => (contents es).map (.comment t span) id
  | .warning w :: es => (contents es).map (.warning w) id
  | .stop tag span :: es => (.nil, (tag, span, (contents es).1) :: (contents es).2)
  | .start tag attrs true span :: es => (contents es).map (.unary tag attrs span) id
  | .start tag attrs false span :: es =>
    match contents es with
    | (inside, (stopTag, stop, behind) :: outer) =>
      (.paired tag attrs span inside stopTag stop behind, outer)
    | read => read

/-- The content of events that leave nothing open. -/
def content (es : List Event) : Content :=
  (contents es).1

theorem contents_events (c : Content) {es : List Event} (hes : (contents es).1 = .nil) :
    contents (c.events ++ es) = (c, (contents es).2) := by
  induction c generalizing es with
  | nil => exact Prod.ext hes rfl
  | text t span behind ih => rw [Content.events, List.cons_append, contents, ih hes]; rfl
  | comment t span behind ih => rw [Content.events, List.cons_append, contents, ih hes]; rfl
  | warning w behind ih => rw [Content.events, List.cons_append, contents, ih hes]; rfl
  | unary tag attrs span behind ih => rw [Content.events, List.cons_append, contents, ih hes]; rfl
  | paired tag attrs span inside stopTag stop behind ihinside ihbehind =>
    have hstop : contents (.stop stopTag stop :: (behind.events ++ es)) =
        (.nil, (stopTag, stop, behind) :: (contents es).2) := by
      rw [contents, ihbehind hes]
    rw [Content.events, List.cons_append, List.append_assoc, List.cons_append, contents,
      ihinside (congrArg Prod.fst hstop), hstop]

/-- A content is read off its own events. -/
theorem content_events (c : Content) : content c.events = c := by
  have hread : contents (c.events ++ []) = (c, []) := contents_events c rfl
  rw [List.append_nil] at hread
  exact congrArg Prod.fst hread

/-- What the events spell, with all that stands around the tags. -/
theorem Spells.exists_content {es : List Event} {h : Hedge} (hes : Spells es h) :
    ∃ c : Content, c.events = es := by
  induction hes with
  | nil => exact ⟨.nil, rfl⟩
  | @aside e es h he _ ih =>
    obtain ⟨behind, rfl⟩ := ih
    cases e with
    | start tag attrs unary span => cases he
    | stop tag span => cases he
    | text t span => exact ⟨.text t span behind, rfl⟩
    | comment t span => exact ⟨.comment t span behind, rfl⟩
    | warning w => exact ⟨.warning w behind, rfl⟩
  | unary tag attrs span _ ih =>
    obtain ⟨behind, rfl⟩ := ih
    exact ⟨.unary tag attrs span behind, rfl⟩
  | paired tag attrs span span' _ _ ihinside ihbehind =>
    obtain ⟨inside, rfl⟩ := ihinside
    obtain ⟨behind, rfl⟩ := ihbehind
    exact ⟨.paired tag attrs span inside _ span' behind, rfl⟩

/-- Well nested events are those of the content that is read off them. -/
theorem WellNested.events_content {es : List Event} (h : WellNested es) :
    (content es).events = es := by
  obtain ⟨c, rfl⟩ := (spells_hedge h).exists_content
  rw [content_events]

end ViewTree.Markup
