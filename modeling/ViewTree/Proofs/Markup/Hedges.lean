import ViewTree.Proofs.Markup.Nesting
/-!
# The elements of well nested markup

Well nested events spell a hedge: elements side by side, each with the hedge inside it. The hedge
is read off the events from behind (`hedge`), and events that are well nested spell the one that is
read off them (`spells_hedge`), so that what runs along the events can be followed along the
hedge. A hedge has a tag for every start tag that spells it, in the same order.
-/

namespace ViewTree.Markup

/-- Elements side by side: the tag and the attributes of the first, the elements inside it, and
those behind it. -/
inductive Hedge where
  | nil
  | element (tag : String) (attrs : List Attribute) (inside behind : Hedge)

namespace Hedge

/-- The tags of all elements in document order. -/
def tags : Hedge → List String
  | nil => []
  | element tag _ inside behind => tag :: (inside.tags ++ behind.tags)

/-- A start tag in front of the hedges that are read so far, the innermost first. Unless it stands
for the whole element, what is read inside it ends with its end tag. -/
def begin (tag : String) (attrs : List Attribute) : Bool → List Hedge → List Hedge
  | true, behind :: outer => element tag attrs nil behind :: outer
  | false, inside :: behind :: outer => element tag attrs inside behind :: outer
  | _, hedges => hedges

end Hedge

namespace Event

/-- The tag of a start tag. -/
def startTag? : Event → Option String
  | start tag _ _ _ => some tag
  | _ => none

/-- The event begins or ends an element. -/
def isTag : Event → Bool
  | start _ _ _ _ => true
  | stop _ _ => true
  | _ => false

theorem startTag?_of_isTag {e : Event} (h : e.isTag = false) : e.startTag? = none := by
  cases e <;> first | rfl | cases h

end Event

/-- The tags of the start tags in order. -/
def startTags (es : List Event) : List String :=
  es.filterMap Event.startTag?

theorem startTags_append (es fs : List Event) :
    startTags (es ++ fs) = startTags es ++ startTags fs :=
  List.filterMap_append

theorem startTags_start (tag : String) (attrs : List Attribute) (unary : Bool) (span : Span)
    (es : List Event) : startTags (.start tag attrs unary span :: es) = tag :: startTags es :=
  rfl

theorem startTags_stop (tag : String) (span : Span) (es : List Event) :
    startTags (.stop tag span :: es) = startTags es :=
  rfl

/-- The elements that begin before the innermost open element ends, those that begin then before
the next one ends, and so on; the last are those outside of all that is open. -/
def hedges : List Event → List Hedge
  | [] => [.nil]
  | .start tag attrs unary _ :: es => Hedge.begin tag attrs unary (hedges es)
  | .stop _ _ :: es => .nil :: hedges es
  | _ :: es => hedges es

/-- The elements of events that leave nothing open. -/
def hedge (es : List Event) : Hedge :=
  (hedges es).headD .nil

/-- The events are those of the elements in turn, with texts, comments and warnings anywhere. -/
inductive Spells : List Event → Hedge → Prop
  | nil : Spells [] .nil
  | aside {e : Event} {es : List Event} {h : Hedge} (he : e.isTag = false) (hes : Spells es h) :
      Spells (e :: es) h
  | unary {es : List Event} {behind : Hedge} (tag : String) (attrs : List Attribute) (span : Span)
      (hbehind : Spells es behind) :
      Spells (.start tag attrs true span :: es) (.element tag attrs .nil behind)
  | paired {es fs : List Event} {inside behind : Hedge} (tag : String) (attrs : List Attribute)
      (span span' : Span) (hinside : Spells es inside) (hbehind : Spells fs behind) :
      Spells (.start tag attrs false span :: (es ++ .stop tag span' :: fs))
        (.element tag attrs inside behind)

/-- No start tag is missing from the elements, and none is there twice or at another place. -/
theorem Spells.startTags_eq {es : List Event} {h : Hedge} (hes : Spells es h) :
    startTags es = h.tags := by
  induction hes with
  | nil => rfl
  | aside he _ ih =>
    rw [startTags, List.filterMap_cons_none (Event.startTag?_of_isTag he)]
    exact ih
  | unary tag attrs span _ ih =>
    rw [startTags_start, ih]
    rfl
  | paired tag attrs span span' _ _ ihinside ihbehind =>
    rw [startTags_start, startTags_append, startTags_stop, ihinside, ihbehind]
    rfl

/-- Events that end the open elements, innermost first, and what they spell inside each of them
from now on and at last outside. -/
inductive Ends : List String → List Event → List Hedge → Prop
  | outside {es : List Event} {h : Hedge} (hes : Spells es h) : Ends [] es [h]
  | stop {es fs : List Event} {h : Hedge} {tags : List String} {hs : List Hedge} (tag : String)
      (span : Span) (hes : Spells es h) (hfs : Ends tags fs hs) :
      Ends (tag :: tags) (es ++ .stop tag span :: fs) (h :: hs)

section

variable {tags : List String} {es : List Event} {hs : List Hedge}

/-- Events may come in front that spell elements before the first ones. -/
theorem Ends.inFront (h : Ends tags es hs) (front : List Event) (f : Hedge → Hedge)
    (hf : ∀ es h, Spells es h → Spells (front ++ es) (f h)) :
    ∃ first rest, hs = first :: rest ∧ Ends tags (front ++ es) (f first :: rest) := by
  cases h with
  | outside hes => exact ⟨_, _, rfl, .outside (hf _ _ hes)⟩
  | stop tag span hes hfs =>
    refine ⟨_, _, rfl, ?_⟩
    rw [← List.append_assoc]
    exact .stop tag span (hf _ _ hes) hfs

theorem Ends.aside (h : Ends tags es hs) {e : Event} (he : e.isTag = false) :
    Ends tags (e :: es) hs := by
  obtain ⟨first, rest, rfl, hends⟩ := h.inFront [e] id fun _ _ => .aside he
  exact hends

theorem Ends.unary (h : Ends tags es hs) (tag : String) (attrs : List Attribute) (span : Span) :
    Ends tags (.start tag attrs true span :: es) (Hedge.begin tag attrs true hs) := by
  obtain ⟨first, rest, rfl, hends⟩ :=
    h.inFront [.start tag attrs true span] (.element tag attrs .nil) fun _ _ =>
      .unary tag attrs span
  exact hends

theorem Ends.paired {tag : String} (h : Ends (tag :: tags) es hs) (attrs : List Attribute)
    (span : Span) :
    Ends tags (.start tag attrs false span :: es) (Hedge.begin tag attrs false hs) := by
  cases h with
  | @stop es fs inside _ hs _ span' hinside hfs =>
    have hpaired (fs : List Event) (behind : Hedge) (hfs : Spells fs behind) :
        Spells (.start tag attrs false span :: (es ++ [.stop tag span']) ++ fs)
          (.element tag attrs inside behind) := by
      rw [List.cons_append, ← List.append_cons]
      exact .paired tag attrs span span' hinside hfs
    obtain ⟨first, rest, rfl, hends⟩ := hfs.inFront _ (.element tag attrs inside) hpaired
    rwa [List.cons_append, ← List.append_cons] at hends

/-- Events that end what is open are what is read off them, by induction from behind. -/
theorem ends_hedges (h : nest tags es = some []) : Ends tags es (hedges es) := by
  induction es generalizing tags with
  | nil =>
    cases Option.some.inj h
    exact .outside .nil
  | cons e es ih =>
    rw [nest_cons, Option.bind_eq_some_iff] at h
    obtain ⟨after, he, hes⟩ := h
    cases e with
    | start tag attrs unary span =>
      cases Option.some.inj he
      cases unary with
      | true => exact (ih hes).unary tag attrs span
      | false => exact (ih hes).paired attrs span
    | stop tag span =>
      cases tags with
      | nil => cases he
      | cons top outer =>
        obtain ⟨rfl, houter⟩ := Option.ite_none_right_eq_some.1 he
        cases houter
        exact .stop tag span .nil (ih hes)
    | text t span =>
      cases Option.some.inj he
      exact (ih hes).aside rfl
    | comment t span =>
      cases Option.some.inj he
      exact (ih hes).aside rfl
    | warning w =>
      cases Option.some.inj he
      exact (ih hes).aside rfl

end

/-- Well nested events spell the elements that are read off them. -/
theorem spells_hedge {es : List Event} (h : WellNested es) : Spells es (hedge es) := by
  have hends := ends_hedges h
  generalize hhs : hedges es = hs at hends
  cases hends with
  | outside hes =>
    rw [hedge, hhs]
    exact hes

end ViewTree.Markup
