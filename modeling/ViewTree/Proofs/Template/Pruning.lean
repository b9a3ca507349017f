import ViewTree.Proofs.Markup.Hedges
import ViewTree.Proofs.Template.Opening
/-!
# What is built of the markup

The builder does not look at the tags of end tags: it closes what is innermost. Since the events of
markup are well nested, that is the element of the same tag (`openTags_step`), and in the end
nothing is open. An element is refused if it has side effects, is a further root or is a branch
without a condition in front of it; the tree has the elements of the markup without those inside a
refused one, in the order of their start tags. The builder is followed along the hedge that the
events spell (`reads_of_spells`), on top of whatever is open.
-/

namespace ViewTree.Template

/-! ## What is refused -/

/-- Where an element begins: whether everything is taken as it stands there, whether no other
element is open, and of the nearest element in front that is kept, if there is one, whether it is a
condition. -/
structure Place where
  inPre : Bool
  outermost : Bool
  front : Option Bool
deriving DecidableEq

namespace Place

/-- The beginning of a template. -/
def start : Place :=
  ⟨false, true, none⟩

/-- The element would be a root besides another one without being a branch. -/
def isFurtherRoot (p : Place) (e : Element) : Bool :=
  p.outermost && p.front.isSome && !e.isBranch

/-- The element is a branch and has no condition in front of it. -/
def isStrayBranch (p : Place) (e : Element) : Bool :=
  e.isBranch && p.front != some true

/-- The element is left out of the tree with all that is inside it. -/
def refuses (p : Place) (e : Element) : Bool :=
  Builder.isForbidden e || p.isFurtherRoot e || p.isStrayBranch e

end Place

/-- The element that a start tag stands for. -/
def started (s : Settings) (inPre : Bool) (tag : String) (attrs : List Markup.Attribute) :
    Element :=
  { Element.new tag with attrs := (Builder.readAttributes s inPre [] attrs).1 }

/-- The elements without the refused ones and all that is inside those. -/
def prune (s : Settings) : Place → Markup.Hedge → Markup.Hedge
  | _, .nil => .nil
  | p, .element tag attrs inside behind =>
    let inPre := p.inPre || attrs.any (·.name == "v-pre")
    let e := started s inPre tag attrs
    if p.refuses e then prune s p behind
    else
      .element tag attrs (prune s ⟨inPre, false, none⟩ inside)
        (prune s { p with front := some (Node.element e).isCondition } behind)

/-! ## Extensions -/

/-- No extension changes the tag of an element. -/
def Settings.KeepTags (s : Settings) : Prop :=
  ∀ x ∈ s.extensions, ∀ e, (x.transform e).tag = e.tag

theorem lift_tag (kind : AttrKind) (name key : String) (f : String → String) (e : Element) :
    (lift kind name key f e).tag = e.tag := by
  unfold lift ElementOf.takeAttr?
  cases e.attr? kind name <;> rfl

theorem base_keepTags : Settings.base.KeepTags := by
  intro x hx e
  rcases List.mem_pair.1 hx with rfl | rfl
  · simp [classExtension, lift_tag]
  · simp [styleExtension, lift_tag]

namespace Builder

/-! ## Closing an element -/

/-- The place of the next element. -/
def here (b : Builder) : Place :=
  ⟨b.inPre, b.stack.isEmpty, front b.siblings⟩

section

variable {s : Settings} {b : Builder}

/-- The place is another one only by what is in front of it. -/
theorem Continues.here_eq {b' : Builder} (h : Continues b b') :
    b'.here = { b.here with front := front b'.siblings } := by
  have hempty : b'.stack.isEmpty = b.stack.isEmpty := by
    have htags := congrArg List.isEmpty (openTags_eq_of_around h.around)
    simpa [openTags] using htags
  rw [here, here, h.inPre, hempty]

/-- The last kept element in front of a root is a root as well. -/
theorem isFurtherRoot_here (hb : b.Rooted) (e : Element) :
    b.here.isFurtherRoot e = (b.stack.isEmpty && !b.roots.isEmpty && !e.isBranch) := by
  unfold Place.isFurtherRoot here
  cases hstack : b.stack with
  | cons o outer => rfl
  | nil =>
    have hfront : (front b.roots).isSome = !b.roots.isEmpty := by
      cases hroots : b.roots with
      | nil => rfl
      | cons n ns =>
        obtain ⟨d, hd⟩ := Option.isSome_iff_exists.1 (hb n (hroots ▸ List.mem_cons_self))
        rw [front, Node.elements, List.filterMap_cons_some hd]
        simp
    simp [siblings, hstack, hfront]

/-- The open element is what a start tag stands for. -/
structure StandsFor (o : OpenNode) (e : Element) : Prop where
  tag : o.element.tag = e.tag
  directives : ∀ name, o.element.hasDirective name = e.hasDirective name

/-- An element is read and what is inside it. It is put behind its siblings unless it is refused at
its place. -/
structure Took (b b' : Builder) (e : Element) (inside : List String) : Prop where
  continues : Continues b b'
  refused : b.here.refuses e = true → Node.elements b'.siblings = Node.elements b.siblings
  kept : b.here.refuses e = false →
    ∃ d, Node.elements b'.siblings = Node.elements b.siblings ++ [d] ∧ d.tag = e.tag ∧
      (Node.element d).isCondition = (Node.element e).isCondition ∧
      Node.tagsAll d.children = inside

/-- A closed element has its tag, and the elements inside it. -/
theorem finish_spec (hshape : s.KeepShape) (htags : s.KeepTags) (preDepth : Nat) (e : Element)
    (stop : Nat) :
    (finish s preDepth e stop).tag = e.tag ∧
      Node.elements (finish s preDepth e stop).children = Node.elements e.children := by
  have htag (xs : List Extension) (hxs : ∀ x ∈ xs, ∀ e, (x.transform e).tag = e.tag)
      (e : Element) : (xs.foldl (fun e x => x.transform e) e).tag = e.tag := by
    induction xs generalizing e with
    | nil => rfl
    | cons x xs ih =>
      rw [List.foldl_cons, ih (fun y hy => hxs y (List.mem_cons_of_mem x hy))]
      exact hxs x List.mem_cons_self e
  unfold finish
  refine ⟨htag s.extensions htags _, ?_⟩
  rw [(foldl_keepsShape hshape _).1]
  dsimp only
  split
  · exact elements_dropTrailingSpace e.children
  · rfl

/-- What was open is closed where it began. -/
theorem took_close (hshape : s.KeepShape) (htags : s.KeepTags) {b c : Builder} {o : OpenNode}
    {e : Element} (hstack : c.stack = b.stack) (hroots : c.roots = b.roots)
    (hinPre : (c.inPre && !o.opensPre) = b.inPre) (ho : StandsFor o e)
    (hdropped : o.dropped = (isForbidden e || b.here.isFurtherRoot e)) (stop : Nat) :
    Took b (close s c o stop) e (Node.tagsAll o.element.children) := by
  unfold close
  extract_lets d c'
  have hc' : Continues b c' := .of_built hstack hroots hinPre
  have hsiblings : c'.siblings = b.siblings := siblings_eq_of_built hstack hroots
  obtain ⟨htag, helements⟩ := finish_spec hshape htags c.preDepth o.element stop
  have hdirectives (name : String) : d.hasDirective name = e.hasDirective name :=
    ((finish_keepsShape hshape c.preDepth o.element stop).2 name).trans (ho.directives name)
  cases hleft : o.dropped with
  | true =>
    refine ⟨hc', fun _ => congrArg _ hsiblings, fun hkept => ?_⟩
    rw [Place.refuses, ← hdropped, hleft] at hkept
    cases hkept
  | false =>
    have hrefuses : b.here.refuses e = b.here.isStrayBranch d := by
      rw [Place.refuses, ← hdropped, hleft, Bool.false_or, Place.isStrayBranch,
        Place.isStrayBranch, ElementOf.isBranch, ElementOf.isBranch, hdirectives, hdirectives]
    have hplace : Node.elements (c'.place d).siblings =
        if b.here.refuses e then Node.elements b.siblings else Node.elements b.siblings ++ [d] := by
      rw [siblings_place, hsiblings, elements_attach, hrefuses]
      rfl
    refine ⟨hc'.trans (continues_place c' d), fun hrefused => ?_, fun hkept => ?_⟩
    · exact hplace.trans (if_pos hrefused)
    · refine ⟨d, hplace.trans (by rw [hkept]; rfl), htag.trans ho.tag, ?_, ?_⟩
      · simp [Node.isCondition, hdirectives]
      · rw [Node.tagsAll_eq_elements, Node.tagsAll_eq_elements, helements]

/-! ## Opening an element -/

/-- The builder and the open element that a start tag gives. -/
structure Opens (s : Settings) (b : Builder) (tag : String) (attrs : List Markup.Attribute)
    (begun : Builder) (o : OpenNode) : Prop where
  stack : begun.stack = b.stack
  roots : begun.roots = b.roots
  inPre : begun.inPre = (b.inPre || attrs.any (·.name == "v-pre"))
  opensPre : o.opensPre = (!b.inPre && attrs.any (·.name == "v-pre"))
  empty : o.element.children = []
  element : StandsFor o (started s begun.inPre tag attrs)
  dropped : o.dropped = (isForbidden (started s begun.inPre tag attrs) ||
    b.stack.isEmpty && !b.roots.isEmpty && !(started s begun.inPre tag attrs).isBranch)

/-- A start tag opens an element with its attributes at its place, or closes it at once. -/
theorem exists_opened (s : Settings) (b : Builder) (tag : String) (attrs : List Markup.Attribute)
    (unary : Bool) (span : Markup.Span) :
    ∃ begun o, Opens s b tag attrs begun o ∧
      o.element.attrs = (readAttributes s begun.inPre [] attrs).1 ∧
      o.element.span = (if s.sourceRange then some span else none) ∧
      onStart s b tag attrs unary span =
        if unary then close s begun o span.stop else { begun with stack := o :: begun.stack } := by
  obtain ⟨begun, o, h, hstep⟩ := exists_begins s b ⟨tag, attrs⟩ unary span
  have helement := h.element
  refine ⟨begun, o, ⟨h.stack, h.roots, h.inPre, h.opensPre, ?_, ⟨?_, ?_⟩, ?_⟩, ?_, ?_, hstep⟩
  · rw [helement]
    rfl
  · rw [helement]
    rfl
  · rw [helement]
    exact fun _ => rfl
  · rw [h.dropped, helement]
    rfl
  · rw [helement]
  · rw [helement]

theorem exists_opens (s : Settings) (b : Builder) (tag : String) (attrs : List Markup.Attribute)
    (unary : Bool) (span : Markup.Span) :
    ∃ begun o, Opens s b tag attrs begun o ∧
      onStart s b tag attrs unary span =
        if unary then close s begun o span.stop else { begun with stack := o :: begun.stack } := by
  obtain ⟨begun, o, hopens, -, -, hstep⟩ := exists_opened s b tag attrs unary span
  exact ⟨begun, o, hopens, hstep⟩

/-! ## The stack -/

theorem openTags_close (b : Builder) (o : OpenNode) (stop : Nat) :
    (close s b o stop).openTags = b.openTags := by
  unfold close
  extract_lets e b'
  have hb' : b'.openTags = b.openTags := rfl
  split
  · exact hb'
  · exact (openTags_eq_of_around (continues_place b' e).around).trans hb'

/-- Events open and close elements as their tags tell. -/
theorem openTags_step (b : Builder) (template : String) (event : Markup.Event)
    {after : List String} (h : event.nest b.openTags = some after) :
    (step s template b event).openTags = after := by
  have haside (hevent : event.isTag = false) (h : after = b.openTags) :
      (step s template b event).openTags = after := by
    rw [h]
    exact openTags_eq_of_around (aside_step b template hevent).1.around
  cases event with
  | start tag attrs unary span =>
    cases Option.some.inj h
    obtain ⟨begun, o, hopens, hstep⟩ := exists_opens s b tag attrs unary span
    have hbegun : begun.openTags = b.openTags := congrArg (List.map _) hopens.stack
    rw [step, hstep]
    cases unary with
    | true => exact (openTags_close begun o span.stop).trans hbegun
    | false => exact congr (congrArg List.cons hopens.element.tag) hbegun
  | stop tag span =>
    rw [step, onStop]
    unfold openTags at h
    cases hstack : b.stack with
    | nil =>
      rw [hstack] at h
      cases h
    | cons o outer =>
      rw [hstack] at h
      obtain ⟨_, hafter⟩ := Option.ite_none_right_eq_some.1 h
      cases hafter
      exact openTags_close _ o span.stop
  | text t span => exact haside rfl (Option.some.inj h).symm
  | comment t span => exact haside rfl (Option.some.inj h).symm
  | warning w => exact haside rfl (Option.some.inj h).symm

theorem openTags_run (template : String) (events : List Markup.Event) {b : Builder}
    {after : List String} (h : Markup.nest b.openTags events = some after) :
    (events.foldl (step s template) b).openTags = after := by
  induction events generalizing b with
  | nil => exact Option.some.inj h
  | cons event events ih =>
    rw [Markup.nest_cons, Option.bind_eq_some_iff] at h
    obtain ⟨next, hevent, hevents⟩ := h
    exact ih ((openTags_step b template event hevent).symm ▸ hevents)

/-- Where an end tag comes, the innermost open element is the one that it ends. -/
theorem exists_open_of_stop (template : String) {before after : List Markup.Event} {tag : String}
    {span : Markup.Span} (h : Markup.WellNested (before ++ .stop tag span :: after)) :
    ∃ o outer, (before.foldl (step s template) .start).stack = o :: outer ∧
      o.element.tag = tag := by
  rw [Markup.WellNested, Markup.nest_append, Option.bind_eq_some_iff] at h
  obtain ⟨tags, hbefore, hafter⟩ := h
  rw [Markup.nest_cons, Option.bind_eq_some_iff] at hafter
  obtain ⟨rest, hstop, _⟩ := hafter
  have hopen := openTags_run (s := s) template before (b := .start) hbefore
  unfold openTags at hopen
  cases hstack : (before.foldl (step s template) .start).stack with
  | nil =>
    rw [hstack] at hopen
    cases hopen
    cases hstop
  | cons o outer =>
    rw [hstack] at hopen
    cases hopen
    exact ⟨o, outer, rfl, (Option.ite_none_right_eq_some.1 hstop).1.symm⟩

/-! ## The run along a hedge -/

/-- The builder has read a hedge on top of what was open, and put behind the siblings there what
remains of it. -/
structure Reads (s : Settings) (h : Markup.Hedge) (b b' : Builder) : Prop where
  continues : Continues b b'
  tags : Node.tagsAll b'.siblings = Node.tagsAll b.siblings ++ (prune s b.here h).tags

theorem Reads.congr_tags {b b' b'' : Builder} {h : Markup.Hedge} (hb : Continues b b')
    (helements : Node.elements b'.siblings = Node.elements b.siblings) (h' : Reads s h b' b'') :
    Reads s h b b'' := by
  have hhere : b'.here = b.here := by
    rw [hb.here_eq, front, helements]
    rfl
  refine ⟨hb.trans h'.continues, ?_⟩
  rw [h'.tags, hhere, Node.tagsAll_eq_elements b'.siblings, helements,
    ← Node.tagsAll_eq_elements]

theorem prune_of_refuses {p : Place} {tag : String} {attrs : List Markup.Attribute}
    {inPre : Bool} (hinPre : inPre = (p.inPre || attrs.any (·.name == "v-pre")))
    (h : p.refuses (started s inPre tag attrs) = true) (inside behind : Markup.Hedge) :
    prune s p (.element tag attrs inside behind) = prune s p behind := by
  subst hinPre
  rw [prune]
  exact if_pos h

theorem prune_of_not_refuses {p : Place} {tag : String} {attrs : List Markup.Attribute}
    {inPre : Bool} (hinPre : inPre = (p.inPre || attrs.any (·.name == "v-pre")))
    (h : p.refuses (started s inPre tag attrs) = false) (inside behind : Markup.Hedge) :
    prune s p (.element tag attrs inside behind) =
      .element tag attrs (prune s ⟨inPre, false, none⟩ inside)
        (prune s { p with front := some (Node.element (started s inPre tag attrs)).isCondition }
          behind) := by
  subst hinPre
  rw [prune]
  exact if_neg (Bool.not_eq_true _ ▸ h)

/-- An element is read, with what is inside it, and then those behind it. -/
theorem Took.reads {b b' b'' : Builder} {tag : String} {attrs : List Markup.Attribute}
    {inside behind : Markup.Hedge} {inPre : Bool}
    (hinPre : inPre = (b.inPre || attrs.any (·.name == "v-pre")))
    (h : Took b b' (started s inPre tag attrs) (prune s ⟨inPre, false, none⟩ inside).tags)
    (h' : Reads s behind b' b'') : Reads s (.element tag attrs inside behind) b b'' := by
  refine ⟨h.continues.trans h'.continues, ?_⟩
  cases hrefuses : b.here.refuses (started s inPre tag attrs) with
  | true =>
    rw [prune_of_refuses hinPre hrefuses]
    exact (h'.congr_tags h.continues (h.refused hrefuses)).tags
  | false =>
    obtain ⟨d, helements, htag, hcondition, hinside⟩ := h.kept hrefuses
    have hhere : b'.here = { b.here with
        front := some (Node.element (started s inPre tag attrs)).isCondition } := by
      rw [h.continues.here_eq, front, helements, List.getLast?_concat, Option.map_some,
        hcondition]
    have hd : Node.tagsAll b'.siblings =
        Node.tagsAll b.siblings ++ d.tag :: Node.tagsAll d.children := by
      rw [Node.tagsAll_eq_elements, helements, List.flatMap_append, ← Node.tagsAll_eq_elements,
        List.flatMap_singleton]
    rw [prune_of_not_refuses hinPre hrefuses, h'.tags, hhere, hd, htag, hinside,
      List.append_assoc]
    rfl

/-- What is opened and gets children is closed where it began. -/
theorem Opens.took (hshape : s.KeepShape) (htags : s.KeepTags) {b begun c : Builder}
    {tag : String} {attrs : List Markup.Attribute} {o : OpenNode} (hb : b.Rooted)
    (h : Opens s b tag attrs begun o) (hstack : c.stack = begun.stack)
    (hroots : c.roots = begun.roots) (hinPre : c.inPre = begun.inPre) (children : List Node)
    (stop : Nat) :
    Took b (close s c (o.withChildren children) stop) (started s begun.inPre tag attrs)
      (Node.tagsAll children) := by
  have hleft : (c.inPre && !(o.withChildren children).opensPre) = b.inPre := by
    rw [hinPre, h.inPre, OpenNode.withChildren, h.opensPre]
    cases b.inPre <;> cases attrs.any (·.name == "v-pre") <;> rfl
  have hdropped : (o.withChildren children).dropped =
      (isForbidden (started s begun.inPre tag attrs) ||
        b.here.isFurtherRoot (started s begun.inPre tag attrs)) := by
    rw [isFurtherRoot_here hb]
    exact h.dropped
  have hstands : StandsFor (o.withChildren children) (started s begun.inPre tag attrs) :=
    ⟨h.element.tag, h.element.directives⟩
  exact took_close hshape htags (hstack.trans h.stack) (hroots.trans h.roots) hleft hstands
    hdropped stop

/-- Events that spell a hedge are read on top of whatever is open, by induction on the spelling. -/
theorem reads_of_spells (hshape : s.KeepShape) (htags : s.KeepTags) (template : String)
    {events : List Markup.Event} {h : Markup.Hedge} (hspells : Markup.Spells events h)
    {b : Builder} (hb : b.Rooted) : Reads s h b (events.foldl (step s template) b) := by
  induction hspells generalizing b with
  | nil => exact ⟨.refl b, (List.append_nil _).symm⟩
  | aside he _ ih =>
    obtain ⟨hcontinues, helements⟩ := aside_step (s := s) b template he
    exact (ih (hcontinues.rooted hb)).congr_tags hcontinues helements
  | unary tag attrs span _ ih =>
    obtain ⟨begun, o, hopens, hstep⟩ := exists_opens s b tag attrs true span
    have htook := hopens.took hshape htags hb rfl rfl rfl [] span.stop
    have hclose : step s template b (.start tag attrs true span) =
        close s begun (o.withChildren []) span.stop := by
      rw [step, hstep, ← hopens.empty]
      rfl
    rw [List.foldl_cons, hclose]
    exact htook.reads hopens.inPre (ih (htook.continues.rooted hb))
  | @paired es fs inside behind tag attrs span span' _ _ ihinside ihbehind =>
    obtain ⟨begun, o, hopens, hstep⟩ := exists_opens s b tag attrs false span
    let opened : Builder := { begun with stack := o :: begun.stack }
    have hopened : opened.Rooted := fun n hn => hb n (hopens.roots ▸ hn)
    have hhere : opened.here = ⟨begun.inPre, false, none⟩ :=
      congrArg (Place.mk begun.inPre false) (congrArg front hopens.empty)
    obtain ⟨hcontinues, hinside⟩ := ihinside hopened
    generalize hread : es.foldl (step s template) opened = read at hcontinues hinside
    obtain ⟨children, hstack, hroots⟩ :=
      exists_children_of_around hcontinues.around (o := o) rfl
    have hchildren : Node.tagsAll children = (prune s ⟨begun.inPre, false, none⟩ inside).tags := by
      have hread : read.siblings = children := by
        rw [siblings, hstack]
        rfl
      have hempty : opened.siblings = [] := hopens.empty
      rwa [hread, hempty, hhere] at hinside
    have htook := hopens.took hshape htags hb (c := { read with stack := begun.stack }) rfl hroots
      hcontinues.inPre children span'.stop
    have hclose : step s template read (.stop tag span') =
        close s { read with stack := begun.stack } (o.withChildren children) span'.stop := by
      rw [step, onStop, hstack]
    have hrun : (.start tag attrs false span :: (es ++ .stop tag span' :: fs)).foldl
        (step s template) b =
          fs.foldl (step s template) (step s template read (.stop tag span')) := by
      rw [List.foldl_cons, step, hstep, List.foldl_append, List.foldl_cons, ← hread]
      rfl
    rw [← hclose, hchildren] at htook
    rw [hrun]
    exact htook.reads hopens.inPre (ihbehind (htook.continues.rooted hb))

end

end Builder

/-! ## Templates -/

/-- The builder of a template ends every element with its own end tag and leaves nothing open. What
it makes of the elements that the events spell, one for each start tag, is all of them but the
refused ones with what is inside those, in document order. -/
theorem parse_elements {s : Settings} (hs : s.extensions = Settings.base.extensions)
    (template : String) :
    let events := Markup.tokenize s.dialect template
    let run := fun es : List Markup.Event => es.foldl (Builder.step s template) .start
    (run events).stack = [] ∧
      (∀ before tag span after, events = before ++ .stop tag span :: after →
        ∃ o outer, (run before).stack = o :: outer ∧ o.element.tag = tag ∧
          run (before ++ [.stop tag span]) =
            Builder.close s { run before with stack := outer } o span.stop) ∧
      Markup.Spells events (Markup.hedge events) ∧
      (Markup.hedge events).tags = Markup.startTags events ∧
      Node.tagsAll (parse s template).1 = (prune s .start (Markup.hedge events)).tags := by
  intro events run
  have hshape : s.KeepShape := by
    rw [Settings.KeepShape, hs]
    exact base_keepShape
  have htags : s.KeepTags := by
    rw [Settings.KeepTags, hs]
    exact base_keepTags
  have hnested : Markup.WellNested events := (Markup.tokenize_wellNested s.dialect template).1
  have hspells := Markup.spells_hedge hnested
  refine ⟨?_, ?_, hspells, hspells.startTags_eq.symm, ?_⟩
  · have hopen := Builder.openTags_run (s := s) template events (b := .start) hnested
    exact List.map_eq_nil_iff.1 hopen
  · intro before tag span after hevents
    obtain ⟨o, outer, hstack, htag⟩ :=
      Builder.exists_open_of_stop (s := s) template (hevents ▸ hnested)
    refine ⟨o, outer, hstack, htag, ?_⟩
    have hlast : run (before ++ [.stop tag span]) =
        Builder.step s template (run before) (.stop tag span) :=
      List.foldl_concat _ _ _ _
    rw [hlast, Builder.step, Builder.onStop, hstack]
  · have hrooted : Builder.start.Rooted := by
      rintro n ⟨⟩
    obtain ⟨hcontinues, hread⟩ :=
      Builder.reads_of_spells hshape htags template hspells hrooted
    have hstack := Builder.stack_eq_nil_of_around hcontinues.around rfl
    rw [Builder.siblings, hstack] at hread
    rw [parse_roots]
    exact hread

/-- A style, a branch without a condition and a further root are missing. -/
theorem parse_elements_refused :
    Settings.base.extensions = Settings.base.extensions ∧
      Node.tagsAll
        (parse .base "<a v-if=b><style></style><p v-else><b></b></p><i>x</a><u v-else/><s><b>").1 =
          ["a", "i", "u"] :=
  ⟨rfl, (parse_elements rfl _).2.2.2.2.trans (by decide +kernel)⟩

end ViewTree.Template
