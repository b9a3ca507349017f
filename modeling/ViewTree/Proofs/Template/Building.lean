import ViewTree.Proofs.Template.Linking
/-!
# Properties of parsed elements

A property that an opened element has, and that neither more children nor its end take away, is a
property of every element of a parsed template (`parse_each`). No parsed element is a static root
yet.
-/

namespace ViewTree.Template

/-- Every element among the siblings and inside them has the property. -/
abbrev Each (F : Element → Prop) : List Node → Prop :=
  Everywhere fun siblings => ∀ e, .element e ∈ siblings → F e

section

variable {F : Element → Prop} {siblings : List Node}

theorem each_nil : Each F [] :=
  .intro (by simp) (by simp)

theorem Everywhere.each_subset {kept : List Node} (h : Each F siblings)
    (hkept : ∀ e, .element e ∈ kept → .element e ∈ siblings) : Each F kept :=
  .intro (fun e he => h.here e (hkept e he)) fun e he => h.inside (hkept e he)

theorem Everywhere.each_concat {e : Element} (h : Each F siblings) (he : F e)
    (hchildren : Each F e.children) : Each F (siblings ++ [.element e]) := by
  refine .intro ?_ ?_
  · intro d hd
    rcases List.mem_append.1 hd with hd | hd
    · exact h.here d hd
    · cases List.mem_singleton.1 hd
      exact he
  · intro d hd
    rcases List.mem_append.1 hd with hd | hd
    · exact h.inside hd
    · cases List.mem_singleton.1 hd
      exact hchildren

/-- Nodes that are no elements can be put behind. -/
theorem Everywhere.each_append {added : List Node} (h : Each F siblings)
    (hadded : ∀ n ∈ added, n.element? = none) : Each F (siblings ++ added) := by
  refine h.each_subset fun e he => ?_
  rcases List.mem_append.1 he with he | he
  · exact he
  · cases hadded _ he

end

namespace Builder

/-- An element has the property when it is opened, and keeps it until it is in the tree. -/
structure Keeps (s : Settings) (F : Element → Prop) : Prop where
  opened : ∀ tag attrs selfClosing ns span,
    F { Element.new tag with attrs := attrs, selfClosing := selfClosing, ns := ns, span := span }
  children : ∀ e children, F e → F { e with children := children }
  finish : ∀ preDepth e stop, F e → F (finish s preDepth e stop)

/-- All elements that are built so far have the property, the open ones among them. -/
structure Holds (F : Element → Prop) (b : Builder) : Prop where
  roots : Each F b.roots
  opened : ∀ o ∈ b.stack, F o.element ∧ Each F o.element.children

section

variable {s : Settings} {F : Element → Prop} {b : Builder}

theorem Holds.of_eq {b' : Builder} (h : b.Holds F) (hroots : b'.roots = b.roots)
    (hstack : b'.stack = b.stack) : b'.Holds F :=
  ⟨hroots ▸ h.roots, hstack ▸ h.opened⟩

theorem Holds.reportAll (h : b.Holds F) (es : List TemplateError) : (b.reportAll es).Holds F :=
  h.of_eq (reportAll_built b es).1 (reportAll_built b es).2

theorem Holds.push (h : b.Holds F) {o : OpenNode} (ho : F o.element)
    (hchildren : Each F o.element.children) : Holds F { b with stack := o :: b.stack } := by
  refine ⟨h.roots, ?_⟩
  intro p hp
  rcases List.mem_cons.1 hp with rfl | hp
  · exact ⟨ho, hchildren⟩
  · exact h.opened p hp

theorem Holds.pop (h : b.Holds F) {o : OpenNode} {rest : List OpenNode}
    (hstack : b.stack = o :: rest) :
    Holds F { b with stack := rest } ∧ F o.element ∧ Each F o.element.children :=
  ⟨⟨h.roots, fun p hp => h.opened p (hstack ▸ List.mem_cons_of_mem o hp)⟩,
    h.opened o (hstack ▸ List.mem_cons_self)⟩

/-- The innermost open element may get other children. -/
theorem Holds.setChildren (hF : Keeps s F) (h : b.Holds F) {o : OpenNode} {rest : List OpenNode}
    (hstack : b.stack = o :: rest) {children : List Node} (hchildren : Each F children) :
    Holds F { b with stack := { o with element := { o.element with children } } :: rest } := by
  obtain ⟨hrest, ho, _⟩ := h.pop hstack
  exact hrest.push (hF.children _ _ ho) hchildren

theorem each_attach {siblings : List Node} (h : Each F siblings) {e : Element} (he : F e)
    (hchildren : Each F e.children) : Each F (attach siblings e).2 := by
  obtain ⟨kept, hkept, hattach | ⟨hattach, _⟩⟩ := attach_cases siblings e
  · rw [hattach]
    exact h.each_subset fun _ => (hkept.subset ·)
  · rw [hattach]
    exact (h.each_subset fun _ => (hkept.subset ·)).each_concat he hchildren

theorem holds_place (hF : Keeps s F) (h : b.Holds F) {e : Element} (he : F e)
    (hchildren : Each F e.children) : (b.place e).Holds F := by
  unfold place
  cases hstack : b.stack with
  | nil =>
    refine Holds.reportAll ⟨each_attach h.roots he hchildren, ?_⟩ _
    rintro o ⟨⟩
  | cons o rest =>
    obtain ⟨_, _, ho⟩ := h.pop hstack
    exact (h.setChildren hF hstack (each_attach ho he hchildren)).reportAll _

theorem holds_close (hs : s.KeepShape) (hF : Keeps s F) (h : b.Holds F) {o : OpenNode}
    (ho : F o.element) (hchildren : Each F o.element.children) (stop : Nat) :
    (close s b o stop).Holds F := by
  unfold close
  dsimp only
  split
  · exact h.of_eq rfl rfl
  · have hkept := (finish_keepsShape hs b.preDepth o.element stop).1
    refine holds_place hF ?_ (hF.finish _ _ _ ho) (hchildren.each_subset fun _ => (hkept.subset ·))
    exact h.of_eq rfl rfl

theorem holds_onStart (hs : s.KeepShape) (hF : Keeps s F) (h : b.Holds F) (tag : String)
    (attrs : List Markup.Attribute) (unary : Bool) (span : Markup.Span) :
    (onStart s b tag attrs unary span).Holds F := by
  unfold onStart
  extract_lets ns opensPre inPre
  split
  rename_i attributes errors hattributes
  extract_lets e told forbidden warned deeper
  have hread : Holds F { b with inPre := inPre } := h.of_eq rfl rfl
  have htold : told.Holds F := hread.reportAll errors
  have hwarned : warned.Holds F := by
    unfold warned
    split
    · exact htold.of_eq rfl rfl
    · exact htold
  have hdeeper : deeper.Holds F := hwarned.of_eq rfl rfl
  split
  rename_i begun dropped hbegun
  have hbegun : begun.Holds F := by
    split at hbegun
    · obtain ⟨hroots, hstack, _⟩ := checkRoot_spec deeper e
      rw [hbegun] at hroots hstack
      exact hdeeper.of_eq hroots hstack
    · cases hbegun
      exact hdeeper
  have he : F e := hF.opened _ _ _ _ _
  dsimp only
  split
  · exact holds_close hs hF hbegun he each_nil span.stop
  · exact hbegun.push he each_nil

theorem holds_onStop (hs : s.KeepShape) (hF : Keeps s F) (h : b.Holds F) (stop : Nat) :
    (onStop s b stop).Holds F := by
  unfold onStop
  split
  · exact h
  · rename_i o rest hstack
    obtain ⟨hrest, ho, hchildren⟩ := h.pop hstack
    exact holds_close hs hF hrest ho hchildren stop

theorem holds_onText (hF : Keeps s F) (h : b.Holds F) (template text : String) :
    (onText s template b text).Holds F := by
  unfold onText
  split
  · unfold outerText
    split
    · exact h.of_eq rfl rfl
    · split
      · exact h
      · exact h.of_eq rfl rfl
  · rename_i o rest hstack
    obtain ⟨_, _, hchildren⟩ := h.pop hstack
    split
    · exact h
    · exact h.setChildren hF hstack (hchildren.each_append (textNodes_element? s _ _ _))

theorem holds_onComment (hF : Keeps s F) (h : b.Holds F) (text : String) :
    (b.onComment text).Holds F := by
  unfold onComment
  split
  · exact h
  · rename_i o rest hstack
    obtain ⟨_, _, hchildren⟩ := h.pop hstack
    refine h.setChildren hF hstack (hchildren.each_append ?_)
    simp [Node.element?]

theorem holds_step (hs : s.KeepShape) (hF : Keeps s F) (h : b.Holds F) (template : String)
    (event : Markup.Event) : (step s template b event).Holds F := by
  cases event with
  | start tag attrs unary span => exact holds_onStart hs hF h tag attrs unary span
  | stop tag span => exact holds_onStop hs hF h span.stop
  | text t span => exact holds_onText hF h template t
  | comment t span => exact holds_onComment hF h t
  | warning w => exact h.of_eq rfl rfl

theorem holds_run (hs : s.KeepShape) (hF : Keeps s F) (template : String)
    (events : List Markup.Event) (h : b.Holds F) :
    (events.foldl (step s template) b).Holds F := by
  induction events generalizing b with
  | nil => exact h
  | cons event events ih => exact ih (holds_step hs hF h template event)

end

end Builder

/-- Every element of a parsed template has a property that building keeps. -/
theorem parse_each {s : Settings} (hs : s.KeepShape) {F : Element → Prop} (hF : Builder.Keeps s F)
    (template : String) : Each F (parse s template).1 := by
  have hstart : Builder.start.Holds F := ⟨each_nil, by rintro o ⟨⟩⟩
  have hrun := Builder.holds_run hs hF template (Markup.tokenize s.dialect template) hstart
  rw [parse_roots]
  exact hrun.roots

/-! ## Static roots -/

theorem lift_staticRoot (kind : AttrKind) (name key : String) (f : String → String) (e : Element) :
    (lift kind name key f e).staticRoot = e.staticRoot := by
  unfold lift ElementOf.takeAttr?
  cases e.attr? kind name <;> rfl

theorem base_keeps_unrooted : Builder.Keeps .base fun e => e.staticRoot = false where
  opened _ _ _ _ _ := rfl
  children _ _ h := h
  finish preDepth e stop h := by
    unfold Builder.finish
    simpa [Settings.base, classExtension, styleExtension, lift_staticRoot] using h

/-- Nothing is a static root before static parts are marked. -/
theorem parse_unrooted (template : String) :
    Each (fun e => e.staticRoot = false) (parse .base template).1 :=
  parse_each base_keepShape base_keeps_unrooted template

end ViewTree.Template
