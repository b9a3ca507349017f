import ViewTree.Proofs.Markup.Hedges
import ViewTree.Proofs.Template.Linking
/-!
# Where the builder puts things

An element is put behind its siblings, which are the children of the innermost open element or the
roots. Of a builder, the elements among them matter, and what is around them: whatever the builder
does between two tags, it goes on at the same place with the same elements there (`aside_step`).
-/

namespace ViewTree.Template

/-! ## Tags of a tree -/

namespace Node

mutual

/-- The tags of the elements of a node in document order. -/
def tags : Node → List String
  | element ⟨tag, _, children, _, _, _, _, _, _⟩ => tag :: tagsAll children
  | _ => []

/-- The tags of the elements of several nodes in document order. -/
def tagsAll : List Node → List String
  | [] => []
  | n :: ns => tags n ++ tagsAll ns

end

/-- The elements among the nodes. -/
def elements (ns : List Node) : List Element :=
  ns.filterMap element?

theorem tags_element (e : Element) : (element e).tags = e.tag :: tagsAll e.children := by
  rw [tags]

theorem tagsAll_eq_elements (ns : List Node) :
    tagsAll ns = (elements ns).flatMap fun e => e.tag :: tagsAll e.children := by
  induction ns with
  | nil => rfl
  | cons n ns ih =>
    rw [tagsAll, ih]
    cases n with
    | element e => rw [tags_element]; rfl
    | _ => rfl

theorem elements_append (ns ms : List Node) : elements (ns ++ ms) = elements ns ++ elements ms :=
  List.filterMap_append

theorem elements_reverse (ns : List Node) : elements ns.reverse = (elements ns).reverse :=
  List.filterMap_reverse

theorem elements_eq_nil {ns : List Node} (h : ∀ n ∈ ns, n.element? = none) : elements ns = [] :=
  List.filterMap_eq_nil_iff.2 h

end Node

/-- The open element with other children. -/
def OpenNode.withChildren (o : OpenNode) (children : List Node) : OpenNode :=
  { o with element := { o.element with children } }

namespace Builder

/-! ## Siblings and what is around them -/

/-- The nodes that the next element goes behind. -/
def siblings (b : Builder) : List Node :=
  match b.stack with
  | [] => b.roots
  | o :: _ => o.element.children

/-- All that is built besides those siblings: the open elements, the innermost one without its
children, and inside of one the roots. -/
def around (b : Builder) : List OpenNode × List Node :=
  match b.stack with
  | [] => ([], [])
  | o :: outer => (o.withChildren [] :: outer, b.roots)

/-- The tags of the open elements, innermost first. -/
def openTags (b : Builder) : List String :=
  b.stack.map (·.element.tag)

/-- Whether the last element of the siblings, if there is one, is a condition. -/
def front (siblings : List Node) : Option Bool :=
  (Node.elements siblings).getLast?.map fun e => (Node.element e).isCondition

section

variable {b b' : Builder}

theorem openTags_eq_of_around (h : b'.around = b.around) : b'.openTags = b.openTags := by
  have htags (b : Builder) : b.openTags = b.around.1.map (·.element.tag) := by
    unfold openTags around
    cases b.stack <;> rfl
  rw [htags, htags, h]

theorem stack_eq_nil_of_around (h : b'.around = b.around) (hstack : b.stack = []) :
    b'.stack = [] := by
  have htags := openTags_eq_of_around h
  simpa [openTags, hstack] using htags

/-- Inside an element, only its children can be others. -/
theorem exists_children_of_around (h : b'.around = b.around) {o : OpenNode}
    {outer : List OpenNode} (hstack : b.stack = o :: outer) :
    ∃ children, b'.stack = o.withChildren children :: outer ∧ b'.roots = b.roots := by
  unfold around at h
  rw [hstack] at h
  cases hstack' : b'.stack with
  | nil => simp [hstack'] at h
  | cons o' outer' =>
    rw [hstack'] at h
    obtain ⟨houter, hroots⟩ := Prod.mk.inj h
    obtain ⟨ho, rfl⟩ := List.cons.inj houter
    have ho' : o' = (o'.withChildren []).withChildren o'.element.children := rfl
    rw [ho] at ho'
    exact ⟨o'.element.children, congrArg (· :: outer') ho', hroots⟩

theorem around_eq_of_built (hstack : b'.stack = b.stack) (hroots : b'.roots = b.roots) :
    b'.around = b.around := by
  unfold around
  rw [hstack, hroots]

theorem siblings_eq_of_built (hstack : b'.stack = b.stack) (hroots : b'.roots = b.roots) :
    b'.siblings = b.siblings := by
  unfold siblings
  rw [hstack, hroots]

end

theorem reportAll_inPre (b : Builder) (es : List TemplateError) :
    (b.reportAll es).inPre = b.inPre := by
  induction es generalizing b with
  | nil => rfl
  | cons e es ih => exact ih (b.report e)

/-- All roots are elements. -/
def Rooted (b : Builder) : Prop :=
  ∀ n ∈ b.roots, n.element?.isSome

/-- A builder goes on at the same place, with other siblings perhaps. -/
structure Continues (b b' : Builder) : Prop where
  around : b'.around = b.around
  inPre : b'.inPre = b.inPre
  rooted : b.Rooted → b'.Rooted

namespace Continues

variable {b b' b'' : Builder}

theorem of_built (hstack : b'.stack = b.stack) (hroots : b'.roots = b.roots)
    (hinPre : b'.inPre = b.inPre) : Continues b b' := by
  refine ⟨around_eq_of_built hstack hroots, hinPre, ?_⟩
  rw [Rooted, Rooted, hroots]
  exact id

theorem refl (b : Builder) : Continues b b :=
  of_built rfl rfl rfl

theorem trans (h : Continues b b') (h' : Continues b' b'') : Continues b b'' :=
  ⟨h'.around.trans h.around, h'.inPre.trans h.inPre, fun hb => h'.rooted (h.rooted hb)⟩

/-- The innermost open element may get other children. -/
theorem withChildren {o : OpenNode} {outer : List OpenNode} (hstack : b.stack = o :: outer)
    (children : List Node) :
    Continues b { b with stack := o.withChildren children :: outer } := by
  refine ⟨?_, rfl, id⟩
  unfold Builder.around
  rw [hstack]
  rfl

/-- Outside of all elements there may be other roots. -/
theorem withRoots (hstack : b.stack = []) {roots : List Node}
    (hroots : b.Rooted → ∀ n ∈ roots, n.element?.isSome) :
    Continues b { b with stack := [], roots := roots } := by
  refine ⟨?_, rfl, hroots⟩
  unfold Builder.around
  rw [hstack]

theorem reportAll (h : Continues b b') (es : List TemplateError) :
    Continues b (b'.reportAll es) := by
  obtain ⟨hroots, hstack⟩ := reportAll_built b' es
  exact h.trans (of_built hstack hroots (reportAll_inPre b' es))

end Continues

/-! ## Siblings that are no elements -/

theorem elements_dropToElement (ns : List Node) :
    Node.elements (dropToElement ns).2 = Node.elements ns := by
  induction ns with
  | nil => rfl
  | cons n ns ih =>
    cases n with
    | element e => rfl
    | text t => exact ih
    | interpolation t => exact ih
    | comment t => exact ih

theorem canJoin_dropToElement (ns : List Node) :
    canJoin (dropToElement ns).2 =
      (Node.elements ns).head?.any fun e => (Node.element e).isCondition := by
  induction ns with
  | nil => rfl
  | cons n ns ih =>
    cases n with
    | element e => rfl
    | text t => exact ih
    | interpolation t => exact ih
    | comment t => exact ih

theorem elements_dropTrailingSpace (children : List Node) :
    Node.elements (dropTrailingSpace children) = Node.elements children := by
  unfold dropTrailingSpace
  split
  · rename_i hlast
    obtain ⟨front, rfl⟩ := List.getLast?_eq_some_iff.1 hlast
    rw [List.dropLast_concat, Node.elements_append]
    exact (List.append_nil _).symm
  · rfl

/-- An element is put behind its siblings unless it is a branch without a condition there. -/
theorem elements_attach (siblings : List Node) (e : Element) :
    Node.elements (attach siblings e).2 =
      if e.isBranch && front siblings != some true then Node.elements siblings
      else Node.elements siblings ++ [e] := by
  have hkept : Node.elements (dropToElement siblings.reverse).2.reverse =
      Node.elements siblings := by
    rw [Node.elements_reverse, elements_dropToElement, Node.elements_reverse, List.reverse_reverse]
  have hjoin : canJoin (dropToElement siblings.reverse).2 = (front siblings == some true) := by
    rw [canJoin_dropToElement, Node.elements_reverse, List.head?_reverse, front]
    cases (Node.elements siblings).getLast? with
    | none => rfl
    | some d => simp
  unfold attach
  cases e.isBranch with
  | false => exact Node.elements_append siblings [.element e]
  | true =>
    cases hfront : front siblings == some true
    · simp [hjoin, hfront, hkept, bne]
    · simp [hjoin, hfront, bne, Node.elements_append, hkept]
      rfl

/-- Roots that are elements get an element behind them, if anything. -/
theorem rooted_attach {roots : List Node} (h : ∀ n ∈ roots, n.element?.isSome) (e : Element) :
    ∀ n ∈ (attach roots e).2, n.element?.isSome := by
  obtain ⟨kept, hkept, hattach | ⟨hattach, _⟩⟩ := attach_cases roots e
  · rw [hattach]
    exact fun n hn => h n (hkept.subset hn)
  · rw [hattach]
    intro n hn
    rcases List.mem_append.1 hn with hn | hn
    · exact h n (hkept.subset hn)
    · cases List.mem_singleton.1 hn
      rfl

theorem continues_place (b : Builder) (e : Element) : Continues b (b.place e) := by
  unfold place
  cases hstack : b.stack with
  | nil => exact (Continues.withRoots hstack (rooted_attach · e)).reportAll _
  | cons o outer => exact (Continues.withChildren hstack _).reportAll _

theorem siblings_place (b : Builder) (e : Element) :
    (b.place e).siblings = (attach b.siblings e).2 := by
  unfold place
  cases hstack : b.stack with
  | nil => simp [siblings, hstack]
  | cons o outer => simp [siblings, hstack]

section

variable {s : Settings} {b : Builder}

/-- Nodes that are no elements go behind the children of the innermost open element. -/
theorem aside_of_added {o : OpenNode} {outer : List OpenNode} (hstack : b.stack = o :: outer)
    {added : List Node} (hadded : ∀ n ∈ added, n.element? = none) :
    let b' := { b with stack := o.withChildren (o.element.children ++ added) :: outer }
    Continues b b' ∧ Node.elements b'.siblings = Node.elements b.siblings := by
  refine ⟨.withChildren hstack _, ?_⟩
  simp [siblings, hstack, OpenNode.withChildren, Node.elements_append,
    Node.elements_eq_nil hadded]

theorem aside_onText (b : Builder) (template text : String) :
    Continues b (onText s template b text) ∧
      Node.elements (onText s template b text).siblings = Node.elements b.siblings := by
  unfold onText
  split
  · unfold outerText
    split
    · exact ⟨.of_built rfl rfl rfl, rfl⟩
    · split
      · exact ⟨.refl b, rfl⟩
      · exact ⟨.of_built rfl rfl rfl, rfl⟩
  · rename_i o outer hstack
    split
    · exact ⟨.refl b, rfl⟩
    · exact aside_of_added hstack (textNodes_element? s _ _ _)

theorem aside_onComment (b : Builder) (text : String) :
    Continues b (b.onComment text) ∧
      Node.elements (b.onComment text).siblings = Node.elements b.siblings := by
  unfold onComment
  split
  · exact ⟨.refl b, rfl⟩
  · rename_i o outer hstack
    refine aside_of_added hstack ?_
    simp [Node.element?]

/-- Events that are no tags add no elements. -/
theorem aside_step (b : Builder) (template : String) {event : Markup.Event}
    (h : event.isTag = false) :
    Continues b (step s template b event) ∧
      Node.elements (step s template b event).siblings = Node.elements b.siblings := by
  cases event with
  | start tag attrs unary span => cases h
  | stop tag span => cases h
  | text t span => exact aside_onText b template t
  | comment t span => exact aside_onComment b t
  | warning w => exact ⟨.of_built rfl rfl rfl, rfl⟩

end

end Builder

end ViewTree.Template
