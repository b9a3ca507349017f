import ViewTree.Proofs.Template.Marking
import ViewTree.Template.Attribute
/-!
# How attributes are spelt

Bindings, listeners and slots have a short spelling and a long one. Both give the same attribute but
for the name as it is written (`classify_sameSpelling`). `Node.unspelt` takes that name and the
place of every attribute off a tree: neither marking static parts (`optimize_unspelt`) nor
generating code (`generateCode_unspelt`) looks at them.
-/

namespace ViewTree.Template

/-- A name of an attribute as it stands, or its short spelling and its long one. -/
inductive SameSpelling : String → String → Prop
  | same (name : String) : SameSpelling name name
  | bind (name : String) : SameSpelling (":" ++ name) ("v-bind:" ++ name)
  | on (name : String) : SameSpelling ("@" ++ name) ("v-on:" ++ name)
  | slot (name : String) : SameSpelling ("#" ++ name) ("v-slot:" ++ name)

/-- The attribute without the name as it is written and without its place. -/
def Attribute.unspelt (a : Attribute) : Attribute :=
  { a with rawName := "", span := none }

namespace Node

mutual

/-- The node with its attributes, at any depth, without the names as they are written and without
their places. -/
def unspelt : Node → Node
  | element ⟨tag, attrs, children, selfClosing, ns, extras, isStatic, staticRoot, span⟩ =>
    element ⟨tag, attrs.map Attribute.unspelt, unspeltAll children, selfClosing, ns, extras,
      isStatic, staticRoot, span⟩
  | n => n

/-- The nodes with their attributes without the names as they are written and without their
places. -/
def unspeltAll : List Node → List Node
  | [] => []
  | n :: ns => unspelt n :: unspeltAll ns

end

theorem unspeltAll_eq_map (ns : List Node) : unspeltAll ns = ns.map unspelt := by
  induction ns with
  | nil => rfl
  | cons n ns ih => rw [unspeltAll, ih, List.map_cons]

end Node

/-- The element with its attributes, at any depth, without the names as they are written and without
their places. -/
def ElementOf.unspelt (e : Element) : Element :=
  { e with attrs := e.attrs.map Attribute.unspelt, children := e.children.map Node.unspelt }

/-! ## Names -/

/-- What the first piece of a text is put behind makes that piece longer, unless it is split
itself. -/
theorem splitOnChar_append (sep : Char) (cs : List Char) :
    ∃ piece pieces, ∀ front, sep ∉ front →
      Text.splitOnChar sep (front ++ cs) = (front ++ piece) :: pieces := by
  have hfront (piece : List Char) (pieces : List (List Char))
      (h : Text.splitOnChar sep cs = piece :: pieces) (front : List Char) (hsep : sep ∉ front) :
      Text.splitOnChar sep (front ++ cs) = (front ++ piece) :: pieces := by
    induction front with
    | nil => exact h
    | cons c front ih =>
      rw [List.mem_cons, not_or] at hsep
      rw [List.cons_append, Text.splitOnChar, if_neg (Ne.symm hsep.1), ih hsep.2]
      rfl
  cases hcs : Text.splitOnChar sep cs with
  | cons piece pieces => exact ⟨piece, pieces, hfront piece pieces hcs⟩
  | nil =>
    cases cs with
    | nil => cases hcs
    | cons c cs =>
      rw [Text.splitOnChar] at hcs
      split at hcs
      · cases hcs
      · split at hcs
        · cases hcs
        · cases hcs

theorem classifyBase_bind (name : List Char) :
    Attribute.classifyBase (':' :: name) = (.bind, String.ofList name, none) ∧
      Attribute.classifyBase ("v-bind:".toList ++ name) = (.bind, String.ofList name, none) := by
  constructor
  · simp [Attribute.classifyBase, Text.stripStart?]
  · simp [Attribute.classifyBase, Text.stripStart?]

theorem classifyBase_on (name : List Char) :
    Attribute.classifyBase ('@' :: name) = (.on, String.ofList name, none) ∧
      Attribute.classifyBase ("v-on:".toList ++ name) = (.on, String.ofList name, none) := by
  constructor
  · simp [Attribute.classifyBase, Text.stripStart?]
  · simp [Attribute.classifyBase, Text.stripStart?]

theorem classifyBase_slot (name : List Char) :
    Attribute.classifyBase ('#' :: name) = (.directive, "slot", some (String.ofList name)) ∧
      Attribute.classifyBase ("v-slot:".toList ++ name) =
        (.directive, "slot", some (String.ofList name)) := by
  constructor
  · simp [Attribute.classifyBase, Text.stripStart?]
  · have hslot : Text.splitAt? [':'] ("slot:".toList ++ name) = some ("slot".toList, name) :=
      Text.splitAt?_char.2 ⟨rfl, by decide⟩
    have hname : Attribute.directiveName (String.ofList "slot".toList) = "slot" := by decide
    have hdrop : ("v-slot:".toList ++ name).drop 2 = "slot:".toList ++ name := rfl
    unfold Attribute.classifyBase
    dsimp only
    rw [hdrop, hslot]
    exact congrArg (fun n => (AttrKind.directive, n, some (String.ofList name))) hname

/-- Fronts that are read the same in front of any name give the same attribute. -/
theorem classify_front {front front' : String} (name value : String)
    (span span' : Option Markup.Span) (hdynamic : Attribute.isDynamic (front ++ name))
    (hdynamic' : Attribute.isDynamic (front' ++ name))
    (hdot : '.' ∉ front.toList) (hdot' : '.' ∉ front'.toList)
    (hbase : ∀ piece, Attribute.classifyBase (front.toList ++ piece) =
      Attribute.classifyBase (front'.toList ++ piece)) :
    (Attribute.classify (front ++ name) value span).unspelt =
      (Attribute.classify (front' ++ name) value span').unspelt := by
  obtain ⟨piece, modifiers, hsplit⟩ := splitOnChar_append '.' name.toList
  unfold Attribute.classify
  rw [if_pos hdynamic, if_pos hdynamic', String.toList_append, String.toList_append,
    hsplit _ hdot, hsplit _ hdot']
  dsimp only
  rw [hbase piece]
  rfl

/-- The two spellings of a name give the same attribute, wherever they stand. -/
theorem classify_sameSpelling {short long : String} (h : SameSpelling short long) (value : String)
    (span span' : Option Markup.Span) :
    (Attribute.classify short value span).unspelt =
      (Attribute.classify long value span').unspelt := by
  cases h with
  | same name =>
    unfold Attribute.classify
    split
    · split
      · rfl
      · rfl
    · rfl
  | bind name =>
    refine classify_front name value span span' ?_ ?_ (by decide) (by decide) fun piece => ?_
    · simp [Attribute.isDynamic]
    · simp [Attribute.isDynamic]
    · exact (classifyBase_bind piece).1.trans (classifyBase_bind piece).2.symm
  | on name =>
    refine classify_front name value span span' ?_ ?_ (by decide) (by decide) fun piece => ?_
    · simp [Attribute.isDynamic]
    · simp [Attribute.isDynamic]
    · exact (classifyBase_on piece).1.trans (classifyBase_on piece).2.symm
  | slot name =>
    refine classify_front name value span span' ?_ ?_ (by decide) (by decide) fun piece => ?_
    · simp [Attribute.isDynamic]
    · simp [Attribute.isDynamic]
    · exact (classifyBase_slot piece).1.trans (classifyBase_slot piece).2.symm

/-! ## Nodes -/

section

variable (s : Settings) (e : Element)

theorem unspelt_element : (Node.element e).unspelt = .element e.unspelt := by
  cases e
  rw [Node.unspelt, Node.unspeltAll_eq_map]
  rfl

theorem attr?_unspelt (kind : AttrKind) (name : String) :
    e.unspelt.attr? kind name = (e.attr? kind name).map Attribute.unspelt :=
  List.find?_map ..

theorem directive?_unspelt (name : String) :
    e.unspelt.directive? name = (e.directive? name).map Attribute.unspelt :=
  attr?_unspelt e .directive name

theorem binding?_unspelt (name : String) :
    e.unspelt.binding? name = (e.binding? name).map Attribute.unspelt :=
  attr?_unspelt e .bind name

theorem plainAttr?_unspelt (name : String) :
    e.unspelt.plainAttr? name = (e.plainAttr? name).map Attribute.unspelt :=
  attr?_unspelt e .plain name

theorem hasDirective_unspelt (name : String) :
    e.unspelt.hasDirective name = e.hasDirective name := by
  rw [ElementOf.hasDirective, directive?_unspelt, Option.isSome_map, ElementOf.hasDirective]

theorem isBranch_unspelt : e.unspelt.isBranch = e.isBranch := by
  rw [ElementOf.isBranch, hasDirective_unspelt, hasDirective_unspelt, ElementOf.isBranch]

theorem element?_unspelt (n : Node) : n.unspelt.element? = n.element?.map ElementOf.unspelt := by
  cases n with
  | element e => rw [unspelt_element]; rfl
  | text t => rfl
  | interpolation expr => rfl
  | comment t => rfl

/-! ## Static parts -/

theorem isPlainElement_unspelt (inLoop : Bool) :
    isPlainElement s inLoop e.unspelt = isPlainElement s inLoop e := by
  unfold isPlainElement
  simp only [ElementOf.unspelt, List.all_map]
  rfl

theorem isStatic_unspelt (n : Node) : n.unspelt.isStatic = n.isStatic := by
  cases n with
  | element e => rw [unspelt_element]; rfl
  | text t => rfl
  | interpolation expr => rfl
  | comment t => rfl

theorem worthHoisting_unspelt (children : List Node) :
    Node.worthHoisting (children.map Node.unspelt) = Node.worthHoisting children := by
  rcases children with _ | ⟨e | _ | _ | _, _ | _⟩
  case cons.element.nil => simp [unspelt_element, Node.worthHoisting]
  all_goals simp [Node.unspelt, Node.worthHoisting]

theorem markStatic_unspelt (n : Node) : ∀ inLoop,
    n.unspelt.markStatic s inLoop = (n.markStatic s inLoop).unspelt := by
  induction n using Node.induct with
  | text t => exact fun _ => rfl
  | interpolation expr => exact fun _ => rfl
  | comment t => exact fun _ => rfl
  | element e ih =>
    intro inLoop
    have hchildren (inLoop : Bool) : e.unspelt.children.map (Node.markStatic s inLoop) =
        (e.children.map (Node.markStatic s inLoop)).map Node.unspelt := by
      simp only [ElementOf.unspelt, List.map_map]
      exact List.map_congr_left fun n hn => ih n hn inLoop
    rw [unspelt_element, markStatic_element, markStatic_element, unspelt_element]
    unfold ElementOf.marked
    dsimp only
    rw [hchildren, hasDirective_unspelt, isPlainElement_unspelt, List.all_map]
    simp only [Function.comp_def, isStatic_unspelt]
    rfl

theorem markRoots_unspelt (n : Node) : n.unspelt.markRoots = n.markRoots.unspelt := by
  induction n using Node.induct with
  | text t => rfl
  | interpolation expr => rfl
  | comment t => rfl
  | element e ih =>
    have hchildren : e.unspelt.children.map Node.markRoots =
        (e.children.map Node.markRoots).map Node.unspelt := by
      simp only [ElementOf.unspelt, List.map_map]
      exact List.map_congr_left ih
    rw [unspelt_element, markRoots_element, markRoots_element, unspelt_element]
    have hworth : Node.worthHoisting e.unspelt.children = Node.worthHoisting e.children :=
      worthHoisting_unspelt e.children
    have hstatic : e.unspelt.isStatic = e.isStatic := rfl
    unfold ElementOf.rooted
    rw [hchildren, hworth, hstatic]
    split
    · rfl
    · rfl

/-- The same parts are static in every spelling. -/
theorem optimize_unspelt (roots : List Node) :
    optimize s (roots.map Node.unspelt) = (optimize s roots).map Node.unspelt := by
  unfold optimize
  rw [List.map_map, List.map_map]
  refine List.map_congr_left fun n _ => ?_
  rw [Function.comp_apply, Function.comp_apply, markStatic_unspelt, markRoots_unspelt]

/-! ## Code -/

theorem namedSetter_unspelt (method : String) (arg : Code → Code) (a : Option Attribute) :
    namedSetter method arg (a.map Attribute.unspelt) = namedSetter method arg a := by
  cases a with
  | none => rfl
  | some a => rfl

theorem keyCode_unspelt : keyCode e.unspelt = keyCode e := by
  unfold keyCode
  rw [binding?_unspelt, plainAttr?_unspelt, namedSetter_unspelt]
  cases e.binding? "key" with
  | none => rfl
  | some a => rfl

theorem directiveCode_unspelt (a : Attribute) :
    directiveCode .base e.unspelt a.unspelt = directiveCode .base e a := by
  have hname : a.unspelt.name = a.name := rfl
  unfold directiveCode
  rw [hname]
  cases hrule : Settings.base.directives.get? a.name with
  | none => rfl
  | some rule => obtain ⟨-, rfl⟩ | ⟨-, rfl⟩ | ⟨-, rfl⟩ := get?_base_directives hrule <;> rfl

theorem attributeCode_unspelt (a : Attribute) :
    attributeCode s e.unspelt a.unspelt = attributeCode s e a := by
  have htype : (e.unspelt.plainAttr? "type").map Attribute.valueText =
      (e.plainAttr? "type").map Attribute.valueText := by
    rw [plainAttr?_unspelt, Option.map_map]
    rfl
  unfold attributeCode
  rw [htype]
  rfl

theorem dataCode_unspelt : dataCode .base e.unspelt = dataCode .base e := by
  have hattrs (f g : Attribute → Code) (h : ∀ a, f a.unspelt = g a) :
      e.unspelt.attrs.flatMap f = e.attrs.flatMap g := by
    simp only [ElementOf.unspelt, List.flatMap_map, h]
  unfold dataCode
  rw [keyCode_unspelt, plainAttr?_unspelt, plainAttr?_unspelt, namedSetter_unspelt,
    namedSetter_unspelt, hattrs _ _ (directiveCode_unspelt e),
    hattrs _ _ (attributeCode_unspelt .base e)]
  rfl

theorem tagCode_unspelt : tagCode e.unspelt = tagCode e := by
  unfold tagCode
  rw [binding?_unspelt, plainAttr?_unspelt]
  cases e.binding? "is" with
  | some a => rfl
  | none =>
    cases e.plainAttr? "is" with
    | some a => rfl
    | none => rfl

theorem mayBeMany_unspelt (n : Node) : n.unspelt.mayBeMany = n.mayBeMany := by
  cases n with
  | element e =>
    rw [unspelt_element, Node.mayBeMany, hasDirective_unspelt]
    rfl
  | text t => rfl
  | interpolation expr => rfl
  | comment t => rfl

theorem elementCode_unspelt (codes : List Code) :
    elementCode .base e.unspelt codes = elementCode .base e codes := by
  have hname : ((e.unspelt.plainAttr? "name").map Attribute.valueText) =
      (e.plainAttr? "name").map Attribute.valueText := by
    rw [plainAttr?_unspelt, Option.map_map]
    rfl
  have hmode : normalizationCode e.unspelt.children = normalizationCode e.children := by
    simp only [normalizationCode, ElementOf.unspelt, List.any_map, Function.comp_def,
      mayBeMany_unspelt]
  unfold elementCode
  rw [hname, hmode, tagCode_unspelt, dataCode_unspelt]
  rfl

theorem guardCode_unspelt (body : Code) : guardCode e.unspelt body = guardCode e body := by
  unfold guardCode
  rw [directive?_unspelt]
  cases e.directive? "if" with
  | none => rfl
  | some a => rfl

theorem wrapCode_unspelt (inChain : Bool) (codes : List Code) :
    wrapCode .base inChain e.unspelt codes = wrapCode .base inChain e codes := by
  rw [wrapCode, elementCode_unspelt, guardCode_unspelt, wrapCode]

theorem loopLayer_unspelt (body : Generator Code) :
    loopLayer s e.unspelt body = loopLayer s e body := by
  unfold loopLayer
  rw [directive?_unspelt]
  cases e.directive? "for" with
  | none => rfl
  | some a =>
    rw [binding?_unspelt, Option.isNone_map]
    rfl

theorem condition?_unspelt :
    OpenChain.condition? e.unspelt = (OpenChain.condition? e).map Attribute.unspelt := by
  unfold OpenChain.condition?
  rw [directive?_unspelt, directive?_unspelt]
  cases e.directive? "if" with
  | none => rfl
  | some a => rfl

theorem start_unspelt (body : Code) : OpenChain.start e.unspelt body = OpenChain.start e body := by
  unfold OpenChain.start
  rw [condition?_unspelt, hasDirective_unspelt]
  cases OpenChain.condition? e with
  | none => rfl
  | some a => rfl

theorem join_unspelt (c : OpenChain) (body : Code) : c.join e.unspelt body = c.join e body := by
  unfold OpenChain.join
  rw [condition?_unspelt, hasDirective_unspelt]
  cases OpenChain.condition? e with
  | none => rfl
  | some a => rfl

theorem startsChain_unspelt : startsChain e.unspelt = startsChain e := by
  rw [startsChain, hasDirective_unspelt, hasDirective_unspelt, startsChain]

theorem nodesCode_unspelt {nodes : List Node}
    (h : ∀ n ∈ nodes, ∀ inChain, nodeCode .base inChain n.unspelt = nodeCode .base inChain n)
    (chain : Option OpenChain) :
    nodesCode .base chain (nodes.map Node.unspelt) = nodesCode .base chain nodes := by
  induction nodes generalizing chain with
  | nil => rfl
  | cons n rest ih =>
    have hn := h n List.mem_cons_self
    have hrest := ih fun n hn => h n (List.mem_cons_of_mem _ hn)
    rw [List.map_cons]
    unfold nodesCode
    simp only [element?_unspelt, hn, hrest]
    cases n.element? with
    | none => rfl
    | some e =>
      cases chain with
      | none =>
        simp only [Option.map_some, startsChain_unspelt, start_unspelt]
      | some c =>
        simp only [Option.map_some, startsChain_unspelt, isBranch_unspelt, start_unspelt,
          join_unspelt]

theorem nodeCode_unspelt (n : Node) :
    ∀ inChain, nodeCode .base inChain n.unspelt = nodeCode .base inChain n := by
  induction n using Node.induct with
  | text t => exact fun _ => rfl
  | interpolation expr => exact fun _ => rfl
  | comment t => exact fun _ => rfl
  | element e ih =>
    intro inChain
    have hcodes : nodesCode .base none e.unspelt.children = nodesCode .base none e.children :=
      nodesCode_unspelt ih none
    rw [unspelt_element, nodeCode_element, nodeCode_element, hcodes, loopLayer_unspelt]
    simp only [wrapCode_unspelt]
    rfl

/-- The same code is generated for every spelling. -/
theorem generateCode_unspelt (roots : List Node) :
    generateCode .base (roots.map Node.unspelt) = generateCode .base roots := by
  unfold generateCode
  rw [nodesCode_unspelt fun n _ => nodeCode_unspelt n]

end

end ViewTree.Template
