import ViewTree.Proofs.Template.Building
import ViewTree.Proofs.Template.Emission
import ViewTree.Template.Static
/-!
# Which parts are static

A part of a template is constant if nothing in it is read from the state. Marking goes over the tree
twice, from the leaves up for static elements and from the roots down for static roots; what it
gives is told for every element by the elements around it and inside it (`marks_of_occurs`).
-/

namespace ViewTree.Template

/-! ## Places in a tree -/

/-- A node is another one or stands somewhere inside it. -/
inductive Node.Inside (n : Node) : Node → Prop
  | self : Inside n n
  | child {m : Node} {e : Element} (hm : m ∈ e.children) (h : Inside n m) : Inside n (.element e)

/-- An element stands among the roots or inside them. The elements around it come with it, the
innermost first. -/
inductive Occurs (roots : List Node) : List Element → Element → Prop
  | root {e : Element} (he : .element e ∈ roots) : Occurs roots [] e
  | child {up : List Element} {d e : Element} (h : Occurs roots up d) (he : .element e ∈ d.children) :
      Occurs roots (d :: up) e

theorem exists_occurs_of_inside {roots : List Node} {n : Node} {e : Element}
    (h : Node.Inside (.element e) n) (hn : ∀ d, n = .element d → ∃ up, Occurs roots up d) :
    ∃ up, Occurs roots up e := by
  induction h with
  | self => exact hn e rfl
  | child hm _ ih =>
    obtain ⟨up, hup⟩ := hn _ rfl
    exact ih fun d hd => ⟨_, hup.child (hd ▸ hm)⟩

/-! ## Constant parts -/

/-- Nothing about the element itself is read from the state: a tag of the platform, plain attributes
without a key, and extras that do not keep an element from being static. -/
structure Plain (s : Settings) (e : Element) : Prop where
  reserved : s.isReservedTag e.tag
  tag : e.tag ≠ "slot" ∧ e.tag ≠ "component"
  attrs : ∀ a ∈ e.attrs, a.kind = .plain ∧ a.name ≠ "key"
  extras : ∀ key ∈ e.extras.keys, s.isStaticKey key

/-- All elements in the node are plain, and there is no interpolation in it. -/
structure Node.Constant (s : Settings) (n : Node) : Prop where
  plain : ∀ e, Inside (.element e) n → Plain s e
  silent : ∀ expr, ¬ Inside (.interpolation expr) n

section

variable {s : Settings}

theorem isPlainElement_iff (inLoop : Bool) (e : Element) :
    isPlainElement s inLoop e ↔ inLoop = false ∧ Plain s e := by
  simp only [isPlainElement, Bool.and_eq_true, Bool.not_eq_true', bne_iff_ne, ne_eq, beq_iff_eq,
    List.all_eq_true]
  constructor
  · rintro ⟨⟨⟨⟨⟨hloop, hslot⟩, hcomponent⟩, hreserved⟩, hattrs⟩, hextras⟩
    exact ⟨hloop, hreserved, ⟨hslot, hcomponent⟩, hattrs, hextras⟩
  · rintro ⟨hloop, hreserved, ⟨hslot, hcomponent⟩, hattrs, hextras⟩
    exact ⟨⟨⟨⟨⟨hloop, hslot⟩, hcomponent⟩, hreserved⟩, hattrs⟩, hextras⟩

/-- A plain element has nothing but plain attributes. -/
theorem Plain.attr?_eq_none {e : Element} (h : Plain s e) {kind : AttrKind} (hkind : kind ≠ .plain)
    (name : String) : e.attr? kind name = none := by
  rw [ElementOf.attr?, List.find?_eq_none]
  intro a ha
  simp [Attribute.isNamed, (h.attrs a ha).1, hkind.symm]

theorem Plain.hasDirective_eq_false {e : Element} (h : Plain s e) (name : String) :
    e.hasDirective name = false := by
  have hnone : e.directive? name = none := h.attr?_eq_none (by decide) name
  simp [ElementOf.hasDirective, hnone]

namespace Node

theorem constant_element_iff (e : Element) :
    (element e).Constant s ↔ Plain s e ∧ ∀ n ∈ e.children, n.Constant s := by
  constructor
  · intro h
    refine ⟨h.plain e .self, fun n hn => ⟨fun d hd => ?_, fun expr hexpr => ?_⟩⟩
    · exact h.plain d (.child hn hd)
    · exact h.silent expr (.child hn hexpr)
  · rintro ⟨he, hchildren⟩
    refine ⟨fun d hd => ?_, fun expr hexpr => ?_⟩
    · cases hd with
      | self => exact he
      | child hm hd => exact (hchildren _ hm).plain d hd
    · cases hexpr with
      | child hm hexpr => exact (hchildren _ hm).silent expr hexpr

theorem constant_text (t : String) : (text t).Constant s :=
  ⟨(fun _ h => nomatch h), (fun _ h => nomatch h)⟩

theorem constant_comment (t : String) : (comment t).Constant s :=
  ⟨(fun _ h => nomatch h), (fun _ h => nomatch h)⟩

theorem not_constant_interpolation (expr : String) : ¬ (interpolation expr).Constant s :=
  fun h => h.silent expr .self

end Node

/-! ## Marking an element -/

namespace ElementOf

/-- The element with its static parts marked. -/
def marked (s : Settings) (inLoop : Bool) (e : Element) : Element :=
  let inLoop := inLoop || e.hasDirective "for"
  let children := e.children.map (Node.markStatic s inLoop)
  { e with children, isStatic := isPlainElement s inLoop e && children.all Node.isStatic }

/-- The element with the static roots in it marked. -/
def rooted (e : Element) : Element :=
  if e.isStatic && Node.worthHoisting e.children then { e with staticRoot := true }
  else
    { e with
      children := e.children.map Node.markRoots
      staticRoot := if e.isStatic then false else e.staticRoot }

end ElementOf

theorem markStatic_element (inLoop : Bool) (e : Element) :
    Node.markStatic s inLoop (.element e) = .element (e.marked s inLoop) := by
  cases e
  simp only [Node.markStatic, markStaticAll_eq_map, ElementOf.marked]

theorem markRoots_element (e : Element) : Node.markRoots (.element e) = .element e.rooted := by
  cases e
  simp only [Node.markRoots, markRootsAll_eq_map, ElementOf.rooted]
  split <;> rfl

/-- Marking changes neither what an element is by itself nor what its children are. -/
theorem constant_element_congr {e e' : Element} (htag : e'.tag = e.tag)
    (hattrs : e'.attrs = e.attrs) (hextras : e'.extras = e.extras) {f : Node → Node}
    (hchildren : e'.children = e.children.map f)
    (hf : ∀ n ∈ e.children, (f n).Constant s ↔ n.Constant s) :
    (Node.element e').Constant s ↔ (Node.element e).Constant s := by
  have hplain : Plain s e' ↔ Plain s e := by
    constructor
    · rintro ⟨h1, h2, h3, h4⟩
      exact ⟨htag ▸ h1, htag ▸ h2, hattrs ▸ h3, hextras ▸ h4⟩
    · rintro ⟨h1, h2, h3, h4⟩
      exact ⟨htag ▸ h1, htag ▸ h2, hattrs ▸ h3, hextras ▸ h4⟩
  rw [Node.constant_element_iff, Node.constant_element_iff, hplain, hchildren, List.forall_mem_map]
  exact and_congr_right fun _ => forall₂_congr hf

theorem constant_markStatic (n : Node) :
    ∀ inLoop, (n.markStatic s inLoop).Constant s ↔ n.Constant s := by
  induction n using Node.induct with
  | text t => exact fun _ => .rfl
  | interpolation expr => exact fun _ => .rfl
  | comment t => exact fun _ => .rfl
  | element e ih =>
    intro inLoop
    rw [markStatic_element]
    exact constant_element_congr rfl rfl rfl rfl fun n hn => ih n hn _

theorem constant_markRoots (n : Node) : n.markRoots.Constant s ↔ n.Constant s := by
  induction n using Node.induct with
  | text t => rfl
  | interpolation expr => rfl
  | comment t => rfl
  | element e ih =>
    rw [markRoots_element, ElementOf.rooted]
    split
    · exact constant_element_congr (f := id) rfl rfl rfl (List.map_id _).symm fun _ _ => .rfl
    · exact constant_element_congr rfl rfl rfl rfl ih

/-- The induction is on the tree: a node is marked static from its own part and the marks of its
children. -/
theorem isStatic_markStatic (n : Node) : ∀ inLoop,
    (n.markStatic s inLoop).isStatic ↔ n.Constant s ∧ (n.element? = none ∨ inLoop = false) := by
  induction n using Node.induct with
  | text t => simp [Node.markStatic, Node.isStatic, Node.constant_text, Node.element?]
  | interpolation expr =>
    simp [Node.markStatic, Node.isStatic, Node.not_constant_interpolation]
  | comment t => simp [Node.markStatic, Node.isStatic, Node.constant_comment, Node.element?]
  | element e ih =>
    intro inLoop
    rw [markStatic_element, Node.constant_element_iff]
    simp only [Node.isStatic, ElementOf.marked, Bool.and_eq_true, isPlainElement_iff,
      List.all_eq_true, List.forall_mem_map, Node.element?, reduceCtorEq, false_or]
    constructor
    · rintro ⟨⟨hloop, hplain⟩, hchildren⟩
      refine ⟨⟨hplain, fun n hn => ?_⟩, ?_⟩
      · exact ((ih n hn _).1 (hchildren n hn)).1
      · exact (Bool.or_eq_false_iff.1 hloop).1
    · rintro ⟨⟨hplain, hchildren⟩, rfl⟩
      have hloop : (false || e.hasDirective "for") = false := hplain.hasDirective_eq_false "for"
      rw [hloop]
      exact ⟨⟨rfl, hplain⟩, fun n hn => (ih n hn _).2 ⟨hchildren n hn, .inr rfl⟩⟩

/-! ## The marks of an element -/

theorem worthHoisting_iff (children : List Node) :
    Node.worthHoisting children ↔ children ≠ [] ∧ ∀ t, children ≠ [.text t] := by
  rcases children with _ | ⟨_ | _ | _ | _, _ | _⟩ <;> simp [Node.worthHoisting]

theorem worthHoisting_markRoots (children : List Node) :
    Node.worthHoisting (children.map Node.markRoots) = Node.worthHoisting children := by
  rcases children with _ | ⟨e | _ | _ | _, _ | _⟩
  case cons.element.nil => simp [markRoots_element, Node.worthHoisting]
  all_goals simp [Node.markRoots, Node.worthHoisting]

@[simp] theorem isStatic_rooted (e : Element) : e.rooted.isStatic = e.isStatic := by
  unfold ElementOf.rooted
  split <;> rfl

/-- An element that is no static root yet becomes one if it is static and worth it. -/
theorem staticRoot_rooted {e : Element} (h : e.staticRoot = false) :
    e.rooted.staticRoot ↔ e.isStatic ∧ e.rooted.children ≠ [] ∧
      ∀ t, e.rooted.children ≠ [.text t] := by
  rw [← worthHoisting_iff]
  unfold ElementOf.rooted
  split
  · rename_i hworth
    simpa using hworth
  · rename_i hworth
    simpa [h, worthHoisting_markRoots] using hworth

/-! ## Elements of a marked tree -/

@[simp] theorem hasDirective_marked (inLoop : Bool) (e : Element) (name : String) :
    (e.marked s inLoop).hasDirective name = e.hasDirective name :=
  rfl

@[simp] theorem hasDirective_rooted (e : Element) (name : String) :
    e.rooted.hasDirective name = e.hasDirective name := by
  unfold ElementOf.rooted
  split <;> rfl

theorem exists_of_mem_markStatic {inLoop : Bool} {nodes : List Node} {e : Element}
    (h : .element e ∈ nodes.map (Node.markStatic s inLoop)) :
    ∃ d, .element d ∈ nodes ∧ e = d.marked s inLoop := by
  obtain ⟨n, hn, hmark⟩ := List.mem_map.1 h
  cases n with
  | element d =>
    rw [markStatic_element] at hmark
    exact ⟨d, hn, (Node.element.inj hmark).symm⟩
  | text t => cases hmark
  | interpolation expr => cases hmark
  | comment t => cases hmark

theorem exists_of_mem_markRoots {nodes : List Node} {e : Element}
    (h : .element e ∈ nodes.map Node.markRoots) : ∃ d, .element d ∈ nodes ∧ e = d.rooted := by
  obtain ⟨n, hn, hmark⟩ := List.mem_map.1 h
  cases n with
  | element d =>
    rw [markRoots_element] at hmark
    exact ⟨d, hn, (Node.element.inj hmark).symm⟩
  | text t => cases hmark
  | interpolation expr => cases hmark
  | comment t => cases hmark

/-- The children of a static root are left as they are, and all others are marked in turn. -/
theorem exists_of_mem_rooted {d e : Element} (hd : d.staticRoot = false)
    (h : .element e ∈ d.rooted.children) :
    d.rooted.staticRoot ∧ .element e ∈ d.children ∨
      d.rooted.staticRoot = false ∧ ∃ c, .element c ∈ d.children ∧ e = c.rooted := by
  unfold ElementOf.rooted at h ⊢
  by_cases hworth : d.isStatic && Node.worthHoisting d.children
  · rw [if_pos hworth] at h ⊢
    exact .inl ⟨rfl, h⟩
  · rw [if_neg hworth] at h ⊢
    exact .inr ⟨by simp [hd], exists_of_mem_markRoots h⟩

end

/-- No element is a static root yet. -/
abbrev Unrooted : List Node → Prop :=
  Each fun e => e.staticRoot = false

/-- One of the elements has a loop. -/
def anyLoop (up : List Element) : Bool :=
  up.any (·.hasDirective "for")

/-- An element of a marked tree is an element of the tree before, marked twice unless it is inside a
static root, where only the first marking goes. -/
theorem exists_of_occurs_optimize {s : Settings} {roots : List Node} (hroots : Unrooted roots)
    {up : List Element} {e : Element} (h : Occurs (optimize s roots) up e) :
    ∃ d : Element, d.staticRoot = false ∧ Unrooted d.children ∧
      ((∀ a ∈ up, a.staticRoot = false) ∧ e = (d.marked s (anyLoop up)).rooted ∨
        (∃ a ∈ up, a.staticRoot) ∧ e = d.marked s (anyLoop up)) := by
  induction h with
  | root he =>
    rw [optimize, ← Function.comp_def, ← List.map_map] at he
    obtain ⟨m, hm, rfl⟩ := exists_of_mem_markRoots he
    obtain ⟨d, hd, rfl⟩ := exists_of_mem_markStatic hm
    exact ⟨d, hroots.here d hd, hroots.inside hd, .inl ⟨by simp, rfl⟩⟩
  | @child up a e _ he ih =>
    obtain ⟨d, hd, hchildren, hcase⟩ := ih
    -- A child of `d` is marked as one inside the elements around it and `d` itself.
    have hmarked {e : Element} (he : .element e ∈ (d.marked s (anyLoop up)).children)
        (ha : a.hasDirective "for" = d.hasDirective "for") :
        ∃ c, .element c ∈ d.children ∧ e = c.marked s (anyLoop (a :: up)) := by
      have hloop : anyLoop (a :: up) = (anyLoop up || d.hasDirective "for") := by
        rw [← ha, Bool.or_comm]
        rfl
      rw [hloop]
      exact exists_of_mem_markStatic he
    have hd' : (d.marked s (anyLoop up)).staticRoot = false := hd
    rcases hcase with ⟨hup, rfl⟩ | ⟨⟨b, hb, hroot⟩, rfl⟩
    · rcases exists_of_mem_rooted hd' he with ⟨hroot, he⟩ | ⟨hroot, m, hm, rfl⟩
      · obtain ⟨c, hc, rfl⟩ := hmarked he (by simp)
        refine ⟨c, hchildren.here c hc, hchildren.inside hc, .inr ⟨?_, rfl⟩⟩
        exact ⟨_, List.mem_cons_self, hroot⟩
      · obtain ⟨c, hc, rfl⟩ := hmarked hm (by simp)
        refine ⟨c, hchildren.here c hc, hchildren.inside hc, .inl ⟨?_, rfl⟩⟩
        exact List.forall_mem_cons.2 ⟨hroot, hup⟩
    · obtain ⟨c, hc, rfl⟩ := hmarked he (by simp)
      refine ⟨c, hchildren.here c hc, hchildren.inside hc, .inr ⟨?_, rfl⟩⟩
      exact ⟨b, List.mem_cons_of_mem _ hb, hroot⟩

/-- What the marks of an element say about the elements around it and inside it. -/
structure Marks (s : Settings) (up : List Element) (e : Element) : Prop where
  isStatic : e.isStatic ↔
    (∀ a ∈ e :: up, a.hasDirective "for" = false) ∧ (Node.element e).Constant s
  staticRoot : e.staticRoot ↔
    e.isStatic ∧ (∀ a ∈ up, a.staticRoot = false) ∧ e.children ≠ [] ∧ ∀ t, e.children ≠ [.text t]

theorem isStatic_marked {s : Settings} (up : List Element) (d : Element) :
    (d.marked s (anyLoop up)).isStatic ↔
      (∀ a ∈ up, a.hasDirective "for" = false) ∧ (Node.element d).Constant s := by
  have hmarked := isStatic_markStatic (s := s) (.element d) (anyLoop up)
  rw [markStatic_element] at hmarked
  simpa [Node.isStatic, Node.element?, anyLoop, and_comm] using hmarked

theorem marks_of_occurs {s : Settings} {roots : List Node} (hroots : Unrooted roots)
    {up : List Element} {e : Element} (h : Occurs (optimize s roots) up e) : Marks s up e := by
  -- An element with a loop is not constant, so only the loops around it are left to be said.
  have hown (hloops : ∀ a ∈ up, a.hasDirective "for" = false) (he : (Node.element e).Constant s) :
      ∀ a ∈ e :: up, a.hasDirective "for" = false :=
    List.forall_mem_cons.2 ⟨(he.plain e .self).hasDirective_eq_false "for", hloops⟩
  have hstatic (hmarked : e.isStatic ↔
      (∀ a ∈ up, a.hasDirective "for" = false) ∧ (Node.element e).Constant s) : e.isStatic ↔
      (∀ a ∈ e :: up, a.hasDirective "for" = false) ∧ (Node.element e).Constant s := by
    rw [hmarked]
    exact ⟨fun ⟨hloops, he⟩ => ⟨hown hloops he, he⟩,
      fun ⟨hloops, he⟩ => ⟨(List.forall_mem_cons.1 hloops).2, he⟩⟩
  obtain ⟨d, hd, _, ⟨hup, rfl⟩ | ⟨⟨a, ha, hroot⟩, rfl⟩⟩ := exists_of_occurs_optimize hroots h
  · have hd' : (d.marked s (anyLoop up)).staticRoot = false := hd
    refine ⟨hstatic ?_, ?_⟩
    · rw [isStatic_rooted, isStatic_marked, ← markRoots_element, constant_markRoots,
        ← markStatic_element, constant_markStatic]
    · rw [staticRoot_rooted hd', isStatic_rooted]
      exact and_congr_right fun _ => (and_iff_right hup).symm
  · refine ⟨hstatic ?_, ?_⟩
    · rw [isStatic_marked, ← markStatic_element, constant_markStatic]
    · refine iff_of_false ?_ ?_
      · simp [ElementOf.marked, hd]
      · rintro ⟨_, hup, _⟩
        simp [hup a ha] at hroot

end ViewTree.Template
