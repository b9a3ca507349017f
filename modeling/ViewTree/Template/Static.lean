import ViewTree.Template.Settings
/-!
# Static parts

An element is static when nothing in it can change between two renders. The outermost static
elements that are worth it become static roots.
-/

namespace ViewTree.Template

/-- Nothing about the element itself, its children aside, depends on the state. -/
def isPlainElement (s : Settings) (inLoop : Bool) (e : Element) : Bool :=
  !inLoop && e.tag != "slot" && e.tag != "component" && s.isReservedTag e.tag &&
    e.attrs.all (fun a => a.kind == .plain && a.name != "key") &&
    e.extras.keys.all s.isStaticKey

namespace Node

/-- A node that is the same in every render, once its elements are marked. -/
def isStatic : Node → Bool
  | element e => e.isStatic
  | text _ => true
  | comment _ => true
  | interpolation _ => false

mutual

/-- Marks the static elements of a node, where `inLoop` tells that it is inside a loop. -/
def markStatic (s : Settings) (inLoop : Bool) : Node → Node
  | element ⟨tag, attrs, children, selfClosing, ns, extras, isStatic, staticRoot, span⟩ =>
    let e : Element :=
      ⟨tag, attrs, children, selfClosing, ns, extras, isStatic, staticRoot, span⟩
    let inLoop := inLoop || e.hasDirective "for"
    let marked := markStaticAll s inLoop children
    element { e with
      children := marked
      isStatic := isPlainElement s inLoop e && marked.all Node.isStatic }
  | n => n

/-- Marks the static elements of several nodes. -/
def markStaticAll (s : Settings) (inLoop : Bool) : List Node → List Node
  | [] => []
  | n :: ns => markStatic s inLoop n :: markStaticAll s inLoop ns

end

/-- The children of a static element are worth a tree of their own: they are neither missing nor a
single text. -/
def worthHoisting : List Node → Bool
  | [] => false
  | [text _] => false
  | _ => true

mutual

/-- Marks the outermost static elements that are worth it as static roots. -/
def markRoots : Node → Node
  | element ⟨tag, attrs, children, selfClosing, ns, extras, isStatic, staticRoot, span⟩ =>
    if isStatic && worthHoisting children then
      element ⟨tag, attrs, children, selfClosing, ns, extras, isStatic, true, span⟩
    else
      element ⟨tag, attrs, markRootsAll children, selfClosing, ns, extras, isStatic,
        if isStatic then false else staticRoot, span⟩
  | n => n

/-- Marks static roots in several nodes. -/
def markRootsAll : List Node → List Node
  | [] => []
  | n :: ns => markRoots n :: markRootsAll ns

end

end Node

/-- Nodes are marked one by one. -/
theorem markStaticAll_eq_map (s : Settings) (inLoop : Bool) (ns : List Node) :
    Node.markStaticAll s inLoop ns = ns.map (Node.markStatic s inLoop) := by
  induction ns with
  | nil => rfl
  | cons n ns ih => rw [Node.markStaticAll, ih, List.map_cons]

theorem markRootsAll_eq_map (ns : List Node) : Node.markRootsAll ns = ns.map Node.markRoots := by
  induction ns with
  | nil => rfl
  | cons n ns ih => rw [Node.markRootsAll, ih, List.map_cons]

/-- The roots with their static parts marked. -/
def optimize (s : Settings) (roots : List Node) : List Node :=
  roots.map fun n => (n.markStatic s false).markRoots

end ViewTree.Template
