import ViewTree.VNode.Basic
/-!
# Namespaces

A namespace goes down the tree to every element that has none yet. Below a `foreignObject` there
is no namespace, and this is forced on every descendant but nested `svg` elements.
-/

namespace ViewTree.VNode

/-- A child takes the namespace handed down: it has none of its own, or must give it up. -/
def takesNs (force : Bool) (v : VNode) : Bool :=
  match v.tag? with
  | none => false
  | some tag => v.ns?.isNone || (force && tag != "svg")

mutual

/-- The node with the namespace assigned to it and handed down. -/
def applyNs (ns : Option String) (force : Bool) : VNode → VNode
  | component c => component { c with ns := ns }
  | element tag data children _ context =>
    if tag = "foreignObject" then
      element tag data (applyNsAll none true children) ns context
    else element tag data (applyNsAll ns force children) ns context
  | text t => text t
  | comment t => comment t

/-- The children with the namespace handed down to them. -/
def applyNsAll (ns : Option String) (force : Bool) : List VNode → List VNode
  | [] => []
  | v :: vs =>
    (if v.takesNs force then applyNs ns force v else v) :: applyNsAll ns force vs

end

end ViewTree.VNode
