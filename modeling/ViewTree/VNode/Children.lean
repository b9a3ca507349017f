import ViewTree.VNode.Basic
/-!
# Normalizing children

Children may be nested lists; a node's children are a flat list of nodes. Compiled templates
flatten one level, hand-written render functions flatten all levels, drop empty texts and merge
adjacent ones.
-/

namespace ViewTree

/-- How the element factory treats the children it receives. -/
inductive Normalization where
  | none
  | simple
  | always
deriving DecidableEq

namespace Child

mutual

/-- The nodes of a child, nesting spliced in place. -/
def nodes : Child → List VNode
  | node v => [v]
  | text t => [.text t]
  | list items => nodesAll items
  | slot _ => []
  | empty => []

/-- The nodes of several children in order. -/
def nodesAll : List Child → List VNode
  | [] => []
  | c :: cs => nodes c ++ nodesAll cs

end

/-- The items of a list child, or the child itself. -/
def spread : Child → List Child
  | list items => items
  | c => [c]

/-- Flattens the one level of nesting that compiled render code produces. -/
def simplified (children : List Child) : List VNode :=
  nodesAll (children.flatMap spread)

/-- Adds a text in front of nodes that are already normalized. -/
def pushText (t : String) (after : List VNode) : List VNode :=
  if t = "" then after
  else
    match after with
    | .text u :: rest => .text (t ++ u) :: rest
    | _ => .text t :: after

mutual

/-- The child's nodes in front of nodes that are already normalized. -/
def normalizeInto : Child → List VNode → List VNode
  | node (.text t), after => pushText t after
  | node v, after => v :: after
  | text t, after => pushText t after
  | list items, after => normalizeAllInto items after
  | slot _, after => after
  | empty, after => after

/-- The children's nodes in front of nodes that are already normalized. -/
def normalizeAllInto : List Child → List VNode → List VNode
  | [], after => after
  | c :: cs, after => normalizeInto c (normalizeAllInto cs after)

end

/-- Flattens every level, drops empty texts and merges adjacent ones. -/
def normalized (children : List Child) : List VNode :=
  normalizeAllInto children []

/-- The nodes of the children under a mode. -/
def normalize : Normalization → List Child → List VNode
  | .none => nodesAll
  | .simple => simplified
  | .always => normalized

end Child

end ViewTree
