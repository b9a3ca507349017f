import ViewTree.Text.Blank
import ViewTree.Value.Printer
/-!
# Virtual nodes

A render pass builds a tree of nodes: elements, placeholders of child components, texts and
comments. What hangs on an element or placeholder besides its children is its data bag.
-/

namespace ViewTree

/-- The number of a component instance. -/
abbrev Uid := Nat

/-- Names introduced by loops and event handlers, innermost first. -/
abbrev Scope := List (String × Value)

namespace Scope

/-- The scope without local names. -/
def root : Scope := []

/-- The scope with one more name inside. -/
def bind (s : Scope) (name : String) (value : Value) : Scope :=
  (name, value) :: s

/-- The innermost value of a name. -/
def lookup (s : Scope) (name : String) : Option Value :=
  (s.find? fun frame => frame.1 == name).map (·.2)

end Scope

/-- How many nodes an inline functional component renders. -/
inductive FunctionalForm where
  | node
  | many
  | nothing
deriving DecidableEq

/-- A component that is declared where it is used and has no definition of its own. -/
structure InlineComponent where
  cid : Nat
  name : Option String
  props : List String
  functional : Option FunctionalForm

/-- The component that a tag or placeholder stands for: a definition, by its number, or an
inline one. -/
inductive ComponentRef where
  | definition (cid : Nat)
  | inline (c : InlineComponent)

/-- The number of the component. -/
def ComponentRef.cid : ComponentRef → Nat
  | definition cid => cid
  | inline c => c.cid

/-- What a render call asks for: a tag name, a component, or a value that has yet to be
resolved to a tag. -/
inductive TagRef where
  | html (tag : String)
  | component (c : ComponentRef)
  | dynamic (v : Value)

/-- What happens on an event: nothing, the application's listener of that label, or the handler
that a template wrote, run in the scope and instance it was rendered in. Every rendering of a
handler makes a listener of its own, with a number of its own. -/
inductive Listener where
  | silent
  | labelled (label : String)
  | handler (serial : Nat) (owner : Uid) (scope : Scope) (source : String)

/-- Listeners are told apart by their label or number. -/
def Listener.same : Listener → Listener → Bool
  | silent, silent => true
  | labelled a, labelled b => a == b
  | handler a _ _ _, handler b _ _ _ => a == b
  | _, _ => false

/-- A directive attached to a node. -/
structure DirectiveUse where
  name : String
  value : Option Value
  expression : Option String
  arg : Option String
  modifiers : List String

/-- A part of scoped slot content: a node, or the place that shows the slot's props. -/
inductive SlotPart (ν : Type) where
  | node (v : ν)
  | props

/-- Everything about a node but its tag and children. -/
structure DataBag (ν : Type) where
  key : Option Value
  is : Option TagRef
  slot : Option String
  reference : Option String
  attrs : Dict Value
  domProps : Dict Value
  staticClass : Option String
  classBinding : Option Value
  staticStyle : Option String
  styleBinding : Option Value
  on : Dict (List Listener)
  nativeOn : Dict (List Listener)
  directives : List DirectiveUse
  scopedSlots : List (String × List (SlotPart ν))
  observed : Bool

/-- The bag with nothing in it. -/
def DataBag.empty {ν : Type} : DataBag ν :=
  ⟨none, none, none, none, [], [], none, none, none, none, [], [], [], [], false⟩

/-- The place of a child component at its use. -/
structure Placeholder (ν : Type) where
  tag : String
  ctor : ComponentRef
  data : DataBag ν
  ns : Option String
  context : Option Uid
  props : Dict Value
  listeners : Dict (List Listener)
  children : List ν
  componentTag : Option String

/-- A virtual node. `context` is the instance that rendered it. -/
inductive VNode where
  | element (tag : String) (data : Option (DataBag VNode)) (children : List VNode)
      (ns : Option String) (context : Option Uid)
  | component (c : Placeholder VNode)
  | text (t : String)
  | comment (t : String)

/-- Scoped slot content. -/
abbrev ScopedSlot := List (SlotPart VNode)

namespace VNode

/-- The node that shows nothing: an empty comment. -/
def empty : VNode :=
  comment ""

/-- An empty comment. -/
def isEmpty : VNode → Bool
  | comment t => t == ""
  | _ => false

/-- The tag of an element or placeholder. -/
def tag? : VNode → Option String
  | element tag _ _ _ _ => some tag
  | component c => some c.tag
  | _ => none

/-- The namespace. -/
def ns? : VNode → Option String
  | element _ _ _ ns _ => ns
  | component c => c.ns
  | _ => none

/-- The data bag. -/
def data? : VNode → Option (DataBag VNode)
  | element _ data _ _ _ => data
  | component c => some c.data
  | _ => none

/-- The children of an element, or the slot content of a placeholder. -/
def children : VNode → List VNode
  | element _ _ children _ _ => children
  | component c => c.children
  | _ => []

/-- The instance that rendered the node. -/
def context? : VNode → Option Uid
  | element _ _ _ _ context => context
  | component c => c.context
  | _ => none

/-- The content of a text node. -/
def text? : VNode → Option String
  | text t => some t
  | _ => none

/-- A blank text or a comment. -/
def isWhitespace : VNode → Bool
  | text t => Text.allBlank t
  | comment _ => true
  | _ => false

end VNode

/-- What a slot shows for the props it is given. -/
def ScopedSlot.render (slot : ScopedSlot) (props : Value) : List VNode :=
  slot.map fun part =>
    match part with
    | .node v => v
    | .props => .text props.display

/-- A child as it is handed to the element factory. -/
inductive Child where
  | node (v : VNode)
  | text (t : String)
  | list (items : List Child)
  | slot (s : ScopedSlot)
  | empty

/-- What a render function gives. -/
inductive Rendered where
  | node (v : VNode)
  | many (vs : List VNode)

namespace Rendered

/-- Nothing to show. -/
def empty : Rendered :=
  node VNode.empty

/-- A single empty node. -/
def isEmpty : Rendered → Bool
  | node v => v.isEmpty
  | many _ => false

/-- The single node. -/
def node? : Rendered → Option VNode
  | node v => some v
  | many _ => none

/-- The nodes in order. -/
def nodes : Rendered → List VNode
  | node v => [v]
  | many vs => vs

/-- The result of a nested render call as a child. -/
def toChild : Rendered → Child
  | node v => .node v
  | many vs => .list (vs.map .node)

end Rendered

namespace Child

/-- Nodes as one child. -/
def ofNodes (vs : List VNode) : Child :=
  list (vs.map node)

mutual

/-- The child that shows a value: null and truth values show nothing, a list its items. -/
def ofValue : Value → Child
  | .null => empty
  | .bool _ => empty
  | .string s => text s
  | .number n => text n.text
  | .array items => list (ofItems items)
  | .object fields => text (Value.object fields).display

/-- The children that show the items of a list. -/
def ofItems : List Value → List Child
  | [] => []
  | v :: vs => ofValue v :: ofItems vs

end

/-- How a double given as a child is written: never with an exponent or an idle point. -/
def doubleLayout : Decimal.Layout :=
  ⟨none, false⟩

/-- The child that shows a number. -/
def ofNumber : Number → Child
  | .int n => text (Number.int n).text
  | .double d => text (doubleLayout.write d)

end Child

end ViewTree
