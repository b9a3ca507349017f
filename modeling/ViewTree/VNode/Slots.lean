import ViewTree.VNode.Basic
/-!
# Distributing slot content

The children of a placeholder are grouped into named slots. A slot name counts only on nodes
that the placeholder's own context rendered; everything else is the default slot. A slot that
holds nothing but blanks and comments is dropped.
-/

namespace ViewTree

/-- The bag without a `slot` attribute. -/
def DataBag.withoutSlotAttr {ν : Type} (bag : DataBag ν) : DataBag ν :=
  { bag with attrs := bag.attrs.erase "slot" }

namespace VNode

/-- The node without a `slot` attribute. -/
def withoutSlotAttr : VNode → VNode
  | element tag (some data) children ns context =>
    element tag (some data.withoutSlotAttr) children ns context
  | component c => component { c with data := c.data.withoutSlotAttr }
  | v => v

/-- The slot that the node names for itself. -/
def slotName? (v : VNode) : Option String :=
  v.data?.bind (·.slot)

/-- The slot that a node goes to, and the nodes that go there: a named `template` gives its
children. -/
def slotEntry (context : Option Uid) (v : VNode) : String × List VNode :=
  let node := v.withoutSlotAttr
  match v.slotName? with
  | some name =>
    if v.context? = context then
      (name, if node.tag? = some "template" then node.children else [node])
    else ("default", [node])
  | none => ("default", [node])

/-- The children grouped by slot, in their order. -/
def groupSlots (children : List VNode) (context : Option Uid) : Dict (List VNode) :=
  children.foldl
    (fun slots v =>
      let (name, nodes) := v.slotEntry context
      slots.upsert name [] (· ++ nodes))
    []

/-- The slots that show something. -/
def resolveSlots (children : List VNode) (context : Option Uid) : Dict (List VNode) :=
  (groupSlots children context).filter fun slot => !slot.2.all isWhitespace

end VNode

end ViewTree
