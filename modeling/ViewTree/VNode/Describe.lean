import ViewTree.VNode.Basic
/-!
# Nodes as values

The form in which nodes, data bags and what render functions give are handed out: objects whose
fields are named for the parts. A bag leaves out what is unset or empty; listeners are counted,
and scoped slots are listed by name.
-/

namespace ViewTree

/-- An object of fields in any order. -/
def Value.record (fields : List (String × Value)) : Value :=
  .object (Dict.ofList fields)

/-- How many listeners each event has. -/
def listenerCounts (listeners : Dict (List Listener)) : Value :=
  .object (listeners.map fun e => (e.1, .nat e.2.length))

/-- A tag: its name, the number of the component, or the value that is yet to be resolved. -/
def TagRef.describe : TagRef → Value
  | html t => .string t
  | component c => .record [("cid", .nat c.cid)]
  | dynamic v => .record [("dynamic", v)]

/-- A directive with all its parts. -/
def DirectiveUse.describe (d : DirectiveUse) : Value :=
  .record
    [("name", .string d.name), ("value", d.value.getD .null),
      ("expression", .optString d.expression), ("arg", .optString d.arg),
      ("modifiers", .strings d.modifiers)]

namespace DataBag

/-- A field that is there when it is set. -/
def setField (key : String) (v : Option Value) : List (String × Value) :=
  v.toList.map fun v => (key, v)

/-- A field that is there when it has entries. -/
def entriesField {α : Type} (key : String) (entries : List α) (v : Value) :
    List (String × Value) :=
  if entries.isEmpty then [] else [(key, v)]

/-- The fields of a bag that are set. -/
def describe {ν : Type} (bag : DataBag ν) : Value :=
  .record
    (setField "key" bag.key ++
      setField "is" (bag.is.map TagRef.describe) ++
      setField "slot" (bag.slot.map Value.string) ++
      setField "ref" (bag.reference.map Value.string) ++
      entriesField "attrs" bag.attrs (.object bag.attrs) ++
      entriesField "dom_props" bag.domProps (.object bag.domProps) ++
      setField "static_class" (bag.staticClass.map Value.string) ++
      setField "class" bag.classBinding ++
      setField "static_style" (bag.staticStyle.map Value.string) ++
      setField "style" bag.styleBinding ++
      entriesField "on" bag.on (listenerCounts bag.on) ++
      entriesField "native_on" bag.nativeOn (listenerCounts bag.nativeOn) ++
      entriesField "directives" bag.directives
        (.array (bag.directives.map DirectiveUse.describe)) ++
      entriesField "scoped_slots" bag.scopedSlots (.strings (bag.scopedSlots.map (·.1))) ++
      (if bag.observed then [("observed", .bool true)] else []))

/-- A bag, or null when there is none. -/
def describe? {ν : Type} : Option (DataBag ν) → Value
  | some bag => bag.describe
  | none => .null

end DataBag

namespace VNode

mutual

/-- A node with all its parts. -/
def describe : VNode → Value
  | element tag data children ns context =>
    .record
      [("t", .string "el"), ("tag", .string tag), ("data", DataBag.describe? data),
        ("children", .array (describeAll children)), ("ns", .optString ns),
        ("context", .optNat context)]
  | component ⟨tag, ctor, data, ns, context, props, listeners, children, componentTag⟩ =>
    .record
      [("t", .string "component"), ("tag", .string tag), ("cid", .nat ctor.cid),
        ("data", data.describe), ("ns", .optString ns), ("context", .optNat context),
        ("props", .object props), ("listeners", listenerCounts listeners),
        ("children", .array (describeAll children)), ("component_tag", .optString componentTag)]
  | text t => .record [("t", .string "text"), ("text", .string t)]
  | comment t => .record [("t", .string "comment"), ("text", .string t)]

/-- Nodes in order. -/
def describeAll : List VNode → List Value
  | [] => []
  | v :: vs => describe v :: describeAll vs

end

/-- Nodes as a list. -/
def describeList (vs : List VNode) : Value :=
  .array (describeAll vs)

/-- The node, or null when there is none. -/
def describe? : Option VNode → Value
  | some v => v.describe
  | none => .null

end VNode

namespace Child

mutual

/-- A child: a node, a text, a list, or what shows nothing by itself. -/
def describe : Child → Value
  | node v => .record [("node", v.describe)]
  | text t => .record [("text", .string t)]
  | list items => .record [("list", .array (describeAll items))]
  | slot _ => .string "slot"
  | empty => .string "empty"

/-- Children in order. -/
def describeAll : List Child → List Value
  | [] => []
  | c :: cs => describe c :: describeAll cs

end

end Child

/-- What a render function gave: one node or many. -/
def Rendered.describe : Rendered → Value
  | node v => .record [("node", v.describe)]
  | many vs => .record [("many", VNode.describeList vs)]

end ViewTree
