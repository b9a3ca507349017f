import ViewTree.Text.Quoted
import ViewTree.VNode.Basic
/-!
# The diagnostic form of a data bag

A warning about a data bag shows all of it on one line: every field by name, absent ones as
`None`, texts in quotes, listeners and slots by what they are.
-/

namespace ViewTree

namespace DebugText

/-- Items between brackets. -/
def list (items : List String) : String :=
  "[" ++ ", ".intercalate items ++ "]"

/-- Entries between braces. -/
def map (entries : List (String × String)) : String :=
  "\x7b" ++ ", ".intercalate (entries.map fun e => Text.quoted e.1 ++ ": " ++ e.2) ++ "\x7d"

/-- An optional part. -/
def option {α : Type} (show? : α → String) : Option α → String
  | some a => "Some(" ++ show? a ++ ")"
  | none => "None"

/-- Named fields between braces after the name of what they belong to. -/
def fields (name : String) (entries : List (String × String)) : String :=
  name ++ " \x7b " ++ ", ".intercalate (entries.map fun e => e.1 ++ ": " ++ e.2) ++ " \x7d"

mutual

/-- A value with the name of its kind. -/
def value : Value → String
  | .null => "Null"
  | .bool b => "Bool(" ++ (if b then "true" else "false") ++ ")"
  | .number n => "Number(" ++ n.text ++ ")"
  | .string s => "String(" ++ Text.quoted s ++ ")"
  | .array items => "Array " ++ list (values items)
  | .object entries => "Object " ++ map (valueEntries entries)

/-- The items of a list. -/
def values : List Value → List String
  | [] => []
  | v :: vs => value v :: values vs

/-- The entries of an object. -/
def valueEntries : List (String × Value) → List (String × String)
  | [] => []
  | (k, v) :: rest => (k, value v) :: valueEntries rest

end

/-- A component by its number. -/
def component (c : ComponentRef) : String :=
  s!"CtorRef(cid={c.cid})"

/-- What a tag asks for. -/
def tag : TagRef → String
  | .html t => "Html(" ++ Text.quoted t ++ ")"
  | .component c => "Component(" ++ component c ++ ")"
  | .dynamic v => "Dynamic(" ++ value v ++ ")"

/-- Entries with a value each. -/
def valueMap (d : Dict Value) : String :=
  map (d.map fun e => (e.1, value e.2))

/-- Listeners by event. -/
def listenerMap (d : Dict (List Listener)) : String :=
  map (d.map fun e => (e.1, list (e.2.map fun _ => "Listener")))

/-- A directive. -/
def directive (d : DirectiveUse) : String :=
  fields "VNodeDirective"
    [("name", Text.quoted d.name), ("value", option value d.value),
      ("expression", option Text.quoted d.expression), ("arg", option Text.quoted d.arg),
      ("modifiers", list (d.modifiers.map Text.quoted))]

end DebugText

open DebugText in
/-- The diagnostic form of a data bag. -/
def DataBag.debug {ν : Type} (d : DataBag ν) : String :=
  fields "VNodeData"
    [("key", option value d.key), ("is", option tag d.is), ("slot", option Text.quoted d.slot),
      ("reference", option Text.quoted d.reference), ("attrs", valueMap d.attrs),
      ("dom_props", valueMap d.domProps), ("static_class", option Text.quoted d.staticClass),
      ("class", option value d.classBinding), ("static_style", option Text.quoted d.staticStyle),
      ("style", option value d.styleBinding), ("on", listenerMap d.on),
      ("native_on", listenerMap d.nativeOn), ("directives", list (d.directives.map directive)),
      ("scoped_slots", map (d.scopedSlots.map fun e => (e.1, "ScopedSlot"))),
      ("observed", if d.observed then "true" else "false")]

end ViewTree
