import ViewTree.Template.Compiler
import ViewTree.Value.Basic
/-!
# Templates as values

The form in which a template's tree and a compilation are handed out. The fields of an object
stand in the order in which they are declared; what is unset or empty is mostly left out.
-/

namespace ViewTree.Template

/-- A part of a text. -/
def describeSpan (span : Markup.Span) : Value :=
  .object [("start", .nat span.start), ("end", .nat span.stop)]

/-- A field that is there when it is set. -/
def field? {α : Type} (key : String) (f : α → Value) : Option α → List (String × Value)
  | some a => [(key, f a)]
  | none => []

/-- The name of a kind of attribute. -/
def AttrKind.name : AttrKind → String
  | plain => "Static"
  | bind => "Bind"
  | on => "On"
  | directive => "Directive"

/-- The kind of a name. -/
def AttrKind.ofName (name : String) : AttrKind :=
  match name with
  | "Bind" => bind
  | "On" => on
  | "Directive" => directive
  | _ => plain

/-- An attribute. -/
def Attribute.describe (a : Attribute) : Value :=
  .object
    ([("name", .string a.name), ("value", .optString a.value), ("kind", .string a.kind.name)] ++
      field? "arg" .string a.arg ++
      (if a.modifiers.isEmpty then [] else [("modifiers", .strings a.modifiers)]) ++
      [("raw_name", .string a.rawName)] ++
      field? "span" describeSpan a.span)

namespace Node

/-- A node of a type. -/
def typed (type : String) (node : Value) : Value :=
  .object [("type", .string type), ("node", node)]

mutual

/-- A node. -/
def describe : Node → Value
  | element ⟨tag, attrs, children, selfClosing, ns, extras, isStatic, staticRoot, span⟩ =>
    typed "element" (.object
      ([("tag", .string tag), ("attrs", .array (attrs.map Attribute.describe)),
          ("children", .array (describeAll children)), ("self_closing", .bool selfClosing)] ++
        field? "ns" .string ns ++
        (if extras.isEmpty then []
          else [("module_data", .object (extras.map fun e => (e.1, Value.string e.2)))]) ++
        [("static", .bool isStatic), ("static_root", .bool staticRoot)] ++
        field? "span" describeSpan span))
  | text t => typed "text" (.string t)
  | interpolation e => typed "interpolation" (.string e)
  | comment t => typed "comment" (.string t)

/-- Nodes in order. -/
def describeAll : List Node → List Value
  | [] => []
  | n :: ns => describe n :: describeAll ns

end

/-- Nodes as a list. -/
def describeList (ns : List Node) : Value :=
  .array (describeAll ns)

end Node

/-- A compiled template with its errors and tips. -/
def CompiledResult.describe (r : CompiledResult) : Value :=
  .object
    [("ast", Node.describeList r.template.ast), ("render", .string r.template.render),
      ("static_render_fns", .strings r.template.staticRenderFns),
      ("errors", .strings r.errors), ("tips", .strings r.tips)]

end ViewTree.Template
