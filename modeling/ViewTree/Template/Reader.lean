import ViewTree.Template.Describe
/-!
# Reading templates from values

The tree of a template can be read back from the form in which it is handed out. What is missing
is unset; a name that is not given as written is the plain one, and an element that is read back
is never one that closed itself.
-/

namespace ViewTree.Template

/-- A text field. -/
def stringField? (v : Value) (key : String) : Option String :=
  (v.field? key).bind Value.string?

/-- The items of a list field. -/
def itemsField (v : Value) (key : String) : List Value :=
  ((v.field? key).bind Value.items?).getD []

/-- A field that is true. -/
def flagField (v : Value) (key : String) : Bool :=
  ((v.field? key).bind Value.bool?).getD false

/-- The span of a field, if it has one. -/
def spanField? (v : Value) : Option Markup.Span := do
  let span ← v.field? "span"
  let start ← (span.field? "start").bind Value.nat?
  let stop ← (span.field? "end").bind Value.nat?
  some ⟨start, stop⟩

/-- An attribute. -/
def Attribute.read (v : Value) : Attribute :=
  let name := (stringField? v "name").getD ""
  { name
    value := stringField? v "value"
    kind := .ofName ((stringField? v "kind").getD "")
    arg := stringField? v "arg"
    modifiers := (itemsField v "modifiers").filterMap Value.string?
    rawName := (stringField? v "raw_name").getD name
    span := spanField? v }

/-- The extras of an element. -/
def readExtras (v : Value) : Dict String :=
  (((v.field? "module_data").bind Value.fields?).getD []).filterMap fun e =>
    e.2.string?.map fun s => (e.1, s)

/-- A node, read to a depth. -/
def readNode : Nat → Value → Node
  | 0, _ => .text ""
  | fuel + 1, v =>
    let content := (v.field? "node").getD .null
    let text := content.string?.getD ""
    match stringField? v "type" with
    | some "element" =>
      .element
        { tag := (stringField? content "tag").getD ""
          attrs := (itemsField content "attrs").map Attribute.read
          children := (itemsField content "children").map (readNode fuel)
          selfClosing := false
          ns := stringField? content "ns"
          extras := readExtras content
          isStatic := flagField content "static"
          staticRoot := flagField content "static_root"
          span := spanField? content }
    | some "interpolation" => .interpolation text
    | some "comment" => .comment text
    | _ => .text text

end ViewTree.Template
