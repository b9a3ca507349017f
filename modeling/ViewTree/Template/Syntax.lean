import ViewTree.Dict
import ViewTree.Markup.Event
import ViewTree.Text.Blank
/-!
# Templates

A template is a tree of elements, texts, interpolated expressions and comments. An attribute is
plain, a binding, an event handler or a directive.
-/

namespace ViewTree.Template

/-- What an attribute is for. -/
inductive AttrKind where
  | plain
  | bind
  | on
  | directive
deriving DecidableEq

/-- An attribute. `name` is the name of the attribute, bound property, event or directive;
`rawName` is the name as it is written. An empty value is none. -/
structure Attribute where
  name : String
  value : Option String
  kind : AttrKind
  arg : Option String
  modifiers : List String
  rawName : String
  span : Option Markup.Span
deriving DecidableEq

namespace Attribute

/-- The value, or the empty text. -/
def valueText (a : Attribute) : String :=
  a.value.getD ""

/-- A modifier is given. -/
def hasModifier (a : Attribute) (modifier : String) : Bool :=
  a.modifiers.contains modifier

/-- The attribute as it is written, for diagnostics. -/
def raw (a : Attribute) : String :=
  match a.value with
  | some v => a.rawName ++ "=\"" ++ v ++ "\""
  | none => a.rawName

/-- The attribute is of this kind and name. -/
def isNamed (kind : AttrKind) (name : String) (a : Attribute) : Bool :=
  a.kind == kind && a.name == name

end Attribute

/-- An element with children of type `ν`. `extras` holds what extensions took out of the
attributes. A static root is rendered once and then reused. -/
structure ElementOf (ν : Type) where
  tag : String
  attrs : List Attribute
  children : List ν
  selfClosing : Bool
  ns : Option String
  extras : Dict String
  isStatic : Bool
  staticRoot : Bool
  span : Option Markup.Span

/-- A node of a template. -/
inductive Node where
  | element (e : ElementOf Node)
  | text (t : String)
  | interpolation (expr : String)
  | comment (t : String)

/-- An element of a template. -/
abbrev Element := ElementOf Node

namespace ElementOf

variable {ν : Type}

/-- The first attribute of a kind and name. -/
def attr? (e : ElementOf ν) (kind : AttrKind) (name : String) : Option Attribute :=
  e.attrs.find? (·.isNamed kind name)

/-- The directive of a name. -/
def directive? (e : ElementOf ν) (name : String) : Option Attribute :=
  e.attr? .directive name

/-- The directive of a name is given. -/
def hasDirective (e : ElementOf ν) (name : String) : Bool :=
  (e.directive? name).isSome

/-- The plain attribute of a name. -/
def plainAttr? (e : ElementOf ν) (name : String) : Option Attribute :=
  e.attr? .plain name

/-- The binding of a name. -/
def binding? (e : ElementOf ν) (name : String) : Option Attribute :=
  e.attr? .bind name

/-- The first attribute of a kind and name, and the element without it. -/
def takeAttr? (e : ElementOf ν) (kind : AttrKind) (name : String) :
    Option (Attribute × ElementOf ν) :=
  (e.attr? kind name).map fun a =>
    (a, { e with attrs := e.attrs.eraseP (·.isNamed kind name) })

/-- The element is a further branch of a condition. -/
def isBranch (e : ElementOf ν) : Bool :=
  e.hasDirective "else-if" || e.hasDirective "else"

end ElementOf

/-- An element with nothing but its tag. -/
def Element.new (tag : String) : Element :=
  ⟨tag, [], [], false, none, [], false, false, none⟩

namespace Node

/-- The element that a node is. -/
def element? : Node → Option Element
  | element e => some e
  | _ => none

/-- A text of blanks only. -/
def isBlankText : Node → Bool
  | text t => Text.allBlank t
  | _ => false

end Node

/-- Something to tell the author of a template: an error, or a mere tip. -/
structure Diagnostic where
  message : String
  isTip : Bool
deriving DecidableEq

/-- An error. -/
def Diagnostic.error (message : String) : Diagnostic :=
  ⟨message, false⟩

/-- A tip. -/
def Diagnostic.tip (message : String) : Diagnostic :=
  ⟨message, true⟩

end ViewTree.Template
