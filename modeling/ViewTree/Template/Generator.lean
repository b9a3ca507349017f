import ViewTree.Template.Loop
import ViewTree.Template.Settings
/-!
# Generating code

Every node becomes the code of a child. Neighbouring branches of a condition become one choice,
loops are wrapped around what they repeat, and static roots are hoisted into functions of their
own, numbered in the order they are finished.
-/

namespace ViewTree.Template

/-- What is generated besides the code at hand: the bodies of the hoisted functions and the
diagnostics, in order. -/
structure Hoisted where
  bodies : List Code
  diagnostics : List Diagnostic

/-- Generating with hoisted functions and diagnostics on the side. -/
abbrev Generator := StateM Hoisted

/-- Reports a diagnostic. -/
def Generator.report (d : Diagnostic) : Generator Unit :=
  modify fun h => { h with diagnostics := h.diagnostics ++ [d] }

/-- The code of no child. -/
def emptyChild : Code :=
  [.fixed "Child::Empty"]

/-- Directives that shape the tree and are not attached to nodes. -/
def structuralDirectives : List String :=
  ["if", "else-if", "else", "for", "slot", "pre", "once"]

/-- The code that attaches a directive to a node. -/
def runtimeDirective (a : Attribute) : Code :=
  .fixed ".directive(VNodeDirective \x7b name: " :: Code.owned a.name ++
    .fixed ", value: " :: Code.optional (a.value.map Code.binding) ++
    .fixed ", expression: " :: Code.optional (a.value.map Code.owned) ++
    .fixed ", arg: " :: Code.optional (a.arg.map Code.owned) ++
    .fixed ", modifiers: " :: Code.list (a.modifiers.map Code.owned) ++
    [.fixed " \x7d)"]

/-- A builder call on a data bag. -/
def setter (method : String) (args : List Code) : Code :=
  Code.call ("." ++ method) args

/-- The code of an attribute with a meaning of its own, if the element has it. -/
def namedSetter (method : String) (arg : Code → Code) (a : Option Attribute) : Code :=
  match a with
  | some a => setter method [arg [.literal a.valueText]]
  | none => []

/-- The code of an element's key; a bound one comes first. -/
def keyCode (e : Element) : Code :=
  match e.binding? "key" with
  | some a => setter "key" [Code.binding a.valueText]
  | none => namedSetter "key" (fun v => Code.call "Value::from" [v]) (e.plainAttr? "key")

/-- The code of a directive. -/
def directiveCode (s : Settings) (e : Element) (a : Attribute) : Code :=
  if a.kind == .directive && !structuralDirectives.contains a.name then
    match s.directives.get? a.name with
    | some rule =>
      let code := rule e a
      code.data ++ if code.needsRuntime then runtimeDirective a else []
    | none => runtimeDirective a
  else []

/-- Attributes that have a place of their own in the data bag. -/
def isOwnPlace (e : Element) (name : String) : Bool :=
  name == "key" || name == "ref" || name == "slot" || (e.tag == "component" && name == "is")

/-- The code of an attribute, a binding or an event handler. -/
def attributeCode (s : Settings) (e : Element) (a : Attribute) : Code :=
  let name : Code := [.literal a.name]
  match a.kind with
  | .plain => if isOwnPlace e a.name then [] else setter "set" [name, [.literal a.valueText]]
  | .bind =>
    if isOwnPlace e a.name then []
    else
      let type := (e.plainAttr? "type").map Attribute.valueText
      let method :=
        if a.hasModifier "prop" || s.mustUseProp e.tag type a.name then "dom_prop" else "bind"
      setter method [name, Code.binding a.valueText]
  | .on =>
    setter (if a.hasModifier "native" then "native_on" else "on")
      [name, [.listener a.valueText]]
  | .directive => []

/-- The code of the data bag. -/
def dataCode (s : Settings) (e : Element) : Code :=
  .fixed "VNodeData::new()" :: keyCode e ++
    namedSetter "reference" id (e.plainAttr? "ref") ++
    namedSetter "slot" id (e.plainAttr? "slot") ++
    e.attrs.flatMap (directiveCode s e) ++
    s.extensions.flatMap (·.data e) ++
    e.attrs.flatMap (attributeCode s e)

/-- The code of the tag. The tag of a dynamic component is its `is`. -/
def tagCode (e : Element) : Code :=
  if e.tag == "component" then
    match e.binding? "is", e.plainAttr? "is" with
    | some is, _ => Code.call "TagRef::Dynamic" [Code.binding is.valueText]
    | none, some is => [.literal is.valueText]
    | none, none => [.literal e.tag]
  else [.literal e.tag]

/-- A child that may become several nodes. -/
def Node.mayBeMany : Node → Bool
  | .element e => e.hasDirective "for" || e.tag == "template" || e.tag == "slot"
  | _ => false

/-- How the children are to be normalized. -/
def normalizationCode (children : List Node) : Code :=
  [.fixed (if children.any Node.mayBeMany then "Normalization::Simple"
    else "Normalization::None")]

/-- The code of an element with the codes of its children, directives that shape the tree
aside. -/
def elementCode (s : Settings) (e : Element) (children : List Code) : Code :=
  if e.tag == "template" then Code.call "Child::List" [Code.list children]
  else if e.tag == "slot" then
    let name := ((e.plainAttr? "name").map Attribute.valueText).getD "default"
    Code.call "Child::from" [Code.call "vm.render_slot" [[.literal name], Code.list children]]
  else
    Code.call "Child::from"
      [Code.call "vm.c"
        [tagCode e, dataCode s e, Code.list children, normalizationCode e.children]]

/-- A condition with what it guards. -/
def ifCode (condition : String) (body : Code) : Code :=
  .fixed "if is_truthy(&" :: Code.binding condition ++ .fixed ") \x7b " :: body ++
    [.fixed " \x7d"]

/-- The alternative behind conditions. -/
def elseCode (body : Code) : Code :=
  .fixed " else \x7b " :: body ++ [.fixed " \x7d"]

/-- The element's own condition around its body. -/
def guardCode (e : Element) (body : Code) : Code :=
  match e.directive? "if" with
  | some a => ifCode a.valueText body ++ elseCode emptyChild
  | none => body

/-- The name that a loop introduces, and what it stands for. -/
def scopeCode (name : String) (value : String) : Code :=
  setter "with" [[.literal name], [.fixed value]]

/-- A loop around its body. -/
def loopCode (l : LoopExpr) (body : Code) : Code :=
  let key := if l.key.isSome then "key" else "_key"
  let index := if l.index.isSome then "index" else "_index"
  .fixed "Child::List(vm.render_list(&" :: Code.binding l.source ++
    .fixed s!", |item, {key}, {index}| \x7b let scope = scope" ::
    scopeCode l.item "item" ++
    (match l.key with
    | some name => scopeCode name "key"
    | none => []) ++
    (match l.index with
    | some name => scopeCode name "Value::from(index)"
    | none => []) ++
    .fixed "; " :: body ++ [.fixed " \x7d))"]

/-- The element is the use of a component. -/
def isComponentUse (s : Settings) (e : Element) : Bool :=
  e.tag != "slot" && e.tag != "template" && !s.isReservedTag e.tag

/-- The element's own loop around its body, which is not generated for a malformed one. -/
def loopLayer (s : Settings) (e : Element) (body : Generator Code) : Generator Code := do
  match e.directive? "for" with
  | none => body
  | some a =>
    let expr := a.valueText
    match LoopExpr.parse? expr with
    | none =>
      Generator.report (.error ("Invalid v-for expression: " ++ expr))
      pure emptyChild
    | some l =>
      if isComponentUse s e && (e.binding? "key").isNone then
        Generator.report (.tip ("<" ++ e.tag ++ " v-for=\"" ++ expr ++
          "\">: component lists rendered with v-for should have explicit keys."))
      pure (loopCode l (← body))

/-- Hoists the body of a static root. -/
def hoistLayer (e : Element) (body : Generator Code) : Generator Code := do
  if e.staticRoot then
    let code ← body
    let h ← get
    set { h with bodies := h.bodies ++ [code] }
    pure [.hoisted h.bodies.length]
  else body

/-- The code of a condition so far, and whether its last branch is the alternative. -/
structure OpenChain where
  code : Code
  closed : Bool

namespace OpenChain

/-- The code of the whole condition; without an alternative of its own it shows nothing. -/
def finish (c : OpenChain) : Code :=
  if c.closed then c.code else c.code ++ elseCode emptyChild

/-- The codes of a condition that may be open. -/
def finishAll : Option OpenChain → List Code
  | some c => [c.finish]
  | none => []

/-- The condition that a branch has. -/
def condition? (e : Element) : Option Attribute :=
  (e.directive? "if") <|> (e.directive? "else-if")

/-- A condition that begins with an element. -/
def start (e : Element) (body : Code) : OpenChain :=
  match condition? e with
  | some a => ⟨ifCode a.valueText body, e.hasDirective "else"⟩
  | none => ⟨elseCode body, e.hasDirective "else"⟩

/-- The condition with one more branch. -/
def join (c : OpenChain) (e : Element) (body : Code) : OpenChain :=
  match condition? e with
  | some a => ⟨c.code ++ .fixed " else " :: ifCode a.valueText body, e.hasDirective "else"⟩
  | none => ⟨c.code ++ elseCode body, e.hasDirective "else"⟩

end OpenChain

/-- The element begins a condition; a loop around it keeps the condition to itself. -/
def startsChain (e : Element) : Bool :=
  e.hasDirective "if" && !e.hasDirective "for"

mutual

/-- The code of a node. The condition of an element is left out when `inChain` tells that it is
part of a larger one. -/
def nodeCode (s : Settings) (inChain : Bool) : Node → Generator Code
  | .element ⟨tag, attrs, children, selfClosing, ns, extras, isStatic, staticRoot, span⟩ =>
    let e : Element :=
      ⟨tag, attrs, children, selfClosing, ns, extras, isStatic, staticRoot, span⟩
    hoistLayer e (loopLayer s e (do
      let body := elementCode s e (← nodesCode s none children)
      pure (if inChain then body else guardCode e body)))
  | .text t => pure (Code.call "Child::from" [Code.call "text" [[.literal t]]])
  | .interpolation expr =>
    pure (Code.call "Child::from"
      [Code.call "text" [.fixed "vm.to_display(&" :: Code.binding expr ++ [.fixed ")"]]])
  | .comment c =>
    pure (Code.call "Child::from" [Code.call "VNode::Comment" [Code.owned c]])

/-- The codes of nodes, where `chain` is a condition that the nodes in front left open. -/
def nodesCode (s : Settings) (chain : Option OpenChain) : List Node → Generator (List Code)
  | [] => pure (OpenChain.finishAll chain)
  | n :: rest =>
    match n.element?, chain with
    | some e, some c =>
      if e.isBranch then do
        let c := c.join e (← nodeCode s true n)
        if c.closed then do pure (c.finish :: (← nodesCode s none rest))
        else nodesCode s (some c) rest
      else if startsChain e then do
        let next := OpenChain.start e (← nodeCode s true n)
        pure (c.finish :: (← nodesCode s (some next) rest))
      else do
        let code ← nodeCode s false n
        pure (c.finish :: code :: (← nodesCode s none rest))
    | some e, none =>
      if startsChain e then do
        let next := OpenChain.start e (← nodeCode s true n)
        nodesCode s (some next) rest
      else do
        let code ← nodeCode s false n
        pure (code :: (← nodesCode s none rest))
    | none, _ => do
      let code ← nodeCode s false n
      pure (OpenChain.finishAll chain ++ code :: (← nodesCode s none rest))

end

/-- The code of a template: the body of its render function and the bodies of the hoisted ones. -/
structure Generated where
  body : Code
  hoisted : List Code

/-- What is rendered when a template has no root: an empty block. -/
def placeholderCode : Code :=
  Code.call "Child::from"
    [Code.call "vm.c"
      [[.literal "div"], [.fixed "VNodeData::new()"], Code.list [], normalizationCode []]]

/-- The code of the roots. Only the first child is the root of the component. -/
def generateCode (s : Settings) (roots : List Node) : Generated × List Diagnostic :=
  let (codes, h) := (nodesCode s none roots).run ⟨[], []⟩
  (⟨codes.head?.getD placeholderCode, h.bodies⟩, h.diagnostics)

namespace Generated

/-- The render function. -/
def render (g : Generated) : String :=
  Code.text (Code.function "render" g.body)

/-- The hoisted functions. -/
def staticRenderFns (g : Generated) : List String :=
  g.hoisted.mapIdx fun i body => Code.text (Code.function s!"static_render_{i}" body)

end Generated

end ViewTree.Template
