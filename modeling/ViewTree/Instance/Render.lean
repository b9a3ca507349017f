import ViewTree.Component.Definition
import ViewTree.Expr.Arguments
import ViewTree.Instance.State
import ViewTree.VNode.Element
import ViewTree.VNode.Slots
/-!
# What render functions call

A render function runs against its instance: it evaluates expressions in a local scope, lists
what a value holds, fills slots, reuses static trees and builds nodes. The components it uses
are looked up in the instance's options.
-/

namespace ViewTree

/-- The items of a value that a loop runs over, with their keys: a list, an object's values, the
numbers from one, or the characters of a text. -/
def loopItems : Value → List (Value × Value)
  | .array items => items.mapIdx fun i v => (v, .nat i)
  | .object fields => fields.map fun e => (e.2, .string e.1)
  | .number n =>
    (List.range (((Value.number n).nat?).getD 0)).map fun i => (.nat (i + 1), .nat i)
  | .string s => s.toList.mapIdx fun i c => (.string (String.singleton c), .nat i)
  | .null => []
  | .bool _ => []

/-- The root child of a compiled render function as its result. -/
def Child.toRendered : Child → Rendered
  | node v => .node v
  | text t => .node (.text t)
  | empty => .empty
  | slot _ => .empty
  | list items =>
    match normalized items with
    | [] => .empty
    | [v] => .node v
    | vs => .many vs

/-- A call in a handler: the name before the first parenthesis and the text up to the last. -/
def splitCall? (handler : String) : Option (String × String) :=
  match Text.splitAt? ['('] handler.toList with
  | none => none
  | some (name, rest) =>
    let name := Text.trim (String.ofList name)
    match rest.reverse with
    | ')' :: inner =>
      if Name.isIdentifier name then some (name, String.ofList inner.reverse) else none
    | _ => none

namespace Run

/-- Warns of a name that a template uses and the instance does not have. -/
def warnNotPresent (vm : Uid) (key : String) : Run Unit := do
  let i ← inst vm
  if i.data.contains key && Name.isReserved key then
    warn (s!"Property \"{key}\" must be accessed with \"$data.{key}\" because properties " ++
      "starting with \"$\" or \"_\" are not proxied on the instance to prevent conflicts with " ++
      "internals.") (some vm)
  else if !key.startsWith "_" then
    warn (s!"Property or method \"{key}\" is not defined on the instance but referenced during " ++
      "render. Make sure that this property is declared, either in the data option or as a " ++
      "prop.") (some vm)

end Run

namespace Application

variable (app : Application)

/-- The value of a name in a local scope, then in the instance; a missing one is reported. -/
def lookupIn (vm : Uid) (scope : Scope) (name : String) : Run (Option Value) := do
  match scope.lookup name with
  | some v => pure (some v)
  | none =>
    let i ← Run.inst vm
    if name == "$data" then pure (some (.object i.data))
    else if name == "$props" then pure (some (.object i.props))
    else if name == "$attrs" then pure (some (.object i.attrs))
    else
      match ← app.getValue vm name with
      | some v => pure (some v)
      | none =>
        Run.warnNotPresent vm name
        pure none

/-- The value of a template expression; a text that is no expression is reported and null. -/
def resolveIn (vm : Uid) (scope : Scope) (source : String) : Run Value := do
  match Expr.parse source with
  | .ok e => e.evalM (app.lookupIn vm scope)
  | .error err =>
    Run.warn s!"Error in render: invalid expression \"{source}\": {err.message}" (some vm)
    pure .null

/-- The values of a call's arguments in order. -/
def argumentValues (vm : Uid) (scope : Scope) : List String → Run (List Value)
  | [] => pure []
  | arg :: args => do
    let v ← app.resolveIn vm scope (Text.trim arg)
    pure (v :: (← argumentValues vm scope args))

/-- Runs the method that a handler names. -/
def callHandler (vm : Uid) (name : String) (args : List Value) : Run Unit := do
  match (← Run.inst vm).methods.get? name with
  | some method => discard (app.guarded (app.method method vm args) (some vm) "v-on handler")
  | none =>
    Run.warn s!"Invalid handler for event: method \"{name}\" is not defined" (some vm)

/-- Runs a template handler: a method name, which takes the event's arguments, or a call, whose
arguments may use `$event`. -/
def invokeHandler (vm : Uid) (scope : Scope) (handler : String) (args : List Value) :
    Run Unit := do
  let scope := scope.bind "$event" (args.head?.getD .null)
  match splitCall? handler with
  | some (name, source) =>
    let values ← app.argumentValues vm scope (Expr.splitArguments source)
    app.callHandler vm name values
  | none =>
    if Name.isIdentifier handler then app.callHandler vm handler args
    else Run.warn s!"Invalid handler for event: \"{handler}\"" (some vm)

/-- Calls a listener. A template handler whose instance is gone does nothing. -/
def callListener (args : List Value) : Listener → Run Unit
  | .silent => pure ()
  | .labelled label => app.listener label args
  | .handler _ owner scope source => do
    if (← get).alive owner then Run.pinned owner (app.invokeHandler owner scope source args)

/-- A new listener for a template handler. -/
def listenerFor (vm : Uid) (scope : Scope) (source : String) : Run Listener := do
  let serial := (← get).nextListener
  modify fun w => { w with nextListener := serial + 1 }
  pure (.handler serial vm scope (Text.trim source))

/-- Tells the read tracker of a value and everything below it. -/
def markReads : List Value → Run Unit
  | [] => pure ()
  | v :: vs => do
    app.readMark v
    markReads vs

/-- What a functional component renders; its instance exists only while it renders. -/
def renderFunctional (cid : Cid) (call : FunctionalCall) : Run Rendered := do
  let options ← Run.resolveOptions cid
  let uid := (← get).instances.length
  let fresh : Instance :=
    { Instance.fresh cid options with
      propsData := some call.props
      renderChildren := call.children
      slots := VNode.resolveSlots call.children none
      attrs := call.data.attrs
      listeners := call.data.on
      scopedSlots := call.data.scopedSlots }
  modify fun w => { w with instances := w.instances ++ [fresh] }
  Run.pinned uid do
    app.initProps uid
    match options.render with
    | some render => app.render render uid
    | none => pure .empty

/-- The options by which the element factory sees a component. -/
def componentOptions : ComponentRef → Run ComponentOptions
  | .definition cid => Run.resolveOptions cid
  | .inline c =>
    pure { ComponentOptions.empty with
      name := c.name, functional := c.functional.isSome }

/-- The context that an instance is for the element factory. -/
def renderContext (vm : Uid) (i : Instance) : RenderContext Run where
  id := vm
  placeholderNs := i.parentNode.bind (·.ns)
  resolveComponent tag := (Name.resolveAsset i.options.components tag).map .definition
  componentName ctor := do pure (← componentOptions ctor).name
  propNames
    | .definition cid => do pure (← Run.resolveOptions cid).props.keys
    | .inline c => pure c.props
  isFunctional ctor := do pure (← componentOptions ctor).functional
  renderFunctional ctor call :=
    match ctor with
    | .definition cid => do pure (some (← app.renderFunctional cid call))
    | .inline c => pure (c.functional.bind (·.render call))
  markRead v := do
    if (← Run.inst vm).tracked then app.markReads v.everything
  warn message := Run.warn message (some vm)

/-- The element factory of an instance for compiled templates. -/
def compiledElement (vm : Uid) (tag : TagRef) (bag : DataBag VNode) (children : List Child)
    (mode : Normalization) : Run Rendered := do
  let i ← Run.inst vm
  ViewTree.createElement (app.renderContext vm i) (some tag) (.data bag) (some children) mode
    false

/-- The element factory of an instance for hand-written render functions, which always
normalizes children fully. -/
def writtenElement (vm : Uid) (tag : Option TagRef) (arg : DataArg)
    (children : Option (List Child)) : Run Rendered := do
  let i ← Run.inst vm
  ViewTree.createElement (app.renderContext vm i) tag arg children .always true

/-- A hoisted static tree, rendered once and reused. -/
def staticTree (vm : Uid) (index : Nat) : Run Rendered := do
  let i ← Run.inst vm
  match i.staticTrees[index]?.join with
  | some tree => pure tree
  | none =>
    match i.options.staticRenderFns[index]? with
    | none =>
      Run.warn s!"Missing static render function {index}." (some vm)
      pure .empty
    | some render =>
      let tree ← app.render render vm
      Run.update vm fun i =>
        let padded := i.staticTrees ++
          List.replicate (index + 1 - i.staticTrees.length) none
        { i with staticTrees := padded.set index (some tree) }
      pure tree

/-- The content of a slot: what the scoped slot gives, else the plain slot content, else the
fallback. -/
def renderSlot (vm : Uid) (name : String) (fallback : List Child) : Run Child := do
  let i ← Run.inst vm
  let given :=
    match Dict.get? i.scopedSlots name with
    | some slot => ScopedSlot.render slot (.object [])
    | none => []
  let plain := (i.slots.get? name).getD []
  if !given.isEmpty then pure (.ofNodes given)
  else if !plain.isEmpty then pure (.ofNodes plain)
  else pure (.list fallback)

/-- Runs the render function of an instance and gives its single root. -/
def renderRoot (vm : Uid) : Run VNode := do
  let i ← Run.inst vm
  match i.parentNode with
  | some node => Run.update vm fun i => { i with scopedSlots := node.data.scopedSlots }
  | none => pure ()
  match i.options.render with
  | none => pure .empty
  | some render =>
    match ← app.render render vm with
    | .node v => pure v
    | .many [v] => pure v
    | .many _ =>
      Run.warn ("Multiple root nodes returned from render function. Render function should " ++
        "return a single root node.") (some vm)
      pure .empty

/-- The filter of a name, under any of its spellings; a missing one is reported. -/
def resolveFilter (vm : Uid) (name : String) : Run (Option CallbackId) := do
  match Name.resolveAsset (← Run.inst vm).options.filters name with
  | some filter => pure (some filter)
  | none =>
    Run.warn s!"Failed to resolve filter: {name}" (some vm)
    pure none

end Application

end ViewTree
