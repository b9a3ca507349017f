import ViewTree.Application.Script
/-!
# Application code as values

Blueprints, scripts and component options can be written down as values; these functions read
them. Reading never fails: what is missing or of the wrong kind is not there. Values are read to
their own depth.
-/

namespace ViewTree

namespace Value

mutual

/-- How deeply lists and objects are nested. -/
def depth : Value → Nat
  | array items => depthOf items + 1
  | object fields => depthIn fields + 1
  | _ => 1

/-- The depth of the deepest item. -/
def depthOf : List Value → Nat
  | [] => 0
  | v :: vs => max (depth v) (depthOf vs)

/-- The depth of the deepest field. -/
def depthIn : List (String × Value) → Nat
  | [] => 0
  | (_, v) :: fs => max (depth v) (depthIn fs)

end

/-- The field of an object, unless it is missing or null. -/
def present? (v : Value) (key : String) : Option Value :=
  (v.field? key).filter fun f => f.kindName != "Null"

/-- A text field. -/
def textField? (v : Value) (key : String) : Option String :=
  (v.field? key).bind string?

/-- The text of a text, and nothing of anything else. -/
def textOr (v : Value) : String :=
  v.string?.getD ""

/-- The items of a list field. -/
def listField (v : Value) (key : String) : List Value :=
  ((v.field? key).bind items?).getD []

/-- The fields of an object field. -/
def dictField (v : Value) (key : String) : Dict Value :=
  ((v.field? key).bind fields?).getD []

/-- The texts of a list. -/
def texts (vs : List Value) : List String :=
  vs.filterMap string?

/-- A field that is true. -/
def flag (v : Value) (key : String) : Bool :=
  ((v.field? key).bind bool?).getD false

end Value

/-- An inline component. A plain one has no name and no props. -/
def InlineComponent.read (v : Value) : InlineComponent where
  cid := ((v.field? "cid").bind Value.nat?).getD 0
  name := if v.flag "plain" then none else v.textField? "name"
  props := if v.flag "plain" then [] else Value.texts (v.listField "props")
  functional :=
    if v.flag "plain" then none
    else
      (v.textField? "functional").map fun form =>
        if form == "node" then .node else if form == "many" then .many else .nothing

/-- A tag; null is none. -/
def TagSpec.read? (v : Value) : Option TagSpec :=
  match v with
  | .string t => some (.html t)
  | _ =>
    match v.textField? "component", v.field? "ctor", v.field? "dynamic",
      v.textField? "dynamic_expr" with
    | some id, _, _, _ => some (.named id)
    | none, some c, _, _ => some (.inline (.read c))
    | none, none, some d, _ => some (.dynamic d)
    | none, none, none, some e => some (.dynamicExpr e)
    | none, none, none, none => none

/-- A handler: a text is a template handler. -/
def HandlerSpec.read (v : Value) : HandlerSpec :=
  match v with
  | .string s => .source s
  | _ => .labelled ((v.textField? "label").getD "")

/-- A directive on a node. -/
def DirectiveUse.read (v : Value) : DirectiveUse where
  name := (v.textField? "name").getD ""
  value := v.field? "value"
  expression := v.textField? "expression"
  arg := v.textField? "arg"
  modifiers := Value.texts (v.listField "modifiers")

/-- A mode of normalization. -/
def Normalization.read (v : Option Value) : Normalization :=
  match v.bind Value.string? with
  | some "Simple" => .simple
  | some "Always" => .always
  | _ => .none

/-- A bag built without an instance: expressions have no value and template handlers do
nothing. -/
def BagSpec.plain (b : BagSpec) : DataBag VNode :=
  let studio : Studio Id :=
    { resolve := fun _ _ => Value.null
      component := fun _ => none
      listener := fun _ _ => .silent
      staticTree := fun _ => .empty
      renderSlot := fun _ _ => .empty
      compiled := fun _ _ _ _ => .empty
      written := fun _ _ _ _ _ => .empty }
  studio.bag .root b

mutual

/-- A data bag, read to a depth. -/
def readBag (fuel : Nat) (v : Value) : BagSpec :=
  let slots :=
    match fuel with
    | 0 => []
    | fuel + 1 => (v.dictField "scoped_slots").mapValues fun s => readSlot fuel (s.items?.getD [])
  let handlers := fun key =>
    (v.dictField key).mapValues fun hs => (hs.items?.getD []).map HandlerSpec.read
  { key := v.field? "key"
    keyExpr := v.textField? "key_expr"
    is := (v.field? "is").bind TagSpec.read?
    slot := v.textField? "slot"
    reference := v.textField? "ref"
    attrs := v.dictField "attrs"
    bound := (v.dictField "bind").mapValues Value.textOr
    domProps := v.dictField "dom_props"
    staticClass := v.textField? "static_class"
    classBinding := v.field? "class"
    classExpr := v.textField? "class_expr"
    staticStyle := v.textField? "static_style"
    styleBinding := v.field? "style"
    on := handlers "on"
    nativeOn := handlers "native_on"
    directives := (v.listField "directives").map DirectiveUse.read
    scopedSlots := slots
    observed := v.flag "observed" }
termination_by (fuel, 1)

/-- Scoped slot content, read to a depth. -/
def readSlot (fuel : Nat) (items : List Value) : ScopedSlot :=
  items.map fun item =>
    if item.flag "slot_props" then .props else .node (readNode fuel item)
termination_by (fuel, 2)

/-- A node built without the element factory, read to a depth. -/
def readNode (fuel : Nat) (v : Value) : VNode :=
  match fuel, v with
  | _, .string s => .text s
  | 0, _ => .empty
  | fuel + 1, v =>
    let children := (v.listField "children").map (readNode fuel)
    let bag := fun key => (v.present? key).map fun b => (readBag fuel b).plain
    let ns := v.textField? "ns"
    let context := (v.field? "context").bind Value.nat?
    match v.textField? "text", v.textField? "comment", v.field? "placeholder",
      v.textField? "h" with
    | some t, _, _, _ => .text t
    | none, some t, _, _ => .comment t
    | none, none, some p, _ =>
      .component
        { tag := (p.textField? "tag").getD ""
          ctor := .inline (.read p)
          data := (bag "data").getD .empty
          ns
          context
          props := p.dictField "props_data"
          listeners := []
          children
          componentTag := p.textField? "component_tag" }
    | none, none, none, some tag =>
      match v.field? "pairs" with
      | some (.array pairs) =>
        let attrs := pairs.filterMap fun pair =>
          match pair with
          | .array [.string k, .string t] => some (k, Value.string t)
          | _ => none
        .element tag (some { DataBag.empty with attrs := Dict.ofList attrs }) children none none
      | _ => .element tag (bag "data") children ns context
    | none, none, none, none => .empty
termination_by (fuel, 0)

end

/-- Scoped slot content. -/
def ScopedSlot.read (v : Value) : ScopedSlot :=
  readSlot v.depth (v.items?.getD [])

/-- A node built without the element factory. -/
def VNode.read (v : Value) : VNode :=
  readNode v.depth v

/-- A data bag. -/
def BagSpec.read (v : Value) : BagSpec :=
  readBag v.depth v

mutual

/-- A child, read to a depth. -/
def readChild (fuel : Nat) (v : Value) : ChildSpec :=
  match fuel, v with
  | _, .null => .empty
  | _, .bool _ => .empty
  | _, .number n => .number n
  | _, .string s => .text s
  | 0, _ => .empty
  | fuel + 1, .array items => .list (items.map (readChild fuel))
  | fuel + 1, v =>
    match v.field? "value", v.field? "scoped", readCall? fuel v with
    | some value, _, _ => .value value
    | none, some slot, _ => .slotContent (.read slot)
    | none, none, some call => .call call
    | none, none, none =>
      match v.textField? "expr", v.textField? "for", v.textField? "if",
        v.textField? "slot" with
      | some e, _, _, _ => .expr e
      | none, some source, _, _ =>
        .each source (Value.texts (v.listField "as"))
          (readChild fuel ((v.field? "body").getD .null))
      | none, none, some condition, _ =>
        .choice condition (readChild fuel ((v.field? "then").getD .null))
          (readChild fuel ((v.field? "else").getD .null))
      | none, none, none, some name =>
        .slot name ((v.listField "fallback").map (readChild fuel))
      | none, none, none, none => .node (.read v)
termination_by (fuel, 0)

/-- A call of the element factory or a static tree, read to a depth. -/
def readCall? (fuel : Nat) (v : Value) : Option CallSpec :=
  let bag := BagSpec.read ((v.field? "data").getD .null)
  match v.field? "c", v.field? "ce", (v.field? "static").bind Value.nat? with
  | some tag, _, _ =>
    some (.compiled (TagSpec.read? tag) bag ((v.listField "children").map (readChild fuel))
      (.read (v.field? "norm")))
  | none, some tag, _ =>
    let arg : ArgSpec :=
      match v.present? "data", v.field? "data_children", v.field? "data_primitive" with
      | some _, _, _ => .bag bag
      | none, some (.array cs), _ => .children (cs.map (readChild fuel))
      | none, _, some p => .primitive p
      | none, _, none => .none
    let children :=
      ((v.field? "children").bind Value.items?).map fun cs => cs.map (readChild fuel)
    some (.written (TagSpec.read? tag) arg children (.read (v.field? "norm")) (v.flag "always"))
  | none, none, some index => some (.static index)
  | none, none, none => none
termination_by (fuel, 1)

end

/-- A child. -/
def ChildSpec.read (v : Value) : ChildSpec :=
  readChild v.depth v

/-- A call of the element factory or a static tree. -/
def CallSpec.read? (v : Value) : Option CallSpec :=
  readCall? v.depth v

/-- The two texts of a list. -/
def readPair (v : Value) : String × String :=
  match v.items? with
  | some (a :: b :: _) => (a.textOr, b.textOr)
  | some [a] => (a.textOr, "")
  | _ => ("", "")

/-- The items of a list, or none. -/
def readItems (v : Value) : List Value :=
  v.items?.getD []

/-- A whole number. -/
def readInt (v : Option Value) : Int :=
  (v.bind Value.int64?).getD 0

/-- The step that an action's name and content describe, with nested scripts read by `inner`. -/
def readStep? (inner : List Value → Script) (action : String) (v : Value) : Option Step :=
  let items := readItems v
  let first := (items.head?.map Value.textOr).getD ""
  let second := items[1]?.getD .null
  match action with
  | "log" => some (.note v)
  | "log_expr" => some (.noteExpr v.textOr)
  | "log_get" => some (.noteGet v.textOr)
  | "log_args" => some .noteArgs
  | "log_data" => some .noteData
  | "log_self" => some .noteSelf
  | "log_slots" => some .noteSlots
  | "set" => some (.set first second)
  | "set_arg" => some (.setArg first (second.nat?.getD 0))
  | "add" => some (.add first (readInt (some second)))
  | "call" => some (.call first (readItems second))
  | "emit" => some (.emit first (readItems second))
  | "on" => some (.on first second.textOr)
  | "once" => some (.once first second.textOr)
  | "off" => some (.off (items.head?.bind Value.string?) (items[1]?.bind Value.string?))
  | "unwatch" => some (.unwatch v.textOr)
  | "destroy" => some .destroy
  | "update" => some .update
  | "mount" => some (.mount v.string?)
  | "with" => some (.within first (inner (readItems second)))
  | "fail" => some (.fail v.textOr)
  | "fail_chain" => some (.failWith first second.textOr)
  | "return" => some (.give v)
  | "return_expr" => some (.giveExpr v.textOr)
  | "return_get" => some (.giveGet v.textOr)
  | "return_arg" => some (.giveArg (v.nat?.getD 0))
  | "return_obj" => some (.giveObject ((v.fields?.getD []).map fun e => (e.1, e.2.textOr)))
  | _ => none

/-- The steps of a script, read to a depth. -/
def readScript : Nat → List Value → Script
  | 0, _ => []
  | fuel + 1, actions =>
    actions.filterMap fun action =>
      match action.fields? with
      | some [(name, v)] => readStep? (readScript fuel) name v
      | _ => none

/-- A script. -/
def Script.read (v : Value) : Script :=
  readScript v.depth (readItems v)

/-- A render function. -/
def RenderSpec.read (v : Value) : RenderSpec where
  log := v.field? "log"
  script := (v.field? "script").map Script.read
  body :=
    match v.field? "root", v.field? "many", v.field? "pure", CallSpec.read? v with
    | some c, _, _, _ => .root (.read c)
    | none, some cs, _, _ => .many ((readItems cs).map ChildSpec.read)
    | none, none, some node, _ => .pure (.read node)
    | none, none, none, some call => .call call
    | none, none, none, none => .root .empty

/-- A test of a prop. -/
def ValidatorKind.read (v : Value) : ValidatorKind :=
  match v with
  | .string "positive" => .positive
  | .string "short" => .short
  | .string "always" => .always
  | _ => .never

/-- The callbacks read so far and the numbers of those that bear an identifier. An identifier
belongs to a kind of callback. -/
structure Registry where
  code : Code
  known : Dict CallbackId

/-- Reading that may add callbacks. -/
abbrev Reading := StateM Registry

namespace Registry

/-- Adds a callback. -/
def add (c : Callback) : Reading CallbackId := do
  let r ← get
  set { r with code := { r.code with callbacks := r.code.callbacks ++ [c] } }
  pure r.code.callbacks.length

/-- The callback of an identifier, added at the first use; without one it is a new callback. -/
def shared (kind : String) (id : Option String) (c : Callback) : Reading CallbackId := do
  match id with
  | none => add c
  | some id =>
    let key := kind ++ ":" ++ id
    match (← get).known.get? key with
    | some known => pure known
    | none =>
      let fresh ← add c
      modify fun r => { r with known := r.known.insert key fresh }
      pure fresh

/-- A script that may bear an identifier. -/
def script (kind : String) (v : Value) : Reading CallbackId :=
  match v with
  | .object _ =>
    shared kind (v.textField? "id") (.script (.read ((v.field? "script").getD .null)))
  | _ => add (.script (.read v))

/-- A render function that may bear an identifier. -/
def render (v : Value) : Reading CallbackId :=
  shared "render" (v.textField? "id") (.render (.read v))

/-- A default: a value or a factory. -/
def default? (v : Value) : Reading (Option DefaultValue) := do
  match v.field? "default", v.field? "factory" with
  | some d, _ => pure (some (.value d))
  | none, some made => pure (some (.factory (← add (.factory made))))
  | none, none => pure none

/-- The declaration of a prop. -/
def prop (v : Value) : Reading PropOptions := do
  let default ← default? v
  let validator ←
    match v.present? "validator" with
    | some kind => some <$> add (.validator (.read kind))
    | none => pure none
  pure
    { types := (Value.texts (v.listField "types")).filterMap PropType.ofName?
      required := v.flag "required"
      default
      validator }

/-- The declaration of an injected value. -/
def inject (name : String) (v : Value) : Reading InjectOptions := do
  pure { source := (v.textField? "from").getD name, default := ← default? v }

/-- The callbacks of a directive. -/
def directive (v : Value) : Reading DirectiveHooks := do
  let hook := fun name => do
    match v.present? name with
    | some _ => some <$> add (.directive name)
    | none => pure none
  pure ⟨← hook "bind", ← hook "inserted", ← hook "update", ← hook "unbind"⟩

/-- A capturing hook. -/
def capture (v : Value) : Reading CallbackId :=
  shared "capture" (v.textField? "id")
    (.capture ((v.textField? "label").getD "") (v.flag "result"))

/-- A watcher. -/
def watcher (v : Value) : Reading Watcher := do
  let handler ←
    shared "watch" (v.textField? "id") (.script (.read ((v.field? "script").getD .null)))
  pure ⟨handler, v.flag "immediate"⟩

end Registry

/-- Sets one field of the options. Entries are added to those there are, and single settings are
replaced; layers are read by `layer`. -/
def setOption (definitions : Dict Cid) (layer : Value → Reading ComponentOptions)
    (o : ComponentOptions) (key : String) (v : Value) : Reading ComponentOptions := do
  let entries := v.fields?.getD []
  let items := readItems v
  match key with
  | "name" => pure { o with name := v.string? <|> o.name }
  | "el" => pure { o with el := v.string? <|> o.el }
  | "props_data" => pure { o with propsData := v.fields? <|> o.propsData }
  | "template" => pure { o with template := v.string? <|> o.template }
  | "delimiters" =>
    pure { o with delimiters := if items.isEmpty then o.delimiters else some (readPair v) }
  | "functional" => pure { o with functional := true }
  | "data" => do pure { o with data := some (.callback (← Registry.script "data" v)) }
  | "provide" => do pure { o with provide := some (.callback (← Registry.script "data" v)) }
  | "props" =>
    entries.foldlM (fun o e => do
      pure { o with props := o.props.insert e.1 (← Registry.prop e.2) }) o
  | "methods" =>
    entries.foldlM (fun o e => do
      pure { o with methods := o.methods.insert e.1 (← Registry.script "method" e.2) }) o
  | "computed" =>
    entries.foldlM (fun o e => do
      pure { o with computed := o.computed.insert e.1 (← Registry.script "computed" e.2) }) o
  | "watch" =>
    entries.foldlM (fun o e => do
      let watchers ← (readItems e.2).mapM Registry.watcher
      pure (if watchers.isEmpty then o
        else { o with watch := o.watch.upsert e.1 [] (· ++ watchers) })) o
  | "hooks" =>
    entries.foldlM (fun o e => do
      let ids ← (readItems e.2).mapM (Registry.script "hook")
      match LifecycleHook.ofName? e.1, ids with
      | some hook, _ :: _ =>
        pure { o with hooks := o.hooks.set hook (o.hooks.hooksOf hook ++ ids) }
      | _, _ => pure o) o
  | "error_captured" => do
    pure { o with errorCaptured := o.errorCaptured ++ (← items.mapM Registry.capture) }
  | "components" =>
    pure { o with components := entries.foldl (fun d e =>
      match definitions.get? e.2.textOr with
      | some cid => d.insert e.1 cid
      | none => d) o.components }
  | "directives" =>
    entries.foldlM (fun o e => do
      pure { o with directives := o.directives.insert e.1 (← Registry.directive e.2) }) o
  | "filters" =>
    entries.foldlM (fun o e => do
      pure { o with filters := o.filters.insert e.1 (← Registry.add (.filter e.2.textOr)) }) o
  | "inject" =>
    entries.foldlM (fun o e => do
      pure { o with inject := o.inject.insert e.1 (← Registry.inject e.1 e.2) }) o
  | "render" => do pure { o with render := some (← Registry.render v) }
  | "static_render" => do
    pure { o with staticRenderFns := o.staticRenderFns ++ (← items.mapM Registry.render) }
  | "extends" => do pure { o with extending := some (← layer v) }
  | "mixins" => do pure { o with mixins := o.mixins ++ (← items.mapM layer) }
  | _ => pure o

/-- Options with the fields of an object set over others, in key order, read to a depth. -/
def readOptions (definitions : Dict Cid) :
    Nat → ComponentOptions → Value → Reading ComponentOptions
  | 0, o, _ => pure o
  | fuel + 1, o, v =>
    (v.fields?.getD []).foldlM (fun o e =>
      setOption definitions (readOptions definitions fuel .empty) o e.1 e.2) o

/-- Options with the fields of an object set over others. -/
def ComponentOptions.read (definitions : Dict Cid) (base : ComponentOptions) (v : Value) :
    Reading ComponentOptions :=
  readOptions definitions v.depth base v

end ViewTree
