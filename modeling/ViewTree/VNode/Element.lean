import ViewTree.Name
import ViewTree.Platform
import ViewTree.VNode.Children
import ViewTree.VNode.Debug
import ViewTree.VNode.Namespace
/-!
# The element factory

`createElement` builds the node that a render call asks for: an element of the platform, the
placeholder of a component, or the nodes that a functional component renders in place. The
context it runs in says which components are registered, and takes warnings and read marks.
-/

namespace ViewTree

/-- What a functional component is rendered with. -/
structure FunctionalCall where
  props : Dict Value
  data : DataBag VNode
  children : List VNode
  parent : Uid

/-- The instance that a render function runs against. -/
structure RenderContext (m : Type → Type) where
  id : Uid
  placeholderNs : Option String
  resolveComponent : String → Option ComponentRef
  componentName : ComponentRef → m (Option String)
  propNames : ComponentRef → m (List String)
  isFunctional : ComponentRef → m Bool
  renderFunctional : ComponentRef → FunctionalCall → m (Option Rendered)
  markRead : Value → m Unit
  warn : String → m Unit

/-- What stands in the place of the data bag: the bag, or the children of a call without one. -/
inductive DataArg where
  | data (bag : DataBag VNode)
  | children (cs : List Child)
  | primitive (v : Value)
  | none

/-- The tag that is left when empty and dynamic ones are resolved. -/
def TagRef.resolved : TagRef → Option TagRef
  | html t => if t = "" then none else some (html t)
  | dynamic (.string t) => if t = "" then none else some (html t)
  | dynamic _ => none
  | component c => some (component c)

/-- A key may be an object only if the host put it there. -/
def isValidKey : Value → Bool
  | .object fields => Dict.contains fields "@binding"
  | .array _ => false
  | _ => true

/-- The value of a declared prop and where it stands: a DOM property stays in the bag, an
attribute is taken out of it. The hyphenated spelling counts too. -/
def extractProp (bag : DataBag VNode) (key : String) : Option Value × DataBag VNode :=
  let alt := Name.hyphenate key
  match bag.domProps.get? key, bag.domProps.get? alt with
  | some v, _ => (some v, bag)
  | none, some v => (some v, bag)
  | none, none =>
    match bag.attrs.get? key, bag.attrs.get? alt with
    | some v, _ => (some v, { bag with attrs := bag.attrs.erase key })
    | none, some v => (some v, { bag with attrs := bag.attrs.erase alt })
    | none, none => (none, bag)

/-- The values of the declared props, and the bag without the attributes they took. -/
def extractProps (bag : DataBag VNode) : List String → Dict Value × DataBag VNode :=
  List.foldl
    (fun (acc : Dict Value × DataBag VNode) key =>
      match extractProp acc.2 key with
      | (some v, bag) => (acc.1.insert key v, bag)
      | (none, bag) => (acc.1, bag))
    ([], bag)

/-- The tag of a placeholder: the component's number, and its name or the tag it was used by. -/
def placeholderTag (cid : Nat) (name : Option String) : String :=
  match name with
  | some n => s!"vue-component-{cid}-{n}"
  | none => s!"vue-component-{cid}"

section

variable {m : Type → Type} [Monad m]

/-- Builds the placeholder of a component, or renders a functional one in place. Listeners in
`on` are for the component; those in `nativeOn` go to its root element. -/
def createComponent (ctx : RenderContext m) (ctor : ComponentRef)
    (data : Option (DataBag VNode)) (children : List VNode) (tag : Option String) :
    m (Option Rendered) := do
  let (props, bag) := extractProps (data.getD .empty) (← ctx.propNames ctor)
  if ← ctx.isFunctional ctor then
    ctx.renderFunctional ctor ⟨props, bag, children, ctx.id⟩
  else
    let name ← ctx.componentName ctor
    pure (some (.node (.component
      { tag := placeholderTag ctor.cid (name <|> tag)
        ctor := ctor
        data := { bag with on := bag.nativeOn, nativeOn := [] }
        ns := none
        context := some ctx.id
        props := props
        listeners := bag.on
        children := children
        componentTag := tag })))

/-- Style and class objects are marked as read, since a child may change them in place. -/
def markBindings (ctx : RenderContext m) (data : DataBag VNode) : m Unit := do
  match data.styleBinding with
  | some v => if v.isCompound then ctx.markRead v
  | none => pure ()
  match data.classBinding with
  | some v => if v.isCompound then ctx.markRead v
  | none => pure ()

/-- What the tag builds, before namespaces: an element, or what a component gives. -/
def buildTag (ctx : RenderContext m) (tag : TagRef) (data : Option (DataBag VNode))
    (children : List VNode) : m (Option Rendered × Option String) := do
  match tag with
  | .html tag =>
    let ns := ctx.placeholderNs <|> Platform.tagNamespace tag
    let plain := Rendered.node (.element tag data children none (some ctx.id))
    if Platform.isReservedTag tag then pure (some plain, ns)
    else
      match ctx.resolveComponent tag with
      | some ctor => pure (← createComponent ctx ctor data children (some tag), ns)
      | none => pure (some plain, ns)
  | .component ctor => pure (← createComponent ctx ctor data children none, none)
  | .dynamic _ => pure (none, none)

/-- Assigns the namespace of a single node and marks its bindings. -/
def finishElement (ctx : RenderContext m) (rendered : Option Rendered) (ns : Option String) :
    m Rendered := do
  match rendered with
  | some (.many vs) => pure (.many vs)
  | some (.node v) =>
    let v := if ns.isSome then v.applyNs ns false else v
    match v.data? with
    | some data => markBindings ctx data
    | none => pure ()
    pure (.node v)
  | none => pure .empty

/-- A slot given as the first child is the default scoped slot, and there are no children. -/
def adoptSlot (data : Option (DataBag VNode)) (children : List Child) :
    Option (DataBag VNode) × List Child :=
  match children with
  | .slot s :: _ =>
    let bag := data.getD .empty
    (some { bag with scopedSlots := Dict.insert bag.scopedSlots "default" s }, [])
  | _ => (data, children)

/-- The bag that a data argument gives. -/
def DataArg.bag? : DataArg → Option (DataBag VNode)
  | data bag => some bag
  | _ => Option.none

/-- The children that a data argument gives in place of the others. -/
def DataArg.childrenOr (children : Option (List Child)) : DataArg → Option (List Child)
  | DataArg.children cs => some cs
  | primitive v => some [Child.ofValue v]
  | data _ => children
  | none => children

/-- Builds the node for a render call. The tag in the bag's `is` wins over `tag`, and a tag that
resolves to nothing renders nothing. Observed bags are refused, since they would be shared
between renders. -/
def createElement (ctx : RenderContext m) (tag : Option TagRef) (arg : DataArg)
    (children : Option (List Child)) (mode : Normalization) (always : Bool) : m Rendered := do
  let data := arg.bag?
  let children := (arg.childrenOr children).getD []
  let mode := if always then .always else mode
  match data.filter (·.observed) with
  | some bag =>
    ctx.warn
      (s!"Avoid using observed data object as vnode data: {bag.debug}\n" ++
        "Always create fresh vnode data objects in each render!")
    pure .empty
  | none =>
    match ((data.bind (·.is)) <|> tag).bind TagRef.resolved with
    | none => pure .empty
    | some tag =>
      match (data.bind (·.key)).filter (!isValidKey ·) with
      | some _ =>
        ctx.warn "Avoid using non-primitive value as key, use string/number value instead."
      | none => pure ()
      let (data, children) := adoptSlot data children
      let (rendered, ns) ← buildTag ctx tag data (Child.normalize mode children)
      finishElement ctx rendered ns

end

/-- What an inline functional component renders: an element that shows its props and context,
followed by its children if it renders many. -/
def FunctionalForm.render (form : FunctionalForm) (call : FunctionalCall) : Option Rendered :=
  let node : VNode :=
    .element "fn" (some call.data)
      [.text (Value.object call.props).display, .comment s!"ctx {call.parent}"] none none
  match form with
  | .node => some (.node node)
  | .many => some (.many (node :: call.children))
  | .nothing => none

end ViewTree
