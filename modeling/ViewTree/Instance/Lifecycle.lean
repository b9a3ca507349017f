import ViewTree.Instance.Events
import ViewTree.Instance.Inject
/-!
# The life of an instance

An instance is linked to its parent and initialized step by step, with hooks around the steps;
it is mounted, updated, and torn down together with its descendants.
-/

namespace ViewTree

/-- The node of a placeholder and what its use overrides. -/
structure ChildOptions where
  parentNode : Placeholder VNode
  render : Option CallbackId
  staticRenderFns : Option (List CallbackId)

namespace Application

variable (app : Application)

/-- Runs hooks in order. -/
def runHooks (vm : Uid) (info : String) : List CallbackId → Run Unit
  | [] => pure ()
  | hook :: hooks => do
    discard (app.guarded (app.hook hook vm) (some vm) info)
    runHooks vm info hooks

/-- Runs the hooks of a moment, and emits `hook:` with its name if anyone ever listened for such
an event. -/
def callHook (vm : Uid) (hook : LifecycleHook) : Run Unit := do
  app.runHooks vm s!"{hook.name} hook" ((← Run.inst vm).options.hooks.hooksOf hook)
  if (← Run.inst vm).hasHookEvent then app.emit vm s!"hook:{hook.name}" []

/-- Renders the instance and records the tree. -/
def mount (vm : Uid) (el : Option String) : Run Unit := do
  match el with
  | some el => Run.update vm fun i => { i with el := some el }
  | none => pure ()
  let options := (← Run.inst vm).options
  if options.render.isNone then
    if options.template.isSome then
      Run.warn ("You are using the runtime-only build where the template compiler is not " ++
        "available. Either pre-compile the templates into render functions, or use the " ++
        "compiler-included build.") (some vm)
    else
      Run.warn "Failed to mount component: template or render function not defined." (some vm)
  app.callHook vm .beforeMount
  let tree ← app.renderRoot vm
  Run.update vm fun i => { i with vnode := some tree, mounted := true }
  app.callHook vm .mounted

/-- Renders a mounted instance again. -/
def forceUpdate (vm : Uid) : Run Unit := do
  let i ← Run.inst vm
  if i.mounted && !i.destroyed then
    app.callHook vm .beforeUpdate
    let tree ← app.renderRoot vm
    Run.update vm fun i => { i with vnode := some tree }
    app.callHook vm .updated

/-- Takes an instance off the list of a parent that is not being torn down itself. -/
def unlink (vm : Uid) : Run Unit := do
  match (← get).parent? vm with
  | none => pure ()
  | some parent =>
    if !(← Run.inst parent).beingDestroyed then
      Run.update parent fun i => { i with children := i.children.filter (· != vm) }

/-- Performs `act` on each instance in order; each is kept alive until its turn is over. -/
def forEachPinned (act : Uid → Run Unit) (uids : List Uid) : Run Unit := do
  modify fun w => { w with pins := uids ++ w.pins }
  go uids
where
  /-- The instances whose turn has not come. -/
  go : List Uid → Run Unit
    | [] => pure ()
    | uid :: rest => do
      act uid
      modify fun w => { w with pins := w.pins.erase uid }
      go rest

/-- Tears an instance down to a depth of descendants. -/
def destroyWithin : Nat → Uid → Run Unit
  | 0, _ => pure ()
  | depth + 1, vm => do
    if !(← Run.inst vm).beingDestroyed then
      app.callHook vm .beforeDestroy
      Run.update vm fun i => { i with beingDestroyed := true }
      unlink vm
      let children := (← Run.inst vm).children
      Run.update vm fun i => { i with children := [] }
      forEachPinned (destroyWithin depth) children
      Run.update vm fun i => { i with watchers := [], vnode := none, destroyed := true }
      app.callHook vm .destroyed
      Run.offAll vm

/-- Tears an instance down with all its descendants. Children are younger than their parents, so
no chain of them is longer than the number of instances. -/
def destroy (vm : Uid) : Run Unit := do
  app.destroyWithin ((← get).instances.length + 1) vm

/-- Fills slots, attributes and listeners from the placeholder. -/
def initRender (vm : Uid) : Run Unit :=
  Run.update vm fun i =>
    { i with
      vnode := none
      staticTrees := []
      slots := VNode.resolveSlots i.renderChildren (i.parentNode.bind (·.context))
      scopedSlots := []
      attrs := (i.parentNode.map (·.data.attrs)).getD []
      listeners := i.parentListeners }

/-- Gives an instance the object that its provide option makes. -/
def initProvide (vm : Uid) : Run Unit := do
  match (← Run.inst vm).options.provide with
  | none => pure ()
  | some source =>
    match ← app.guarded (app.runSource vm source) (some vm) "provide()" with
    | some (.object fields) => Run.update vm fun i => { i with provided := fields }
    | some _ => Run.warn "provide functions should return an object." (some vm)
    | none => pure ()

/-- Initializes an instance that is placed. -/
def setUp (vm : Uid) : Run Unit := do
  let performance := (← get).config.performance
  Run.attach vm (← Run.inst vm).parentListeners
  initRender vm
  app.callHook vm .beforeCreate
  app.initInjections vm
  app.initState vm
  app.initProvide vm
  app.callHook vm .created
  if performance then Run.report (.log .info "init")
  match (← Run.inst vm).options.el with
  | some el => app.mount vm (some el)
  | none => pure ()

/-- Adds an instance and initializes it. -/
def start (fresh : Instance) : Run Uid := do
  let uid := (← get).instances.length
  modify fun w => { w with instances := w.instances ++ [fresh] }
  match fresh.parent with
  | some parent => Run.update parent fun i => { i with children := i.children ++ [uid] }
  | none => pure ()
  Run.pinned uid (app.setUp uid)
  pure uid

/-- A root instance of a definition, with more options laid over the definition's. -/
def newInstance (definition : Cid) (options : ComponentOptions) : Run Uid := do
  let resolved ← Run.resolveOptions definition
  let merged ← Run.mergeOptions resolved options true
  app.start { Instance.fresh definition merged with propsData := options.propsData }

/-- An instance that a parent creates for a placeholder. It shares the definition's options as
they are, but for the render functions its use overrides. -/
def newChild (definition : Cid) (parent : Uid) (child : ChildOptions) : Run Uid := do
  let options := (← Run.defn definition).options
  let options :=
    { options with
      render := child.render <|> options.render
      staticRenderFns := child.staticRenderFns.getD options.staticRenderFns }
  let node := child.parentNode
  let root := (← get).root parent
  app.start
    { Instance.fresh definition options with
      parent := some parent
      root := some root
      parentNode := some node
      propsData := some node.props
      parentListeners := node.listeners
      renderChildren := node.children
      componentTag := node.componentTag }

end Application

end ViewTree
