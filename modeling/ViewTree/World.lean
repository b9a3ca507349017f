import ViewTree.Component.Options
import ViewTree.Expr.Basic
import ViewTree.VNode.Basic
/-!
# The state of a running application

One value holds everything that changes while components run: the definitions and instances made
so far, each numbered by its place, the configuration, and the reports made. Running a part of
the application is a function on that state.

An instance lives as long as something owns it: the application under one of its names, an
operation that is using it, or its parent, as long as that lives itself.
-/

namespace ViewTree

/-- A failure of application code: what went wrong, and what caused it. -/
structure Failure where
  message : String
  causes : List String

/-- The failure with all its causes. -/
def Failure.chain (f : Failure) : String :=
  ": ".intercalate (f.message :: f.causes)

/-- How serious a log entry is. -/
inductive Level where
  | info
  | warn
  | error
deriving DecidableEq

/-- Something the outside sees. -/
inductive Report where
  /-- A warning given to the warning handler, with the place in the component tree. -/
  | warning (message trace : String)
  /-- An entry in the log. -/
  | log (level : Level) (message : String)
  /-- A failure given to the error handler. -/
  | failure (f : Failure) (uid : Option Uid) (info : String)
  /-- Something that application code wrote. -/
  | note (v : Value)

/-- Settings that hold for all components. -/
structure Config where
  silent : Bool
  performance : Bool
  warnHandler : Bool
  errorHandler : Bool

/-- The settings to begin with. -/
def Config.default : Config :=
  ⟨false, false, false, false⟩

/-- A component definition. `superOptions` are the parent's options at the last merge, when the
parent had `superVersion`; `extendOptions` are those it was extended with, later edits included;
`sealedOptions` are its options when it was made. -/
structure Definition where
  parent : Option Cid
  version : Nat
  options : ComponentOptions
  superVersion : Nat
  superOptions : Option ComponentOptions
  extendOptions : ComponentOptions
  sealedOptions : ComponentOptions
deriving Inhabited

/-- A registered listener; one registered once is removed by its first call. -/
structure Handler where
  listener : Listener
  once : Bool

/-- A watcher in force, with the value it last saw. -/
structure ActiveWatcher where
  id : Nat
  source : String
  expr : Expr
  watcher : Watcher
  value : Value

/-- A component instance. -/
structure Instance where
  definition : Cid
  options : ComponentOptions
  parentNode : Option (Placeholder VNode)
  propsData : Option (Dict Value)
  parentListeners : Dict (List Listener)
  renderChildren : List VNode
  componentTag : Option String
  parent : Option Uid
  root : Option Uid
  children : List Uid
  mounted : Bool
  destroyed : Bool
  beingDestroyed : Bool
  events : Dict (List Handler)
  hasHookEvent : Bool
  el : Option String
  vnode : Option VNode
  staticTrees : List (Option Rendered)
  slots : Dict (List VNode)
  scopedSlots : Dict ScopedSlot
  attrs : Dict Value
  listeners : Dict (List Listener)
  props : Dict Value
  data : Dict Value
  methods : Dict CallbackId
  computed : Dict CallbackId
  watchers : List ActiveWatcher
  nextWatcher : Nat
  injections : Dict Value
  provided : Dict Value
  tracked : Bool

/-- An instance of a definition before it is placed and initialized. -/
def Instance.fresh (definition : Cid) (options : ComponentOptions) : Instance where
  definition := definition
  options := options
  parentNode := none
  propsData := none
  parentListeners := []
  renderChildren := []
  componentTag := none
  parent := none
  root := none
  children := []
  mounted := false
  destroyed := false
  beingDestroyed := false
  events := []
  hasHookEvent := false
  el := none
  vnode := none
  staticTrees := []
  slots := []
  scopedSlots := []
  attrs := []
  listeners := []
  props := []
  data := []
  methods := []
  computed := []
  watchers := []
  nextWatcher := 0
  injections := []
  provided := []
  tracked := false

instance : Inhabited Instance := ⟨.fresh 0 .empty⟩

/-- The state of a running application. `nextSource` and `nextListener` number the merged data
sources and the template listeners to come, `definitionNames` and `instanceNames` are the names
the application keeps definitions and instances under, `pins` the instances in use by operations
under way, and `reports` has the latest first. -/
structure World where
  config : Config
  definitions : List Definition
  instances : List Instance
  nextSource : Nat
  nextListener : Nat
  definitionNames : Dict Cid
  instanceNames : Dict Uid
  pins : List Uid
  reports : List Report

/-- The state before anything is defined. -/
def World.start (config : Config) : World :=
  ⟨config, [], [], 0, 0, [], [], [], []⟩

/-- A part of the application that runs. -/
abbrev Run := StateM World

namespace World

/-- The instance of a number. -/
def instance? (w : World) (uid : Uid) : Option Instance :=
  w.instances[uid]?

/-- The definition of a number. -/
def definition? (w : World) (cid : Cid) : Option Definition :=
  w.definitions[cid]?

/-- The application or an operation under way holds the instance. -/
def held (w : World) (uid : Uid) : Bool :=
  w.pins.contains uid || w.instanceNames.values.contains uid

/-- The instance is owned. -/
def alive (w : World) (uid : Uid) : Bool :=
  w.held uid ||
    match (w.instance? uid).bind (·.parent) with
    | none => false
    | some parent =>
      if parent < uid then
        ((w.instance? parent).map (·.children.contains uid)).getD false && w.alive parent
      else false
termination_by uid

/-- The parent of an instance, while it lives. -/
def parent? (w : World) (uid : Uid) : Option Uid :=
  ((w.instance? uid).bind (·.parent)).filter w.alive

/-- The root that was recorded for an instance while it lives, or the instance itself. -/
def root (w : World) (uid : Uid) : Uid :=
  (((w.instance? uid).bind (·.root)).filter w.alive).getD uid

/-- The living ancestors of an instance, the nearest first. Parents are older than their
children. -/
def ancestors (w : World) (uid : Uid) : List Uid :=
  match w.parent? uid with
  | none => []
  | some parent => if parent < uid then parent :: w.ancestors parent else []
termination_by uid

end World

namespace Run

/-- The instance of a number. -/
def inst (uid : Uid) : Run Instance := do
  pure (((← get).instance? uid).getD default)

/-- The definition of a number. -/
def defn (cid : Cid) : Run Definition := do
  pure (((← get).definition? cid).getD default)

/-- Changes an instance. -/
def update (uid : Uid) (f : Instance → Instance) : Run Unit :=
  modify fun w => { w with instances := w.instances.modify uid f }

/-- Changes a definition. -/
def updateDefn (cid : Cid) (f : Definition → Definition) : Run Unit :=
  modify fun w => { w with definitions := w.definitions.modify cid f }

/-- Makes a report. -/
def report (r : Report) : Run Unit :=
  modify fun w => { w with reports := r :: w.reports }

/-- Keeps an instance alive during an operation. -/
def pinned {α : Type} (uid : Uid) (act : Run α) : Run α := do
  modify fun w => { w with pins := uid :: w.pins }
  let result ← act
  modify fun w => { w with pins := w.pins.erase uid }
  pure result

end Run

/-- What the callbacks of the application do. Hooks, data sources, methods and watchers may
fail. -/
structure Application where
  hook : CallbackId → Uid → Run (Except Failure Unit)
  data : CallbackId → Uid → Run (Except Failure Value)
  method : CallbackId → Uid → List Value → Run (Except Failure Value)
  computed : CallbackId → Uid → Run Value
  watcher : CallbackId → Uid → Value → Value → Run (Except Failure Unit)
  errorCaptured : CallbackId → Failure → Uid → String → Run Bool
  render : CallbackId → Uid → Run Rendered
  filter : CallbackId → Value → List Value → Run Value
  validator : CallbackId → Value → Run Bool
  factory : CallbackId → Run Value
  directive : CallbackId → DirectiveUse → Run Unit
  listener : String → List Value → Run Unit
  readMark : Value → Run Unit

end ViewTree
