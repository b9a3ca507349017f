import ViewTree.Expr.Parser
import ViewTree.Instance.Props
/-!
# Methods, data, computed values and watchers

Values stand in plain dictionaries and dependencies are not tracked: after every write all
watched expressions are evaluated again, and those whose value changed run their watchers.
-/

namespace ViewTree

namespace Application

variable (app : Application)

/-- The value of a declared name: props first, then data, computed values and injections. Data
under a reserved name is not read this way. -/
def getValue (vm : Uid) (key : String) : Run (Option Value) := do
  let i ← Run.inst vm
  match i.props.get? key with
  | some v => pure (some v)
  | none =>
    match if Name.isReserved key then none else i.data.get? key with
    | some v => pure (some v)
    | none =>
      match i.computed.get? key with
      | some getter => pure (some (← app.computed getter vm))
      | none => pure ((← Run.inst vm).injections.get? key)

/-- Runs the watchers of a snapshot whose expressions have new values. A watcher that was
removed meanwhile is passed over. -/
def notifyWatchers (vm : Uid) : List ActiveWatcher → Run Unit
  | [] => pure ()
  | active :: rest => do
    let value ← active.expr.evalM (app.getValue vm)
    if value != active.value then
      let watchers := (← Run.inst vm).watchers
      if watchers.any (·.id == active.id) then
        Run.update vm fun i =>
          { i with watchers := i.watchers.map fun w =>
              if w.id == active.id then { w with value := value } else w }
        discard (app.guarded (app.watcher active.watcher.handler vm value active.value) (some vm)
          s!"callback for watcher \"{active.source}\"")
    notifyWatchers vm rest

/-- Evaluates all watched expressions and runs the watchers whose value changed. -/
def runWatchers (vm : Uid) : Run Unit := do
  app.notifyWatchers vm (← Run.inst vm).watchers

/-- Writes a data property or, with a warning, a prop, and runs the watchers. -/
def setValue (vm : Uid) (key : String) (value : Value) : Run Unit := do
  let i ← Run.inst vm
  if i.data.contains key then
    Run.update vm fun i => { i with data := i.data.insert key value }
    app.runWatchers vm
  else if i.props.contains key then
    Run.warn ("Avoid mutating a prop directly since the value will be overwritten whenever the " ++
      "parent component re-renders. Instead, use a data or computed property based on the " ++
      s!"prop's value. Prop being mutated: \"{key}\"") (some vm)
    Run.update vm fun i => { i with props := i.props.insert key value }
    app.runWatchers vm
  else
    Run.warn (s!"Avoid adding properties to an instance at runtime - declare \"{key}\" upfront " ++
      "in the data option.") (some vm)

/-- Calls a method; a failure is routed and gives nothing. -/
def callMethod (vm : Uid) (name : String) (args : List Value) : Run (Option Value) := do
  match (← Run.inst vm).methods.get? name with
  | none =>
    Run.warn s!"Method \"{name}\" is not defined." (some vm)
    pure none
  | some method => app.guarded (app.method method vm args) (some vm) s!"method \"{name}\""

/-- Watches an expression; the number of the watcher, unless the text is no expression. -/
def watch (vm : Uid) (source : String) (watcher : Watcher) : Run (Option Nat) := do
  match Expr.parse source with
  | .error _ =>
    Run.warn (s!"Failed watching path: \"{source}\" Watcher only accepts simple dot-delimited " ++
      "paths. For full control, use a function instead.") (some vm)
    pure none
  | .ok expr =>
    let value ← expr.evalM (app.getValue vm)
    let id := (← Run.inst vm).nextWatcher
    Run.update vm fun i =>
      { i with nextWatcher := id + 1
               watchers := i.watchers ++ [⟨id, source, expr, watcher, value⟩] }
    if watcher.immediate then
      discard (app.guarded (app.watcher watcher.handler vm value .null) (some vm)
        s!"callback for immediate watcher \"{source}\"")
    pure (some id)

/-- Removes a watcher. -/
def unwatch (vm : Uid) (id : Nat) : Run Unit :=
  Run.update vm fun i => { i with watchers := i.watchers.filter (·.id != id) }

/-- Warns of methods that hide a prop or bear a reserved name. -/
def checkMethods (vm : Uid) (props : Dict PropOptions) : List String → Run Unit
  | [] => pure ()
  | key :: keys => do
    if props.contains key then
      Run.warn s!"Method \"{key}\" has already been defined as a prop." (some vm)
    if Name.isReserved key then
      Run.warn (s!"Method \"{key}\" conflicts with an existing instance method. Avoid defining " ++
        "component methods that start with _ or $.") (some vm)
    checkMethods vm props keys

/-- Gives an instance its methods. -/
def initMethods (vm : Uid) : Run Unit := do
  let options := (← Run.inst vm).options
  checkMethods vm options.props options.methods.keys
  Run.update vm fun i => { i with methods := options.methods }

/-- Runs a data source. Of a merged one the own part runs first, and the inherited part fills
what it lacks. -/
def runSource (vm : Uid) : DataSource → Run (Except Failure Value)
  | .callback id => app.data id vm
  | .merged _ inherited own => do
    match ← runSource vm own with
    | .error f => pure (.error f)
    | .ok mine =>
      match ← runSource vm inherited with
      | .error f => pure (.error f)
      | .ok base => pure (.ok (mine.fill base))

/-- Warns of data under the name of a method or prop. -/
def checkData (vm : Uid) (options : ComponentOptions) : List String → Run Unit
  | [] => pure ()
  | key :: keys => do
    if options.methods.contains key then
      Run.warn s!"Method \"{key}\" has already been defined as a data property." (some vm)
    if options.props.contains key then
      Run.warn (s!"The data property \"{key}\" is already declared as a prop. Use prop default " ++
        "value instead.") (some vm)
    checkData vm options keys

/-- Gives an instance its data. -/
def initData (vm : Uid) : Run Unit := do
  let options := (← Run.inst vm).options
  let result ←
    match options.data with
    | none => pure (Value.object [])
    | some source =>
      pure ((← app.guarded (app.runSource vm source) (some vm) "data()").getD (.object []))
  let data ←
    match result with
    | .object fields => pure fields
    | _ =>
      Run.warn "data functions should return an object." (some vm)
      pure []
  checkData vm options (Dict.keys data)
  Run.update vm fun i => { i with data := data }

/-- Where a name is taken already, for computed values. -/
def clash? (i : Instance) (key : String) : Option String :=
  if i.data.contains key then some "in data"
  else if i.props.contains key then some "as a prop"
  else if i.methods.contains key then some "as a method"
  else none

/-- The computed values whose names are free; the others are reported. -/
def freeComputed (vm : Uid) : Dict CallbackId → Run (Dict CallbackId)
  | [] => pure []
  | (key, getter) :: rest => do
    match clash? (← Run.inst vm) key with
    | none => pure ((key, getter) :: (← freeComputed vm rest))
    | some place =>
      Run.warn s!"The computed property \"{key}\" is already defined {place}." (some vm)
      freeComputed vm rest

/-- Gives an instance its computed values. -/
def initComputed (vm : Uid) : Run Unit := do
  let computed ← freeComputed vm (← Run.inst vm).options.computed
  Run.update vm fun i => { i with computed := computed }

/-- Starts the watchers of one expression. -/
def watchAll (vm : Uid) (source : String) : List Watcher → Run Unit
  | [] => pure ()
  | watcher :: watchers => do
    discard (app.watch vm source watcher)
    watchAll vm source watchers

/-- Starts the watchers of every expression. -/
def initWatch (vm : Uid) : Dict (List Watcher) → Run Unit
  | [] => pure ()
  | (source, watchers) :: rest => do
    app.watchAll vm source watchers
    initWatch vm rest

/-- Gives an instance its state. -/
def initState (vm : Uid) : Run Unit := do
  app.initProps vm
  initMethods vm
  app.initData vm
  initComputed vm
  app.initWatch vm (← Run.inst vm).options.watch

end Application

end ViewTree
