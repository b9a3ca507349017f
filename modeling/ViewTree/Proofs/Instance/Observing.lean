import ViewTree.Proofs.Instance.Noting
import ViewTree.Proofs.Instance.WatcherEvents
/-!
# Runs that keep note of what happens to watchers

Writing runs watchers, and tearing an instance down runs hooks and listeners, whose code may do the
same again. Here the functions that take part in it are stated once more, over runs that also keep
note of what happens to watchers. Code is described by routines: what it reads, writes, watches,
unwatches, calls, emits and destroys, and what else it does that leaves watchers alone.
-/

namespace ViewTree

/-- A run that keeps note of what happens to watchers. -/
abbrev Observed := Noting WatcherEvent

/-- The note of something that happens to watchers. Only an instance that exists has any. -/
def WatcherEvent.noteIn (e : WatcherEvent) (w : World) : List WatcherEvent :=
  if (w.instance? e.vm).isSome then [e] else []

namespace Observed

/-- Makes a note of something that happens to watchers. -/
def note (e : WatcherEvent) : Observed Unit := do
  let w ← (get : Run World)
  modify (· ++ e.noteIn w)

/-- Changes an instance, and makes a note of what that does to its watchers. -/
def change (f : Instance → Instance) (e : WatcherEvent) : Observed Unit := do
  Run.update e.vm f
  note e

/-- Registers a watcher under the next number. One that is immediate is to be called at once. -/
def register (vm : Uid) (source : String) (expr : Expr) (watcher : Watcher) (value : Value) :
    Observed Nat := do
  let id := (← Run.inst vm).nextWatcher
  change
    (fun i => { i with nextWatcher := id + 1
                       watchers := i.watchers ++ [⟨id, source, expr, watcher, value⟩] })
    (.registered vm ⟨id, source, watcher⟩)
  if watcher.immediate then note (.called vm ⟨id, source, watcher⟩ value .null)
  pure id

/-- Keeps an instance alive during an operation. -/
def pinned {α : Type} (uid : Uid) (act : Observed α) : Observed α := do
  (modify fun w => { w with pins := uid :: w.pins } : Run Unit)
  let result ← act
  (modify fun w => { w with pins := w.pins.erase uid } : Run Unit)
  pure result

/-- Removes a watcher. -/
def unwatch (vm : Uid) (id : Nat) : Observed Unit :=
  change (fun i => { i with watchers := i.watchers.filter (·.id != id) }) (.removed vm id)

end Observed

/-- The code that is called while watchers are run and instances torn down. -/
structure Observing where
  hook : CallbackId → Uid → Observed (Except Failure Unit)
  method : CallbackId → Uid → List Value → Observed (Except Failure Value)
  computed : CallbackId → Uid → Observed Value
  watcher : CallbackId → Uid → Value → Value → Observed (Except Failure Unit)
  errorCaptured : CallbackId → Failure → Uid → String → Observed Bool
  listener : String → List Value → Observed Unit

namespace Observing

variable (ob : Observing)

/-! ## Failures -/

/-- Shows a failure to capturing hooks in order. -/
def captureWith (f : Failure) (vm : Uid) (info : String) : List CallbackId → Observed Bool
  | [] => pure true
  | hook :: hooks => do
    if ← ob.errorCaptured hook f vm info then captureWith f vm info hooks else pure false

/-- Shows a failure to the capturing hooks of every living ancestor. -/
def captureAbove (f : Failure) (vm : Uid) (info : String) (uid : Uid) : Observed Bool := do
  match (← (get : Run World)).parent? uid with
  | none => pure true
  | some parent =>
    if parent < uid then
      let hooks := (← Run.inst parent).options.errorCaptured
      if ← ob.captureWith f vm info hooks then captureAbove f vm info parent
      else pure false
    else pure true
termination_by uid

/-- Routes a failure of application code on an instance. -/
def handleFailure (f : Failure) (vm : Uid) (info : String) : Observed Unit := do
  if ← ob.captureAbove f vm info vm then Run.failGlobally f (some vm) info

/-- Runs a callback; a failure is routed and gives nothing. -/
def guarded {α : Type} (act : Observed (Except Failure α)) (vm : Uid) (info : String) :
    Observed (Option α) := do
  match ← act with
  | .ok a => pure (some a)
  | .error f =>
    ob.handleFailure f vm info
    pure none

/-! ## Values and watchers -/

/-- The value of a declared name. -/
def getValue (vm : Uid) (key : String) : Observed (Option Value) := do
  let i ← Run.inst vm
  match i.props.get? key with
  | some v => pure (some v)
  | none =>
    match if Name.isReserved key then none else i.data.get? key with
    | some v => pure (some v)
    | none =>
      match i.computed.get? key with
      | some getter => pure (some (← ob.computed getter vm))
      | none => pure ((← Run.inst vm).injections.get? key)

/-- Runs the watchers of a snapshot whose expressions have new values. -/
def notifyWatchers (vm : Uid) : List ActiveWatcher → Observed Unit
  | [] => pure ()
  | active :: rest => do
    let value ← active.expr.evalM (ob.getValue vm)
    if value != active.value then
      let watchers := (← Run.inst vm).watchers
      if watchers.any (·.id == active.id) then
        Observed.change
          (fun i => { i with watchers := i.watchers.map fun w =>
            if w.id == active.id then { w with value := value } else w })
          (.called vm active.registration value active.value)
        discard (ob.guarded (ob.watcher active.watcher.handler vm value active.value) vm
          s!"callback for watcher \"{active.source}\"")
    notifyWatchers vm rest

/-- Evaluates all watched expressions and runs the watchers whose value changed. -/
def runWatchers (vm : Uid) : Observed Unit := do
  ob.notifyWatchers vm (← Run.inst vm).watchers

/-- Writes a data property or a prop, and runs the watchers. -/
def setValue (vm : Uid) (key : String) (value : Value) : Observed Unit := do
  let i ← Run.inst vm
  if i.data.contains key then
    Run.update vm fun i => { i with data := i.data.insert key value }
    ob.runWatchers vm
  else if i.props.contains key then
    Run.warn ("Avoid mutating a prop directly since the value will be overwritten whenever the " ++
      "parent component re-renders. Instead, use a data or computed property based on the " ++
      s!"prop's value. Prop being mutated: \"{key}\"") (some vm)
    Run.update vm fun i => { i with props := i.props.insert key value }
    ob.runWatchers vm
  else
    Run.warn (s!"Avoid adding properties to an instance at runtime - declare \"{key}\" upfront " ++
      "in the data option.") (some vm)

/-- Watches an expression. -/
def watch (vm : Uid) (source : String) (watcher : Watcher) : Observed (Option Nat) := do
  match Expr.parse source with
  | .error _ =>
    Run.warn (s!"Failed watching path: \"{source}\" Watcher only accepts simple dot-delimited " ++
      "paths. For full control, use a function instead.") (some vm)
    pure none
  | .ok expr =>
    let value ← expr.evalM (ob.getValue vm)
    let id ← Observed.register vm source expr watcher value
    if watcher.immediate then
      discard (ob.guarded (ob.watcher watcher.handler vm value .null) vm
        s!"callback for immediate watcher \"{source}\"")
    pure (some id)

/-! ## Methods and listeners -/

/-- Calls a method; a failure is routed and gives nothing. -/
def callMethod (vm : Uid) (name : String) (args : List Value) : Observed (Option Value) := do
  match (← Run.inst vm).methods.get? name with
  | none =>
    Run.warn s!"Method \"{name}\" is not defined." (some vm)
    pure none
  | some method => ob.guarded (ob.method method vm args) vm s!"method \"{name}\""

/-- The value of a name in a local scope, then in the instance. -/
def lookupIn (vm : Uid) (scope : Scope) (name : String) : Observed (Option Value) := do
  match scope.lookup name with
  | some v => pure (some v)
  | none =>
    let i ← Run.inst vm
    if name == "$data" then pure (some (.object i.data))
    else if name == "$props" then pure (some (.object i.props))
    else if name == "$attrs" then pure (some (.object i.attrs))
    else
      match ← ob.getValue vm name with
      | some v => pure (some v)
      | none =>
        Run.warnNotPresent vm name
        pure none

/-- The value of a template expression. -/
def resolveIn (vm : Uid) (scope : Scope) (source : String) : Observed Value := do
  match Expr.parse source with
  | .ok e => e.evalM (ob.lookupIn vm scope)
  | .error err =>
    Run.warn s!"Error in render: invalid expression \"{source}\": {err.message}" (some vm)
    pure .null

/-- The values of a call's arguments in order. -/
def argumentValues (vm : Uid) (scope : Scope) : List String → Observed (List Value)
  | [] => pure []
  | arg :: args => do
    let v ← ob.resolveIn vm scope (Text.trim arg)
    pure (v :: (← argumentValues vm scope args))

/-- Runs the method that a handler names. -/
def callHandler (vm : Uid) (name : String) (args : List Value) : Observed Unit := do
  match (← Run.inst vm).methods.get? name with
  | some method => discard (ob.guarded (ob.method method vm args) vm "v-on handler")
  | none =>
    Run.warn s!"Invalid handler for event: method \"{name}\" is not defined" (some vm)

/-- Runs a template handler: a method name or a call. -/
def invokeHandler (vm : Uid) (scope : Scope) (handler : String) (args : List Value) :
    Observed Unit := do
  let scope := scope.bind "$event" (args.head?.getD .null)
  match splitCall? handler with
  | some (name, source) =>
    let values ← ob.argumentValues vm scope (Expr.splitArguments source)
    ob.callHandler vm name values
  | none =>
    if Name.isIdentifier handler then ob.callHandler vm handler args
    else Run.warn s!"Invalid handler for event: \"{handler}\"" (some vm)

/-- Calls a listener. -/
def callListener (args : List Value) : Listener → Observed Unit
  | .silent => pure ()
  | .labelled label => ob.listener label args
  | .handler _ owner scope source => do
    if (← (get : Run World)).alive owner then
      Observed.pinned owner (ob.invokeHandler owner scope source args)

/-- Calls handlers of an event in order. -/
def callHandlers (vm : Uid) (event : String) (args : List Value) : List Handler → Observed Unit
  | [] => pure ()
  | h :: rest => do
    if h.once then
      if (← (get : Run World)).alive vm then Run.offListener vm event h.listener
    ob.callListener args h.listener
    callHandlers vm event args rest

/-- Emits an event. -/
def emit (vm : Uid) (event : String) (args : List Value) : Observed Unit := do
  Application.checkEventCase vm event
  ob.callHandlers vm event args (((← Run.inst vm).events.get? event).getD [])

/-! ## Teardown -/

/-- Runs hooks in order. -/
def runHooks (vm : Uid) (info : String) : List CallbackId → Observed Unit
  | [] => pure ()
  | hook :: hooks => do
    discard (ob.guarded (ob.hook hook vm) vm info)
    runHooks vm info hooks

/-- Runs the hooks of a moment, and emits `hook:` with its name. -/
def callHook (vm : Uid) (hook : LifecycleHook) : Observed Unit := do
  ob.runHooks vm s!"{hook.name} hook" ((← Run.inst vm).options.hooks.hooksOf hook)
  if (← Run.inst vm).hasHookEvent then ob.emit vm s!"hook:{hook.name}" []

/-- Performs `act` on each instance in order; each is kept alive until its turn is over. -/
def forEachPinned (act : Uid → Observed Unit) (uids : List Uid) : Observed Unit := do
  (modify fun w => { w with pins := uids ++ w.pins } : Run Unit)
  go uids
where
  /-- The instances whose turn has not come. -/
  go : List Uid → Observed Unit
    | [] => pure ()
    | uid :: rest => do
      act uid
      (modify fun w => { w with pins := w.pins.erase uid } : Run Unit)
      go rest

/-- Tears an instance down to a depth of descendants. -/
def destroyWithin : Nat → Uid → Observed Unit
  | 0, _ => pure ()
  | depth + 1, vm => do
    if !(← Run.inst vm).beingDestroyed then
      ob.callHook vm .beforeDestroy
      Run.update vm fun i => { i with beingDestroyed := true }
      Application.unlink vm
      let children := (← Run.inst vm).children
      Run.update vm fun i => { i with children := [] }
      forEachPinned (destroyWithin depth) children
      Observed.change (fun i => { i with watchers := [], vnode := none, destroyed := true })
        (.cleared vm)
      ob.callHook vm .destroyed
      Run.offAll vm

/-- Tears an instance down with all its descendants. -/
def destroy (vm : Uid) : Observed Unit := do
  ob.destroyWithin ((← (get : Run World)).instances.length + 1) vm

end Observing

/-! ## Routines -/

/-- What a piece of code does: it reads, writes, watches, unwatches, calls methods, emits and
destroys, and between that does other things and looks at the state they lead to. -/
inductive Routine (α : Type) where
  | done (a : α)
  | act (q : Quiet) (next : World → Routine α)
  | get (vm : Uid) (key : String) (next : Option Value → Routine α)
  | set (vm : Uid) (key : String) (value : Value) (next : Routine α)
  | watch (vm : Uid) (source : String) (watcher : Watcher) (next : Option Nat → Routine α)
  | unwatch (vm : Uid) (id : Nat) (next : Routine α)
  | call (vm : Uid) (method : String) (args : List Value) (next : Option Value → Routine α)
  | emit (vm : Uid) (event : String) (args : List Value) (next : Routine α)
  | destroy (vm : Uid) (next : Routine α)

namespace Routine

variable {α : Type}

/-- Runs a routine in an application. -/
def run (app : Application) : Routine α → Run α
  | done a => pure a
  | act q next => do
    let w ← (modifyGet fun w => (q.happen w, q.happen w) : Run World)
    run app (next w)
  | get vm key next => do
    let v ← app.getValue vm key
    run app (next v)
  | set vm key value next => do
    app.setValue vm key value
    run app next
  | watch vm source watcher next => do
    let id ← app.watch vm source watcher
    run app (next id)
  | unwatch vm id next => do
    Application.unwatch vm id
    run app next
  | call vm method args next => do
    let v ← app.callMethod vm method args
    run app (next v)
  | emit vm event args next => do
    app.emit vm event args
    run app next
  | destroy vm next => do
    app.destroy vm
    run app next

/-- Runs a routine and keeps note of what happens to watchers. -/
def observe (ob : Observing) : Routine α → Observed α
  | done a => pure a
  | act q next => do
    let w ← (modifyGet fun w => (q.happen w, q.happen w) : Run World)
    observe ob (next w)
  | get vm key next => do
    let v ← ob.getValue vm key
    observe ob (next v)
  | set vm key value next => do
    ob.setValue vm key value
    observe ob next
  | watch vm source watcher next => do
    let id ← ob.watch vm source watcher
    observe ob (next id)
  | unwatch vm id next => do
    Observed.unwatch vm id
    observe ob next
  | call vm method args next => do
    let v ← ob.callMethod vm method args
    observe ob (next v)
  | emit vm event args next => do
    ob.emit vm event args
    observe ob next
  | destroy vm next => do
    ob.destroy vm
    observe ob next

end Routine

/-- The code of an application that is called while watchers are run and instances torn down. -/
structure Routines where
  hook : CallbackId → Uid → Routine (Except Failure Unit)
  method : CallbackId → Uid → List Value → Routine (Except Failure Value)
  computed : CallbackId → Uid → Routine Value
  watcher : CallbackId → Uid → Value → Value → Routine (Except Failure Unit)
  errorCaptured : CallbackId → Failure → Uid → String → Routine Bool
  listener : String → List Value → Routine Unit

namespace Routines

variable (code : Routines)

/-- The application of some code, where code that runs code does so to a depth. -/
def application : Nat → Application
  | 0 => Code.idle
  | depth + 1 =>
    { Code.idle with
      hook := fun id vm => (code.hook id vm).run (application depth)
      method := fun id vm args => (code.method id vm args).run (application depth)
      computed := fun id vm => (code.computed id vm).run (application depth)
      watcher := fun id vm new old => (code.watcher id vm new old).run (application depth)
      errorCaptured := fun id f vm info =>
        (code.errorCaptured id f vm info).run (application depth)
      listener := fun label args => (code.listener label args).run (application depth) }

/-- The same, where note is kept of what happens to watchers. -/
def observing : Nat → Observing
  | 0 =>
    { hook := fun _ _ => pure (.ok ())
      method := fun _ _ _ => pure (.ok .null)
      computed := fun _ _ => pure .null
      watcher := fun _ _ _ _ => pure (.ok ())
      errorCaptured := fun _ _ _ _ => pure true
      listener := fun _ _ => pure () }
  | depth + 1 =>
    { hook := fun id vm => (code.hook id vm).observe (observing depth)
      method := fun id vm args => (code.method id vm args).observe (observing depth)
      computed := fun id vm => (code.computed id vm).observe (observing depth)
      watcher := fun id vm new old => (code.watcher id vm new old).observe (observing depth)
      errorCaptured := fun id f vm info =>
        (code.errorCaptured id f vm info).observe (observing depth)
      listener := fun label args => (code.listener label args).observe (observing depth) }

end Routines

end ViewTree
