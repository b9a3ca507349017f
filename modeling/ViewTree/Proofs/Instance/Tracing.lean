import ViewTree.Application.Script
import ViewTree.Proofs.Instance.Sightings
/-!
# Runs that keep note of what watchers see

Writes run watchers, handlers of watchers write again, and so on. Here the functions that take part
in it are stated once more, over runs that also keep note of what watchers see. The code that they
call on the way is described by reactions: what it writes, watches and unwatches, and what else it
does that leaves watchers alone. A reaction runs in either way. That the notes change nothing is
shown later, with what they say.
-/

namespace ViewTree

/-- A run that keeps note of what watchers see. -/
abbrev Traced := StateT (List Sighting) Run

/-- Makes a note. -/
def Traced.note (s : Sighting) : Traced Unit :=
  modify (· ++ [s])

/-- The number of notes so far. -/
def Traced.count : Traced Nat := do
  pure (← get).length

/-- The code that is called while watchers are run. -/
structure Tracing where
  computed : CallbackId → Uid → Traced Value
  watcher : CallbackId → Uid → Value → Value → Traced (Except Failure Unit)
  errorCaptured : CallbackId → Failure → Uid → String → Traced Bool

namespace Tracing

variable (tr : Tracing)

/-- The value of a declared name. -/
def getValue (vm : Uid) (key : String) : Traced (Option Value) := do
  let i ← Run.inst vm
  match i.props.get? key with
  | some v => pure (some v)
  | none =>
    match if Name.isReserved key then none else i.data.get? key with
    | some v => pure (some v)
    | none =>
      match i.computed.get? key with
      | some getter => pure (some (← tr.computed getter vm))
      | none => pure ((← Run.inst vm).injections.get? key)

/-- Shows a failure to capturing hooks in order. -/
def captureWith (f : Failure) (vm : Uid) (info : String) : List CallbackId → Traced Bool
  | [] => pure true
  | hook :: hooks => do
    if ← tr.errorCaptured hook f vm info then captureWith f vm info hooks else pure false

/-- Shows a failure to the capturing hooks of every living ancestor. -/
def captureAbove (f : Failure) (vm : Uid) (info : String) (uid : Uid) : Traced Bool := do
  match (← (get : Run World)).parent? uid with
  | none => pure true
  | some parent =>
    if parent < uid then
      let hooks := (← Run.inst parent).options.errorCaptured
      if ← tr.captureWith f vm info hooks then captureAbove f vm info parent
      else pure false
    else pure true
termination_by uid

/-- Routes a failure of application code on an instance. -/
def handleFailure (f : Failure) (vm : Uid) (info : String) : Traced Unit := do
  if ← tr.captureAbove f vm info vm then Run.failGlobally f (some vm) info

/-- Runs a callback; a failure is routed and gives nothing. -/
def guarded {α : Type} (act : Traced (Except Failure α)) (vm : Uid) (info : String) :
    Traced (Option α) := do
  match ← act with
  | .ok a => pure (some a)
  | .error f =>
    tr.handleFailure f vm info
    pure none

/-- Runs the watchers of a snapshot whose expressions have new values, in a pass that began after
some number of sightings. -/
def notifyWatchers (vm : Uid) (start : Nat) : List ActiveWatcher → Traced Unit
  | [] => pure ()
  | active :: rest => do
    let value ← active.expr.evalM (tr.getValue vm)
    if value != active.value then
      let watchers := (← Run.inst vm).watchers
      if watchers.any (·.id == active.id) then
        Run.update vm fun i =>
          { i with watchers := i.watchers.map fun w =>
              if w.id == active.id then { w with value := value } else w }
        Traced.note (.told vm active.id value active.value start)
        discard (tr.guarded (tr.watcher active.watcher.handler vm value active.value) vm
          s!"callback for watcher \"{active.source}\"")
    notifyWatchers vm start rest

/-- Evaluates all watched expressions and runs the watchers whose value changed. -/
def runWatchers (vm : Uid) : Traced Unit := do
  let start ← Traced.count
  tr.notifyWatchers vm start (← Run.inst vm).watchers

/-- Writes a data property or a prop, and runs the watchers. -/
def setValue (vm : Uid) (key : String) (value : Value) : Traced Unit := do
  let i ← Run.inst vm
  if i.data.contains key then
    Run.update vm fun i => { i with data := i.data.insert key value }
    tr.runWatchers vm
  else if i.props.contains key then
    Run.warn ("Avoid mutating a prop directly since the value will be overwritten whenever the " ++
      "parent component re-renders. Instead, use a data or computed property based on the " ++
      s!"prop's value. Prop being mutated: \"{key}\"") (some vm)
    Run.update vm fun i => { i with props := i.props.insert key value }
    tr.runWatchers vm
  else
    Run.warn (s!"Avoid adding properties to an instance at runtime - declare \"{key}\" upfront " ++
      "in the data option.") (some vm)

/-- Watches an expression. -/
def watch (vm : Uid) (source : String) (watcher : Watcher) : Traced (Option Nat) := do
  match Expr.parse source with
  | .error _ =>
    Run.warn (s!"Failed watching path: \"{source}\" Watcher only accepts simple dot-delimited " ++
      "paths. For full control, use a function instead.") (some vm)
    pure none
  | .ok expr =>
    let value ← expr.evalM (tr.getValue vm)
    let id := (← Run.inst vm).nextWatcher
    Run.update vm fun i =>
      { i with nextWatcher := id + 1
               watchers := i.watchers ++ [⟨id, source, expr, watcher, value⟩] }
    Traced.note (.registered vm id value)
    if watcher.immediate then
      discard (tr.guarded (tr.watcher watcher.handler vm value .null) vm
        s!"callback for immediate watcher \"{source}\"")
    pure (some id)

end Tracing

/-! ## Reactions -/

/-- The watchers of an instance, and the number of the next one. -/
def World.watching (w : World) (vm : Uid) : List ActiveWatcher × Nat :=
  let i := (w.instance? vm).getD default
  (i.watchers, i.nextWatcher)

/-- Something that happens and leaves all watchers as they are. -/
structure Quiet where
  happen : World → World
  keeps : ∀ w vm, (happen w).watching vm = w.watching vm

/-- What a piece of code does: it writes, watches and unwatches, and between that does other things
and looks at the state they lead to. -/
inductive Reaction (α : Type) where
  | done (a : α)
  | act (q : Quiet) (next : World → Reaction α)
  | set (vm : Uid) (key : String) (value : Value) (next : Reaction α)
  | watch (vm : Uid) (source : String) (watcher : Watcher) (next : Option Nat → Reaction α)
  | unwatch (vm : Uid) (id : Nat) (next : Reaction α)

namespace Reaction

variable {α : Type}

/-- Runs a reaction in an application. -/
def run (app : Application) : Reaction α → Run α
  | done a => pure a
  | act q next => do
    modify q.happen
    run app (next (← get))
  | set vm key value next => do
    app.setValue vm key value
    run app next
  | watch vm source watcher next => do
    let id ← app.watch vm source watcher
    run app (next id)
  | unwatch vm id next => do
    Application.unwatch vm id
    run app next

/-- Runs a reaction and keeps note of what watchers see. -/
def trace (tr : Tracing) : Reaction α → Traced α
  | done a => pure a
  | act q next => do
    let w ← (modifyGet fun w => (q.happen w, q.happen w) : Run World)
    trace tr (next w)
  | set vm key value next => do
    tr.setValue vm key value
    trace tr next
  | watch vm source watcher next => do
    let id ← tr.watch vm source watcher
    trace tr (next id)
  | unwatch vm id next => do
    Application.unwatch vm id
    trace tr next

end Reaction

/-- The code of an application that is called while watchers are run: getters of computed values,
handlers of watchers, and hooks that capture failures. -/
structure Reactions where
  computed : CallbackId → Uid → Reaction Value
  watcher : CallbackId → Uid → Value → Value → Reaction (Except Failure Unit)
  errorCaptured : CallbackId → Failure → Uid → String → Reaction Bool

namespace Reactions

variable (code : Reactions)

/-- The application of some code, where code that runs code does so to a depth. -/
def application : Nat → Application
  | 0 => Code.idle
  | depth + 1 =>
    { Code.idle with
      computed := fun id vm => (code.computed id vm).run (application depth)
      watcher := fun id vm new old => (code.watcher id vm new old).run (application depth)
      errorCaptured := fun id f vm info =>
        (code.errorCaptured id f vm info).run (application depth) }

/-- The same, where note is kept of what watchers see. -/
def tracing : Nat → Tracing
  | 0 => ⟨fun _ _ => pure .null, fun _ _ _ _ => pure (.ok ()), fun _ _ _ _ => pure true⟩
  | depth + 1 =>
    { computed := fun id vm => (code.computed id vm).trace (tracing depth)
      watcher := fun id vm new old => (code.watcher id vm new old).trace (tracing depth)
      errorCaptured := fun id f vm info => (code.errorCaptured id f vm info).trace (tracing depth) }

end Reactions

end ViewTree
