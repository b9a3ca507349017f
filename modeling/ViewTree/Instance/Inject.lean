import ViewTree.Instance.Props
/-!
# Provided and injected values

An injected value is looked up in the nearest living ancestor that provides its key, else taken
from its default.
-/

namespace ViewTree

/-- The value under a key at the nearest of some instances that provides it. -/
def World.provided? (w : World) (key : String) (ancestors : List Uid) : Option Value :=
  ancestors.findSome? fun uid => (w.instance? uid).bind (·.provided.get? key)

namespace Application

variable (app : Application)

/-- The injected values that can be found; the others are reported. -/
def injectedValues (vm : Uid) : Dict InjectOptions → Run (Dict Value)
  | [] => pure []
  | (key, inject) :: rest => do
    let w ← get
    match w.provided? inject.source (w.ancestors vm), inject.default with
    | some v, _ => pure ((key, v) :: (← injectedValues vm rest))
    | none, some default =>
      let v ← app.produce default
      pure ((key, v) :: (← injectedValues vm rest))
    | none, none =>
      Run.warn s!"Injection \"{key}\" not found" (some vm)
      injectedValues vm rest

/-- The values injected into an instance, looked up now. -/
def resolveInject (vm : Uid) : Run (Dict Value) := do
  app.injectedValues vm (← Run.inst vm).options.inject

/-- Gives an instance its injected values. -/
def initInjections (vm : Uid) : Run Unit := do
  let injections ← app.resolveInject vm
  Run.update vm fun i => { i with injections := injections }

end Application

end ViewTree
