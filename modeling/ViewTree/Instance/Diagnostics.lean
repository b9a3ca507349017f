import ViewTree.World
/-!
# Warnings and failures

A warning names the place in the component tree it comes from. A failure of application code is
shown to the capturing hooks of the ancestors, nearest first, until one returns false; if none
does, it goes to the error handler, or becomes a warning and an entry in the log.
-/

namespace ViewTree

namespace World

/-- `<Root>` for an instance without a parent, else its name or tag in angle brackets. -/
def componentLabel (w : World) (uid : Uid) : String :=
  match w.parent? uid, w.instance? uid with
  | some _, some vm =>
    match vm.options.name <|> vm.componentTag with
    | some name => "<" ++ Name.classify name ++ ">"
    | none => "<Anonymous>"
  | _, _ => "<Root>"

/-- The lines of a trace below the first, each two columns further in. -/
def traceLines (w : World) : Nat → List Uid → List String
  | _, [] => []
  | depth, uid :: rest =>
    (String.ofList (List.replicate (5 + depth * 2) ' ') ++ w.componentLabel uid) ::
      traceLines w (depth + 1) rest

/-- The components from an instance up to its root. -/
def componentTrace (w : World) (uid : Uid) : String :=
  match w.ancestors uid with
  | [] => s!"\n\n(found in {w.componentLabel uid})"
  | ancestors =>
    "\n\nfound in\n\n" ++ "\n".intercalate
      (("---> " ++ w.componentLabel uid) :: w.traceLines 1 ancestors)

/-- The trace of an instance, or nothing without one. -/
def optTrace (w : World) : Option Uid → String
  | some uid => w.componentTrace uid
  | none => ""

end World

namespace Run

/-- Reports a warning, unless warnings are silenced. -/
def warn (message : String) (vm : Option Uid) : Run Unit := do
  let w ← get
  if !w.config.silent then
    if w.config.warnHandler then report (.warning message (w.optTrace vm))
    else report (.log .warn (message ++ w.optTrace vm))

/-- Reports a usage that works but is likely unintended. -/
def tip (message : String) (vm : Option Uid) : Run Unit := do
  let w ← get
  if !w.config.silent then report (.log .info ("tip: " ++ message ++ w.optTrace vm))

/-- Gives a failure to the error handler, or warns and logs it. -/
def failGlobally (f : Failure) (vm : Option Uid) (info : String) : Run Unit := do
  if (← get).config.errorHandler then report (.failure f vm info)
  else
    warn s!"Error in {info}: \"{f.message}\"" vm
    report (.log .error f.chain)

end Run

namespace Application

variable (app : Application)

/-- Shows a failure to capturing hooks in order; false when one of them stopped it. -/
def captureWith (f : Failure) (vm : Uid) (info : String) : List CallbackId → Run Bool
  | [] => pure true
  | hook :: hooks => do
    if ← app.errorCaptured hook f vm info then captureWith f vm info hooks else pure false

/-- Shows a failure to the capturing hooks of every living ancestor from `uid` upwards; false
when one of them stopped it. -/
def captureAbove (f : Failure) (vm : Uid) (info : String) (uid : Uid) : Run Bool := do
  match (← get).parent? uid with
  | none => pure true
  | some parent =>
    if parent < uid then
      let hooks := (← Run.inst parent).options.errorCaptured
      if ← app.captureWith f vm info hooks then captureAbove f vm info parent
      else pure false
    else pure true
termination_by uid

/-- Routes a failure of application code. -/
def handleFailure (f : Failure) (vm : Option Uid) (info : String) : Run Unit := do
  match vm with
  | none => Run.failGlobally f none info
  | some uid =>
    if ← app.captureAbove f uid info uid then Run.failGlobally f vm info

/-- Runs a callback; a failure is routed and gives nothing. -/
def guarded {α : Type} (act : Run (Except Failure α)) (vm : Option Uid) (info : String) :
    Run (Option α) := do
  match ← act with
  | .ok a => pure (some a)
  | .error f =>
    app.handleFailure f vm info
    pure none

end Application

end ViewTree
