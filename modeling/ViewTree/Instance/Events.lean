import ViewTree.Instance.Render
/-!
# The event bus of an instance

An emission calls the listeners that are registered for the event when it begins, in the order
of their registration. Listeners may register and remove others while it runs. A listener that
was registered for one emission takes its latest registration off before it is called.
-/

namespace ViewTree

/-- The handlers without the most recent one for a listener. -/
def removeLatest (listener : Listener) (handlers : List Handler) : List Handler :=
  match handlers.reverse.findIdx? fun h => h.listener.same listener with
  | some i => (handlers.reverse.eraseIdx i).reverse
  | none => handlers

/-- The event asks for one emission only when its name begins with a tilde. -/
def onceName? (event : String) : Option String :=
  match event.toList with
  | '~' :: name => some (String.ofList name)
  | _ => none

namespace Run

/-- Adds a handler after those registered for the event. -/
def addHandler (vm : Uid) (event : String) (h : Handler) : Run Unit :=
  update vm fun i =>
    { i with events := i.events.upsert event [] (· ++ [h])
             hasHookEvent := i.hasHookEvent || event.startsWith "hook:" }

/-- Registers a listener. -/
def on (vm : Uid) (event : String) (listener : Listener) : Run Unit :=
  addHandler vm event ⟨listener, false⟩

/-- Registers a listener for the next emission only. -/
def once (vm : Uid) (event : String) (listener : Listener) : Run Unit :=
  addHandler vm event ⟨listener, true⟩

/-- Removes every listener. -/
def offAll (vm : Uid) : Run Unit :=
  update vm fun i => { i with events := [] }

/-- Removes every listener of an event. -/
def offEvent (vm : Uid) (event : String) : Run Unit :=
  update vm fun i => { i with events := i.events.erase event }

/-- Removes the most recent registration of a listener. -/
def offListener (vm : Uid) (event : String) (listener : Listener) : Run Unit :=
  update vm fun i =>
    match i.events.get? event with
    | some handlers => { i with events := i.events.insert event (removeLatest listener handlers) }
    | none => i

/-- Removes what `event` and `listener` name: all without an event. -/
def off (vm : Uid) (event : Option String) (listener : Option Listener) : Run Unit :=
  match event, listener with
  | none, _ => offAll vm
  | some event, none => offEvent vm event
  | some event, some listener => offListener vm event listener

/-- Somebody listens for the event. -/
def hasListeners (vm : Uid) (event : String) : Run Bool := do
  pure !(((← inst vm).events.get? event).getD []).isEmpty

/-- Registers listeners that a placeholder has for one event. -/
def attachAll (vm : Uid) (event : String) : List Listener → Run Unit
  | [] => pure ()
  | listener :: rest => do
    match onceName? event with
    | some name => once vm name listener
    | none => on vm event listener
    attachAll vm event rest

/-- Registers the listeners that a placeholder has for every event. -/
def attach (vm : Uid) : Dict (List Listener) → Run Unit
  | [] => pure ()
  | (event, listeners) :: rest => do
    attachAll vm event listeners
    attach vm rest

end Run

namespace Application

variable (app : Application)

/-- Points out that somebody listens for the event in lower case. -/
def checkEventCase (vm : Uid) (event : String) : Run Unit := do
  let lower := Text.toLower event
  let w ← get
  if lower != event && (((w.instance? vm).map (·.events.contains lower)).getD false) then
    Run.tip (s!"Event \"{lower}\" is emitted in component {w.componentLabel vm} but the handler " ++
      s!"is registered for \"{event}\". Note that HTML attributes are case-insensitive and you " ++
      "cannot use v-on to listen to camelCase events when using in-DOM templates. You should " ++
      s!"probably use \"{Name.hyphenate event}\" instead of \"{event}\".") (some vm)

/-- Calls handlers of an event in order. -/
def callHandlers (vm : Uid) (event : String) (args : List Value) : List Handler → Run Unit
  | [] => pure ()
  | h :: rest => do
    if h.once then
      if (← get).alive vm then Run.offListener vm event h.listener
    app.callListener args h.listener
    callHandlers vm event args rest

/-- Emits an event. -/
def emit (vm : Uid) (event : String) (args : List Value) : Run Unit := do
  checkEventCase vm event
  app.callHandlers vm event args (((← Run.inst vm).events.get? event).getD [])

end Application

end ViewTree
