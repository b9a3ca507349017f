import ViewTree.Application.Blueprint
import ViewTree.Instance.Lifecycle
import ViewTree.VNode.Describe
/-!
# Scripts

A script is application code: steps that read and write an instance, call its methods, use its
event bus and write notes, until one returns or fails. `Code` holds the scripts and other pieces
of code that callbacks stand for, and `Code.application` says what they do. Code that runs other
code does so to a bounded depth.
-/

namespace ViewTree

/-- One step of a script. -/
inductive Step where
  | note (v : Value)
  | noteExpr (source : String)
  | noteGet (key : String)
  | noteArgs
  | noteData
  | noteSelf
  | noteSlots
  | set (key : String) (v : Value)
  | setArg (key : String) (index : Nat)
  | add (key : String) (n : Int)
  | call (method : String) (args : List Value)
  | emit (event : String) (args : List Value)
  | on (event label : String)
  | once (event label : String)
  | off (event : Option String) (label : Option String)
  | unwatch (name : String)
  | destroy
  | update
  | mount (el : Option String)
  | within (instanceName : String) (script : List Step)
  | fail (message : String)
  | failWith (outer inner : String)
  | give (v : Value)
  | giveExpr (source : String)
  | giveGet (key : String)
  | giveArg (index : Nat)
  | giveObject (fields : List (String × String))

/-- A script. -/
abbrev Script := List Step

/-- What a script comes to: the value it returned, if it did, or a failure. -/
abbrev Outcome := Except Failure (Option Value)

/-- An object with one field. -/
def Value.single (key : String) (v : Value) : Value :=
  .object [(key, v)]

namespace Script

variable (app : Application) (watchers : Dict Nat)

/-- Writes a note. -/
def note (v : Value) : Run Unit :=
  Run.report (.note v)

/-- The values of several names. -/
def gather (vm : Uid) : List (String × String) → Run (Dict Value)
  | [] => pure []
  | (key, name) :: rest => do
    let v ← app.getValue vm name
    pure (Dict.insert (← gather vm rest) key (v.getD .null))

mutual

/-- Performs the steps on an instance, with the arguments the code was called with. -/
def run (vm : Uid) (args : List Value) : List Step → Run Outcome
  | [] => pure (.ok none)
  | step :: steps => do
    match ← perform vm args step with
    | .ok none => run vm args steps
    | done => pure done

/-- Performs one step. -/
def perform (vm : Uid) (args : List Value) : Step → Run Outcome
  | .note v => do
    note (.single "log" v)
    pure (.ok none)
  | .noteExpr source => do
    let v ← app.resolveIn vm .root source
    note (.record [("expr", .string source), ("value", v)])
    pure (.ok none)
  | .noteGet key => do
    let v ← app.getValue vm key
    note (.record [("get", .string key), ("found", .bool v.isSome), ("value", v.getD .null)])
    pure (.ok none)
  | .noteArgs => do
    note (.single "args" (.array args))
    pure (.ok none)
  | .noteData => do
    note (.single "data" (.object (← Run.inst vm).data))
    pure (.ok none)
  | .noteSelf => do
    note (.record [("uid", .nat vm), ("name", .string ((← get).componentLabel vm)),
      ("same", .bool true)])
    pure (.ok none)
  | .noteSlots => do
    let i ← Run.inst vm
    note (.record [("slots", .strings i.slots.keys), ("scoped", .strings (Dict.keys i.scopedSlots)),
      ("attrs", .object i.attrs), ("listeners", listenerCounts i.listeners)])
    pure (.ok none)
  | .set key v => do
    app.setValue vm key v
    pure (.ok none)
  | .setArg key index => do
    app.setValue vm key (args[index]?.getD .null)
    pure (.ok none)
  | .add key n => do
    let v ← app.getValue vm key
    app.setValue vm key (.int ((v.bind (·.int64?)).getD 0 + n))
    pure (.ok none)
  | .call method given => do
    let v ← app.callMethod vm method given
    note (.record [("call", .string method), ("returned", v.getD .null)])
    pure (.ok none)
  | .emit event given => do
    app.emit vm event given
    pure (.ok none)
  | .on event label => do
    Run.on vm event (.labelled label)
    pure (.ok none)
  | .once event label => do
    Run.once vm event (.labelled label)
    pure (.ok none)
  | .off event label => do
    Run.off vm event (label.map .labelled)
    pure (.ok none)
  | .unwatch name => do
    match watchers.get? name with
    | some id => Application.unwatch vm id
    | none => pure ()
    pure (.ok none)
  | .destroy => do
    app.destroy vm
    pure (.ok none)
  | .update => do
    app.forceUpdate vm
    pure (.ok none)
  | .mount el => do
    app.mount vm el
    pure (.ok none)
  | .within name script => do
    match (← get).instanceNames.get? name with
    | some other =>
      match ← run other args script with
      | .error f => pure (.error f)
      | .ok _ => pure (.ok none)
    | none => pure (.ok none)
  | .fail message => pure (.error ⟨message, []⟩)
  | .failWith outer inner => pure (.error ⟨outer, [inner]⟩)
  | .give v => pure (.ok (some v))
  | .giveExpr source => do pure (.ok (some (← app.resolveIn vm .root source)))
  | .giveGet key => do pure (.ok (some ((← app.getValue vm key).getD .null)))
  | .giveArg index => pure (.ok (some (args[index]?.getD .null)))
  | .giveObject fields => do pure (.ok (some (.object (← gather app vm fields))))

end

/-- The value of a finished script: null unless a step returned one. -/
def value (vm : Uid) (args : List Value) (script : Script) : Run (Except Failure Value) := do
  match ← run app watchers vm args script with
  | .ok v => pure (.ok (v.getD .null))
  | .error f => pure (.error f)

/-- A script run for what it does and not for its value. -/
def effect (vm : Uid) (args : List Value) (script : Script) : Run (Except Failure Unit) := do
  match ← run app watchers vm args script with
  | .ok _ => pure (.ok ())
  | .error f => pure (.error f)

end Script

/-- What the body of a render function builds. -/
inductive RenderBody where
  | root (c : ChildSpec)
  | many (cs : List ChildSpec)
  | pure (v : VNode)
  | call (r : CallSpec)

/-- A render function: a note and a script to begin with, and what it builds. -/
structure RenderSpec where
  log : Option Value
  script : Option Script
  body : RenderBody

/-- The tests that a prop's validator makes. -/
inductive ValidatorKind where
  | positive
  | short
  | always
  | never
deriving DecidableEq

/-- The value passes: a whole number above zero, or a text of fewer than five bytes. -/
def ValidatorKind.accepts (kind : ValidatorKind) (v : Value) : Bool :=
  match kind with
  | positive => match v.int64? with
    | some n => n > 0
    | none => false
  | short => match v with
    | .string s => Text.byteLength s.toList < 5
    | _ => false
  | always => true
  | never => false

/-- What a callback of the application stands for. -/
inductive Callback where
  | script (s : Script)
  | capture (label : String) (result : Bool)
  | render (r : RenderSpec)
  | filter (kind : String)
  | validator (kind : ValidatorKind)
  | factory (v : Value)
  | directive (hook : String)

/-- The code of an application: callbacks by number, the scripts that labelled listeners run, and
the names it keeps watchers under. -/
structure Code where
  callbacks : List Callback
  listeners : Dict (Uid × Script)
  watchers : Dict Nat

/-- The text that a filter makes of a value: capitals, or its own name around the value and the
arguments. -/
def applyFilter (kind : String) (v : Value) (args : List Value) : Value :=
  if kind == "upper" then .string (String.ofList (v.display.toList.map Char.toUpper))
  else .string (kind ++ "[" ++ v.display ++ "|" ++ ",".intercalate (args.map (·.display)) ++ "]")

namespace RenderSpec

variable (app : Application) (watchers : Dict Nat)

/-- Runs a render function. -/
def run (vm : Uid) (r : RenderSpec) : Run Rendered := do
  match r.log with
  | some v => Script.note (.single "log" v)
  | none => Pure.pure ()
  match r.script with
  | some script => discard (Script.run app watchers vm [] script)
  | none => Pure.pure ()
  match r.body with
  | .root c => do Pure.pure (← (app.studio vm).child c .root).toRendered
  | .many cs => do Pure.pure (.many (Child.normalized (← (app.studio vm).childList cs .root)))
  | .pure v => Pure.pure (.node v)
  | .call c => (app.studio vm).call c .root

end RenderSpec

namespace Code

variable (code : Code)

/-- An application whose callbacks do nothing. -/
def idle : Application where
  hook _ _ := pure (.ok ())
  data _ _ := pure (.ok .null)
  method _ _ _ := pure (.ok .null)
  computed _ _ := pure .null
  watcher _ _ _ _ := pure (.ok ())
  errorCaptured _ _ _ _ := pure true
  render _ _ := pure .empty
  filter _ _ _ := pure .null
  validator _ _ := pure true
  factory _ := pure .null
  directive _ _ := pure ()
  listener _ _ := pure ()
  readMark _ := pure ()

/-- The script of a callback; other callbacks have none. -/
def scriptOf (id : CallbackId) : Script :=
  match code.callbacks[id]? with
  | some (.script s) => s
  | _ => []

/-- What the callbacks do, where code that runs code does so to a depth. -/
def application : Nat → Application
  | 0 => idle
  | depth + 1 =>
    { hook := fun id vm =>
        Script.effect (application depth) code.watchers vm [] (code.scriptOf id)
      data := fun id vm =>
        Script.value (application depth) code.watchers vm [] (code.scriptOf id)
      method := fun id vm args =>
        Script.value (application depth) code.watchers vm args (code.scriptOf id)
      computed := fun id vm => do
        match ← Script.value (application depth) code.watchers vm [] (code.scriptOf id) with
        | .ok v => pure v
        | .error _ => pure .null
      watcher := fun id vm new old =>
        Script.effect (application depth) code.watchers vm [new, old] (code.scriptOf id)
      errorCaptured := fun id f vm info => do
        match code.callbacks[id]? with
        | some (.capture label result) =>
          Script.note (.record [("captured", .string label), ("error", .string f.message),
            ("uid", .nat vm), ("info", .string info)])
          pure result
        | _ => pure true
      render := fun id vm =>
        match code.callbacks[id]? with
        | some (.render r) => r.run (application depth) code.watchers vm
        | _ => pure .empty
      filter := fun id v args =>
        match code.callbacks[id]? with
        | some (.filter kind) => pure (applyFilter kind v args)
        | _ => pure .null
      validator := fun id v => do
        Script.note (.single "validate" v)
        match code.callbacks[id]? with
        | some (.validator kind) => pure (kind.accepts v)
        | _ => pure false
      factory := fun id => do
        match code.callbacks[id]? with
        | some (.factory v) =>
          Script.note (.single "factory" v)
          pure v
        | _ => pure .null
      directive := fun id use => do
        match code.callbacks[id]? with
        | some (.directive hook) =>
          Script.note (.record [("directive", .string hook), ("name", .string use.name)])
        | _ => pure ()
      listener := fun label args => do
        Script.note (.record [("event", .string label), ("args", .array args)])
        match code.listeners.get? label with
        | some (vm, script) =>
          match ← Script.effect (application depth) code.watchers vm args script with
          | .ok _ => pure ()
          | .error f => Script.note (.single "listener_error" (.string f.message))
        | none => pure ()
      readMark := fun v => Script.note (.single "read" v) }

end Code

end ViewTree
