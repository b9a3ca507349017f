import ViewTree.Instance.Diagnostics
/-!
# Props

The value of a prop is the one that was passed, with the shorthand for truth values applied, or
its default. What does not fit the declaration is reported and kept.
-/

namespace ViewTree

/-- A passed text that stands for true: empty, or the prop's own name with dashes. -/
def isBooleanShorthand (key text : String) : Bool :=
  text == "" || text == Name.hyphenate key

/-- A text for a prop that takes truth values is cast unless texts come before them. -/
def prefersBoolean (types : List PropType) : Bool :=
  types.find? (fun t => t == .boolean || t == .string) == some .boolean

/-- The passed value, with absent and shorthand truth values made explicit. -/
def castProp (key : String) (prop : PropOptions) (passed : Option Value) : Option Value :=
  if prop.types.contains .boolean then
    match passed with
    | none => if prop.default.isNone then some (.bool false) else none
    | some (.string s) =>
      if isBooleanShorthand key s && prefersBoolean prop.types then some (.bool true)
      else some (.string s)
    | some v => some v
  else passed

/-- The warning about a value of none of the accepted types. -/
def typeMismatchMessage (key : String) (types : List PropType) (v : Value) : String :=
  s!"Invalid prop: type check failed for prop \"{key}\". Expected " ++
    ", ".intercalate (types.map (·.name)) ++ s!", got {v.kindName} with value {v.compact}."

namespace Application

variable (app : Application)

/-- The value that a default stands for. -/
def produce : DefaultValue → Run Value
  | .value v => pure v
  | .factory id => app.factory id

/-- The default of a prop, null without one. A list or an object should come from a factory. -/
def propDefault (key : String) (prop : PropOptions) (vm : Uid) : Run Value := do
  match prop.default with
  | none => pure .null
  | some default =>
    match default with
    | .value v =>
      if v.isCompound then
        Run.warn (s!"Invalid default value for prop \"{key}\": Props with type Object/Array " ++
          "must use a factory function to return the default value.") (some vm)
    | .factory _ => pure ()
    app.produce default

/-- Reports a value that does not fit the declaration. -/
def assertProp (key : String) (prop : PropOptions) (v : Value) (absent : Bool) (vm : Uid) :
    Run Unit := do
  if prop.required && absent then
    Run.warn s!"Missing required prop: \"{key}\"" (some vm)
  else if v.kindName == "Null" && !prop.required then pure ()
  else if !prop.types.isEmpty && !prop.types.any (·.accepts v) then
    Run.warn (typeMismatchMessage key prop.types v) (some vm)
  else
    match prop.validator with
    | none => pure ()
    | some validator =>
      if !(← app.validator validator v) then
        Run.warn s!"Invalid prop: custom validator check failed for prop \"{key}\"." (some vm)

/-- The value of a prop. -/
def validateProp (key : String) (prop : PropOptions) (passed : Dict Value) (vm : Uid) :
    Run Value := do
  let value ←
    match castProp key prop (passed.get? key) with
    | some v => pure v
    | none => app.propDefault key prop vm
  app.assertProp key prop value (!passed.contains key) vm
  pure value

/-- The values of declared props, in order. -/
def propValues (passed : Dict Value) (vm : Uid) : Dict PropOptions → Run (Dict Value)
  | [] => pure []
  | (key, prop) :: rest => do
    let value ← app.validateProp key prop passed vm
    let attr := Name.hyphenate key
    if Name.isReservedAttribute attr then
      Run.warn (s!"\"{attr}\" is a reserved attribute and cannot be used as component prop.")
        (some vm)
    pure ((key, value) :: (← propValues passed vm rest))

/-- Gives an instance its props. -/
def initProps (vm : Uid) : Run Unit := do
  let i ← Run.inst vm
  let props ← app.propValues (i.propsData.getD []) vm i.options.props
  Run.update vm fun i => { i with props := props }

end Application

end ViewTree
