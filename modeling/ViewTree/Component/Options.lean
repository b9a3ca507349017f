import ViewTree.Name
import ViewTree.Value.Basic
/-!
# Component options

The configuration of a component, one layer of it or the merged result of several. Callbacks are
named by handles and compared by them; what a handle does is the application's business.
-/

namespace ViewTree

/-- Names a callback of the application. -/
abbrev CallbackId := Nat

/-- The number of a component definition. -/
abbrev Cid := Nat

/-- The moments of an instance's life at which hooks run. -/
inductive LifecycleHook where
  | beforeCreate
  | created
  | beforeMount
  | mounted
  | beforeUpdate
  | updated
  | beforeDestroy
  | destroyed
  | activated
  | deactivated
deriving DecidableEq

namespace LifecycleHook

/-- All hooks in the order of an instance's life. -/
def all : List LifecycleHook :=
  [beforeCreate, created, beforeMount, mounted, beforeUpdate, updated, beforeDestroy, destroyed,
    activated, deactivated]

/-- The name of the hook. -/
def name : LifecycleHook → String
  | beforeCreate => "beforeCreate"
  | created => "created"
  | beforeMount => "beforeMount"
  | mounted => "mounted"
  | beforeUpdate => "beforeUpdate"
  | updated => "updated"
  | beforeDestroy => "beforeDestroy"
  | destroyed => "destroyed"
  | activated => "activated"
  | deactivated => "deactivated"

/-- The hook of a name. -/
def ofName? (name : String) : Option LifecycleHook :=
  all.find? (·.name == name)

end LifecycleHook

/-- Where data comes from: a callback, or the data of two layers laid over each other. Merged
sources carry a number of their own, by which they are told apart. -/
inductive DataSource where
  | callback (id : CallbackId)
  | merged (id : Nat) (inherited own : DataSource)

/-- The same callback, or the same merge. -/
def DataSource.same : DataSource → DataSource → Bool
  | callback a, callback b => a == b
  | merged a _ _, merged b _ _ => a == b
  | _, _ => false

instance : BEq DataSource := ⟨DataSource.same⟩

/-- The types a prop may accept. -/
inductive PropType where
  | string
  | number
  | boolean
  | array
  | object
deriving DecidableEq

namespace PropType

/-- The name of the type. -/
def name : PropType → String
  | string => "String"
  | number => "Number"
  | boolean => "Boolean"
  | array => "Array"
  | object => "Object"

/-- The type of a name. -/
def ofName? (name : String) : Option PropType :=
  [string, number, boolean, array, object].find? (·.name == name)

/-- The value is of the type. -/
def accepts (t : PropType) (v : Value) : Bool :=
  v.kindName == t.name

end PropType

/-- The default of a prop or an injection: a value, or a factory that makes a fresh one. -/
inductive DefaultValue where
  | value (v : Value)
  | factory (id : CallbackId)
deriving BEq

/-- The declaration of a prop; no types accept anything. -/
structure PropOptions where
  types : List PropType
  required : Bool
  default : Option DefaultValue
  validator : Option CallbackId
deriving BEq

/-- The declaration of an injected value and the key it is provided under. -/
structure InjectOptions where
  source : String
  default : Option DefaultValue
deriving BEq

/-- A callback run when a watched expression changes. -/
structure Watcher where
  handler : CallbackId
  immediate : Bool
deriving DecidableEq

/-- The callbacks of a directive. -/
structure DirectiveHooks where
  bind : Option CallbackId
  inserted : Option CallbackId
  update : Option CallbackId
  unbind : Option CallbackId
deriving DecidableEq

/-- Hooks by the moment they run at; a moment without an entry has none. -/
abbrev HookTable := List (LifecycleHook × List CallbackId)

/-- The hooks that run at a moment. -/
def HookTable.hooksOf (table : HookTable) (hook : LifecycleHook) : List CallbackId :=
  match table.find? fun e => e.1 == hook with
  | some e => e.2
  | none => []

/-- The table with the hooks of one moment replaced. -/
def HookTable.set (table : HookTable) (hook : LifecycleHook) (ids : List CallbackId) :
    HookTable :=
  table.filter (fun e => e.1 != hook) ++ [(hook, ids)]

/-- The options of a component. `el` and `propsData` belong to the creation of an instance;
`extending` and `mixins` are further layers below this one, and are gone after merging. -/
structure ComponentOptions where
  name : Option String
  el : Option String
  propsData : Option (Dict Value)
  data : Option DataSource
  props : Dict PropOptions
  methods : Dict CallbackId
  computed : Dict CallbackId
  watch : Dict (List Watcher)
  hooks : HookTable
  errorCaptured : List CallbackId
  components : Dict Cid
  directives : Dict DirectiveHooks
  filters : Dict CallbackId
  provide : Option DataSource
  inject : Dict InjectOptions
  render : Option CallbackId
  staticRenderFns : List CallbackId
  template : Option String
  functional : Bool
  delimiters : Option (String × String)
  extending : Option ComponentOptions
  mixins : List ComponentOptions

namespace ComponentOptions

/-- Options with nothing set. -/
def empty : ComponentOptions where
  name := none
  el := none
  propsData := none
  data := none
  props := []
  methods := []
  computed := []
  watch := []
  hooks := []
  errorCaptured := []
  components := []
  directives := []
  filters := []
  provide := none
  inject := []
  render := none
  staticRenderFns := []
  template := none
  functional := false
  delimiters := none
  extending := none
  mixins := []

instance : Inhabited ComponentOptions := ⟨empty⟩

end ComponentOptions

end ViewTree
