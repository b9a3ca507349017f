import ViewTree.Component.Options
/-!
# Merging layers of options

Layers are merged parent first: the child's settings win, its entries are laid over the parent's
key by key, watchers are appended, and hooks are appended once each. What a child extends and
mixes in lies between the two layers. Merging collects warnings and numbers the data sources it
makes.
-/

namespace ViewTree

/-- Each item once, at its first place. -/
def keepFirst {α : Type} [BEq α] : List α → List α → List α
  | seen, [] => seen
  | seen, x :: xs => if seen.contains x then keepFirst seen xs else keepFirst (seen ++ [x]) xs

/-- The parent's items and then the child's, each once. -/
def concatUnique {α : Type} [BEq α] (parent child : List α) : List α :=
  keepFirst [] (parent ++ child)

/-- The parent's watchers of every expression and then the child's. -/
def mergeWatch (parent child : Dict (List Watcher)) : Dict (List Watcher) :=
  child.foldl (fun d e => d.upsert e.1 [] (· ++ e.2)) parent

/-- The parent's hooks of every moment and then the child's, each once. -/
def mergeHooks (parent child : HookTable) : HookTable :=
  LifecycleHook.all.filterMap fun hook =>
    match parent.hooksOf hook, child.hooksOf hook with
    | [], [] => none
    | p, c => some (hook, concatUnique p c)

/-- What merging leaves behind besides the options: the next number of a merged data source and
the warnings, the latest first. -/
structure MergeState where
  next : Nat
  warnings : List String

/-- A merge in progress. -/
abbrev Merge := StateM MergeState

/-- Adds a warning. -/
def Merge.warn (message : String) : Merge Unit :=
  modify fun s => { s with warnings := message :: s.warnings }

/-- Both sources run; the merged source is a new one. -/
def mergeSource (parent child : Option DataSource) : Merge (Option DataSource) := do
  match parent, child with
  | none, child => pure child
  | some parent, none => pure (some parent)
  | some parent, some child =>
    let s ← get
    set { s with next := s.next + 1 }
    pure (some (.merged s.next parent child))

/-- Warns of every name that cannot be registered. -/
def checkComponentNames : List String → Merge Unit
  | [] => pure ()
  | name :: names => do
    match Name.invalid? name with
    | some why => Merge.warn (why.message name)
    | none => pure ()
    checkComponentNames names

/-- The warning about an option that only the creation of an instance may set. -/
def instanceOnlyMessage (key : String) : String :=
  s!"option \"{key}\" can only be used during instance creation with the `new` keyword."

/-- The child's own settings over the parent's, with the merged data sources given. -/
def ComponentOptions.overlay (parent child : ComponentOptions)
    (data provide : Option DataSource) : ComponentOptions where
  name := child.name <|> parent.name
  el := child.el <|> parent.el
  propsData := child.propsData <|> parent.propsData
  data := data
  props := parent.props.overlay child.props
  methods := parent.methods.overlay child.methods
  computed := parent.computed.overlay child.computed
  watch := mergeWatch parent.watch child.watch
  hooks := mergeHooks parent.hooks child.hooks
  errorCaptured := concatUnique parent.errorCaptured child.errorCaptured
  components := parent.components.overlay child.components
  directives := parent.directives.overlay child.directives
  filters := parent.filters.overlay child.filters
  provide := provide
  inject := parent.inject.overlay child.inject
  render := child.render <|> parent.render
  staticRenderFns :=
    if child.staticRenderFns.isEmpty then parent.staticRenderFns else child.staticRenderFns
  template := child.template <|> parent.template
  functional := child.functional || parent.functional
  delimiters := child.delimiters <|> parent.delimiters
  extending := none
  mixins := []

/-- Merges the child's own settings over a parent that has its further layers applied. -/
def mergeOwn (parent child : ComponentOptions) (forInstance : Bool) : Merge ComponentOptions := do
  if !forInstance then
    if child.el.isSome then Merge.warn (instanceOnlyMessage "el")
    if child.propsData.isSome then Merge.warn (instanceOnlyMessage "propsData")
  let data ← mergeSource parent.data child.data
  let provide ← mergeSource parent.provide child.provide
  pure (parent.overlay child data provide)

mutual

/-- Merges `child` over `parent`. -/
def mergeLayers (parent : ComponentOptions) (forInstance : Bool) :
    ComponentOptions → Merge ComponentOptions
  | child@{ components, extending, mixins, .. } => do
    checkComponentNames components.keys
    let base ← mergeExtending parent forInstance extending
    let base ← mergeMixins base forInstance mixins
    mergeOwn base child forInstance

/-- The parent with the layer that the child extends. -/
def mergeExtending (parent : ComponentOptions) (forInstance : Bool) :
    Option ComponentOptions → Merge ComponentOptions
  | none => pure parent
  | some layer => mergeLayers parent forInstance layer

/-- The parent with the child's mixins in order. -/
def mergeMixins (parent : ComponentOptions) (forInstance : Bool) :
    List ComponentOptions → Merge ComponentOptions
  | [] => pure parent
  | layer :: layers => do
    let base ← mergeLayers parent forInstance layer
    mergeMixins base forInstance layers

end

end ViewTree
