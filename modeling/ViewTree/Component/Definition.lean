import ViewTree.Component.Merge
import ViewTree.Instance.Diagnostics
/-!
# Definitions and their chain

A definition extends another and keeps the merged options of both. When the options of an
ancestor change, the next resolution of a descendant merges again; edits that were made to the
descendant itself are carried over into what it extends its parent with.
-/

namespace ViewTree

/-- The items of `latest` that the extension has itself or that were added after sealing. -/
def ownItems (latest extended sealedItems : List CallbackId) : List CallbackId :=
  latest.filter fun item => extended.contains item || !sealedItems.contains item

/-- The hooks of the extension after those of one moment were edited. -/
def carryHooks (latest sealedHooks : HookTable) (extended : HookTable) (hook : LifecycleHook) :
    HookTable :=
  let l := latest.hooksOf hook
  let s := sealedHooks.hooksOf hook
  if l != s then extended.set hook (ownItems l (extended.hooksOf hook) s) else extended

/-- The options of the extension with every field taken over that differs between the latest and
the sealed options. Lists of callbacks keep what came from the extension or was added later, so
that inherited callbacks are not doubled by the next merge. -/
def carryEdits (latest sealedOptions extended : ComponentOptions) : ComponentOptions where
  name := if latest.name != sealedOptions.name then latest.name else extended.name
  el := extended.el
  propsData := extended.propsData
  data := if latest.data != sealedOptions.data then latest.data else extended.data
  props := if latest.props != sealedOptions.props then latest.props else extended.props
  methods := if latest.methods != sealedOptions.methods then latest.methods else extended.methods
  computed :=
    if latest.computed != sealedOptions.computed then latest.computed else extended.computed
  watch := if latest.watch != sealedOptions.watch then latest.watch else extended.watch
  hooks :=
    LifecycleHook.all.foldl (carryHooks latest.hooks sealedOptions.hooks) extended.hooks
  errorCaptured :=
    if latest.errorCaptured != sealedOptions.errorCaptured then
      ownItems latest.errorCaptured extended.errorCaptured sealedOptions.errorCaptured
    else extended.errorCaptured
  components :=
    if latest.components != sealedOptions.components then latest.components
    else extended.components
  directives :=
    if latest.directives != sealedOptions.directives then latest.directives
    else extended.directives
  filters := if latest.filters != sealedOptions.filters then latest.filters else extended.filters
  provide := if latest.provide != sealedOptions.provide then latest.provide else extended.provide
  inject := if latest.inject != sealedOptions.inject then latest.inject else extended.inject
  render := if latest.render != sealedOptions.render then latest.render else extended.render
  staticRenderFns :=
    if latest.staticRenderFns != sealedOptions.staticRenderFns then
      ownItems latest.staticRenderFns extended.staticRenderFns sealedOptions.staticRenderFns
    else extended.staticRenderFns
  template :=
    if latest.template != sealedOptions.template then latest.template else extended.template
  functional :=
    if latest.functional != sealedOptions.functional then latest.functional
    else extended.functional
  delimiters :=
    if latest.delimiters != sealedOptions.delimiters then latest.delimiters
    else extended.delimiters
  extending := extended.extending
  mixins := extended.mixins

/-- The definition with new options and the next version. -/
def Definition.withOptions (d : Definition) (options : ComponentOptions) : Definition :=
  { d with options := options, version := d.version + 1 }

namespace Run

/-- Warns of each message in order. -/
def warnAll : List String → Run Unit
  | [] => pure ()
  | message :: messages => do
    warn message none
    warnAll messages

/-- Merges `child` over `parent` and reports the warnings. -/
def mergeOptions (parent child : ComponentOptions) (forInstance : Bool) :
    Run ComponentOptions := do
  let w ← get
  let (merged, s) := (mergeLayers parent forInstance child).run ⟨w.nextSource, []⟩
  set { w with nextSource := s.next }
  warnAll s.warnings.reverse
  pure merged

/-- Warns if a name cannot be registered for a component; true if it can. -/
def validateComponentName (name : String) : Run Bool := do
  match Name.invalid? name with
  | some why =>
    warn (why.message name) none
    pure false
  | none => pure true

/-- A new definition, sealed with the options it has. -/
def define (parent : Option Cid) (options extendOptions : ComponentOptions)
    (superVersion : Nat) (superOptions : Option ComponentOptions) : Run Cid := do
  let w ← get
  let d : Definition :=
    { parent, version := 0, options, superVersion, superOptions, extendOptions
      sealedOptions := options }
  set { w with definitions := w.definitions ++ [d] }
  pure w.definitions.length

/-- A root definition with empty options. -/
def defineBase : Run Cid :=
  define none .empty .empty 0 none

/-- Gives a definition new options and the next version. -/
def replaceOptions (cid : Cid) (options : ComponentOptions) : Run Unit :=
  updateDefn cid (·.withOptions options)

/-- The options of a definition with every change of its ancestors applied. It merges again only
when the parent's version moved since the last merge. -/
def resolveOptions (cid : Cid) : Run ComponentOptions := do
  let d ← defn cid
  match d.parent with
  | none => pure d.options
  | some parent =>
    if parent < cid then
      let superOptions ← resolveOptions parent
      let parentVersion := (← defn parent).version
      if parentVersion == d.superVersion then pure d.options
      else
        let extended := carryEdits d.options d.sealedOptions d.extendOptions
        updateDefn cid fun d =>
          { d with superVersion := parentVersion, superOptions := some superOptions
                   extendOptions := extended }
        let merged ← mergeOptions superOptions extended false
        let merged :=
          match merged.name with
          | some name => { merged with components := merged.components.insert name cid }
          | none => merged
        replaceOptions cid merged
        pure merged
    else pure d.options
termination_by cid

/-- A definition that extends another. A named one registers itself, so that it can render
recursively. -/
def extendDefinition (parent : Cid) (options : ComponentOptions) : Run Cid := do
  let superOptions ← resolveOptions parent
  let name := options.name <|> superOptions.name
  match name with
  | some name => discard (validateComponentName name)
  | none => pure ()
  let merged ← mergeOptions superOptions options false
  let version := (← defn parent).version
  let cid := (← get).definitions.length
  let merged :=
    match name with
    | some name => { merged with components := merged.components.insert name cid }
    | none => merged
  define (some parent) merged options version (some superOptions)

/-- Edits the options of a definition in place. -/
def modifyOptions (cid : Cid) (edit : ComponentOptions → ComponentOptions) : Run Unit := do
  replaceOptions cid (edit (← defn cid).options)

/-- Merges a layer into the options of a definition. -/
def mixin (cid : Cid) (layer : ComponentOptions) : Run Unit := do
  replaceOptions cid (← mergeOptions (← defn cid).options layer false)

/-- Registers a component with a definition and its descendants. -/
def registerComponent (cid : Cid) (name : String) (target : Cid) : Run Unit := do
  discard (validateComponentName name)
  modifyOptions cid fun o => { o with components := o.components.insert name target }

/-- Registers a directive with a definition and its descendants. -/
def registerDirective (cid : Cid) (name : String) (hooks : DirectiveHooks) : Run Unit :=
  modifyOptions cid fun o => { o with directives := o.directives.insert name hooks }

/-- Registers a filter with a definition and its descendants. -/
def registerFilter (cid : Cid) (name : String) (filter : CallbackId) : Run Unit :=
  modifyOptions cid fun o => { o with filters := o.filters.insert name filter }

end Run

end ViewTree
