import ViewTree.Proofs.Instance.Links
/-!
# What setting up leaves alone

The steps that initialize an instance, and rendering it, fill in its fields one by one. A condition
that puts up with such changes goes on to hold; how the instance is linked does not change.
-/

namespace ViewTree

/-- The fields that are filled in while an instance is initialized and rendered may change, but for
those that its placeholder, its ancestors and its own provide option fill in. -/
structure Instance.FillsIn (C : Instance → Instance → Prop) : Prop where
  events : ∀ (i : Instance) (events : Dict (List Handler)) (hasHookEvent : Bool),
    C i { i with events := events, hasHookEvent := hasHookEvent }
  el : ∀ (i : Instance) (el : Option String), C i { i with el := el }
  tree : ∀ (i : Instance) (vnode : Option VNode) (mounted : Bool),
    C i { i with vnode := vnode, mounted := mounted }
  scopedSlots : ∀ (i : Instance) (node : Placeholder VNode), i.parentNode = some node →
    C i { i with scopedSlots := node.data.scopedSlots }
  props : ∀ (i : Instance) (props : Dict Value), C i { i with props := props }
  methods : ∀ (i : Instance) (methods : Dict CallbackId), C i { i with methods := methods }
  data : ∀ (i : Instance) (data : Dict Value), C i { i with data := data }
  computed : ∀ (i : Instance) (computed : Dict CallbackId), C i { i with computed := computed }
  watchers : ∀ (i : Instance) (watchers : List ActiveWatcher) (next : Nat),
    C i { i with watchers := watchers, nextWatcher := next }

/-- The fields that its ancestors and its own provide option fill in may change, too. -/
structure Instance.Initializes (C : Instance → Instance → Prop) : Prop extends
    Instance.FillsIn C where
  injections : ∀ (i : Instance) (injections : Dict Value), C i { i with injections := injections }
  provided : ∀ (i : Instance) (provided : Dict Value), C i { i with provided := provided }

/-- The instance after its slots, attributes and listeners have been filled from its placeholder. -/
def Instance.rendering (i : Instance) : Instance :=
  { i with
    vnode := none
    staticTrees := []
    slots := VNode.resolveSlots i.renderChildren (i.parentNode.bind (·.context))
    scopedSlots := []
    attrs := (i.parentNode.map (·.data.attrs)).getD []
    listeners := i.parentListeners }

theorem initializes_link : Instance.Initializes fun i i' => i'.link = i.link where
  events _ _ _ := rfl
  el _ _ := rfl
  tree _ _ _ := rfl
  scopedSlots _ _ _ := rfl
  props _ _ := rfl
  methods _ _ := rfl
  data _ _ := rfl
  computed _ _ := rfl
  watchers _ _ _ := rfl
  injections _ _ := rfl
  provided _ _ := rfl

section

variable {app : Application} {I : World → Prop} {vm : Uid} {C : Instance → Instance → Prop}
  (h : app.Preserves I) (hI : World.OnInstances I) (hp : World.Permits I vm C)
  (hC : Instance.FillsIn C)

/-! ## Listeners and rendering -/

include hp hC in
theorem preserves_attachAll (event : String) (listeners : List Listener) :
    Run.Preserves I (Run.attachAll vm event listeners) := by
  induction listeners with
  | nil => exact preserves_pure _
  | cons listener rest ih =>
    unfold Run.attachAll
    cases onceName? event with
    | some name =>
      refine Run.Preserves.bind ?_ fun _ => ih
      exact hp.preserves_update fun i => hC.events i _ _
    | none =>
      refine Run.Preserves.bind ?_ fun _ => ih
      exact hp.preserves_update fun i => hC.events i _ _

include hp hC in
theorem preserves_attach (listeners : Dict (List Listener)) :
    Run.Preserves I (Run.attach vm listeners) := by
  induction listeners with
  | nil => exact preserves_pure _
  | cons entry rest ih => exact (preserves_attachAll hp hC entry.1 entry.2).bind fun _ => ih

include h hI hp hC

theorem preserves_lifecycleHook (hook : LifecycleHook) :
    Run.Preserves I (app.callHook vm hook) :=
  preserves_callHook h hI hp (fun i => hC.events i _ _) (fun i _ _ _ _ => hC.events i _ _) hook

theorem preserves_renderRoot : Run.Preserves I (app.renderRoot vm) := by
  intro w hw
  rw [Application.renderRoot, run_inst_bind]
  dsimp only
  split
  case' h_1 node hnode =>
    refine hp.update_bind (fun j hj => hC.scopedSlots j node ?_) (fun _ => ?_) hw
    -- The placeholder is the one of the instance that is changed.
    · have hij : (w.instance? vm).getD default = j := congrArg (·.getD default) hj
      rw [← hij, hnode]
  case' h_2 => refine (?_ : Run.Preserves I _) w hw
  all_goals
    split
    · exact preserves_pure _
    · rename_i render _
      refine (h.render render vm).bind fun tree => ?_
      split
      · exact preserves_pure _
      · exact preserves_pure _
      · exact (preserves_warn hI _ _).bind fun _ => preserves_pure _

/-- Mounting records the tree. -/
theorem preserves_mount (el : Option String) : Run.Preserves I (app.mount vm el) := by
  have hrecord (f : VNode → Instance → Instance) (hf : ∀ tree i, C i (f tree i)) :
      Run.Preserves I (do
        app.callHook vm .beforeMount
        let tree ← app.renderRoot vm
        Run.update vm (f tree)
        app.callHook vm .mounted) :=
    (preserves_lifecycleHook h hI hp hC _).bind fun _ =>
      (preserves_renderRoot h hI hp hC).bind fun tree =>
        (hp.preserves_update (hf tree)).bind fun _ => preserves_lifecycleHook h hI hp hC _
  have hrender := hrecord (fun tree i => { i with vnode := some tree, mounted := true })
    fun _ i => hC.tree i _ _
  unfold Application.mount
  cases el
  case' some el => refine Run.Preserves.bind (hp.preserves_update fun i => hC.el i _) fun _ => ?_
  all_goals
    refine (preserves_inst vm).bind fun i => ?_
    dsimp only
    split
    · split
      · exact (preserves_warn hI _ _).bind fun _ => hrender
      · exact (preserves_warn hI _ _).bind fun _ => hrender
    · exact hrender

/-! ## Injections and props -/

omit hI hp hC in
theorem preserves_produce (d : DefaultValue) : Run.Preserves I (app.produce d) := by
  cases d with
  | value v => exact preserves_pure _
  | factory id => exact h.factory id

omit hp hC in
theorem preserves_resolveInject : Run.Preserves I (app.resolveInject vm) := by
  have hvalues (entries : Dict InjectOptions) :
      Run.Preserves I (app.injectedValues vm entries) := by
    induction entries with
    | nil => exact preserves_pure _
    | cons entry rest ih =>
      obtain ⟨key, inject⟩ := entry
      unfold Application.injectedValues
      refine preserves_get.bind fun w => ?_
      cases w.provided? inject.source (w.ancestors vm) with
      | some v => exact ih.bind fun _ => preserves_pure _
      | none =>
        cases inject.default with
        | some d => exact (preserves_produce h d).bind fun v => ih.bind fun _ => preserves_pure _
        | none => exact (preserves_warn hI _ _).bind fun _ => ih
  exact (preserves_inst vm).bind fun i => hvalues _

omit hp hC in
theorem preserves_validateProp (key : String) (prop : PropOptions) (passed : Dict Value) :
    Run.Preserves I (app.validateProp key prop passed vm) := by
  have hdefault : Run.Preserves I (app.propDefault key prop vm) := by
    unfold Application.propDefault
    cases prop.default with
    | none => exact preserves_pure _
    | some d =>
      cases d with
      | value v =>
        dsimp only
        split
        · exact (preserves_warn hI _ _).bind fun _ => preserves_produce h _
        · exact preserves_produce h _
      | factory id => exact preserves_produce h _
  have hassert (v : Value) (absent : Bool) :
      Run.Preserves I (app.assertProp key prop v absent vm) := by
    unfold Application.assertProp
    split
    · exact preserves_warn hI _ _
    split
    · exact preserves_pure _
    split
    · exact preserves_warn hI _ _
    cases prop.validator with
    | none => exact preserves_pure _
    | some validator =>
      refine (h.validator validator v).bind fun accepted => ?_
      split
      · exact preserves_warn hI _ _
      · exact preserves_pure _
  unfold Application.validateProp
  cases castProp key prop (passed.get? key) with
  | some v => exact (hassert v _).bind fun _ => preserves_pure _
  | none => exact hdefault.bind fun v => (hassert v _).bind fun _ => preserves_pure _

theorem preserves_initProps : Run.Preserves I (app.initProps vm) := by
  have hvalues (passed : Dict Value) (entries : Dict PropOptions) :
      Run.Preserves I (app.propValues passed vm entries) := by
    induction entries with
    | nil => exact preserves_pure _
    | cons entry rest ih =>
      obtain ⟨key, prop⟩ := entry
      unfold Application.propValues
      refine (preserves_validateProp h hI key prop passed).bind fun value => ?_
      dsimp only
      split
      · exact (preserves_warn hI _ _).bind fun _ => ih.bind fun _ => preserves_pure _
      · exact ih.bind fun _ => preserves_pure _
  exact (preserves_inst vm).bind fun i => (hvalues _ _).bind fun _ =>
    hp.preserves_update fun i => hC.props i _

/-! ## Methods, data and computed values -/

omit h in
theorem preserves_initMethods : Run.Preserves I (Application.initMethods vm) := by
  have hcheck (props : Dict PropOptions) (keys : List String) :
      Run.Preserves I (Application.checkMethods vm props keys) := by
    induction keys with
    | nil => exact preserves_pure _
    | cons key keys ih =>
      unfold Application.checkMethods
      dsimp only
      split
      · refine (preserves_warn hI _ _).bind fun _ => ?_
        split
        · exact (preserves_warn hI _ _).bind fun _ => ih
        · exact ih
      · split
        · exact (preserves_warn hI _ _).bind fun _ => ih
        · exact ih
  exact (preserves_inst vm).bind fun i => (hcheck _ _).bind fun _ =>
    hp.preserves_update fun i => hC.methods i _

omit hI hp hC in
theorem preserves_runSource (source : DataSource) :
    Run.Preserves I (app.runSource vm source) := by
  induction source with
  | callback id => exact h.data id vm
  | merged id inherited own ihinherited ihown =>
    refine ihown.bind fun mine => ?_
    cases mine with
    | error f => exact preserves_pure _
    | ok mine =>
      refine ihinherited.bind fun base => ?_
      cases base with
      | error f => exact preserves_pure _
      | ok base => exact preserves_pure _

theorem preserves_initData : Run.Preserves I (app.initData vm) := by
  have hcheck (options : ComponentOptions) (keys : List String) :
      Run.Preserves I (Application.checkData vm options keys) := by
    induction keys with
    | nil => exact preserves_pure _
    | cons key keys ih =>
      unfold Application.checkData
      dsimp only
      split
      · refine (preserves_warn hI _ _).bind fun _ => ?_
        split
        · exact (preserves_warn hI _ _).bind fun _ => ih
        · exact ih
      · split
        · exact (preserves_warn hI _ _).bind fun _ => ih
        · exact ih
  have hstore (options : ComponentOptions) (data : Dict Value) : Run.Preserves I (do
      Application.checkData vm options (Dict.keys data)
      Run.update vm fun i => { i with data := data }) :=
    (hcheck options _).bind fun _ => hp.preserves_update fun i => hC.data i _
  refine (preserves_inst vm).bind fun i => ?_
  dsimp only
  cases i.options.data with
  | none => exact hstore i.options []
  | some source =>
    refine (h.guarded hI (preserves_runSource h source) vm _).bind fun value =>
      (preserves_pure _).bind fun result => ?_
    cases result with
    | object fields => exact hstore i.options fields
    | _ => exact (preserves_warn hI _ _).bind fun _ => hstore i.options []

omit h in
theorem preserves_initComputed : Run.Preserves I (Application.initComputed vm) := by
  have hfree (entries : Dict CallbackId) :
      Run.Preserves I (Application.freeComputed vm entries) := by
    induction entries with
    | nil => exact preserves_pure _
    | cons entry rest ih =>
      obtain ⟨key, getter⟩ := entry
      unfold Application.freeComputed
      refine (preserves_inst vm).bind fun i => ?_
      cases Application.clash? i key with
      | none => exact ih.bind fun _ => preserves_pure _
      | some place => exact (preserves_warn hI _ _).bind fun _ => ih
  refine (preserves_inst vm).bind fun i => (hfree _).bind fun computed => ?_
  exact hp.preserves_update fun i => hC.computed i _

/-! ## Watchers and provided values -/

theorem preserves_watch (source : String) (watcher : Watcher) :
    Run.Preserves I (app.watch vm source watcher) := by
  unfold Application.watch
  cases Expr.parse source with
  | error e => exact (preserves_warn hI _ _).bind fun _ => preserves_pure _
  | ok expr =>
    refine (preserves_evalM (h.getValue vm) expr).bind fun value => ?_
    refine (preserves_inst vm).bind fun i => ?_
    refine Run.Preserves.bind (hp.preserves_update fun i => hC.watchers i _ _) fun _ => ?_
    dsimp only
    split
    · refine Run.Preserves.bind ?_ fun _ => preserves_pure _
      exact (h.guarded hI (h.watcher _ vm value .null) vm _).discard
    · exact preserves_pure _

theorem preserves_initWatch (entries : Dict (List Watcher)) :
    Run.Preserves I (app.initWatch vm entries) := by
  have hall (source : String) (watchers : List Watcher) :
      Run.Preserves I (app.watchAll vm source watchers) := by
    induction watchers with
    | nil => exact preserves_pure _
    | cons watcher rest ih =>
      exact (preserves_watch h hI hp hC source watcher).discard.bind fun _ => ih
  induction entries with
  | nil => exact preserves_pure _
  | cons entry rest ih => exact (hall entry.1 entry.2).bind fun _ => ih

theorem preserves_initState : Run.Preserves I (app.initState vm) :=
  (preserves_initProps h hI hp hC).bind fun _ => (preserves_initMethods hI hp hC).bind fun _ =>
    (preserves_initData h hI hp hC).bind fun _ => (preserves_initComputed hI hp hC).bind fun _ =>
      (preserves_inst vm).bind fun _ => preserves_initWatch h hI hp hC _

end

section

variable {app : Application} {I : World → Prop} {vm : Uid} {C : Instance → Instance → Prop}
  (h : app.Preserves I) (hI : World.OnInstances I) (hp : World.Permits I vm C)
  (hC : Instance.Initializes C)
include h hI hp hC

theorem preserves_initInjections : Run.Preserves I (app.initInjections vm) :=
  (preserves_resolveInject h hI).bind fun _ => hp.preserves_update fun i => hC.injections i _

theorem preserves_initProvide : Run.Preserves I (app.initProvide vm) := by
  refine (preserves_inst vm).bind fun i => ?_
  cases i.options.provide with
  | none => exact preserves_pure _
  | some source =>
    refine (h.guarded hI (preserves_runSource h source) vm _).bind fun result => ?_
    cases result with
    | none => exact preserves_pure _
    | some value =>
      cases value with
      | object fields => exact hp.preserves_update fun i => hC.provided i _
      | _ => exact preserves_warn hI _ _

end

/-! ## The whole of it -/

namespace Application

variable (app : Application) (vm : Uid) (performance : Bool)

/-- What is left of setting up an instance when it has its provided values. -/
def whenProvided : Run Unit := do
  app.callHook vm .created
  if performance then Run.report (.log .info "init")
  match (← Run.inst vm).options.el with
  | some el => app.mount vm (some el)
  | none => pure ()

/-- What is left of setting up an instance when its slots are filled. -/
def whenFilled : Run Unit := do
  app.callHook vm .beforeCreate
  app.initInjections vm
  app.initState vm
  app.initProvide vm
  app.whenProvided vm performance

theorem setUp_run (w : World) :
    (app.setUp vm).run w =
      (do
        Run.attach vm ((w.instance? vm).getD default).parentListeners
        Run.update vm Instance.rendering
        app.whenFilled vm w.config.performance : Run Unit).run w :=
  rfl

end Application

section

variable {app : Application} {I : World → Prop} {vm : Uid} {C : Instance → Instance → Prop}
  (h : app.Preserves I) (hI : World.OnInstances I) (hp : World.Permits I vm C)
include h hI hp

theorem preserves_whenProvided (hC : Instance.FillsIn C) (performance : Bool) :
    Run.Preserves I (app.whenProvided vm performance) := by
  unfold Application.whenProvided
  refine (preserves_lifecycleHook h hI hp hC _).bind fun _ => ?_
  dsimp only
  split
  case' isTrue => refine (preserves_report hI _).bind fun _ => ?_
  all_goals
    refine (preserves_inst vm).bind fun i => ?_
    cases i.options.el with
    | some el => exact preserves_mount h hI hp hC (some el)
    | none => exact preserves_pure _

theorem preserves_whenFilled (hC : Instance.Initializes C) (performance : Bool) :
    Run.Preserves I (app.whenFilled vm performance) := by
  have hfills := hC.toFillsIn
  refine (preserves_lifecycleHook h hI hp hfills _).bind fun _ => ?_
  refine (preserves_initInjections h hI hp hC).bind fun _ => ?_
  refine (preserves_initState h hI hp hfills).bind fun _ => ?_
  refine (preserves_initProvide h hI hp hC).bind fun _ => ?_
  exact preserves_whenProvided h hI hp hfills performance

/-- Setting up an instance preserves what does not depend on the fields that it fills in. -/
theorem preserves_setUp (hC : Instance.Initializes C) (hrendering : ∀ i, C i i.rendering) :
    Run.Preserves I (app.setUp vm) := by
  intro w hw
  rw [Application.setUp_run]
  refine ((preserves_attach hp hC.toFillsIn _).bind fun _ => ?_) w hw
  exact (hp.preserves_update hrendering).bind fun _ => preserves_whenFilled h hI hp hC _

end

end ViewTree
