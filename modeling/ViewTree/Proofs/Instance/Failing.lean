import ViewTree.Instance.Lifecycle
import ViewTree.Proofs.Instance.Capturing
/-!
# What goes on when application code fails

Whatever an instance calls application code for goes on when a callback of it fails: the failure is
routed, something else stands in for what the callback would have given, and the callbacks after it
have their turn (`Application.Carries`). Merged data sources are the exception. Their parts are
called in one go, so a part that fails cuts off those behind it (`failures_routed_iff`).
-/

namespace ViewTree

/-- The callbacks that a data source is made of. The own part of a merged one comes first. -/
def DataSource.parts : DataSource → List CallbackId
  | .callback id => [id]
  | .merged _ inherited own => own.parts ++ inherited.parts

/-- What an instance calls application code for. -/
inductive Calling where
  /-- The hooks of a moment. -/
  | hooks (hook : LifecycleHook)
  /-- Its data. -/
  | data
  /-- What it provides. -/
  | provide
  /-- A method. -/
  | method (name : String) (args : List Value)
  /-- A method that a template handler names. -/
  | handler (name : String) (args : List Value)
  /-- A watcher that is started. -/
  | watch (source : String) (watcher : Watcher)
  /-- Watchers that are declared, started one after the other. -/
  | declared (entries : Dict (List Watcher))
  /-- The watchers of changed values. -/
  | watchers
  /-- The listeners of an event. -/
  | emission (event : String) (args : List Value)
  /-- Everything that initializes it. -/
  | setUp

namespace World

/-- An instance as it is. -/
def inst (w : World) (vm : Uid) : Instance :=
  (w.instance? vm).getD default

/-- The data source that something is called for. -/
def source? (w : World) (vm : Uid) : Calling → Option DataSource
  | .data => (w.inst vm).options.data
  | .provide => (w.inst vm).options.provide
  | _ => none

end World

/-- Things are run one after the other. -/
def Run.inOrder (acts : List (Run Unit)) : Run Unit :=
  acts.foldr (fun act rest => act >>= fun _ => rest) (pure ())

namespace Application

variable (app : Application) (vm : Uid)

/-! ## Data sources -/

/-- The callbacks that a data source comes to call, and what it gives. -/
inductive Calls : DataSource → World → List CallbackId → Except Failure Value → World → Prop
  | callback {id : CallbackId} {result : Except Failure Value} {w w' : World} :
    (app.data id vm).run w = (result, w') → Calls (.callback id) w [id] result w'
  | cutOff {n : Nat} {inherited own : DataSource} {ids : List CallbackId} {f : Failure}
    {w w' : World} : Calls own w ids (.error f) w' →
      Calls (.merged n inherited own) w ids (.error f) w'
  | both {n : Nat} {inherited own : DataSource} {ids ids' : List CallbackId} {mine : Value}
    {result : Except Failure Value} {w w₁ w' : World} : Calls own w ids (.ok mine) w₁ →
    Calls inherited w₁ ids' result w' →
      Calls (.merged n inherited own) w (ids ++ ids') (result.map mine.fill) w'

/-- A data source calls every callback that it is made of. -/
def CallsAll (source : DataSource) (w : World) : Prop :=
  ∃ result w', app.Calls vm source w source.parts result w'

/-- Of every merge in a data source that is come to, the own part gives something. -/
def Unbroken : DataSource → World → Prop
  | .callback _, _ => True
  | .merged _ inherited own, w =>
    ∃ mine w₁, (app.runSource vm own).run w = (.ok mine, w₁) ∧ Unbroken inherited w₁

/-! ## Turns -/

/-- An instance keeps its data, or none with a warning if it is no object. -/
def keepData (options : ComponentOptions) (value : Value) : Run Unit := do
  let data ←
    match value with
    | .object fields => pure fields
    | _ =>
      Run.warn "data functions should return an object." (some vm)
      pure []
  checkData vm options (Dict.keys data)
  Run.update vm fun i => { i with data := data }

/-- An instance provides an object; anything else is only reported. -/
def keepProvided : Value → Run Unit
  | .object fields => Run.update vm fun i => { i with provided := fields }
  | _ => Run.warn "provide functions should return an object." (some vm)

/-- The event of a hook is emitted, if anyone ever listened for such an event. -/
def announce (hook : LifecycleHook) : Run Unit := do
  if (← Run.inst vm).hasHookEvent then app.emit vm s!"hook:{hook.name}" []

/-- A handler of an event is called; one that was registered once is taken off before. -/
def takeCall (event : String) (args : List Value) (h : Handler) : Run Unit := do
  if h.once then
    if (← get).alive vm then Run.offListener vm event h.listener
  app.callListener args h.listener

/-- What initializes an instance, in order. -/
def stages (performance : Bool) : List (Run Unit) :=
  [do Run.attach vm (← Run.inst vm).parentListeners,
    initRender vm,
    app.callHook vm .beforeCreate,
    app.initInjections vm,
    app.initProps vm,
    initMethods vm,
    app.initData vm,
    initComputed vm,
    do app.initWatch vm (← Run.inst vm).options.watch,
    app.initProvide vm,
    app.callHook vm .created,
    if performance then Run.report (.log .info "init") else pure (),
    do
      match (← Run.inst vm).options.el with
      | some el => app.mount vm (some el)
      | none => pure ()]

/-- Something runs. -/
def Turn (act : Run Unit) (w w' : World) : Prop :=
  (act.run w).2 = w'

/-- A hook has its turn, whether it fails or not. -/
def HookTurn (hook : LifecycleHook) (id : CallbackId) (w w' : World) : Prop :=
  ∃ result, app.Attends vm s!"{hook.name} hook" (app.hook id vm) w result w'

/-- A watcher sees a new value. -/
def see (active : ActiveWatcher) (value : Value) : Run Unit :=
  Run.update vm fun i =>
    { i with watchers := i.watchers.map fun w =>
        if w.id == active.id then { w with value := value } else w }

/-- A watcher comes into force. -/
def enforce (id : Nat) (source : String) (e : Expr) (watcher : Watcher) (value : Value) :
    Run Unit :=
  Run.update vm fun i =>
    { i with nextWatcher := id + 1
             watchers := i.watchers ++ [⟨id, source, e, watcher, value⟩] }

/-- A watcher of a snapshot has its turn. It is told of a new value, whether it fails or not, unless
it was removed meanwhile. -/
inductive WatcherTurn (active : ActiveWatcher) (w : World) : World → Prop
  | same {value : Value} {w' : World} :
    (active.expr.evalM (app.getValue vm)).run w = (value, w') → (value != active.value) = false →
      WatcherTurn active w w'
  | removed {value : Value} {w' : World} :
    (active.expr.evalM (app.getValue vm)).run w = (value, w') → (value != active.value) = true →
    (w'.inst vm).watchers.any (·.id == active.id) = false → WatcherTurn active w w'
  | told {value : Value} {result : Option Unit} {w₁ w' : World} :
    (active.expr.evalM (app.getValue vm)).run w = (value, w₁) → (value != active.value) = true →
    (w₁.inst vm).watchers.any (·.id == active.id) = true →
    app.Attends vm s!"callback for watcher \"{active.source}\""
      (app.watcher active.watcher.handler vm value active.value)
      ((see vm active value).run w₁).2 result w' →
      WatcherTurn active w w'

/-- A watcher is started. It stays in force even if it fails when it is called at once. -/
inductive Starts (source : String) (watcher : Watcher) (e : Expr) (w : World) :
    Option Nat → World → Prop
  | later {value : Value} {w₁ : World} : (e.evalM (app.getValue vm)).run w = (value, w₁) →
    watcher.immediate = false →
      Starts source watcher e w (some (w₁.inst vm).nextWatcher)
        ((enforce vm (w₁.inst vm).nextWatcher source e watcher value).run w₁).2
  | immediate {value : Value} {result : Option Unit} {w₁ w' : World} :
    (e.evalM (app.getValue vm)).run w = (value, w₁) → watcher.immediate = true →
    app.Attends vm s!"callback for immediate watcher \"{source}\""
      (app.watcher watcher.handler vm value .null)
      ((enforce vm (w₁.inst vm).nextWatcher source e watcher value).run w₁).2 result w' →
      Starts source watcher e w (some (w₁.inst vm).nextWatcher) w'

/-- What something calls is called to the end: a failure is routed, nothing or an empty object
stands in for what is missing, and everything else still has its turn. -/
def Carries (w : World) : Calling → Prop
  | .hooks hook => ∃ w₁,
    InTurn (app.HookTurn vm hook) ((w.inst vm).options.hooks.hooksOf hook) w w₁ ∧
      ((app.callHook vm hook).run w).2 = ((app.announce vm hook).run w₁).2
  | .data => ∀ source, (w.inst vm).options.data = some source →
    (∃ result w₁, app.Attends vm "data()" (app.runSource vm source) w result w₁ ∧
      ((app.initData vm).run w).2 =
        ((keepData vm (w.inst vm).options (result.getD (.object []))).run w₁).2) ∧
      app.CallsAll vm source w
  | .provide => ∀ source, (w.inst vm).options.provide = some source →
    (∃ result w₁, app.Attends vm "provide()" (app.runSource vm source) w result w₁ ∧
      ((app.initProvide vm).run w).2 = result.elim w₁ fun v => ((keepProvided vm v).run w₁).2) ∧
      app.CallsAll vm source w
  | .method name args => ∀ method, (w.inst vm).methods.get? name = some method →
    app.Attends vm s!"method \"{name}\"" (app.method method vm args) w
      ((app.callMethod vm name args).run w).1 ((app.callMethod vm name args).run w).2
  | .handler name args => ∀ method, (w.inst vm).methods.get? name = some method →
    ∃ result, app.Attends vm "v-on handler" (app.method method vm args) w result
      ((app.callHandler vm name args).run w).2
  | .watch source watcher => ∀ e, Expr.parse source = .ok e →
    app.Starts vm source watcher e w ((app.watch vm source watcher).run w).1
      ((app.watch vm source watcher).run w).2
  | .declared entries =>
    InTurn (fun e : String × Watcher => Turn (discard (app.watch vm e.1 e.2)))
      (entries.flatMap fun e => e.2.map (e.1, ·)) w ((app.initWatch vm entries).run w).2
  | .watchers =>
    InTurn (app.WatcherTurn vm) (w.inst vm).watchers w ((app.runWatchers vm).run w).2
  | .emission event args => ∃ w₁, Turn (checkEventCase vm event) w w₁ ∧
    InTurn (fun h => Turn (app.takeCall vm event args h)) (((w₁.inst vm).events.get? event).getD [])
      w₁ ((app.emit vm event args).run w).2
  | .setUp => InTurn Turn (app.stages vm w.config.performance) w ((app.setUp vm).run w).2

end Application

section

variable {app : Application} {vm : Uid} {source : DataSource} {ids : List CallbackId}
  {result : Except Failure Value} {w w' : World}

/-! ## Which parts of a data source are called -/

theorem parts_ne_nil (source : DataSource) : source.parts ≠ [] := by
  induction source with
  | callback id => exact List.cons_ne_nil _ _
  | merged n inherited own _ ihown => exact fun h => ihown (List.append_eq_nil_iff.1 h).1

theorem Application.Calls.run_eq (h : app.Calls vm source w ids result w') :
    (app.runSource vm source).run w = (result, w') := by
  induction h with
  | callback hrun => exact hrun
  | cutOff _ ih =>
    rw [Application.runSource, run_bind, ih]
    rfl
  | @both _ _ _ _ _ _ result _ _ _ _ _ ihown ihinherited =>
    rw [Application.runSource, run_bind, ihown]
    dsimp only
    rw [run_bind, ihinherited]
    cases result <;> rfl

theorem calls_runSource (app : Application) (vm : Uid) (source : DataSource) (w : World) :
    ∃ ids, app.Calls vm source w ids ((app.runSource vm source).run w).1
      ((app.runSource vm source).run w).2 := by
  induction source generalizing w with
  | callback id => exact ⟨[id], .callback rfl⟩
  | merged n inherited own ihinherited ihown =>
    obtain ⟨ids, hown⟩ := ihown w
    rcases hrun : (app.runSource vm own).run w with ⟨mine, w₁⟩
    rw [hrun] at hown
    cases mine with
    | error f =>
      have h : app.Calls vm (.merged n inherited own) w ids (.error f) w₁ := .cutOff hown
      rw [h.run_eq]
      exact ⟨ids, h⟩
    | ok mine =>
      obtain ⟨ids', hinherited⟩ := ihinherited w₁
      have h := Application.Calls.both (n := n) hown hinherited
      rw [h.run_eq]
      exact ⟨ids ++ ids', h⟩

/-- A source that gives something has called all its parts. -/
theorem Application.Calls.all_of_ok {v : Value} (h : app.Calls vm source w ids (.ok v) w') :
    ids = source.parts := by
  generalize hresult : Except.ok v = result at h
  induction h generalizing v with
  | callback => rfl
  | cutOff => cases hresult
  | @both _ _ _ _ _ _ result _ _ _ _ _ ihown ihinherited =>
    cases result with
    | error f => cases hresult
    | ok base => rw [DataSource.parts, ihown rfl, ihinherited rfl]

/-- Parts are called in order, up to one that fails. -/
theorem Application.Calls.isPrefix (h : app.Calls vm source w ids result w') :
    ids <+: source.parts := by
  induction h with
  | callback => exact List.prefix_refl _
  | cutOff _ ih => exact ih.trans (List.prefix_append _ _)
  | both hown _ _ ihinherited =>
    rw [DataSource.parts, hown.all_of_ok]
    exact (List.prefix_append_right_inj _).2 ihinherited

/-- All parts are called where the own part of every merge gives something. -/
theorem Application.Calls.all_iff (h : app.Calls vm source w ids result w') :
    ids = source.parts ↔ app.Unbroken vm source w := by
  induction h with
  | callback => exact ⟨fun _ => trivial, fun _ => rfl⟩
  | @cutOff n inherited own ids f w w' hown _ =>
    refine ⟨fun hall => ?_, fun ⟨mine, w₁, hrun, _⟩ => ?_⟩
    -- The inherited part is not empty, so something of it is missing.
    · have hle : ids.length ≤ own.parts.length := hown.isPrefix.length_le
      have hlt : 0 < inherited.parts.length := List.length_pos_iff.2 (parts_ne_nil inherited)
      have hlength := congrArg List.length hall
      rw [DataSource.parts, List.length_append] at hlength
      omega
    · rw [hown.run_eq] at hrun
      cases hrun
  | both hown _ _ ihinherited =>
    rw [DataSource.parts, hown.all_of_ok, List.append_cancel_left_eq, ihinherited]
    refine ⟨fun h => ⟨_, _, hown.run_eq, h⟩, fun ⟨mine, w₁, hrun, h⟩ => ?_⟩
    rw [hown.run_eq] at hrun
    cases hrun
    exact h

theorem callsAll_iff : app.CallsAll vm source w ↔ app.Unbroken vm source w := by
  obtain ⟨ids, h⟩ := calls_runSource app vm source w
  refine ⟨fun ⟨_, _, hall⟩ => hall.all_iff.1 rfl, fun hunbroken => ?_⟩
  rw [← h.all_iff] at hunbroken
  subst hunbroken
  exact ⟨_, _, h⟩

end

/-! ## What goes on -/

section

variable {app : Application} {vm : Uid} {w : World}

theorem inTurn_runHooks (app : Application) (vm : Uid) (hook : LifecycleHook)
    (ids : List CallbackId) (w : World) :
    InTurn (app.HookTurn vm hook) ids w ((app.runHooks vm s!"{hook.name} hook" ids).run w).2 := by
  induction ids generalizing w with
  | nil => exact .done
  | cons id ids ih => exact .next ⟨_, attends_guarded app (app.hook id vm) vm _ w⟩ (ih _)

theorem inTurn_notifyWatchers (app : Application) (vm : Uid) (snapshot : List ActiveWatcher)
    (w : World) :
    InTurn (app.WatcherTurn vm) snapshot w ((app.notifyWatchers vm snapshot).run w).2 := by
  induction snapshot generalizing w with
  | nil => exact .done
  | cons active rest ih =>
    rw [Application.notifyWatchers, run_bind]
    rcases hvalue : (active.expr.evalM (app.getValue vm)).run w with ⟨value, w₁⟩
    dsimp only
    cases hne : value != active.value with
    | false => exact .next (.same hvalue hne) (ih w₁)
    | true =>
      rw [if_pos rfl, run_inst_bind]
      split
      case isTrue hin =>
        exact .next (.told hvalue hne hin (attends_guarded app _ vm _ _)) (ih _)
      case isFalse hout =>
        exact .next (.removed hvalue hne (Bool.eq_false_iff.2 hout)) (ih w₁)

theorem starts_watch {source : String} {e : Expr} (watcher : Watcher)
    (hparse : Expr.parse source = .ok e) :
    app.Starts vm source watcher e w ((app.watch vm source watcher).run w).1
      ((app.watch vm source watcher).run w).2 := by
  rw [Application.watch, hparse]
  dsimp only
  rw [run_bind]
  rcases hvalue : (e.evalM (app.getValue vm)).run w with ⟨value, w₁⟩
  dsimp only
  rw [run_inst_bind, run_bind]
  cases himmediate : watcher.immediate with
  | false => exact .later hvalue himmediate
  | true =>
    exact .immediate hvalue himmediate (attends_guarded app _ vm _ _)

theorem inTurn_watchAll (app : Application) (vm : Uid) (source : String) (watchers : List Watcher)
    (w : World) :
    InTurn (fun e : String × Watcher => Application.Turn (discard (app.watch vm e.1 e.2)))
      (watchers.map (source, ·)) w ((app.watchAll vm source watchers).run w).2 := by
  induction watchers generalizing w with
  | nil => exact .done
  | cons watcher watchers ih => exact .next rfl (ih _)

theorem inTurn_initWatch (app : Application) (vm : Uid) (entries : Dict (List Watcher))
    (w : World) :
    InTurn (fun e : String × Watcher => Application.Turn (discard (app.watch vm e.1 e.2)))
      (entries.flatMap fun e => e.2.map (e.1, ·)) w ((app.initWatch vm entries).run w).2 := by
  induction entries generalizing w with
  | nil => exact .done
  | cons e entries ih => exact (inTurn_watchAll app vm e.1 e.2 w).append (ih _)

theorem inTurn_callHandlers (app : Application) (vm : Uid) (event : String) (args : List Value)
    (handlers : List Handler) (w : World) :
    InTurn (fun h => Application.Turn (app.takeCall vm event args h)) handlers w
      ((app.callHandlers vm event args handlers).run w).2 := by
  induction handlers generalizing w with
  | nil => exact .done
  | cons h rest ih =>
    have hcons : app.callHandlers vm event args (h :: rest) = (do
        app.takeCall vm event args h
        app.callHandlers vm event args rest) := by
      rw [Application.callHandlers, Application.takeCall]
      split
      · rw [bind_assoc]
        refine bind_congr fun w => ?_
        split <;> simp only [bind_assoc]
      · rfl
    rw [hcons]
    exact .next rfl (ih _)

theorem inTurn_inOrder (acts : List (Run Unit)) (w : World) :
    InTurn Application.Turn acts w ((Run.inOrder acts).run w).2 := by
  induction acts generalizing w with
  | nil => exact .done
  | cons act acts ih => exact .next rfl (ih _)

theorem setUp_inOrder (app : Application) (vm : Uid) (w : World) :
    (app.setUp vm).run w = (Run.inOrder (app.stages vm w.config.performance)).run w := by
  rw [Application.setUp, run_get_bind]
  simp only [Run.inOrder, Application.stages, List.foldr, Application.initState, bind_assoc,
    bind_pure_unit]
  cases w.config.performance <;> rfl

theorem carries_data : app.Carries vm w .data ↔
    ∀ source, (w.inst vm).options.data = some source → app.Unbroken vm source w := by
  refine forall₂_congr fun source hsource => ?_
  rw [callsAll_iff]
  refine and_iff_right ⟨_, _, attends_guarded app _ vm _ w, ?_⟩
  rw [World.inst] at hsource
  rw [Application.initData, run_inst_bind]
  dsimp only
  rw [hsource]
  rfl

theorem carries_provide : app.Carries vm w .provide ↔
    ∀ source, (w.inst vm).options.provide = some source → app.Unbroken vm source w := by
  refine forall₂_congr fun source hsource => ?_
  rw [callsAll_iff]
  refine and_iff_right ⟨_, _, attends_guarded app _ vm _ w, ?_⟩
  rw [World.inst] at hsource
  rw [Application.initProvide, run_inst_bind, hsource]
  dsimp only
  rw [run_bind]
  cases ((app.guarded (app.runSource vm source) (some vm) "provide()").run w).1 with
  | none => rfl
  | some v => cases v <;> rfl

/-- Failures are routed, and everything goes on but for the parts of a merged data source behind
one that fails. -/
theorem failures_routed_iff (app : Application) (vm : Uid) :
    (∀ f info w, app.KeepsChain f vm info w →
      app.Routes f vm info w ((app.handleFailure f (some vm) info).run w).2) ∧
    ∀ w c, app.Carries vm w c ↔
      ∀ source, w.source? vm c = some source → app.Unbroken vm source w := by
  refine ⟨fun f info w => routes_handleFailure, fun w c => ?_⟩
  -- What has no data source is carried whatever fails.
  have hgoesOn (hsource : w.source? vm c = none) (h : app.Carries vm w c) :
      app.Carries vm w c ↔ ∀ source, w.source? vm c = some source → app.Unbroken vm source w := by
    refine iff_of_true h fun source hsome => ?_
    rw [hsource] at hsome
    cases hsome
  cases c with
  | data => exact carries_data
  | provide => exact carries_provide
  | hooks hook => exact hgoesOn rfl ⟨_, inTurn_runHooks app vm hook _ w, rfl⟩
  | method name args =>
    refine hgoesOn rfl fun method hmethod => ?_
    rw [World.inst] at hmethod
    rw [Application.callMethod, run_inst_bind, hmethod]
    exact attends_guarded app _ vm _ w
  | handler name args =>
    refine hgoesOn rfl fun method hmethod => ?_
    rw [World.inst] at hmethod
    rw [Application.callHandler, run_inst_bind, hmethod]
    exact ⟨_, attends_guarded app _ vm _ w⟩
  | watch source watcher => exact hgoesOn rfl fun e hparse => starts_watch watcher hparse
  | declared entries => exact hgoesOn rfl (inTurn_initWatch app vm entries w)
  | watchers => exact hgoesOn rfl (inTurn_notifyWatchers app vm _ w)
  | emission event args =>
    refine hgoesOn rfl ⟨((Application.checkEventCase vm event).run w).2, rfl, ?_⟩
    rw [Application.emit, run_bind, run_inst_bind]
    exact inTurn_callHandlers app vm event args _ _
  | setUp =>
    refine hgoesOn rfl ?_
    rw [Application.Carries, setUp_inOrder]
    exact inTurn_inOrder _ w

end

/-! ## A child with a merged data source -/

/-- A hook that captures, a source that gives an object, and one that fails. -/
def Code.failing : Application :=
  Code.application
    ⟨[.capture "page" true, .script [.note (.string "called"), .give (.object [])],
      .script [.fail "no data"]], [], []⟩ 1

/-- A page that captures failures, and a child that merges two data sources. -/
def World.withHeir (inherited own : CallbackId) : World :=
  let page := { ComponentOptions.empty with errorCaptured := [0] }
  let heir := { ComponentOptions.empty with
    data := some (.merged 0 (.callback inherited) (.callback own)) }
  { World.start .default with
    instances := [{ Instance.fresh 0 page with children := [1] },
      { Instance.fresh 0 heir with parent := some 0, root := some 0 }]
    instanceNames := [("page", 0)] }

theorem failing_run_given (w : World) : (Code.failing.runSource 1 (.callback 1)).run w =
    (.ok (.object []), w.reporting (.note (.single "log" (.string "called")))) :=
  rfl

theorem failing_run_failed (w : World) :
    (Code.failing.runSource 1 (.callback 2)).run w = (.error ⟨"no data", []⟩, w) :=
  rfl

/-- Where the inherited source fails, its failure is shown to the page, and everything goes on. -/
theorem failures_routed_heir :
    let w := World.withHeir 2 1
    let f : Failure := ⟨"no data", []⟩
    w.captors 1 = [0] ∧ Code.failing.KeepsChain f 1 "data()" w ∧
      Code.failing.Routes f 1 "data()" w
        ((Code.failing.handleFailure f (some 1) "data()").run w).2 ∧
      Code.failing.Carries 1 w .data := by
  obtain ⟨hroutes, hcarries⟩ := failures_routed_iff Code.failing 1
  have hkeeps : Code.failing.KeepsChain ⟨"no data", []⟩ 1 "data()" (World.withHeir 2 1) :=
    keepsChain_application _ 1 _ 1 _ _
  refine ⟨by with_unfolding_all rfl, hkeeps, hroutes _ _ _ hkeeps, (hcarries _ _).2 ?_⟩
  intro source hsource
  cases hsource
  exact ⟨_, _, failing_run_given _, trivial⟩

/-- Where the own source fails, the inherited one is not called. -/
theorem inherited_cutOff :
    let w := World.withHeir 1 2
    (∃ result w', Code.failing.Calls 1 (.merged 0 (.callback 1) (.callback 2)) w [2] result w') ∧
      ¬ Code.failing.Carries 1 w .data := by
  refine ⟨⟨_, _, .cutOff (.callback (failing_run_failed _))⟩, ?_⟩
  rw [carries_data]
  intro h
  obtain ⟨mine, w₁, hrun, -⟩ := h _ rfl
  rw [failing_run_failed] at hrun
  cases hrun

end ViewTree
