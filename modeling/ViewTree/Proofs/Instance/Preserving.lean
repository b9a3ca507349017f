import ViewTree.Application.Script
import ViewTree.Instance.Lifecycle
/-!
# What runs preserve

A condition on the state goes on to hold if every part of a run preserves it. Reports change no
instance; the passes over watchers change the watchers of one, and emissions its handlers;
everything else is up to the code that is called.
-/

namespace ViewTree

/-- A run leaves a condition on the state true. -/
def Run.Preserves {α : Type} (I : World → Prop) (act : Run α) : Prop :=
  ∀ w, I w → I (act.run w).2

namespace World

/-- The condition is about the instances and the names that they are kept under. -/
def OnInstances (I : World → Prop) : Prop :=
  ∀ w w' : World, w'.instances = w.instances → w'.instanceNames = w.instanceNames → I w → I w'

/-- The condition puts up with some changes of an instance. -/
def Permits (I : World → Prop) (vm : Uid) (C : Instance → Instance → Prop) : Prop :=
  ∀ (w : World) (f : Instance → Instance), (∀ i, w.instance? vm = some i → C i (f i)) → I w →
    I ((Run.update vm f).run w).2

end World

section

variable {α β : Type} {I : World → Prop} {m : Run α} {vm : Uid} {C : Instance → Instance → Prop}

theorem instance?_update_self (vm : Uid) (f : Instance → Instance) (w : World) :
    ((Run.update vm f).run w).2.instance? vm = (w.instance? vm).map f :=
  List.getElem?_modify_eq f vm w.instances

theorem instance?_update_of_ne {vm vm' : Uid} (hne : vm ≠ vm') (f : Instance → Instance)
    (w : World) : ((Run.update vm f).run w).2.instance? vm' = w.instance? vm' :=
  List.getElem?_modify_ne f w.instances hne

/-- Reading an instance leaves the state as it is. -/
theorem run_inst_bind (vm : Uid) (f : Instance → Run α) (w : World) :
    (Run.inst vm >>= f).run w = (f ((w.instance? vm).getD default)).run w :=
  rfl

theorem run_get_bind (f : World → Run α) (w : World) : (get >>= f : Run α).run w = (f w).run w :=
  rfl

theorem run_bind (m : Run α) (f : α → Run β) (w : World) :
    (m >>= f).run w = (f (m.run w).1).run (m.run w).2 :=
  rfl

theorem preserves_pure (a : α) : Run.Preserves I (pure a) :=
  fun _ h => h

theorem Run.Preserves.bind {f : α → Run β} (hm : Run.Preserves I m)
    (hf : ∀ a, Run.Preserves I (f a)) : Run.Preserves I (m >>= f) :=
  fun w h => hf _ _ (hm w h)

theorem preserves_get : Run.Preserves I (get : Run World) :=
  fun _ h => h

theorem preserves_inst (vm : Uid) : Run.Preserves I (Run.inst vm) :=
  fun _ h => h

theorem Run.Preserves.discard (hm : Run.Preserves I m) : Run.Preserves I (discard m) :=
  hm.bind fun _ => preserves_pure _

/-- What changes neither instances nor their names preserves what is about them. -/
theorem World.OnInstances.preserves_modify (hI : World.OnInstances I) {f : World → World}
    (hf : ∀ w, (f w).instances = w.instances ∧ (f w).instanceNames = w.instanceNames) :
    Run.Preserves I (modify f) :=
  fun w h => hI w (f w) (hf w).1 (hf w).2 h

theorem World.Permits.preserves_update (hp : World.Permits I vm C) {f : Instance → Instance}
    (hf : ∀ i, C i (f i)) : Run.Preserves I (Run.update vm f) :=
  fun w h => hp w f (fun i _ => hf i) h

/-- What comes after a change of an instance starts from where the condition holds. -/
theorem World.Permits.update_bind (hp : World.Permits I vm C) {f : Instance → Instance}
    {k : Unit → Run α} {w : World} (hf : ∀ i, w.instance? vm = some i → C i (f i))
    (hk : ∀ a, Run.Preserves I (k a)) (hw : I w) : I ((Run.update vm f >>= k).run w).2 :=
  hk () _ (hp w f hf hw)

/-- Keeping an instance alive meanwhile changes nothing about the instances. -/
theorem pinned_of {J : World → Prop} (hI : World.OnInstances I) (hJ : World.OnInstances J)
    (uid : Uid) (hm : ∀ w, I w → J (m.run w).2) {w : World} (h : I w) :
    J ((Run.pinned uid m).run w).2 :=
  hJ (m.run { w with pins := uid :: w.pins }).2 _ rfl rfl (hm _ (hI w _ rfl rfl h))

theorem preserves_pinned (hI : World.OnInstances I) (uid : Uid) (hm : Run.Preserves I m) :
    Run.Preserves I (Run.pinned uid m) :=
  fun _ h => pinned_of hI hI uid hm h

/-! ## Reports -/

theorem preserves_report (hI : World.OnInstances I) (r : Report) :
    Run.Preserves I (Run.report r) :=
  hI.preserves_modify fun _ => ⟨rfl, rfl⟩

theorem preserves_warn (hI : World.OnInstances I) (message : String) (vm : Option Uid) :
    Run.Preserves I (Run.warn message vm) := by
  refine preserves_get.bind fun w => ?_
  split
  · split
    · exact preserves_report hI _
    · exact preserves_report hI _
  · exact preserves_pure _

theorem preserves_failGlobally (hI : World.OnInstances I) (f : Failure) (vm : Option Uid)
    (info : String) : Run.Preserves I (Run.failGlobally f vm info) := by
  refine preserves_get.bind fun w => ?_
  split
  · exact preserves_report hI _
  · exact (preserves_warn hI _ vm).bind fun _ => preserves_report hI _

/-! ## Failures -/

variable {app : Application}

theorem preserves_captureWith
    (hcap : ∀ hook f vm info, Run.Preserves I (app.errorCaptured hook f vm info))
    (f : Failure) (vm : Uid) (info : String) (hooks : List CallbackId) :
    Run.Preserves I (app.captureWith f vm info hooks) := by
  induction hooks with
  | nil => exact preserves_pure _
  | cons hook hooks ih =>
    refine (hcap hook f vm info).bind fun goesOn => ?_
    cases goesOn with
    | true => exact ih
    | false => exact preserves_pure _

theorem preserves_captureAbove
    (hcap : ∀ hook f vm info, Run.Preserves I (app.errorCaptured hook f vm info))
    (f : Failure) (vm : Uid) (info : String) (uid : Uid) :
    Run.Preserves I (app.captureAbove f vm info uid) := by
  -- The induction is on the number, since parents are older than their children.
  induction uid using Nat.strongRecOn with
  | ind uid ih =>
    rw [Application.captureAbove]
    refine preserves_get.bind fun w => ?_
    cases w.parent? uid with
    | none => exact preserves_pure _
    | some parent =>
      dsimp only
      split
      · rename_i hlt
        refine (preserves_inst parent).bind fun i => ?_
        refine (preserves_captureWith hcap f vm info i.options.errorCaptured).bind fun goesOn => ?_
        cases goesOn with
        | true => exact ih parent hlt
        | false => exact preserves_pure _
      · exact preserves_pure _

theorem preserves_guarded (hI : World.OnInstances I)
    (hcap : ∀ hook f vm info, Run.Preserves I (app.errorCaptured hook f vm info))
    {act : Run (Except Failure α)} (hact : Run.Preserves I act) (vm : Uid) (info : String) :
    Run.Preserves I (app.guarded act (some vm) info) := by
  refine hact.bind fun result => ?_
  cases result with
  | ok a => exact preserves_pure _
  | error f =>
    refine Run.Preserves.bind ?_ fun _ => preserves_pure _
    refine (preserves_captureAbove hcap f vm info vm).bind fun goesOn => ?_
    cases goesOn with
    | true => exact preserves_failGlobally hI f (some vm) info
    | false => exact preserves_pure _

/-! ## Values and watchers -/

/-- Only a getter that the instance has is called. -/
theorem preserves_getValue
    (hget : ∀ w i, I w → w.instance? vm = some i → ∀ key getter,
      i.computed.get? key = some getter → Run.Preserves I (app.computed getter vm))
    (key : String) : Run.Preserves I (app.getValue vm key) := by
  intro w h
  rw [Application.getValue, run_inst_bind]
  split
  · exact h
  · split
    · exact h
    · split
      · rename_i getter hgetter
        refine ((?_ : Run.Preserves I _).bind fun v => preserves_pure _) w h
        cases hi : w.instance? vm with
        | none =>
          rw [hi] at hgetter
          cases hgetter
        | some i =>
          rw [hi] at hgetter
          exact hget w i h hi key getter hgetter
      · exact h

theorem preserves_evalM {lookup : String → Run (Option Value)}
    (h : ∀ key, Run.Preserves I (lookup key)) (e : Expr) : Run.Preserves I (e.evalM lookup) := by
  unfold Expr.evalM
  cases e.root? with
  | none => exact preserves_pure _
  | some root => exact (h root).bind fun v => preserves_pure _

/-- A pass only calls the handlers of its snapshot, and getters, and changes watchers itself. -/
theorem preserves_notifyWatchers (hI : World.OnInstances I) (hp : World.Permits I vm C)
    (hC : ∀ i watchers, C i { i with watchers := watchers })
    (hcap : ∀ hook f vm info, Run.Preserves I (app.errorCaptured hook f vm info))
    (hget : ∀ key, Run.Preserves I (app.getValue vm key)) (snapshot : List ActiveWatcher)
    (hcall : ∀ active ∈ snapshot, ∀ new old,
      Run.Preserves I (app.watcher active.watcher.handler vm new old)) :
    Run.Preserves I (app.notifyWatchers vm snapshot) := by
  induction snapshot with
  | nil => exact preserves_pure _
  | cons active rest ih =>
    have hrest := ih fun a ha => hcall a (List.mem_cons_of_mem active ha)
    unfold Application.notifyWatchers
    refine (preserves_evalM hget active.expr).bind fun value => ?_
    dsimp only
    split
    · refine (preserves_inst vm).bind fun i => ?_
      split
      · refine (hp.preserves_update fun i => hC i _).bind fun _ => ?_
        refine Run.Preserves.bind ?_ fun _ => hrest
        exact (preserves_guarded hI hcap (hcall active List.mem_cons_self value active.value) vm
          _).discard
      · exact hrest
    · exact hrest

end

/-! ## Hooks and emissions -/

/-- The code of the application preserves a condition. -/
structure Application.Preserves (app : Application) (I : World → Prop) : Prop where
  hook : ∀ id vm, Run.Preserves I (app.hook id vm)
  data : ∀ id vm, Run.Preserves I (app.data id vm)
  method : ∀ id vm args, Run.Preserves I (app.method id vm args)
  computed : ∀ id vm, Run.Preserves I (app.computed id vm)
  watcher : ∀ id vm new old, Run.Preserves I (app.watcher id vm new old)
  errorCaptured : ∀ id f vm info, Run.Preserves I (app.errorCaptured id f vm info)
  render : ∀ id vm, Run.Preserves I (app.render id vm)
  validator : ∀ id v, Run.Preserves I (app.validator id v)
  factory : ∀ id, Run.Preserves I (app.factory id)
  listener : ∀ label args, Run.Preserves I (app.listener label args)

theorem idle_preserves (I : World → Prop) : Code.idle.Preserves I :=
  ⟨fun _ _ => preserves_pure _, fun _ _ => preserves_pure _, fun _ _ _ => preserves_pure _,
    fun _ _ => preserves_pure _, fun _ _ _ _ => preserves_pure _, fun _ _ _ _ => preserves_pure _,
    fun _ _ => preserves_pure _, fun _ _ => preserves_pure _, fun _ => preserves_pure _,
    fun _ _ => preserves_pure _⟩

section

variable {app : Application} {I : World → Prop} (h : app.Preserves I) (hI : World.OnInstances I)
include h hI

theorem Application.Preserves.guarded {α : Type} {act : Run (Except Failure α)}
    (hact : Run.Preserves I act) (vm : Uid) (info : String) :
    Run.Preserves I (app.guarded act (some vm) info) :=
  preserves_guarded hI h.errorCaptured hact vm info

omit hI in
theorem Application.Preserves.getValue (vm : Uid) (key : String) :
    Run.Preserves I (app.getValue vm key) :=
  preserves_getValue (fun _ _ _ _ _ getter _ => h.computed getter vm) key

omit h in
theorem preserves_warnNotPresent (vm : Uid) (key : String) :
    Run.Preserves I (Run.warnNotPresent vm key) := by
  refine (preserves_inst vm).bind fun i => ?_
  split
  · exact preserves_warn hI _ _
  · split
    · exact preserves_warn hI _ _
    · exact preserves_pure _

theorem preserves_lookupIn (vm : Uid) (scope : Scope) (name : String) :
    Run.Preserves I (app.lookupIn vm scope name) := by
  unfold Application.lookupIn
  cases scope.lookup name with
  | some v => exact preserves_pure _
  | none =>
    refine (preserves_inst vm).bind fun i => ?_
    split
    · exact preserves_pure _
    split
    · exact preserves_pure _
    split
    · exact preserves_pure _
    refine (h.getValue vm name).bind fun v => ?_
    cases v with
    | some v => exact preserves_pure _
    | none => exact (preserves_warnNotPresent hI vm name).bind fun _ => preserves_pure _

theorem preserves_resolveIn (vm : Uid) (scope : Scope) (source : String) :
    Run.Preserves I (app.resolveIn vm scope source) := by
  unfold Application.resolveIn
  cases Expr.parse source with
  | ok e => exact preserves_evalM (preserves_lookupIn h hI vm scope) e
  | error err => exact (preserves_warn hI _ _).bind fun _ => preserves_pure _

theorem preserves_argumentValues (vm : Uid) (scope : Scope) (args : List String) :
    Run.Preserves I (app.argumentValues vm scope args) := by
  induction args with
  | nil => exact preserves_pure _
  | cons arg args ih =>
    exact (preserves_resolveIn h hI vm scope _).bind fun v => ih.bind fun vs => preserves_pure _

theorem preserves_callHandler (vm : Uid) (name : String) (args : List Value) :
    Run.Preserves I (app.callHandler vm name args) := by
  refine (preserves_inst vm).bind fun i => ?_
  cases i.methods.get? name with
  | some method => exact (h.guarded hI (h.method method vm args) vm _).discard
  | none => exact preserves_warn hI _ _

theorem preserves_invokeHandler (vm : Uid) (scope : Scope) (handler : String) (args : List Value) :
    Run.Preserves I (app.invokeHandler vm scope handler args) := by
  unfold Application.invokeHandler
  cases splitCall? handler with
  | some call =>
    exact (preserves_argumentValues h hI vm _ _).bind fun values =>
      preserves_callHandler h hI vm call.1 values
  | none =>
    dsimp only
    split
    · exact preserves_callHandler h hI vm handler args
    · exact preserves_warn hI _ _

theorem preserves_callListener (args : List Value) (l : Listener) :
    Run.Preserves I (app.callListener args l) := by
  cases l with
  | silent => exact preserves_pure _
  | labelled label => exact h.listener label args
  | handler serial owner scope source =>
    refine preserves_get.bind fun w => ?_
    split
    · exact preserves_pinned hI owner (preserves_invokeHandler h hI owner scope source args)
    · exact preserves_pure _

/-- Handlers that an emission takes off are the only change that it makes to its instance. -/
theorem preserves_emit {vm : Uid} {C : Instance → Instance → Prop} (hp : World.Permits I vm C)
    (hself : ∀ i, C i i) (hoff : ∀ (i : Instance) event handlers l,
      i.events.get? event = some handlers →
        C i { i with events := i.events.insert event (removeLatest l handlers) })
    (event : String) (args : List Value) : Run.Preserves I (app.emit vm event args) := by
  have htake (l : Listener) : Run.Preserves I (Run.offListener vm event l) := by
    refine hp.preserves_update fun i => ?_
    cases hhandlers : i.events.get? event with
    | some handlers => exact hoff i event handlers l hhandlers
    | none => exact hself i
  have hcalls (handlers : List Handler) :
      Run.Preserves I (app.callHandlers vm event args handlers) := by
    induction handlers with
    | nil => exact preserves_pure _
    | cons handler rest ih =>
      have hcall := (preserves_callListener h hI args handler.listener).bind fun _ => ih
      unfold Application.callHandlers
      split
      · refine preserves_get.bind fun w => ?_
        split
        · exact (htake handler.listener).bind fun _ => hcall
        · exact hcall
      · exact hcall
  refine Run.Preserves.bind ?_ fun _ => (preserves_inst vm).bind fun i => hcalls _
  refine preserves_get.bind fun w => ?_
  split
  · refine preserves_get.bind fun w => ?_
    split
    · exact preserves_report hI _
    · exact preserves_pure _
  · exact preserves_pure _

theorem preserves_runHooks (vm : Uid) (info : String) (hooks : List CallbackId) :
    Run.Preserves I (app.runHooks vm info hooks) := by
  induction hooks with
  | nil => exact preserves_pure _
  | cons hook hooks ih =>
    exact (h.guarded hI (h.hook hook vm) vm info).discard.bind fun _ => ih

theorem preserves_callHook {vm : Uid} {C : Instance → Instance → Prop} (hp : World.Permits I vm C)
    (hself : ∀ i, C i i) (hoff : ∀ (i : Instance) event handlers l,
      i.events.get? event = some handlers →
        C i { i with events := i.events.insert event (removeLatest l handlers) })
    (hook : LifecycleHook) : Run.Preserves I (app.callHook vm hook) := by
  refine (preserves_inst vm).bind fun i => ?_
  refine (preserves_runHooks h hI vm _ _).bind fun _ => (preserves_inst vm).bind fun i => ?_
  split
  · exact preserves_emit h hI hp hself hoff _ _
  · exact preserves_pure _

end

end ViewTree
