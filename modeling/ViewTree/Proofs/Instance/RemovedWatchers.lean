import ViewTree.Proofs.Instance.Bookkeeping
/-!
# Watchers that are removed

What happens to watchers goes through methods, listeners, hooks and teardown as well, and so through
every routine (`observes_routine`). The notes are orderly all the while, and so a watcher that was
removed is never called again (`removed_never_called`).
-/

namespace ViewTree

/-! ## Methods, listeners and hooks -/

section

variable {start : World} {ob : Observing} {app : Application}

theorem keepsWatching_pins (f : World → List Uid) :
    KeepsWatching (modify fun w => { w with pins := f w }) :=
  fun _ _ => rfl

theorem keepsWatching_warnNotPresent (vm : Uid) (key : String) :
    KeepsWatching (Run.warnNotPresent vm key) := by
  refine (keepsWatching_inst vm).bind fun i => ?_
  split
  · exact keepsWatching_warn _ _
  · split
    · exact keepsWatching_warn _ _
    · exact keepsWatching_pure _

theorem keepsWatching_checkEventCase (vm : Uid) (event : String) :
    KeepsWatching (Application.checkEventCase vm event) := by
  refine keepsWatching_get.bind fun w => ?_
  split
  · refine keepsWatching_get.bind fun w => ?_
    split
    · exact keepsWatching_report _
    · exact keepsWatching_pure _
  · exact keepsWatching_pure _

theorem keepsWatching_offListener (vm : Uid) (event : String) (l : Listener) :
    KeepsWatching (Run.offListener vm event l) := by
  refine keepsWatching_update fun i => ?_
  split
  · exact ⟨rfl, rfl⟩
  · exact ⟨rfl, rfl⟩

theorem keepsWatching_unlink (vm : Uid) : KeepsWatching (Application.unlink vm) := by
  refine keepsWatching_get.bind fun w => ?_
  split
  · exact keepsWatching_pure _
  · refine (keepsWatching_inst _).bind fun i => ?_
    split
    · exact keepsWatching_update fun i => ⟨rfl, rfl⟩
    · exact keepsWatching_pure _

theorem observes_callMethod (h : ob.For start app) (vm : Uid) (name : String) (args : List Value) :
    Observes start (ob.callMethod vm name args) (app.callMethod vm name args) := by
  refine (observes_lift (keepsWatching_inst vm)).bind fun i => ?_
  cases i.methods.get? name with
  | none => exact (observes_lift (keepsWatching_warn _ _)).bind fun _ => observes_pure _
  | some method => exact observes_guarded h (h.method method vm args) vm _

theorem observes_lookupIn (h : ob.For start app) (vm : Uid) (scope : Scope) (name : String) :
    Observes start (ob.lookupIn vm scope name) (app.lookupIn vm scope name) := by
  unfold Observing.lookupIn Application.lookupIn
  cases scope.lookup name with
  | some v => exact observes_pure _
  | none =>
    refine (observes_lift (keepsWatching_inst vm)).bind fun i => ?_
    split
    · exact observes_pure _
    split
    · exact observes_pure _
    split
    · exact observes_pure _
    refine (observes_getValue h vm name).bind fun v => ?_
    cases v with
    | some v => exact observes_pure _
    | none =>
      exact (observes_lift (keepsWatching_warnNotPresent vm name)).bind fun _ => observes_pure _

theorem observes_resolveIn (h : ob.For start app) (vm : Uid) (scope : Scope) (source : String) :
    Observes start (ob.resolveIn vm scope source) (app.resolveIn vm scope source) := by
  unfold Observing.resolveIn Application.resolveIn
  cases Expr.parse source with
  | ok e => exact annotates_evalM (observes_lookupIn h vm scope) e
  | error err => exact (observes_lift (keepsWatching_warn _ _)).bind fun _ => observes_pure _

theorem observes_argumentValues (h : ob.For start app) (vm : Uid) (scope : Scope)
    (args : List String) :
    Observes start (ob.argumentValues vm scope args) (app.argumentValues vm scope args) := by
  induction args with
  | nil => exact observes_pure _
  | cons arg args ih =>
    exact (observes_resolveIn h vm scope _).bind fun v => ih.bind fun vs => observes_pure _

theorem observes_callHandler (h : ob.For start app) (vm : Uid) (name : String)
    (args : List Value) :
    Observes start (ob.callHandler vm name args) (app.callHandler vm name args) := by
  refine (observes_lift (keepsWatching_inst vm)).bind fun i => ?_
  cases i.methods.get? name with
  | some method => exact (observes_guarded h (h.method method vm args) vm _).discard
  | none => exact observes_lift (keepsWatching_warn _ _)

theorem observes_invokeHandler (h : ob.For start app) (vm : Uid) (scope : Scope) (handler : String)
    (args : List Value) :
    Observes start (ob.invokeHandler vm scope handler args)
      (app.invokeHandler vm scope handler args) := by
  unfold Observing.invokeHandler Application.invokeHandler
  cases splitCall? handler with
  | some call =>
    exact (observes_argumentValues h vm _ _).bind fun values =>
      observes_callHandler h vm call.1 values
  | none =>
    dsimp only
    split
    · exact observes_callHandler h vm handler args
    · exact observes_lift (keepsWatching_warn _ _)

theorem observes_pinned {α : Type} {t : Observed α} {m : Run α} (uid : Uid)
    (ht : Observes start t m) : Observes start (Observed.pinned uid t) (Run.pinned uid m) :=
  (observes_lift (keepsWatching_pins _)).bind fun _ => ht.bind fun _ =>
    (observes_lift (keepsWatching_pins _)).bind fun _ => observes_pure _

theorem observes_callListener (h : ob.For start app) (args : List Value) (l : Listener) :
    Observes start (ob.callListener args l) (app.callListener args l) := by
  cases l with
  | silent => exact observes_pure _
  | labelled label => exact h.listener label args
  | handler serial owner scope source =>
    refine (observes_lift keepsWatching_get).bind fun w => ?_
    split
    · exact observes_pinned owner (observes_invokeHandler h owner scope source args)
    · exact observes_pure _

theorem observes_callHandlers (h : ob.For start app) (vm : Uid) (event : String)
    (args : List Value) (handlers : List Handler) :
    Observes start (ob.callHandlers vm event args handlers)
      (app.callHandlers vm event args handlers) := by
  induction handlers with
  | nil => exact observes_pure _
  | cons handler rest ih =>
    have hcall := (observes_callListener h args handler.listener).bind fun _ => ih
    unfold Observing.callHandlers Application.callHandlers
    split
    · refine (observes_lift keepsWatching_get).bind fun w => ?_
      dsimp only
      split
      · exact (observes_lift (keepsWatching_offListener vm event _)).bind fun _ => hcall
      · exact hcall
    · exact hcall

theorem observes_emit (h : ob.For start app) (vm : Uid) (event : String) (args : List Value) :
    Observes start (ob.emit vm event args) (app.emit vm event args) :=
  (observes_lift (keepsWatching_checkEventCase vm event)).bind fun _ =>
    (observes_lift (keepsWatching_inst vm)).bind fun _ => observes_callHandlers h vm event args _

theorem observes_runHooks (h : ob.For start app) (vm : Uid) (info : String)
    (hooks : List CallbackId) :
    Observes start (ob.runHooks vm info hooks) (app.runHooks vm info hooks) := by
  induction hooks with
  | nil => exact observes_pure _
  | cons hook hooks ih =>
    exact (observes_guarded h (h.hook hook vm) vm info).discard.bind fun _ => ih

theorem observes_callHook (h : ob.For start app) (vm : Uid) (hook : LifecycleHook) :
    Observes start (ob.callHook vm hook) (app.callHook vm hook) := by
  refine (observes_lift (keepsWatching_inst vm)).bind fun i => ?_
  refine (observes_runHooks h vm _ _).bind fun _ => ?_
  refine (observes_lift (keepsWatching_inst vm)).bind fun i => ?_
  split
  · exact observes_emit h vm _ []
  · exact observes_pure _

/-! ## Teardown -/

theorem observes_forEachPinned {t : Uid → Observed Unit} {m : Uid → Run Unit}
    (ht : ∀ uid, Observes start (t uid) (m uid)) (uids : List Uid) :
    Observes start (Observing.forEachPinned t uids) (Application.forEachPinned m uids) := by
  have hgo (uids : List Uid) :
      Observes start (Observing.forEachPinned.go t uids) (Application.forEachPinned.go m uids) := by
    induction uids with
    | nil => exact observes_pure _
    | cons uid rest ih =>
      exact (ht uid).bind fun _ => (observes_lift (keepsWatching_pins _)).bind fun _ => ih
  exact (observes_lift (keepsWatching_pins _)).bind fun _ => hgo uids

/-- Teardown clears the watchers of an instance when its descendants are torn down. -/
theorem observes_destroyWithin (h : ob.For start app) (depth : Nat) (vm : Uid) :
    Observes start (ob.destroyWithin depth vm) (app.destroyWithin depth vm) := by
  induction depth generalizing vm with
  | zero => exact observes_pure _
  | succ depth ih =>
    unfold Observing.destroyWithin Application.destroyWithin
    refine (observes_lift (keepsWatching_inst vm)).bind fun i => ?_
    split
    · refine (observes_callHook h vm .beforeDestroy).bind fun _ => ?_
      refine Annotates.bind (observes_lift ?_) fun _ => ?_
      · exact keepsWatching_update fun i => ⟨rfl, rfl⟩
      refine (observes_lift (keepsWatching_unlink vm)).bind fun _ => ?_
      refine (observes_lift (keepsWatching_inst vm)).bind fun i => ?_
      refine Annotates.bind (observes_lift ?_) fun _ => ?_
      · exact keepsWatching_update fun i => ⟨rfl, rfl⟩
      refine (observes_forEachPinned ih i.children).bind fun _ => ?_
      refine observes_change ?_ fun {events w i} _ _ => ⟨trivial, ?_, fun id => ?_⟩
      · refine (observes_callHook h vm .destroyed).bind fun _ => ?_
        exact observes_lift (keepsWatching_update fun i => ⟨rfl, rfl⟩)
      · show [] = if vm = vm then [] else _
        rw [if_pos rfl]
      · simp [WatcherEvent.registration?]
    · exact observes_pure _

theorem observes_destroy (h : ob.For start app) (vm : Uid) :
    Observes start (ob.destroy vm) (app.destroy vm) :=
  (observes_lift keepsWatching_get).bind fun _ => observes_destroyWithin h _ vm

end

/-! ## Routines -/

section

variable {start : World} {ob : Observing} {app : Application} {α : Type}

/-- A routine that keeps note of what happens to watchers does what it does without notes. -/
theorem observes_routine (hstart : start.Numbered) (h : ob.For start app) (r : Routine α) :
    Observes start (r.observe ob) (r.run app) := by
  induction r with
  | done a => exact observes_pure a
  | act q next ih =>
    have hq : KeepsWatching (modifyGet fun w => (q.happen w, q.happen w) : Run World) :=
      fun w vm => q.keeps w vm
    exact (observes_lift hq).bind fun w => ih w
  | get vm key next ih => exact (observes_getValue h vm key).bind fun v => ih v
  | set vm key value next ih =>
    exact (observes_setValue hstart h vm key value).bind fun _ => ih
  | watch vm source watcher next ih =>
    exact (observes_watch h vm source watcher).bind fun id => ih id
  | unwatch vm id next ih => exact (observes_unwatch vm id).bind fun _ => ih
  | call vm method args next ih => exact (observes_callMethod h vm method args).bind fun v => ih v
  | emit vm event args next ih => exact (observes_emit h vm event args).bind fun _ => ih
  | destroy vm next ih => exact (observes_destroy h vm).bind fun _ => ih

/-- To every depth, code that keeps note stands for the code without notes. -/
theorem observing_for (hstart : start.Numbered) (code : Routines) (depth : Nat) :
    (code.observing depth).For start (code.application depth) := by
  induction depth with
  | zero =>
    exact ⟨fun _ _ => observes_pure _, fun _ _ _ => observes_pure _, fun _ _ => observes_pure _,
      fun _ _ _ _ => observes_pure _, fun _ _ _ _ => observes_pure _, fun _ _ => observes_pure _⟩
  | succ depth ih =>
    exact ⟨fun id vm => observes_routine hstart ih (code.hook id vm),
      fun id vm args => observes_routine hstart ih (code.method id vm args),
      fun id vm => observes_routine hstart ih (code.computed id vm),
      fun id vm new old => observes_routine hstart ih (code.watcher id vm new old),
      fun id f vm info => observes_routine hstart ih (code.errorCaptured id f vm info),
      fun label args => observes_routine hstart ih (code.listener label args)⟩

end

/-! ## Removed watchers -/

namespace Routines

variable {α : Type} (code : Routines) (depth : Nat) (r : Routine α) (w : World)

/-- What a piece of code comes to, with what happens to watchers meanwhile. -/
def observation : (α × List WatcherEvent) × World :=
  ((r.observe (code.observing depth)).run []).run w

/-- What happens to watchers while a piece of code runs. -/
def events : List WatcherEvent :=
  (code.observation depth r w).1.2

end Routines

/-- Where nothing is watched, watchers are numbered as they should be. -/
theorem numbered_of_unwatched {w : World} (hw : ∀ vm, (w.watching vm).1 = []) : w.Numbered := by
  intro vm
  rw [World.registrations, hw vm]
  exact ⟨.nil, fun r hr => absurd hr List.not_mem_nil⟩

/-- Code runs in an application: it watches, unwatches, writes and destroys, and so do the getters,
handlers, hooks and listeners that are called. Once a watcher is removed, by its number or with all
others of its instance, it is not called any more, whatever passes are under way. A number is given
to one watcher only. At the end those watchers are in force that were so at the start or were
registered and have not been removed, in the order of their registration. -/
theorem removed_never_called {α : Type} (code : Routines) (depth : Nat) (r : Routine α) {w : World}
    (hw : w.Numbered) :
    let events := code.events depth r w
    let after := (code.observation depth r w).2
    ((code.observation depth r w).1.1, after) = (r.run (code.application depth)).run w ∧
      (∀ before e later, events = before ++ e :: later → ∀ vm id, w.GivenOut vm id before →
        e.Removes vm id → ∀ watcher : Registration, watcher.id = id → ∀ new old,
          .called vm watcher new old ∉ later) ∧
      (∀ before vm watcher later, events = before ++ .registered vm watcher :: later →
        ∀ id, w.GivenOut vm id before → id < watcher.id) ∧
      (∀ vm, after.registrations vm = w.inForce vm events) ∧ after.Numbered := by
  intro events after
  have hr := observes_routine hw (observing_for hw code depth) r
  have hbooked : Booked w after events := hr.noted trivial (booked_start w)
  refine ⟨hr.erases [] w, ?_, ?_, hbooked.inForce, hbooked.numbered hw⟩
  · intro before e later hsplit vm id hout hremoves watcher hid new old
    have horderly := hbooked.orderly
    rw [hsplit] at horderly
    exact horderly.not_called hout hremoves hid new old
  · intro before vm watcher later hsplit
    exact hbooked.orderly before _ later hsplit

/-- The first handler unwatches a number when it is called; nothing else does anything. -/
def Routines.unwatching (id : Nat) : Routines where
  hook _ _ := .done (.ok ())
  method _ _ _ := .done (.ok .null)
  computed _ _ := .done .null
  watcher handler vm _ _ :=
    if handler = 0 then .unwatch vm id (.done (.ok ())) else .done (.ok ())
  errorCaptured _ _ _ _ := .done true
  listener _ _ := .done ()

/-- Watches a property with two handlers, and writes it twice. -/
def Routine.writeTwice (key : String) (first second : Value) : Routine Unit :=
  .watch 0 key ⟨0, false⟩ fun _ =>
    .watch 0 key ⟨1, false⟩ fun _ =>
      .set 0 key first (.set 0 key second (.done ()))

/-- The handler of the first watcher of `n` removes the second one. -/
def removingNext : List WatcherEvent :=
  (Routines.unwatching 1).events 2 (.writeTwice "n" (.number (.int 1)) (.number (.int 2)))
    (.holding counters)

/-- A watcher that is removed by the pass that was to call it is not called, then or later. -/
theorem removed_never_called_removingNext :
    (World.holding counters).Numbered ∧ ∃ before e later, removingNext = before ++ e :: later ∧
      (World.holding counters).GivenOut 0 1 before ∧ e.Removes 0 1 ∧ later.length = 2 ∧
      ∀ watcher : Registration, watcher.id = 1 → ∀ new old, .called 0 watcher new old ∉ later := by
  have hw : (World.holding counters).Numbered :=
    numbered_of_unwatched (watching_holding counters)
  have hlength : removingNext.length = 6 := by decide +kernel
  have hlt : 3 < removingNext.length := by rw [hlength]; decide
  have hsplit : removingNext =
      removingNext.take 3 ++ removingNext[3] :: removingNext.drop 4 := by
    rw [← List.drop_eq_getElem_cons hlt, List.take_append_drop]
  have hout : (World.holding counters).GivenOut 0 1 (removingNext.take 3) := by
    have hmem : (⟨1, "n", ⟨1, false⟩⟩ : Registration) ∈
        (World.holding counters).everInForce 0 (removingNext.take 3) := by decide +kernel
    exact hw.givenOut hmem
  have hremoves : removingNext[3].Removes 0 1 := by
    have hfourth : ∀ e ∈ removingNext[3]?, e.Removes 0 1 := by decide +kernel
    exact hfourth _ (List.getElem?_eq_getElem hlt)
  have h := removed_never_called (Routines.unwatching 1) 2
    (.writeTwice "n" (.number (.int 1)) (.number (.int 2))) hw
  exact ⟨hw, _, _, _, hsplit, hout, hremoves, by rw [List.length_drop, hlength],
    h.2.1 _ _ _ hsplit 0 1 hout hremoves⟩

end ViewTree
