import ViewTree.Proofs.Instance.Observing
import ViewTree.Proofs.Instance.Preserving
import ViewTree.Proofs.Instance.WatcherChains
/-!
# The watchers that notes tell of

A run that keeps note of what happens to watchers does what the run without notes does, and at any
time the watchers in force are those that the notes tell (`Booked`). Here that is shown for what
runs watchers. A pass goes through watchers that it has found when it began; it knows that they
were registered, and asks whether they are still in force before it calls them.
-/

namespace ViewTree

/-! ## What notes say -/

/-- The notes tell the watchers in force and the numbers that were given out, and are orderly. -/
structure Booked (start w : World) (events : List WatcherEvent) : Prop where
  inForce : ∀ vm, w.registrations vm = start.inForce vm events
  givenOut : ∀ vm id, start.GivenOut vm id events ↔ id < (w.watching vm).2
  orderly : start.Orderly events

/-- A run does what another does, and keeps note of what happens to watchers. -/
abbrev Observes {α : Type} (start : World) (t : Observed α) (m : Run α) : Prop :=
  Annotates (Booked start) t m

section

variable {start w w' : World} {events : List WatcherEvent} {vm : Uid} {e : WatcherEvent}

theorem aboutWatching_booked (start : World) : AboutWatching (Booked start) := by
  intro w w' events hw h
  constructor
  · intro vm
    rw [World.registrations, hw vm]
    exact h.inForce vm
  · intro vm id
    rw [hw vm]
    exact h.givenOut vm id
  · exact h.orderly

theorem booked_start (start : World) : Booked start start [] where
  inForce _ := rfl
  givenOut _ _ := by simp [World.GivenOut]
  orderly := orderly_nil start

/-- The watchers in force have different numbers in ascending order, below the next one. -/
theorem Booked.numbered (h : Booked start w events) (hstart : start.Numbered) : w.Numbered := by
  intro vm
  rw [h.inForce vm]
  have hsub := inForce_sublist start vm events
  refine ⟨(h.orderly.pairwise hstart vm).sublist hsub, fun r hr => ?_⟩
  exact (h.givenOut vm r.id).1 (hstart.givenOut (hsub.subset hr))

/-- An event that fits goes with a change of the state that does to the watchers what it tells. -/
theorem Booked.concat (h : Booked start w events) (hfits : e.Fits start events)
    (hleaves : ∀ vm, w'.registrations vm = e.leaves vm (w.registrations vm))
    (hnext : ∀ vm id, id < (w'.watching vm).2 ↔
      id < (w.watching vm).2 ∨ ∃ r ∈ e.registration? vm, r.id = id) :
    Booked start w' (events ++ [e]) where
  inForce vm := by rw [hleaves, h.inForce, inForce_concat]
  givenOut vm id := by rw [hnext, ← h.givenOut, givenOut_concat]
  orderly := h.orderly.concat hfits

end

/-! ## Changes to the watchers of an instance -/

section

variable {start w : World} {events : List WatcherEvent} {vm : Uid} {e : WatcherEvent} {α : Type}
  {P : List WatcherEvent → Prop}

theorem run_change (f : Instance → Instance) (e : WatcherEvent) (k : Unit → Observed α)
    (events : List WatcherEvent) (w : World) :
    ((Observed.change f e >>= k).run events).run w =
      ((k ()).run (events ++ e.noteIn w)).run ((Run.update e.vm f).run w).2 := by
  have hsame : e.noteIn ((Run.update e.vm f).run w).2 = e.noteIn w := by
    rw [WatcherEvent.noteIn, instance?_update_self, Option.isSome_map, WatcherEvent.noteIn]
  rw [← hsame]
  rfl

/-- A change to the watchers of an instance that an event tells goes with a note of the event. -/
theorem Booked.change (h : Booked start w events) {f : Instance → Instance}
    (hstep : ∀ i, w.instance? e.vm = some i → e.Fits start events ∧
      (f i).watchers.map (·.registration) =
        e.leaves e.vm (i.watchers.map (·.registration)) ∧
      ∀ id, id < (f i).nextWatcher ↔
        id < i.nextWatcher ∨ ∃ r ∈ e.registration? e.vm, r.id = id) :
    Booked start ((Run.update e.vm f).run w).2 (events ++ e.noteIn w) := by
  rw [WatcherEvent.noteIn]
  cases hi : w.instance? e.vm with
  | none =>
    rw [Option.isSome_none, if_neg Bool.false_ne_true, List.append_nil]
    refine aboutWatching_booked start w _ events (fun vm => ?_) h
    by_cases hvm : e.vm = vm
    · subst hvm
      rw [watching_update_self, hi]
    · exact watching_update_of_ne hvm f w
  | some i =>
    obtain ⟨hfits, hleaves, hnext⟩ := hstep i hi
    have hself : w.watching e.vm = (i.watchers, i.nextWatcher) := by rw [World.watching, hi]; rfl
    have hchanged : ((Run.update e.vm f).run w).2.watching e.vm =
        ((f i).watchers, (f i).nextWatcher) := by
      rw [watching_update_self, hi]
    refine h.concat hfits (fun vm => ?_) (fun vm id => ?_)
    · by_cases hvm : e.vm = vm
      · subst hvm
        rw [World.registrations, hchanged, World.registrations, hself]
        exact hleaves
      · rw [e.leaves_of_ne hvm, World.registrations, watching_update_of_ne hvm]
        rfl
    · by_cases hvm : e.vm = vm
      · subst hvm
        rw [hchanged, hself]
        exact hnext id
      · rw [e.registration?_of_ne hvm, watching_update_of_ne hvm]
        simp

/-- A change to the watchers of an instance, and what comes after it. -/
theorem observes_change {f : Instance → Instance} {k : Unit → Observed α} {r : Unit → Run α}
    (hk : Observes start (k ()) (r ()))
    (hstep : ∀ {events w i}, Booked start w events → w.instance? e.vm = some i →
      e.Fits start events ∧
      (f i).watchers.map (·.registration) =
        e.leaves e.vm (i.watchers.map (·.registration)) ∧
      ∀ id, id < (f i).nextWatcher ↔
        id < i.nextWatcher ∨ ∃ r ∈ e.registration? e.vm, r.id = id) :
    Observes start (Observed.change f e >>= k) (Run.update e.vm f >>= r) := by
  refine annotatesIf_step (k := fun _ => k ()) (r := fun _ => r ())
    (fun w => ((Run.update e.vm f).run w).2) e.noteIn (fun _ _ _ h => h)
    (run_change f e k) (fun _ => rfl) (fun _ => hk) fun {events w} _ h => ?_
  exact h.change fun i hi => hstep h hi

end

/-! ## Code that is called -/

/-- Code that keeps note of what happens to watchers stands for the code of an application. -/
structure Observing.For (start : World) (ob : Observing) (app : Application) : Prop where
  hook : ∀ id vm, Observes start (ob.hook id vm) (app.hook id vm)
  method : ∀ id vm args, Observes start (ob.method id vm args) (app.method id vm args)
  computed : ∀ id vm, Observes start (ob.computed id vm) (app.computed id vm)
  watcher : ∀ id vm new old, Observes start (ob.watcher id vm new old) (app.watcher id vm new old)
  errorCaptured : ∀ id f vm info,
    Observes start (ob.errorCaptured id f vm info) (app.errorCaptured id f vm info)
  listener : ∀ label args, Observes start (ob.listener label args) (app.listener label args)

section

variable {start : World} {ob : Observing} {app : Application} {α : Type}

theorem observes_pure (a : α) : Observes start (pure a) (pure a) :=
  annotates_pure a

/-- What leaves watchers as they are goes without a note. -/
theorem observes_lift {m : Run α} (hm : KeepsWatching m) : Observes start (m : Observed α) m :=
  (aboutWatching_booked start).annotates_lift hm

theorem observes_captureWith (h : ob.For start app) (f : Failure) (vm : Uid) (info : String)
    (hooks : List CallbackId) :
    Observes start (ob.captureWith f vm info hooks) (app.captureWith f vm info hooks) := by
  induction hooks with
  | nil => exact observes_pure _
  | cons hook hooks ih =>
    refine (h.errorCaptured hook f vm info).bind fun goesOn => ?_
    cases goesOn with
    | true => exact ih
    | false => exact observes_pure _

theorem observes_captureAbove (h : ob.For start app) (f : Failure) (vm : Uid) (info : String)
    (uid : Uid) :
    Observes start (ob.captureAbove f vm info uid) (app.captureAbove f vm info uid) := by
  -- The induction is on the number, since parents are older than their children.
  induction uid using Nat.strongRecOn with
  | ind uid ih =>
    rw [Observing.captureAbove, Application.captureAbove]
    refine (observes_lift keepsWatching_get).bind fun w => ?_
    cases w.parent? uid with
    | none => exact observes_pure _
    | some parent =>
      dsimp only
      split
      · rename_i hlt
        refine (observes_lift (keepsWatching_inst parent)).bind fun i => ?_
        refine (observes_captureWith h f vm info i.options.errorCaptured).bind fun goesOn => ?_
        cases goesOn with
        | true => exact ih parent hlt
        | false => exact observes_pure _
      · exact observes_pure _

theorem observes_guarded (h : ob.For start app) {act : Observed (Except Failure α)}
    {act' : Run (Except Failure α)} (hact : Observes start act act') (vm : Uid) (info : String) :
    Observes start (ob.guarded act vm info) (app.guarded act' (some vm) info) := by
  refine hact.bind fun result => ?_
  cases result with
  | ok a => exact observes_pure _
  | error f =>
    refine Annotates.bind ?_ fun _ => observes_pure _
    refine (observes_captureAbove h f vm info vm).bind fun goesOn => ?_
    cases goesOn with
    | true => exact observes_lift (keepsWatching_failGlobally f (some vm) info)
    | false => exact observes_pure _

theorem observes_getValue (h : ob.For start app) (vm : Uid) (key : String) :
    Observes start (ob.getValue vm key) (app.getValue vm key) := by
  unfold Observing.getValue Application.getValue
  refine (observes_lift (keepsWatching_inst vm)).bind fun i => ?_
  cases i.props.get? key with
  | some v => exact observes_pure _
  | none =>
    dsimp only
    cases (if Name.isReserved key then none else i.data.get? key) with
    | some v => exact observes_pure _
    | none =>
      dsimp only
      cases i.computed.get? key with
      | some getter => exact (h.computed getter vm).bind fun v => observes_pure _
      | none => exact (observes_lift (keepsWatching_inst vm)).bind fun i => observes_pure _

end

/-! ## Passes -/

section

variable {start : World} {ob : Observing} {app : Application} {α : Type} {vm : Uid}

/-- A pass knows that the watchers that it goes through were registered. -/
def Found (start : World) (vm : Uid) (snapshot : List ActiveWatcher) (events : List WatcherEvent) :
    Prop :=
  ∀ a ∈ snapshot, a.registration ∈ start.everInForce vm events

theorem stable_found (start : World) (vm : Uid) (snapshot : List ActiveWatcher) :
    Stable (Found start vm snapshot) :=
  fun _ _ hle hfound a ha => everInForce_mono hle (hfound a ha)

/-- The watcher that a pass has found is in force if one of its number is. -/
theorem Booked.registration_mem (hstart : start.Numbered) {w : World} {events : List WatcherEvent}
    (h : Booked start w events) {active : ActiveWatcher}
    (hfound : active.registration ∈ start.everInForce vm events)
    (hin : ∃ a ∈ (w.watching vm).1, a.id = active.id) :
    active.registration ∈ start.inForce vm events := by
  obtain ⟨a, ha, hid⟩ := hin
  have hforce : a.registration ∈ start.inForce vm events := by
    rw [← h.inForce vm]
    exact List.mem_map_of_mem ha
  have hsame : a.registration = active.registration :=
    h.orderly.eq_of_id_eq hstart ((inForce_sublist start vm events).subset hforce) hfound hid
  rwa [← hsame]

/-- A pass calls a watcher that it has found if it is in force, and keeps note of it. -/
theorem observes_call (hstart : start.Numbered) {P : List WatcherEvent → Prop} (hP : Stable P)
    {active : ActiveWatcher} {value : Value}
    (hfound : ∀ l, P l → active.registration ∈ start.everInForce vm l)
    {k j : Observed α} {k' j' : Run α} (hk : AnnotatesIf (Booked start) P k k')
    (hj : AnnotatesIf (Booked start) P j j') :
    AnnotatesIf (Booked start) P
      (do
        let i ← Run.inst vm
        if i.watchers.any (·.id == active.id) then do
          Observed.change (Instance.seeing active.id value)
            (.called vm active.registration value active.value)
          k
        else j)
      (do
        let i ← Run.inst vm
        if i.watchers.any (·.id == active.id) then do
          Run.update vm (Instance.seeing active.id value)
          k'
        else j') := by
  let e : WatcherEvent := .called vm active.registration value active.value
  let inForce (w : World) : Bool := (w.watching vm).1.any (·.id == active.id)
  let seen (w : World) : World := ((Run.update vm (Instance.seeing active.id value)).run w).2
  refine annotatesIf_step_if inForce seen e.noteIn hP (fun l w => ?_)
    (fun w => ?_) hk hj fun {l w} hin hl h => ?_
  · show StateT.run (StateT.run (if inForce w then _ else _) l) w = _
    split
    · exact run_change _ e (fun _ => k) l w
    · rfl
  · show StateT.run (if inForce w then _ else _) w = _
    split
    · rfl
    · rfl
  · obtain ⟨a, ha, hid⟩ := List.any_eq_true.1 hin
    refine h.change (e := e) fun i _ => ⟨?_, ?_, fun id => ?_⟩
    · exact h.registration_mem hstart (hfound l hl) ⟨a, ha, beq_iff_eq.1 hid⟩
    · -- The watcher that is called has a new value, but is registered as it was.
      show (i.watchers.map _).map _ = i.watchers.map _
      rw [List.map_map]
      refine List.map_congr_left fun a _ => ?_
      simp only [Function.comp_apply]
      split
      · rfl
      · rfl
    · simp [e, Instance.seeing, WatcherEvent.registration?]

theorem observes_notifyWatchers (hstart : start.Numbered) (h : ob.For start app) (vm : Uid)
    (snapshot : List ActiveWatcher) :
    AnnotatesIf (Booked start) (Found start vm snapshot) (ob.notifyWatchers vm snapshot)
      (app.notifyWatchers vm snapshot) := by
  induction snapshot with
  | nil => exact (observes_pure ()).under
  | cons active rest ih =>
    have hstable := stable_found start vm (active :: rest)
    have hrest : AnnotatesIf (Booked start) (Found start vm (active :: rest))
        (ob.notifyWatchers vm rest) (app.notifyWatchers vm rest) :=
      ih.mono fun l hl a ha => hl a (List.mem_cons_of_mem active ha)
    unfold Observing.notifyWatchers Application.notifyWatchers
    -- A getter may register and remove watchers, but what the pass has found was registered.
    refine AnnotatesIf.bind hstable (annotates_evalM (observes_getValue h vm) active.expr).under
      fun value => ?_
    split
    · refine observes_call hstart hstable (fun l hl => hl active List.mem_cons_self) ?_ hrest
      refine AnnotatesIf.bind hstable ?_ fun _ => hrest
      exact (observes_guarded h (h.watcher _ vm value active.value) vm _).discard.under
    · exact hrest

/-- A pass finds the watchers that are in force when it begins. -/
theorem observes_runWatchers (hstart : start.Numbered) (h : ob.For start app) (vm : Uid) :
    Observes start (ob.runWatchers vm) (app.runWatchers vm) := by
  have hpass (w : World) := observes_notifyWatchers hstart h vm (w.watching vm).1
  constructor
  · intro events w
    exact (hpass w).erases events w
  · intro events w
    exact (hpass w).adds events w
  · intro events w _ hw
    refine (hpass w).noted (fun a ha => ?_) hw
    have hforce : a.registration ∈ start.inForce vm events := by
      rw [← hw.inForce vm]
      exact List.mem_map_of_mem ha
    exact (inForce_sublist start vm events).subset hforce

theorem observes_setValue (hstart : start.Numbered) (h : ob.For start app) (vm : Uid) (key : String)
    (value : Value) : Observes start (ob.setValue vm key value) (app.setValue vm key value) := by
  unfold Observing.setValue Application.setValue
  refine (observes_lift (keepsWatching_inst vm)).bind fun i => ?_
  split
  · refine Annotates.bind (observes_lift ?_) fun _ => observes_runWatchers hstart h vm
    exact keepsWatching_update fun i => ⟨rfl, rfl⟩
  · split
    · refine (observes_lift (keepsWatching_warn _ _)).bind fun _ => ?_
      refine Annotates.bind (observes_lift ?_) fun _ => observes_runWatchers hstart h vm
      exact keepsWatching_update fun i => ⟨rfl, rfl⟩
    · exact observes_lift (keepsWatching_warn _ _)

theorem Booked.registered {w : World} {events : List WatcherEvent} (h : Booked start w events)
    (vm : Uid) (source : String) (expr : Expr) (watcher : Watcher) (value : Value) :
    let r : Registration := ⟨(w.watching vm).2, source, watcher⟩
    Booked start ((Run.update vm (Instance.watchedBy source expr watcher value r.id)).run w).2
      (events ++ (WatcherEvent.registered vm r).noteIn w) := by
  intro r
  refine h.change (e := .registered vm r) fun i hi => ⟨fun id => (h.givenOut vm id).1, ?_,
    fun id => ?_⟩
  · show (i.watchers ++ [_]).map _ = if vm = vm then i.watchers.map _ ++ [r] else _
    rw [if_pos rfl, List.map_append]
    rfl
  · have hnext : i.nextWatcher = r.id := by
      show i.nextWatcher = (w.watching vm).2
      rw [World.watching, show w.instance? vm = some i from hi]
      rfl
    show id < r.id + 1 ↔ id < i.nextWatcher ∨ ∃ r' ∈ (if vm = vm then some r else none), r'.id = id
    rw [if_pos rfl, hnext, Nat.lt_succ_iff_lt_or_eq]
    simp [eq_comm]

theorem Booked.called {w : World} {events : List WatcherEvent} (h : Booked start w events)
    {r : Registration} (hin : (w.instance? vm).isSome → r ∈ start.inForce vm events)
    (new old : Value) :
    Booked start w (events ++ (WatcherEvent.called vm r new old).noteIn w) := by
  rw [WatcherEvent.noteIn]
  split
  · rename_i hsome
    exact h.concat (hin hsome) (fun _ => rfl) fun _ _ => by simp [WatcherEvent.registration?]
  · rw [List.append_nil]
    exact h

/-- A watcher that is registered gets the next number, which is new, and is then in force. If it is
to be called at once, it is called while it is in force. -/
theorem observes_register (vm : Uid) (source : String) (expr : Expr) (watcher : Watcher)
    (value : Value) :
    Observes start (Observed.register vm source expr watcher value)
      (do
        let id := (← Run.inst vm).nextWatcher
        Run.update vm (Instance.watchedBy source expr watcher value id)
        pure id) := by
  let r (w : World) : Registration := ⟨(w.watching vm).2, source, watcher⟩
  let registered (w : World) : WatcherEvent := .registered vm (r w)
  let called (w : World) : WatcherEvent := .called vm (r w) value .null
  let next (w : World) : World :=
    ((Run.update vm (Instance.watchedBy source expr watcher value (r w).id)).run w).2
  have hsame (w : World) : ((next w).instance? vm).isSome = (w.instance? vm).isSome := by
    rw [instance?_update_self, Option.isSome_map]
  let rest (w : World) : Observed Nat := do
    if watcher.immediate then Observed.note (called w)
    pure (r w).id
  refine annotatesIf_step (k := fun w => pure (r w).id) (r := fun w => pure (r w).id) next
    (fun w => (registered w).noteIn w ++
      if watcher.immediate then (called w).noteIn (next w) else [])
    (fun _ _ _ h => h) (fun l w => ?_) (fun w => rfl) (fun w => observes_pure _) fun {l w} _ h => ?_
  · refine (run_change _ (registered w) (fun _ => rest w) l w).trans ?_
    rw [← List.append_assoc]
    unfold rest
    cases watcher.immediate with
    | true => rfl
    | false =>
      rw [if_neg Bool.false_ne_true, if_neg Bool.false_ne_true, List.append_nil]
      rfl
  · have hregistered := h.registered vm source expr watcher value
    rw [← List.append_assoc]
    split
    · refine hregistered.called (fun hsome => ?_) value .null
      -- What has just been registered is in force.
      rw [WatcherEvent.noteIn, if_pos (hsame w ▸ hsome), inForce_concat]
      show r w ∈ if vm = vm then start.inForce vm l ++ [r w] else _
      rw [if_pos rfl]
      exact List.mem_append_right _ (List.mem_singleton_self _)
    · rw [List.append_nil]
      exact hregistered

theorem observes_watch (h : ob.For start app) (vm : Uid) (source : String) (watcher : Watcher) :
    Observes start (ob.watch vm source watcher) (app.watch vm source watcher) := by
  unfold Observing.watch Application.watch
  cases Expr.parse source with
  | error e => exact (observes_lift (keepsWatching_warn _ _)).bind fun _ => observes_pure _
  | ok expr =>
    refine (annotates_evalM (observes_getValue h vm) expr).bind fun value => ?_
    let info := s!"callback for immediate watcher \"{source}\""
    let finish (id : Nat) : Observed (Option Nat) := do
      if watcher.immediate then
        discard (ob.guarded (ob.watcher watcher.handler vm value .null) vm info)
      pure (some id)
    let finish' (id : Nat) : Run (Option Nat) := do
      if watcher.immediate then
        discard (app.guarded (app.watcher watcher.handler vm value .null) (some vm) info)
      pure (some id)
    have hfinish (id : Nat) : Observes start (finish id) (finish' id) := by
      unfold finish finish'
      dsimp only
      split
      · refine Annotates.bind ?_ fun _ => observes_pure _
        exact (observes_guarded h (h.watcher _ vm value .null) vm info).discard
      · exact observes_pure _
    exact (observes_register vm source expr watcher value).bind hfinish

/-- A watcher that is removed is in force no more; the others stay as they are. -/
theorem observes_unwatch (vm : Uid) (id : Nat) :
    Observes start (Observed.unwatch vm id) (Application.unwatch vm id) := by
  refine observes_change (k := pure) (r := pure) (observes_pure ()) fun {events w i} h hi =>
    ⟨trivial, ?_, fun id' => ?_⟩
  · show (i.watchers.filter _).map _ = if vm = vm then (i.watchers.map _).filter _ else _
    rw [if_pos rfl, List.filter_map]
    rfl
  · simp [WatcherEvent.registration?]

end

end ViewTree
