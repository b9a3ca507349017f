import ViewTree.Proofs.Instance.Noting
/-!
# The chain of a watcher's calls

A run that keeps note of what watchers see does what the run without notes does, and its notes are
those of watchers that know what they have seen last (`Records`). That is shown for every function
that takes part, and so for every reaction (`records_trace`). Whether the changes that watchers are
told of form a chain can then be read from the notes (`told_chained_iff`).
-/

namespace ViewTree

/-! ## What notes say -/

/-- Every watcher has the value that it has seen last, and all sightings are accounted for. -/
structure Noted (w : World) (sightings : List Sighting) : Prop where
  numbered : ∀ vm, ∀ a ∈ (w.watching vm).1, a.id < (w.watching vm).2
  seen : ∀ vm, ∀ a ∈ (w.watching vm).1, lastSeen vm a.id sightings = some a.value
  accounted : Sighting.Along Sighting.Accounted [] sightings

/-- A run does what another does, and keeps note of what watchers see, if the sightings before it
are such that a condition holds. -/
abbrev RecordsIf {α : Type} (P : List Sighting → Prop) (t : Traced α) (m : Run α) : Prop :=
  AnnotatesIf Noted P t m

/-- A run does what another does, and keeps note of what watchers see. -/
abbrev Records {α : Type} (t : Traced α) (m : Run α) : Prop :=
  Annotates Noted t m

section

variable {α : Type} {m : Run α}

theorem aboutWatching_noted : AboutWatching Noted := by
  intro w w' sightings hw h
  constructor
  · intro vm
    rw [hw vm]
    exact h.numbered vm
  · intro vm
    rw [hw vm]
    exact h.seen vm
  · exact h.accounted

theorem records_pure (a : α) : Records (pure a : Traced α) (pure a) :=
  annotates_pure a

/-- What leaves watchers as they are goes without a note. -/
theorem records_lift (hm : KeepsWatching m) : Records (m : Traced α) m :=
  aboutWatching_noted.annotates_lift hm

end

/-! ## Code that is called -/

/-- Code that keeps note of what watchers see stands for the code of an application. -/
structure Tracing.For (tr : Tracing) (app : Application) : Prop where
  computed : ∀ getter vm, Records (tr.computed getter vm) (app.computed getter vm)
  watcher : ∀ handler vm new old,
    Records (tr.watcher handler vm new old) (app.watcher handler vm new old)
  errorCaptured : ∀ hook f vm info,
    Records (tr.errorCaptured hook f vm info) (app.errorCaptured hook f vm info)

section

variable {tr : Tracing} {app : Application} {α : Type}

theorem records_getValue (h : tr.For app) (vm : Uid) (key : String) :
    Records (tr.getValue vm key) (app.getValue vm key) := by
  unfold Tracing.getValue Application.getValue
  refine (records_lift (keepsWatching_inst vm)).bind fun i => ?_
  cases i.props.get? key with
  | some v => exact records_pure _
  | none =>
    dsimp only
    cases (if Name.isReserved key then none else i.data.get? key) with
    | some v => exact records_pure _
    | none =>
      dsimp only
      cases i.computed.get? key with
      | some getter => exact (h.computed getter vm).bind fun v => records_pure _
      | none => exact (records_lift (keepsWatching_inst vm)).bind fun i => records_pure _

theorem records_captureWith (h : tr.For app) (f : Failure) (vm : Uid) (info : String)
    (hooks : List CallbackId) :
    Records (tr.captureWith f vm info hooks) (app.captureWith f vm info hooks) := by
  induction hooks with
  | nil => exact records_pure _
  | cons hook hooks ih =>
    refine (h.errorCaptured hook f vm info).bind fun goesOn => ?_
    cases goesOn with
    | true => exact ih
    | false => exact records_pure _

theorem records_captureAbove (h : tr.For app) (f : Failure) (vm : Uid) (info : String) (uid : Uid) :
    Records (tr.captureAbove f vm info uid) (app.captureAbove f vm info uid) := by
  -- The induction is on the number, since parents are older than their children.
  induction uid using Nat.strongRecOn with
  | ind uid ih =>
    rw [Tracing.captureAbove, Application.captureAbove]
    refine (records_lift keepsWatching_get).bind fun w => ?_
    cases w.parent? uid with
    | none => exact records_pure _
    | some parent =>
      dsimp only
      split
      · rename_i hlt
        refine (records_lift (keepsWatching_inst parent)).bind fun i => ?_
        refine (records_captureWith h f vm info i.options.errorCaptured).bind fun goesOn => ?_
        cases goesOn with
        | true => exact ih parent hlt
        | false => exact records_pure _
      · exact records_pure _

theorem records_guarded (h : tr.For app) {act : Traced (Except Failure α)}
    {act' : Run (Except Failure α)} (hact : Records act act') (vm : Uid) (info : String) :
    Records (tr.guarded act vm info) (app.guarded act' (some vm) info) := by
  refine hact.bind fun result => ?_
  cases result with
  | ok a => exact records_pure _
  | error f =>
    refine Annotates.bind ?_ fun _ => records_pure _
    refine (records_captureAbove h f vm info vm).bind fun goesOn => ?_
    cases goesOn with
    | true => exact records_lift (keepsWatching_failGlobally f (some vm) info)
    | false => exact records_pure _

end

/-! ## Passes -/

/-- The instance after one of its watchers has seen a value. -/
def Instance.seeing (id : Nat) (value : Value) (i : Instance) : Instance :=
  { i with watchers := i.watchers.map fun w =>
      if w.id == id then { w with value := value } else w }

/-- A pass that began after some sightings knows what the watchers of its snapshot had seen then. -/
def Knows (vm : Uid) (start : Nat) (snapshot : List ActiveWatcher) (sightings : List Sighting) :
    Prop :=
  start ≤ sightings.length ∧
    ∀ a ∈ snapshot, lastSeen vm a.id (sightings.take start) = some a.value

theorem stable_knows (vm : Uid) (start : Nat) (snapshot : List ActiveWatcher) :
    Stable (Knows vm start snapshot) := by
  rintro sightings after ⟨more, rfl⟩ ⟨hle, hknown⟩
  refine ⟨Nat.le_trans hle (by simp), fun a ha => ?_⟩
  rw [List.take_append_of_le_length hle]
  exact hknown a ha

section

variable {α : Type} {w : World} {sightings : List Sighting} {vm : Uid} {start : Nat}
  {active : ActiveWatcher} {value : Value}

/-- A change to an instance leaves all accounted for, if it does so for the watchers of the instance
and those of others see nothing meanwhile. -/
theorem Noted.update (h : Noted w sightings) {f : Instance → Instance} {after : List Sighting}
    (hself : ∀ i, w.watching vm = (i.watchers, i.nextWatcher) → ∀ a ∈ (f i).watchers,
      a.id < (f i).nextWatcher ∧ lastSeen vm a.id after = some a.value)
    (hother : ∀ vm', vm ≠ vm' → ∀ id, lastSeen vm' id after = lastSeen vm' id sightings)
    (haccounted : Sighting.Along Sighting.Accounted [] after) :
    Noted ((Run.update vm f).run w).2 after := by
  have hall (vm' : Uid) : ∀ a ∈ (((Run.update vm f).run w).2.watching vm').1,
      a.id < (((Run.update vm f).run w).2.watching vm').2 ∧
        lastSeen vm' a.id after = some a.value := by
    by_cases heq : vm = vm'
    · subst heq
      rw [watching_update_self]
      cases hi : w.instance? vm with
      | none =>
        -- What does not exist has no watchers.
        intro a ha
        rw [World.watching, hi] at ha
        exact absurd ha List.not_mem_nil
      | some i => exact hself i (by rw [World.watching, hi]; rfl)
    · rw [watching_update_of_ne heq]
      intro a ha
      rw [hother vm' heq]
      exact ⟨h.numbered vm' a ha, h.seen vm' a ha⟩
  exact ⟨fun vm' a ha => (hall vm' a ha).1, fun vm' a ha => (hall vm' a ha).2, haccounted⟩

/-- A watcher that is in force is told of a change by a pass that knows what it had seen. -/
theorem Noted.told (h : Noted w sightings) (hin : ∃ a ∈ (w.watching vm).1, a.id = active.id)
    (hchange : (value == active.value) = false)
    (hknown : lastSeen vm active.id (sightings.take start) = some active.value) :
    Noted ((Run.update vm (Instance.seeing active.id value)).run w).2
      (sightings ++ [.told vm active.id value active.value start]) := by
  refine h.update (fun i hi b hb => ?_) (fun vm' hne id => ?_)
    (Sighting.along_concat.2 ⟨h.accounted, hchange, ?_⟩)
  · obtain ⟨c, hc, rfl⟩ := List.mem_map.1 hb
    have hc' : c ∈ (w.watching vm).1 := hi ▸ hc
    have hlt : c.id < i.nextWatcher := by
      have hlt := h.numbered vm c hc'
      rwa [hi] at hlt
    rw [lastSeen_append]
    split
    · rename_i hsame
      exact ⟨hlt, by simp [lastSeen, Sighting.seenBy, beq_iff_eq.1 hsame]⟩
    · rename_i hother
      have hne : active.id ≠ c.id := fun heq => hother (by simp [heq])
      exact ⟨hlt, by simp [lastSeen, Sighting.seenBy, hne, h.seen vm c hc']⟩
  · simp [lastSeen_append, lastSeen, Sighting.seenBy, hne]
  · obtain ⟨a, ha, hid⟩ := hin
    have hlast := h.seen vm a ha
    rw [hid] at hlast
    refine ⟨a.value, hlast, fun hsince => ?_⟩
    -- Nothing was seen since the pass began, so what it knows was seen last.
    rw [← List.take_append_drop start sightings, lastSeen_append] at hlast
    rw [List.nil_append] at hsince
    rw [hsince, Option.none_or, hknown] at hlast
    exact Option.some.inj hlast

/-- Telling a watcher of a change, if it is in force, keeps note of it. -/
theorem records_tell {P : List Sighting → Prop} {k j : Traced α} {k' j' : Run α}
    (hP : Stable P) (hchange : (value == active.value) = false)
    (hknown : ∀ l, P l → lastSeen vm active.id (l.take start) = some active.value)
    (hk : RecordsIf P k k') (hj : RecordsIf P j j') :
    RecordsIf P
      (do
        let i ← Run.inst vm
        if i.watchers.any (·.id == active.id) then do
          Run.update vm (Instance.seeing active.id value)
          Traced.note (.told vm active.id value active.value start)
          k
        else j)
      (do
        let i ← Run.inst vm
        if i.watchers.any (·.id == active.id) then do
          Run.update vm (Instance.seeing active.id value)
          k'
        else j') := by
  let inForce (w : World) : Bool := (w.watching vm).1.any (·.id == active.id)
  let seen (w : World) : World := ((Run.update vm (Instance.seeing active.id value)).run w).2
  refine annotatesIf_step_if inForce seen
    (fun _ => [.told vm active.id value active.value start]) hP (fun l w => ?_)
    (fun w => ?_) hk hj fun {l w} hin hl h => ?_
  · show StateT.run (StateT.run (if inForce w then _ else _) l) w = _
    split
    · rfl
    · rfl
  · show StateT.run (if inForce w then _ else _) w = _
    split
    · rfl
    · rfl
  · obtain ⟨a, ha, hid⟩ := List.any_eq_true.1 hin
    exact h.told ⟨a, ha, beq_iff_eq.1 hid⟩ hchange (hknown l hl)

variable {tr : Tracing} {app : Application}

theorem records_notifyWatchers (h : tr.For app) (vm : Uid) (start : Nat)
    (snapshot : List ActiveWatcher) :
    RecordsIf (Knows vm start snapshot) (tr.notifyWatchers vm start snapshot)
      (app.notifyWatchers vm snapshot) := by
  induction snapshot with
  | nil => exact (records_pure ()).mono fun _ _ => trivial
  | cons active rest ih =>
    have hstable := stable_knows vm start (active :: rest)
    have hrest : RecordsIf (Knows vm start (active :: rest)) (tr.notifyWatchers vm start rest)
        (app.notifyWatchers vm rest) :=
      ih.mono fun l hl => ⟨hl.1, fun a ha => hl.2 a (List.mem_cons_of_mem active ha)⟩
    unfold Tracing.notifyWatchers Application.notifyWatchers
    -- A getter may change what the watchers see, but not what the pass knows.
    refine AnnotatesIf.bind hstable (annotates_evalM (records_getValue h vm) active.expr).under
      fun value => ?_
    dsimp only
    split
    · rename_i hchange
      have hchange' : (value == active.value) = false := by
        simpa [bne] using hchange
      refine records_tell hstable hchange' (fun l hl => hl.2 active List.mem_cons_self) ?_ hrest
      refine AnnotatesIf.bind hstable ?_ fun _ => hrest
      refine AnnotatesIf.mono (Annotates.bind ?_ fun _ => records_pure _) fun _ _ => trivial
      exact records_guarded h (h.watcher _ vm value active.value) vm _
    · exact hrest

/-- A pass takes what the watchers have seen as it finds it. -/
theorem records_runWatchers (h : tr.For app) (vm : Uid) :
    Records (tr.runWatchers vm) (app.runWatchers vm) := by
  have hpass (l : List Sighting) (w : World) :=
    records_notifyWatchers h vm l.length (w.watching vm).1
  have htraced (l : List Sighting) (w : World) : ((tr.runWatchers vm).run l).run w =
      ((tr.notifyWatchers vm l.length (w.watching vm).1).run l).run w := by
    unfold Tracing.runWatchers
    generalize tr.notifyWatchers vm = pass
    rfl
  constructor
  · intro l w
    rw [htraced]
    exact (hpass l w).erases l w
  · intro l w
    rw [htraced]
    exact (hpass l w).adds l w
  · intro l w _ hw
    rw [htraced]
    -- The snapshot is taken from the state, which holds what every watcher has seen last.
    refine (hpass l w).noted ⟨Nat.le_refl _, fun a ha => ?_⟩ hw
    rw [List.take_length]
    exact hw.seen vm a ha

theorem records_setValue (h : tr.For app) (vm : Uid) (key : String) (value : Value) :
    Records (tr.setValue vm key value) (app.setValue vm key value) := by
  unfold Tracing.setValue Application.setValue
  refine (records_lift (keepsWatching_inst vm)).bind fun i => ?_
  split
  · refine Annotates.bind (records_lift ?_) fun _ => records_runWatchers h vm
    exact keepsWatching_update fun i => ⟨rfl, rfl⟩
  · split
    · refine (records_lift (keepsWatching_warn _ _)).bind fun _ => ?_
      refine Annotates.bind (records_lift ?_) fun _ => records_runWatchers h vm
      exact keepsWatching_update fun i => ⟨rfl, rfl⟩
    · exact records_lift (keepsWatching_warn _ _)

/-- The instance with one more watcher, of the next number. -/
def Instance.watchedBy (source : String) (expr : Expr) (watcher : Watcher) (value : Value)
    (id : Nat) (i : Instance) : Instance :=
  { i with nextWatcher := id + 1
           watchers := i.watchers ++ [⟨id, source, expr, watcher, value⟩] }

/-- A watcher that is registered under the next number has seen the value of its expression. -/
theorem Noted.registered (h : Noted w sightings) (source : String) (expr : Expr) (watcher : Watcher)
    (value : Value) :
    let id := (w.watching vm).2
    Noted ((Run.update vm (Instance.watchedBy source expr watcher value id)).run w).2
      (sightings ++ [.registered vm id value]) := by
  intro id
  refine h.update (fun i hi b hb => ?_) (fun vm' hne id => ?_)
    (Sighting.along_concat.2 ⟨h.accounted, trivial⟩)
  · rw [lastSeen_append]
    rcases List.mem_append.1 hb with hb | hb
    · have hb' : b ∈ (w.watching vm).1 := hi ▸ hb
      -- The number is new to the instance.
      have hlt : b.id < id := h.numbered vm b hb'
      have hne : id ≠ b.id := Nat.ne_of_gt hlt
      exact ⟨Nat.lt_succ_of_lt hlt, by simp [lastSeen, Sighting.seenBy, hne, h.seen vm b hb']⟩
    · rw [List.mem_singleton.1 hb]
      exact ⟨Nat.lt_succ_self id, by simp [lastSeen, Sighting.seenBy]⟩
  · simp [lastSeen_append, lastSeen, Sighting.seenBy, hne]

/-- Registering a watcher keeps note of it. -/
theorem records_register {k : Nat → Traced α} {k' : Nat → Run α} (source : String) (expr : Expr)
    (watcher : Watcher) (value : Value) (hk : ∀ id, Records (k id) (k' id)) :
    Records
      (do
        let id := (← Run.inst vm).nextWatcher
        Run.update vm (Instance.watchedBy source expr watcher value id)
        Traced.note (.registered vm id value)
        k id)
      (do
        let id := (← Run.inst vm).nextWatcher
        Run.update vm (Instance.watchedBy source expr watcher value id)
        k' id) := by
  constructor
  · intro l w
    exact (hk (w.watching vm).2).erases _ _
  · intro l w
    exact (List.prefix_append l _).trans ((hk (w.watching vm).2).adds _ _)
  · intro l w _ hw
    exact (hk (w.watching vm).2).noted trivial (hw.registered source expr watcher value)

theorem records_watch (h : tr.For app) (vm : Uid) (source : String) (watcher : Watcher) :
    Records (tr.watch vm source watcher) (app.watch vm source watcher) := by
  unfold Tracing.watch Application.watch
  cases Expr.parse source with
  | error e => exact (records_lift (keepsWatching_warn _ _)).bind fun _ => records_pure _
  | ok expr =>
    refine (annotates_evalM (records_getValue h vm) expr).bind fun value => ?_
    let info := s!"callback for immediate watcher \"{source}\""
    let finish (id : Nat) : Traced (Option Nat) := do
      if watcher.immediate then
        discard (tr.guarded (tr.watcher watcher.handler vm value .null) vm info)
      pure (some id)
    let finish' (id : Nat) : Run (Option Nat) := do
      if watcher.immediate then
        discard (app.guarded (app.watcher watcher.handler vm value .null) (some vm) info)
      pure (some id)
    have hfinish (id : Nat) : Records (finish id) (finish' id) := by
      unfold finish finish'
      dsimp only
      split
      · refine Annotates.bind (Annotates.bind ?_ fun _ => records_pure _) fun _ => records_pure _
        exact records_guarded h (h.watcher _ vm value .null) vm info
      · exact records_pure _
    exact records_register source expr watcher value hfinish

/-- Removing a watcher takes nothing from what the others have seen. -/
theorem Noted.unwatched (h : Noted w sightings) (vm : Uid) (id : Nat) :
    Noted ((Application.unwatch vm id).run w).2 sightings := by
  refine h.update (fun i hi a ha => ?_) (fun _ _ _ => rfl) h.accounted
  have ha' : a ∈ (w.watching vm).1 := hi ▸ (List.mem_filter.1 ha).1
  have hlt := h.numbered vm a ha'
  rw [hi] at hlt
  exact ⟨hlt, h.seen vm a ha'⟩

theorem records_unwatch (vm : Uid) (id : Nat) :
    Records (Application.unwatch vm id : Traced Unit) (Application.unwatch vm id) :=
  ⟨fun _ _ => rfl, fun _ _ => List.prefix_rfl, fun _ h => h.unwatched vm id⟩

end

/-! ## Reactions -/

section

variable {tr : Tracing} {app : Application} {α : Type}

/-- A reaction that keeps note of what watchers see does what it does without notes. -/
theorem records_trace (h : tr.For app) (r : Reaction α) : Records (r.trace tr) (r.run app) := by
  induction r with
  | done a => exact records_pure a
  | act q next ih =>
    have hq : KeepsWatching (modifyGet fun w => (q.happen w, q.happen w) : Run World) :=
      fun w vm => q.keeps w vm
    exact (records_lift hq).bind fun w => ih w
  | set vm key value next ih => exact (records_setValue h vm key value).bind fun _ => ih
  | watch vm source watcher next ih =>
    exact (records_watch h vm source watcher).bind fun id => ih id
  | unwatch vm id next ih => exact (records_unwatch vm id).bind fun _ => ih

/-- To every depth, code that keeps note stands for the code without notes. -/
theorem tracing_for (code : Reactions) (depth : Nat) :
    (code.tracing depth).For (code.application depth) := by
  induction depth with
  | zero => exact ⟨fun _ _ => records_pure _, fun _ _ _ _ => records_pure _,
      fun _ _ _ _ => records_pure _⟩
  | succ depth ih =>
    exact ⟨fun getter vm => records_trace ih (code.computed getter vm),
      fun handler vm new old => records_trace ih (code.watcher handler vm new old),
      fun hook f vm info => records_trace ih (code.errorCaptured hook f vm info)⟩

end

/-! ## The chain -/

namespace Reactions

variable {α : Type} (code : Reactions) (depth : Nat) (r : Reaction α) (w : World)

/-- What a piece of code comes to, with what watchers see meanwhile. -/
def outcome : (α × List Sighting) × World :=
  ((r.trace (code.tracing depth)).run []).run w

/-- What watchers see while a piece of code runs. -/
def sightings : List Sighting :=
  (code.outcome depth r w).1.2

end Reactions

/-- Code runs in an application in which nothing is watched yet: it registers watchers, writes, and
so do the handlers that are called. Watchers are told of changes only. Each change begins where the
one before it ended, exactly if no pass tells a watcher of a change from a value other than the one
that the watcher has seen since the pass began. -/
theorem told_chained_iff {α : Type} (code : Reactions) (depth : Nat) (r : Reaction α) {w : World}
    (hw : ∀ vm, (w.watching vm).1 = []) :
    ((code.outcome depth r w).1.1, (code.outcome depth r w).2) =
        (r.run (code.application depth)).run w ∧
      (∀ s ∈ code.sightings depth r w, s.IsChange) ∧
      (Chained (code.sightings depth r w) ↔
        Sighting.Along (fun before s => ¬ s.Repeats before) [] (code.sightings depth r w)) := by
  have hr := records_trace (tracing_for code depth) r
  have hstart : Noted w [] := by
    constructor
    · intro vm a ha
      rw [hw] at ha
      exact absurd ha List.not_mem_nil
    · intro vm a ha
      rw [hw] at ha
      exact absurd ha List.not_mem_nil
    · trivial
  have haccounted := (hr.noted trivial hstart).accounted
  exact ⟨hr.erases [] w, haccounted.forall_mem fun _ _ h => h.isChange, chained_iff haccounted⟩

/-- One instance with data. -/
def World.holding (data : Dict Value) : World :=
  { World.start .default with instances := [{ Instance.fresh 0 .empty with data := data }] }

theorem watching_holding (data : Dict Value) (vm : Uid) :
    ((World.holding data).watching vm).1 = [] := by
  cases vm with
  | zero => rfl
  | succ vm => rfl

/-- The first handler writes a property when it is called; nothing else does anything. -/
def Reactions.passingOn (key : String) (value : Value) : Reactions where
  computed _ _ := .done .null
  watcher handler vm _ _ :=
    if handler = 0 then .set vm key value (.done (.ok ())) else .done (.ok ())
  errorCaptured _ _ _ _ := .done true

/-- Watches two properties, each with a handler, and writes one. -/
def Reaction.watchBoth (first second : String × CallbackId) (key : String) (value : Value) :
    Reaction Unit :=
  .watch 0 first.1 ⟨first.2, false⟩ fun _ =>
    .watch 0 second.1 ⟨second.2, false⟩ fun _ =>
      .set 0 key value (.done ())

/-- Two counters. -/
def counters : Dict Value :=
  [("m", .number (.int 0)), ("n", .number (.int 0))]

/-- The handler of `n` writes `m`, which is watched from before. -/
def watchingBefore : List Sighting :=
  (Reactions.passingOn "m" (.number (.int 1))).sightings 2
    (.watchBoth ("m", 1) ("n", 0) "n" (.number (.int 1))) (.holding counters)

/-- The handler of `n` writes `m`, which is watched from later. -/
def watchingAfter : List Sighting :=
  (Reactions.passingOn "m" (.number (.int 1))).sightings 2
    (.watchBoth ("n", 0) ("m", 1) "n" (.number (.int 1))) (.holding counters)

/-- A handler writes what is watched from before: both changes are told once. -/
theorem told_chained_watchingBefore :
    (∀ vm, ((World.holding counters).watching vm).1 = []) ∧ watchingBefore.length = 4 ∧
      Chained watchingBefore :=
  have h := told_chained_iff (Reactions.passingOn "m" (.number (.int 1))) 2
    (.watchBoth ("m", 1) ("n", 0) "n" (.number (.int 1))) (watching_holding counters)
  ⟨watching_holding counters, by decide +kernel, h.2.2.2 (by decide +kernel)⟩

/-- A handler writes what is watched from later: the pass that called it tells that change again. -/
theorem told_not_chained :
    ¬ ∀ (code : Reactions) (depth : Nat) (r : Reaction Unit) (w : World),
      (∀ vm, (w.watching vm).1 = []) → Chained (code.sightings depth r w) := by
  intro h
  have hchained : Chained watchingAfter :=
    h (.passingOn "m" (.number (.int 1))) 2
      (.watchBoth ("n", 0) ("m", 1) "n" (.number (.int 1))) (.holding counters)
      (watching_holding counters)
  revert hchained
  unfold Chained
  decide +kernel

end ViewTree
