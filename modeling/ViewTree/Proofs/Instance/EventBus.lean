import ViewTree.Application.Script
import ViewTree.Proofs.Instance.Emissions
/-!
# The event bus of an instance

The bus of an instance is meant to be a list of registrations for every event: an emission calls
all of them in order, and then exactly those for one emission are gone. `Faithful` says that the
calls which listeners see are those of that list, for a run of operations and for every run that
goes on with further emissions of an event from one of its emissions on. `faithful_iff` says for
which runs this is so.

Listeners may be any code that leaves the bus of the instance alone; `Recording` says what is
assumed of them, and of the log that their calls are read from.
-/

namespace ViewTree

/-! ## The bus of an instance -/

/-- Performs the operation on an instance. -/
def BusOp.run (app : Application) (vm : Uid) : BusOp → Run Unit
  | on event listener => Run.on vm event listener
  | once event listener => Run.once vm event listener
  | off event listener => Run.off vm event listener
  | emit event args => app.emit vm event args

/-- Performs operations one after the other. -/
def Run.busOps (app : Application) (vm : Uid) : List BusOp → Run Unit
  | [] => pure ()
  | op :: ops => do
    op.run app vm
    busOps app vm ops

/-- The operation registers only such listeners. -/
def BusOp.Registers (P : Listener → Prop) : BusOp → Prop
  | on _ l => P l
  | once _ l => P l
  | _ => True

/-- Only such listeners are registered. -/
def Bus.All (P : Listener → Prop) (b : Bus) : Prop :=
  ∀ event, ∀ h ∈ b event, P h.listener

/-- The registrations of an instance. -/
def Instance.bus (i : Instance) : Bus :=
  fun event => (i.events.get? event).getD []

namespace World

/-- The registrations of an instance, if it is there. -/
def bus (w : World) (vm : Uid) : Bus :=
  ((w.instance? vm).map Instance.bus).getD fun _ => []

/-- The instance is there, and the application or an operation under way holds it. -/
structure Keeps (w : World) (vm : Uid) : Prop where
  made : ∃ i, w.instance? vm = some i
  held : w.held vm

theorem Keeps.alive {w : World} {vm : Uid} (h : w.Keeps vm) : w.alive vm := by
  rw [World.alive, h.held, Bool.true_or]

end World

/-- Calls of the listeners are recorded, each once, and leave the bus of the instance alone. -/
structure Recording (app : Application) (vm : Uid) (listens : Listener → Prop)
    (log : World → List Call) : Prop where
  call : ∀ {w : World}, w.Keeps vm → ∀ {l}, listens l → ∀ args,
    log ((app.callListener args l).run w).2 = log w ++ [(l, args)]
  bus : ∀ {w : World}, w.Keeps vm → ∀ {l}, listens l → ∀ args,
    ((app.callListener args l).run w).2.bus vm = w.bus vm
  keeps : ∀ {w : World}, w.Keeps vm → ∀ {l}, listens l → ∀ args,
    ((app.callListener args l).run w).2.Keeps vm
  update : ∀ f w, log ((Run.update vm f).run w).2 = log w
  report : ∀ level message w, log ((Run.report (.log level message)).run w).2 = log w

section

variable (vm : Uid) (log : World → List Call)

/-- From one state to another, calls are made and the bus becomes another. -/
structure Reaches (w : World) (made : List Call) (b : Bus) (w' : World) : Prop where
  keeps : w'.Keeps vm
  log : log w' = log w ++ made
  bus : w'.bus vm = b

end

section

variable {app : Application} {vm : Uid} {listens : Listener → Prop} {log : World → List Call}

theorem Reaches.trans {w w' w'' : World} {made made' : List Call} {b b' : Bus}
    (h : Reaches vm log w made b w') (h' : Reaches vm log w' made' b' w'') :
    Reaches vm log w (made ++ made') b' w'' :=
  ⟨h'.keeps, by rw [h'.log, h.log, List.append_assoc], h'.bus⟩

theorem reaches_update (hr : Recording app vm listens log) {w : World} (hw : w.Keeps vm)
    {f : Instance → Instance} {b : Bus} (hf : ∀ i, w.bus vm = i.bus → (f i).bus = b) :
    Reaches vm log w [] b ((Run.update vm f).run w).2 := by
  obtain ⟨i, hi⟩ := hw.made
  have hi' : ((Run.update vm f).run w).2.instance? vm = some (f i) := by
    show (w.instances.modify vm f)[vm]? = _
    rw [List.getElem?_modify_eq]
    exact congrArg (Option.map f) hi
  refine ⟨⟨⟨f i, hi'⟩, hw.held⟩, by rw [hr.update, List.append_nil], ?_⟩
  rw [World.bus, hi']
  exact hf i (by rw [World.bus, hi]; rfl)

theorem reaches_addHandler (hr : Recording app vm listens log) {w : World} (hw : w.Keeps vm)
    (event : String) (h : Handler) :
    Reaches vm log w [] ((w.bus vm).set event (w.bus vm event ++ [h]))
      ((Run.addHandler vm event h).run w).2 := by
  refine reaches_update hr hw fun i hi => ?_
  rw [hi]
  funext event'
  simp only [Instance.bus, Bus.set, Dict.upsert, Dict.get?_insert]
  split <;> rfl

theorem reaches_offListener (hr : Recording app vm listens log) {w : World} (hw : w.Keeps vm)
    (event : String) (l : Listener) :
    Reaches vm log w [] ((w.bus vm).set event (removeLatest l (w.bus vm event)))
      ((Run.offListener vm event l).run w).2 := by
  refine reaches_update hr hw fun i hi => ?_
  rw [hi]
  funext event'
  cases hevent : i.events.get? event with
  | none =>
    simp only [Instance.bus, Bus.set, hevent]
    split
    · rename_i heq
      subst heq
      rw [hevent]
      rfl
    · rfl
  | some handlers =>
    simp only [Instance.bus, Bus.set, Dict.get?_insert, hevent]
    split <;> rfl

theorem reaches_off (hr : Recording app vm listens log) {w : World} (hw : w.Keeps vm)
    (event : Option String) (l : Option Listener) :
    Reaches vm log w [] (BusOp.next emitted (w.bus vm) (.off event l))
      ((Run.off vm event l).run w).2 := by
  cases event with
  | none => exact reaches_update hr hw fun i _ => rfl
  | some event =>
    cases l with
    | none =>
      refine reaches_update hr hw fun i hi => ?_
      rw [hi]
      funext event'
      simp only [Instance.bus, BusOp.next, Bus.set, Dict.get?_erase]
      split <;> rfl
    | some l =>
      have h := reaches_offListener hr hw event l
      rw [removeLatest_eq] at h
      exact h

theorem reaches_call (hr : Recording app vm listens log) {w : World} (hw : w.Keeps vm) {l : Listener}
    (hl : listens l) (args : List Value) :
    Reaches vm log w [(l, args)] (w.bus vm) ((app.callListener args l).run w).2 :=
  ⟨hr.keeps hw hl args, hr.call hw hl args, hr.bus hw hl args⟩

/-- Calling handlers takes the latest registrations off that they have for one emission. -/
theorem reaches_callHandlers (hr : Recording app vm listens log) (event : String) (args : List Value)
    (handlers : List Handler) (hlistens : ∀ h ∈ handlers, listens h.listener) :
    ∀ {w : World}, w.Keeps vm →
      Reaches vm log w (handlers.map fun h => (h.listener, args))
        ((w.bus vm).set event ((handlers.filter (·.once)).foldl
          (fun left h => removeLatest h.listener left) (w.bus vm event)))
        ((app.callHandlers vm event args handlers).run w).2 := by
  induction handlers with
  | nil =>
    intro w hw
    exact ⟨hw, (List.append_nil _).symm, (Bus.set_eq_self _ event).symm⟩
  | cons h handlers ih =>
    intro w hw
    have hcall := hlistens h List.mem_cons_self
    have hmore := fun x hx => hlistens x (List.mem_cons_of_mem h hx)
    cases honce : h.once with
    | true =>
      have hoff := reaches_offListener hr hw event h.listener
      have hcalled := hoff.trans (reaches_call hr hoff.keeps hcall args)
      have hrest := hcalled.trans (ih hmore hcalled.keeps)
      rw [hcalled.bus, hoff.bus, Bus.set_set, Bus.set_self] at hrest
      have hrun : (app.callHandlers vm event args (h :: handlers)).run w =
          (app.callHandlers vm event args handlers).run ((app.callListener args h.listener).run
            ((Run.offListener vm event h.listener).run w).2).2 := by
        simp only [Application.callHandlers, honce, if_true, StateT.run_bind, StateT.run_get,
          pure_bind, hw.alive]
        rfl
      rw [hrun, List.filter_cons_of_pos honce, List.foldl_cons]
      exact hrest
    | false =>
      have hcalled := reaches_call hr hw hcall args
      have hrest := hcalled.trans (ih hmore hcalled.keeps)
      rw [hcalled.bus] at hrest
      have hrun : (app.callHandlers vm event args (h :: handlers)).run w =
          (app.callHandlers vm event args handlers).run
            ((app.callListener args h.listener).run w).2 := by
        simp only [Application.callHandlers, honce]
        rfl
      rw [hrun, List.filter_cons_of_neg (by simp [honce])]
      exact hrest

theorem reaches_tip (hr : Recording app vm listens log) {w : World} (hw : w.Keeps vm)
    (message : String) (place : Option Uid) :
    Reaches vm log w [] (w.bus vm) ((Run.tip message place).run w).2 := by
  unfold Run.tip
  simp only [StateT.run_bind, StateT.run_get, pure_bind]
  split
  · exact ⟨⟨hw.made, hw.held⟩, by rw [hr.report, List.append_nil], rfl⟩
  · exact ⟨hw, (List.append_nil _).symm, rfl⟩

theorem reaches_checkEventCase (hr : Recording app vm listens log) {w : World} (hw : w.Keeps vm)
    (event : String) :
    Reaches vm log w [] (w.bus vm) ((Application.checkEventCase vm event).run w).2 := by
  unfold Application.checkEventCase
  simp only [StateT.run_bind, StateT.run_get, pure_bind]
  split
  · exact reaches_tip hr hw _ _
  · exact ⟨hw, (List.append_nil _).symm, rfl⟩

/-- What an emission does to the bus, and the calls it makes. -/
theorem reaches_emit (hr : Recording app vm listens log) {w : World} (hw : w.Keeps vm)
    (event : String) (args : List Value) (hlistens : ∀ h ∈ w.bus vm event, listens h.listener) :
    Reaches vm log w (BusOp.calls (w.bus vm) (.emit event args))
      (BusOp.next emitted (w.bus vm) (.emit event args)) ((app.emit vm event args).run w).2 := by
  have hcase := reaches_checkEventCase hr hw event
  obtain ⟨i, hi⟩ := hcase.keeps.made
  have hbus : w.bus vm event = (i.events.get? event).getD [] := by
    rw [← hcase.bus, World.bus, hi]
    rfl
  have hrun : ((app.emit vm event args).run w).2 =
      ((app.callHandlers vm event args (w.bus vm event)).run
        ((Application.checkEventCase vm event).run w).2).2 := by
    rw [hbus, ← Option.getD_some (a := i) (b := default), ← hi, Application.emit]
    generalize app.callHandlers vm event args = call
    generalize Application.checkEventCase vm event = check
    rfl
  rw [hrun]
  have hcalls := hcase.trans (reaches_callHandlers hr event args _ hlistens hcase.keeps)
  rw [hcase.bus] at hcalls
  exact hcalls

theorem Bus.All.set {P : Listener → Prop} {b : Bus} (hb : b.All P) {event : String}
    {handlers : List Handler} (h : ∀ x ∈ handlers, P x.listener) : (b.set event handlers).All P := by
  intro event' x hx
  unfold Bus.set at hx
  split at hx
  · exact h x hx
  · exact hb event' x hx

theorem Bus.All.next {P : Listener → Prop} {b : Bus} (hb : b.All P) {op : BusOp}
    (hop : op.Registers P) : (op.next emitted b).All P := by
  have hadd {event : String} {l : Listener} (hl : P l) (once : Bool) :
      (b.set event (b event ++ [⟨l, once⟩])).All P := by
    refine hb.set fun x hx => ?_
    rcases List.mem_append.1 hx with hx | hx
    · exact hb event x hx
    · rw [List.mem_singleton.1 hx]
      exact hl
  cases op with
  | on event l => exact hadd hop false
  | once event l => exact hadd hop true
  | off event l =>
    cases event with
    | none => exact fun _ x hx => absurd hx List.not_mem_nil
    | some event =>
      cases l with
      | none => exact hb.set fun x hx => absurd hx List.not_mem_nil
      | some l =>
        refine hb.set fun x hx => hb event x ?_
        rw [← removeLatest_eq] at hx
        exact (removeLatest_sublist l _).subset hx
  | emit event args => exact hb.set fun x hx => hb event x (emitted_subset _ hx)

theorem reaches_op (hr : Recording app vm listens log) {w : World} (hw : w.Keeps vm)
    (hb : (w.bus vm).All listens) (op : BusOp) :
    Reaches vm log w (op.calls (w.bus vm)) (op.next emitted (w.bus vm)) ((op.run app vm).run w).2 := by
  cases op with
  | on event l => exact reaches_addHandler hr hw event _
  | once event l => exact reaches_addHandler hr hw event _
  | off event l => exact reaches_off hr hw event l
  | emit event args => exact reaches_emit hr hw event args (hb event)

theorem reaches_run (hr : Recording app vm listens log) (ops : List BusOp) :
    ∀ {w : World}, w.Keeps vm → (w.bus vm).All listens → (∀ op ∈ ops, op.Registers listens) →
      Reaches vm log w ((w.bus vm).calls emitted ops) ((w.bus vm).after emitted ops)
        ((Run.busOps app vm ops).run w).2 := by
  induction ops with
  | nil => exact fun hw _ _ => ⟨hw, (List.append_nil _).symm, rfl⟩
  | cons op ops ih =>
    intro w hw hb hops
    have hop := reaches_op hr hw hb op
    have hb' : (((op.run app vm).run w).2.bus vm).All listens := by
      rw [hop.bus]
      exact hb.next (hops op List.mem_cons_self)
    have hrest := ih hop.keeps hb' fun x hx => hops x (List.mem_cons_of_mem op hx)
    have hall := hop.trans hrest
    rw [hop.bus] at hall
    exact hall

/-! ## The law -/

/-- In the run and its probes, listeners see the calls of the registrations. -/
def Faithful (app : Application) (vm : Uid) (log : World → List Call) (w : World)
    (ops : List BusOp) : Prop :=
  ∀ probe, Probe ops probe →
    log ((Run.busOps app vm probe).run w).2 = log w ++ (w.bus vm).calls Bus.staying probe

theorem Probe.registers {P : Listener → Prop} {ops probe : List BusOp} (h : Probe ops probe)
    (hops : ∀ op ∈ ops, op.Registers P) : ∀ op ∈ probe, op.Registers P := by
  cases h with
  | run => exact hops
  | repeated hpre n =>
    intro op hop
    rcases List.mem_append.1 hop with hop | hop
    · exact hops op (hpre.subset (List.mem_append_left _ hop))
    · rw [List.eq_of_mem_replicate hop]
      trivial

/-- Listeners see the calls of the registrations, in a run of operations and its probes, if and
only if no emission of the run finds a listener that is registered to stay behind a registration
of its own for one emission. -/
theorem faithful_iff (hr : Recording app vm listens log) {w : World} (hw : w.Keeps vm)
    (hb : (w.bus vm).All listens) {ops : List BusOp} (hops : ∀ op ∈ ops, op.Registers listens) :
    Faithful app vm log w ops ↔ (w.bus vm).AllSettled ops := by
  rw [← Bus.probes_iff]
  refine forall₂_congr fun probe hprobe => ?_
  rw [(reaches_run hr probe hw hb (hprobe.registers hops)).log]
  exact List.append_cancel_left_eq _ _ _ |>.to_iff

end

/-! ## Listeners that write notes -/

/-- The call that a note of the application is about. -/
def Report.call? : Report → Option Call
  | .note (.object fields) =>
    match Dict.get? fields "event", Dict.get? fields "args" with
    | some (.string label), some (.array args) => some (.labelled label, args)
    | _, _ => none
  | _ => none

/-- The calls that the application wrote notes about. -/
def World.noted (w : World) : List Call :=
  w.reports.reverse.filterMap Report.call?

/-- An application whose listeners write notes and do nothing else. -/
def noteTaking : Application :=
  Code.application ⟨[], [], []⟩ 1

theorem noted_report (w : World) (r : Report) :
    ({ w with reports := r :: w.reports } : World).noted = w.noted ++ r.call?.toList := by
  simp only [World.noted, List.reverse_cons, List.filterMap_append, List.filterMap_cons,
    List.filterMap_nil]
  cases r.call? <;> rfl

theorem recording_noteTaking (vm : Uid) :
    Recording noteTaking vm (fun l => ∃ label, l = .labelled label) World.noted := by
  have hrun (w : World) (label : String) (args : List Value) :
      ((noteTaking.callListener args (.labelled label)).run w).2 =
        { w with reports := .note (.record [("event", .string label), ("args", .array args)]) ::
            w.reports } := rfl
  constructor
  case call =>
    rintro w - l ⟨label, rfl⟩ args
    have hcall : (Report.note (.record [("event", .string label), ("args", .array args)])).call? =
        some (.labelled label, args) := by
      simp [Report.call?, Value.record, Dict.ofList]
    rw [hrun, noted_report, hcall]
    rfl
  case bus =>
    rintro w - l ⟨label, rfl⟩ args
    rw [hrun]
    rfl
  case keeps =>
    rintro w hw l ⟨label, rfl⟩ args
    rw [hrun]
    exact ⟨hw.made, hw.held⟩
  case update => exact fun f w => rfl
  case report =>
    intro level message w
    show World.noted { w with reports := _ :: w.reports } = _
    rw [noted_report]
    exact List.append_nil _

/-- An application that keeps one instance and nothing else. -/
def World.single : World :=
  { World.start .default with instances := [.fresh 0 .empty], pins := [0] }

theorem keeps_single : World.single.Keeps 0 :=
  ⟨⟨_, rfl⟩, rfl⟩

theorem all_single (P : Listener → Prop) : (World.single.bus 0).All P :=
  fun _ _ h => absurd h List.not_mem_nil

/-- A listener is registered to stay and then for one emission. -/
def staysFirst : List BusOp :=
  [.on "tick" (.labelled "l"), .once "tick" (.labelled "l"), .emit "tick" [], .emit "tick" []]

theorem faithful_staysFirst :
    World.single.Keeps 0 ∧ (World.single.bus 0).All (fun l => ∃ label, l = .labelled label) ∧
      (∀ op ∈ staysFirst, op.Registers fun l => ∃ label, l = .labelled label) ∧
      Faithful noteTaking 0 World.noted World.single staysFirst := by
  have hops : ∀ op ∈ staysFirst, op.Registers fun l => ∃ label, l = .labelled label := by
    simp [staysFirst, BusOp.Registers]
  refine ⟨keeps_single, all_single _, hops, ?_⟩
  refine (faithful_iff (recording_noteTaking 0) keeps_single (all_single _) hops).2 ?_
  decide

/-- A listener is registered for one emission and then to stay. -/
def onceFirst : List BusOp :=
  [.once "tick" (.labelled "l"), .on "tick" (.labelled "l"), .emit "tick" [], .emit "tick" [],
    .emit "tick" []]

/-- The first emission takes the wrong registration off, the second the other one, and the third
calls nobody. -/
theorem calls_lost_onceFirst :
    ((Run.busOps noteTaking 0 onceFirst).run World.single).2.noted ≠
      World.single.noted ++ (World.single.bus 0).calls Bus.staying onceFirst := by
  have hops : ∀ op ∈ onceFirst, op.Registers fun l => ∃ label, l = .labelled label := by
    simp [onceFirst, BusOp.Registers]
  have hrun := reaches_run (recording_noteTaking 0) onceFirst keeps_single (all_single _) hops
  rw [hrun.log]
  intro h
  exact absurd (congrArg List.length h) (by decide)

end ViewTree
