import ViewTree.Proofs.Instance.Preserving
import ViewTree.Proofs.Instance.Tracing
/-!
# Writes are read back

A read looks for a name among the props first and then among the data, a write the other way round.
Where a name is in one of the two only, what is written is what is read, and reads of other names
give what they gave before (`written_readBack`), as long as what runs because of the write does not
write itself. Data under a reserved name is written but not read this way.
-/

namespace ViewTree

/-! ## What reads depend on -/

namespace Instance

/-- What the names of an instance stand for. -/
def named (i : Instance) : Dict Value × Dict Value × Dict CallbackId × Dict Value :=
  (i.props, i.data, i.computed, i.injections)

/-- The name is one of a prop or a data property. -/
def declares (i : Instance) (key : String) : Bool :=
  i.props.contains key || i.data.contains key

/-- No computed value has the name of a data property. -/
def ComputedApart (i : Instance) : Prop :=
  ∀ key, i.data.contains key → i.computed.get? key = none

/-- What is read under a declared name: the prop, else the data property unless the name is
reserved, else what is injected. -/
def read (i : Instance) (key : String) : Option Value :=
  (i.props.get? key).or
    ((if Name.isReserved key then none else i.data.get? key).or (i.injections.get? key))

/-- The instance after a write. -/
def written (key : String) (value : Value) (i : Instance) : Instance :=
  if i.data.contains key then { i with data := i.data.insert key value }
  else if i.props.contains key then { i with props := i.props.insert key value }
  else i

theorem read_congr {i j : Instance} (h : i.named = j.named) : i.read = j.read := by
  obtain ⟨hprops, hdata, -, hinjections⟩ : i.props = j.props ∧ i.data = j.data ∧
      i.computed = j.computed ∧ i.injections = j.injections := by
    simpa [named] using h
  funext key
  rw [read, read, hprops, hdata, hinjections]

theorem declares_congr {i j : Instance} (h : i.named = j.named) : i.declares = j.declares := by
  have hprops : i.props = j.props := congrArg (·.1) h
  have hdata : i.data = j.data := congrArg (·.2.1) h
  funext key
  rw [declares, declares, hprops, hdata]

theorem ComputedApart.congr {i j : Instance} (h : i.named = j.named) (hi : i.ComputedApart) :
    j.ComputedApart := by
  have hdata : i.data = j.data := congrArg (·.2.1) h
  have hcomputed : i.computed = j.computed := congrArg (·.2.2.1) h
  intro key
  rw [← hdata, ← hcomputed]
  exact hi key

section

variable {i : Instance} {key : String} {value : Value}

theorem contains_insert (d : Dict Value) (h : d.contains key) (other : String) :
    (d.insert key value).contains other = d.contains other := by
  unfold Dict.contains at *
  rw [Dict.get?_insert]
  split
  · rename_i heq
    rw [← heq, h, Option.isSome_some]
  · rfl

/-- A write leaves the same names declared. -/
theorem declares_written : (i.written key value).declares = i.declares := by
  funext other
  unfold written
  split
  · rename_i hdata
    rw [declares, declares, contains_insert i.data hdata]
  · split
    · rename_i hprop
      rw [declares, declares, contains_insert i.props hprop]
    · rfl

theorem ComputedApart.written (hi : i.ComputedApart) : (i.written key value).ComputedApart := by
  unfold Instance.written
  split
  · rename_i hdata
    intro other hother
    rw [contains_insert i.data hdata] at hother
    exact hi other hother
  · split
    · exact hi
    · exact hi

theorem read_written_of_ne {other : String} (hne : other ≠ key) :
    (i.written key value).read other = i.read other := by
  have hinsert (d : Dict Value) : (d.insert key value).get? other = d.get? other := by
    rw [Dict.get?_insert, if_neg hne.symm]
  unfold written
  split
  · rw [read, read, hinsert]
  · split
    · rw [read, read, hinsert]
    · rfl

theorem read_written_prop (hprop : i.props.contains key) (hdata : i.data.contains key = false) :
    (i.written key value).read key = some value := by
  rw [written, hdata, if_neg Bool.false_ne_true, if_pos hprop, read, Dict.get?_insert, if_pos rfl,
    Option.some_or]

theorem read_written_data (hprop : i.props.contains key = false) (hdata : i.data.contains key)
    (hopen : Name.isReserved key = false) : (i.written key value).read key = some value := by
  rw [written, if_pos hdata, read, Option.not_isSome_iff_eq_none.1 (Bool.eq_false_iff.1 hprop),
    hopen, if_neg Bool.false_ne_true, Dict.get?_insert, if_pos rfl, Option.none_or, Option.some_or]

/-- Data under a reserved name is written where reads do not look. -/
theorem read_written_reserved (hdata : i.data.contains key) (hreserved : Name.isReserved key) :
    (i.written key value).read key = i.read key ∧
      (i.written key value).data.get? key = some value := by
  rw [written, if_pos hdata, read, read, if_pos hreserved, if_pos hreserved, Dict.get?_insert,
    if_pos rfl]
  exact ⟨rfl, rfl⟩

end

end Instance

/-! ## Computed values are kept apart -/

namespace Application

theorem instances_warn (w : World) (message : String) (vm : Option Uid) :
    ((Run.warn message vm).run w).2.instances = w.instances :=
  preserves_warn (I := fun w' => w'.instances = w.instances) (fun _ _ h _ h' => h.trans h') message
    vm w rfl

/-- Computed values that clash with something are left out. -/
theorem freeComputed_apart (vm : Uid) (entries : Dict CallbackId) (w : World) :
    let r := (freeComputed vm entries).run w
    r.2.instances = w.instances ∧ ∀ key, (r.1.get? key).isSome →
      clash? ((w.instance? vm).getD default) key = none := by
  induction entries generalizing w with
  | nil => exact ⟨rfl, fun key h => by cases h⟩
  | cons entry rest ih =>
    obtain ⟨key, getter⟩ := entry
    intro r
    let i := (w.instance? vm).getD default
    cases hclash : clash? i key with
    | none =>
      have hr : r = ((key, getter) :: ((freeComputed vm rest).run w).1,
          ((freeComputed vm rest).run w).2) := by
        show (freeComputed vm ((key, getter) :: rest)).run w = _
        rw [freeComputed, run_inst_bind, hclash]
        rfl
      rw [hr]
      refine ⟨(ih w).1, fun other hother => ?_⟩
      by_cases heq : key = other
      · exact heq ▸ hclash
      · rw [Dict.get?, if_neg heq] at hother
        exact (ih w).2 other hother
    | some place =>
      let w' := ((Run.warn s!"The computed property \"{key}\" is already defined {place}."
        (some vm)).run w).2
      have hsame : w'.instances = w.instances := instances_warn w _ _
      have hr : r = (freeComputed vm rest).run w' := by
        show (freeComputed vm ((key, getter) :: rest)).run w = _
        rw [freeComputed, run_inst_bind, hclash]
        rfl
      have hrest := ih w'
      rw [World.instance?, hsame] at hrest
      rw [hr]
      exact hrest

/-- An instance whose computed values have been set up has none under the name of a data
property. -/
theorem initComputed_apart (vm : Uid) (w : World) {i : Instance}
    (hi : ((initComputed vm).run w).2.instance? vm = some i) : i.ComputedApart := by
  let options := ((w.instance? vm).getD default).options
  have hfree := freeComputed_apart vm options.computed w
  let r := (freeComputed vm options.computed).run w
  have hrun : ((initComputed vm).run w).2.instance? vm =
      (r.2.instance? vm).map fun i => { i with computed := r.1 } :=
    instance?_update_self vm _ r.2
  rw [hrun, World.instance?, hfree.1, Option.map_eq_some_iff] at hi
  obtain ⟨j, hj, rfl⟩ := hi
  intro key hkey
  rw [← Option.not_isSome_iff_eq_none]
  intro hsome
  have hclash := hfree.2 key hsome
  rw [World.instance?, hj, Option.getD_some, clash?, if_pos hkey] at hclash
  cases hclash

/-! ## What runs because of a write -/

/-- A run leaves what the names of an instance stand for as it is. -/
def WritesNothing {α : Type} (vm : Uid) (act : Run α) : Prop :=
  ∀ w, ((act.run w).2.instance? vm).map Instance.named = (w.instance? vm).map Instance.named

/-- Neither the handlers of an instance's watchers nor what runs besides them, when its watchers are
run, writes the instance. -/
structure QuietFor (app : Application) (vm : Uid) (i : Instance) : Prop where
  watcher : ∀ active ∈ i.watchers, ∀ new old,
    WritesNothing vm (app.watcher active.watcher.handler vm new old)
  computed : ∀ key getter, i.computed.get? key = some getter →
    WritesNothing vm (app.computed getter vm)
  errorCaptured : ∀ hook f other info, WritesNothing vm (app.errorCaptured hook f other info)

variable (app : Application)

/-- What an instance gives for a name. -/
def valueOf (w : World) (vm : Uid) (key : String) : Option Value :=
  ((app.getValue vm key).run w).1

/-- The state after a write. -/
def afterWrite (w : World) (vm : Uid) (key : String) (value : Value) : World :=
  ((app.setValue vm key value).run w).2

variable {app} {w : World} {vm : Uid} {i : Instance} {key : String}

theorem valueOf_declared (hi : w.instance? vm = some i) (hapart : i.ComputedApart)
    (hdecl : i.declares key) : app.valueOf w vm key = i.read key := by
  rw [valueOf, getValue, run_inst_bind, hi, Option.getD_some, Instance.read]
  cases hprop : i.props.get? key with
  | some v => rfl
  | none =>
    cases hopen : if Name.isReserved key then none else i.data.get? key with
    | some v => rfl
    | none =>
      have hdata : i.data.contains key := by
        simpa [Instance.declares, Dict.contains, hprop] using hdecl
      rw [hapart key hdata]
      show ((w.instance? vm).getD default).injections.get? key = _
      rw [hi]
      rfl

/-- The names of an instance stand for what they do in another. -/
def NamedAs (vm : Uid) (j : Instance) (w : World) : Prop :=
  (w.instance? vm).map Instance.named = some j.named

theorem WritesNothing.preserves {α : Type} {act : Run α} (h : WritesNothing vm act)
    (j : Instance) : Run.Preserves (NamedAs vm j) act :=
  fun w hw => (h w).trans hw

theorem namedAs_onInstances (j : Instance) : World.OnInstances (NamedAs vm j) := by
  intro w w' hsame _ hw
  rw [NamedAs, World.instance?, hsame]
  exact hw

theorem namedAs_permits (j : Instance) :
    World.Permits (NamedAs vm j) vm fun i i' => i'.named = i.named := by
  intro w f hf hw
  rw [NamedAs, instance?_update_self]
  cases hi : w.instance? vm with
  | none =>
    rw [NamedAs, hi] at hw
    cases hw
  | some i =>
    rw [NamedAs, hi] at hw
    rw [Option.map_some, Option.map_some, hf i hi]
    exact hw

/-- A pass over the watchers of an instance leaves its names as they are. -/
theorem namedAs_runWatchers {w : World} {i j : Instance} (hquiet : app.QuietFor vm j)
    (hi : w.instance? vm = some i) (hwatchers : i.watchers = j.watchers)
    (hcomputed : i.computed = j.computed) :
    NamedAs vm i ((app.runWatchers vm).run w).2 := by
  have hget (key : String) : Run.Preserves (NamedAs vm i) (app.getValue vm key) := by
    refine preserves_getValue (fun w k hw hk key getter hgetter => ?_) key
    rw [NamedAs, hk, Option.map_some] at hw
    have hsame : k.computed = i.computed := congrArg (·.2.2.1) (Option.some.inj hw)
    exact (hquiet.computed key getter (hcomputed ▸ hsame ▸ hgetter)).preserves i
  have hpass := preserves_notifyWatchers (namedAs_onInstances i) (namedAs_permits i)
    (fun _ _ => rfl) (fun hook f other info => (hquiet.errorCaptured hook f other info).preserves i)
    hget i.watchers fun active hactive new old =>
      (hquiet.watcher active (hwatchers ▸ hactive) new old).preserves i
  have hrun : (app.runWatchers vm).run w =
      (app.notifyWatchers vm ((w.instance? vm).getD default).watchers).run w := rfl
  rw [hrun, hi]
  exact hpass w (by rw [NamedAs, hi, Option.map_some])

/-- After a write, the names of an instance stand for what they stood for before, but for what was
written. -/
theorem namedAs_afterWrite (hi : w.instance? vm = some i) (hquiet : app.QuietFor vm i)
    (key : String) (value : Value) :
    NamedAs vm (i.written key value) (app.afterWrite w vm key value) := by
  have hchanged (w' : World) (hsame : w'.instances = w.instances) (f : Instance → Instance) :
      ((Run.update vm f).run w').2.instance? vm = some (f i) := by
    rw [instance?_update_self, World.instance?, hsame]
    exact congrArg (Option.map f) hi
  unfold afterWrite setValue
  show NamedAs vm _ (((if ((w.instance? vm).getD default).data.contains key then _ else
    if ((w.instance? vm).getD default).props.contains key then _ else _ : Run Unit).run w).2)
  rw [hi, Option.getD_some, Instance.written]
  split
  · exact namedAs_runWatchers hquiet (hchanged w rfl _) rfl rfl
  · split
    · exact namedAs_runWatchers hquiet (hchanged _ (instances_warn w _ _) _) rfl rfl
    · rw [NamedAs, World.instance?, instances_warn]
      exact congrArg (Option.map Instance.named) hi

/-! ## Reading back -/

/-- After a write, the names that an instance declares give what they stand for then. -/
theorem valueOf_afterWrite (hi : w.instance? vm = some i) (hapart : i.ComputedApart)
    (hquiet : app.QuietFor vm i) (key : String) (value : Value) {other : String}
    (hdecl : i.declares other) :
    app.valueOf (app.afterWrite w vm key value) vm other = (i.written key value).read other := by
  have hnamed := namedAs_afterWrite hi hquiet key value
  obtain ⟨j, hj, hsame⟩ := Option.map_eq_some_iff.1 hnamed
  have hjapart : j.ComputedApart := Instance.ComputedApart.congr hsame.symm hapart.written
  have hjdecl : j.declares other := by
    rw [Instance.declares_congr hsame, Instance.declares_written]
    exact hdecl
  rw [valueOf_declared hj hjapart hjdecl, Instance.read_congr hsame]

/-- What is written under the name of a prop or of a data property is read back, and the other names
give what they gave before, if neither handlers nor what else runs because of the write writes the
instance. Data under a reserved name is written, and everything is read as before. -/
theorem written_readBack (app : Application) {w : World} {vm : Uid} {i : Instance}
    (hi : w.instance? vm = some i) (hapart : i.ComputedApart) (hquiet : app.QuietFor vm i)
    {key : String} (hdecl : i.declares key) (value : Value) :
    (i.props.contains key ≠ i.data.contains key →
        i.props.contains key ∨ Name.isReserved key = false →
          app.valueOf (app.afterWrite w vm key value) vm key = some value) ∧
      (i.props.contains key = false → Name.isReserved key →
        app.valueOf (app.afterWrite w vm key value) vm key = app.valueOf w vm key ∧
          ∃ j, (app.afterWrite w vm key value).instance? vm = some j ∧
            j.data.get? key = some value) ∧
      ∀ other, other ≠ key → i.declares other →
        app.valueOf (app.afterWrite w vm key value) vm other = app.valueOf w vm other := by
  have hafter {other : String} (hother : i.declares other) :=
    valueOf_afterWrite hi hapart hquiet key value hother
  refine ⟨fun hone hopen => ?_, fun hprop hreserved => ?_, fun other hne hother => ?_⟩
  · rw [hafter hdecl]
    cases hprop : i.props.contains key with
    | true =>
      rw [hprop] at hone
      exact Instance.read_written_prop hprop (Bool.eq_false_iff.2 hone.symm)
    | false =>
      rw [hprop] at hone hopen
      exact Instance.read_written_data hprop (Bool.of_not_eq_false hone.symm)
        (hopen.resolve_left Bool.false_ne_true)
  · have hdata : i.data.contains key := by
      rw [Instance.declares, hprop] at hdecl
      exact hdecl
    have hread : (i.written key value).read key = i.read key ∧
        (i.written key value).data.get? key = some value :=
      Instance.read_written_reserved hdata hreserved
    refine ⟨?_, ?_⟩
    · rw [hafter hdecl, hread.1, valueOf_declared hi hapart hdecl]
    · have hnamed := namedAs_afterWrite hi hquiet key value
      obtain ⟨j, hj, hsame⟩ := Option.map_eq_some_iff.1 hnamed
      have hjdata : j.data = (i.written key value).data := congrArg (·.2.1) hsame
      exact ⟨j, hj, hjdata ▸ hread.2⟩
  · rw [hafter hother, Instance.read_written_of_ne hne, valueOf_declared hi hapart hother]

end Application

/-- An instance with a prop, with data, some of it under a reserved name, and with a computed value
that is watched. -/
def Instance.gauge : Instance :=
  { Instance.fresh 0 .empty with
    props := [("max", .nat 9)]
    data := [("_cache", .nat 0), ("n", .nat 0)]
    computed := [("share", 0)]
    watchers := [⟨0, "share", .path "share" [], ⟨0, false⟩, .nat 0⟩]
    nextWatcher := 1 }

/-- The instance lives, below one whose hook is shown its failures. -/
def World.withGauge : World :=
  let options := { ComponentOptions.empty with errorCaptured := [0] }
  { World.start .default with
    instances := [{ Instance.fresh 0 options with children := [1] },
      { Instance.gauge with parent := some 0, root := some 0 }]
    instanceNames := [("gauge", 1), ("top", 0)] }

namespace Application

theorem quietFor_idle (vm : Uid) (i : Instance) : Code.idle.QuietFor vm i :=
  ⟨fun _ _ _ _ _ => rfl, fun _ _ _ _ => rfl, fun _ _ _ _ _ => rfl⟩

theorem gauge_apart : Instance.gauge.ComputedApart := by
  intro key hkey
  by_cases hshare : "share" = key
  · subst hshare
    exact absurd hkey (by decide)
  · exact if_neg hshare

/-- With code that does nothing, a property is written and read back. -/
theorem written_readBack_gauge :
    Code.idle.valueOf (Code.idle.afterWrite .withGauge 1 "n" (.nat 5)) 1 "n" = some (.nat 5) ∧
      Code.idle.valueOf (Code.idle.afterWrite .withGauge 1 "n" (.nat 5)) 1 "max" =
        Code.idle.valueOf .withGauge 1 "max" :=
  have hi : World.withGauge.instance? 1 =
      some { Instance.gauge with parent := some 0, root := some 0 } := rfl
  have hdeclared :
      Instance.declares { Instance.gauge with parent := some 0, root := some 0 } "n" := by decide
  have h := written_readBack Code.idle hi gauge_apart (quietFor_idle 1 _) hdeclared (.nat 5)
  ⟨h.1 (by decide) (.inr (by decide)), h.2.2 "max" (by decide) (by decide)⟩

end Application

/-- The getter of a computed value stops its watcher and resets a property. -/
def Reactions.resettingGetter : Reactions where
  computed _ vm := .unwatch vm 0 (.set vm "n" (.nat 0) (.done (.nat 0)))
  watcher _ _ _ _ := .done (.ok ())
  errorCaptured _ _ _ _ := .done true

/-- Handlers fail, and the hook that is shown the failure resets a property. -/
def Reactions.resettingHook : Reactions where
  computed _ _ := .done (.nat 1)
  watcher _ _ _ _ := .done (.error ⟨"out of range", []⟩)
  errorCaptured _ _ vm _ := .set vm "n" (.nat 0) (.done true)

namespace Application

/-- Though the handlers of the watchers of an instance write nothing, a declared name is written and
something else is read back. -/
structure Misreads (app : Application) (w : World) (vm : Uid) (i : Instance) (key : String)
    (value : Value) : Prop where
  instance_eq : w.instance? vm = some i
  declared : i.declares key
  quiet : ∀ active ∈ i.watchers, ∀ new old,
    WritesNothing vm (app.watcher active.watcher.handler vm new old)
  differs : app.valueOf (app.afterWrite w vm key value) vm key ≠ some value

/-- Data under a reserved name is not read, and getters and capturing hooks that run because of a
write may write too. -/
theorem misreads_gauge :
    let gauge := { Instance.gauge with parent := some 0, root := some 0 }
    Code.idle.Misreads .withGauge 1 gauge "_cache" (.nat 5) ∧
      (Reactions.resettingGetter.application 2).Misreads .withGauge 1 gauge "n" (.nat 5) ∧
      (Reactions.resettingHook.application 2).Misreads .withGauge 1 gauge "n" (.nat 5) := by
  refine ⟨⟨rfl, by decide, fun _ _ _ _ _ => rfl, fun h => ?_⟩,
    ⟨rfl, by decide, fun _ _ _ _ _ => rfl, fun h => ?_⟩,
    ⟨rfl, by decide, fun _ _ _ _ _ => rfl, fun h => ?_⟩⟩
  -- The numbers that are read differ from the one that was written.
  · have hread := congrArg (·.bind Value.int64?) h
    revert hread
    decide +kernel
  · have hread := congrArg (·.bind Value.int64?) h
    revert hread
    decide +kernel
  · have hread := congrArg (·.bind Value.int64?) h
    revert hread
    decide +kernel

end Application

end ViewTree
