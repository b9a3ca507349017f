import ViewTree.Application.Script
import ViewTree.Proofs.Instance.Family
/-!
# What is left of a subtree

When an instance has been destroyed, all of its subtree is torn down: the instances have no
children, and no watchers, no tree and no handlers either, unless something that ran meanwhile gave
an instance more after it was torn down (`subtree_tornDown`).
-/

namespace ViewTree

open TeardownStep

/-- The instance is torn down and has no watchers and no tree; if it is deaf, it has no handlers
either. -/
def World.Stripped (u : Uid) (deaf : Bool) (w : World) : Prop :=
  ∃ i, w.instance? u = some i ∧ i.destroyed = true ∧ i.watchers = [] ∧ i.vnode = none ∧
    (deaf = true → i.events = [])

/-- The instance is there. -/
def World.Has (u : Uid) (w : World) : Prop :=
  ∃ i, w.instance? u = some i

/-- The code of an application gives nothing to instances that are torn down. -/
def Application.AddsNothing (app : Application) : Prop :=
  ∀ u deaf, app.Preserves (World.Stripped u deaf)

/-- An instance that stays torn down and has nothing that it lacked before. -/
structure Instance.NoMore (i j : Instance) : Prop where
  destroyed : i.destroyed = true → j.destroyed = true
  watchers : i.watchers = [] → j.watchers = []
  vnode : i.vnode = none → j.vnode = none
  events : i.events = [] → j.events = []

section

variable {app : Application} {u : Uid} {w : World}

theorem Instance.NoMore.refl (i : Instance) : i.NoMore i :=
  ⟨id, id, id, id⟩

theorem Instance.noMore_off (i : Instance) (event : String) (handlers : List Handler)
    (l : Listener) (h : i.events.get? event = some handlers) :
    i.NoMore { i with events := i.events.insert event (removeLatest l handlers) } := by
  refine ⟨id, id, id, fun hnone => ?_⟩
  rw [hnone] at h
  cases h

theorem stripped_onInstances (u : Uid) (deaf : Bool) :
    World.OnInstances (World.Stripped u deaf) := by
  intro w w' hinstances _ h
  rw [World.Stripped, World.instance?, hinstances]
  exact h

theorem stripped_permits (u : Uid) (deaf : Bool) (vm : Uid) :
    World.Permits (World.Stripped u deaf) vm Instance.NoMore := by
  rintro w f hf ⟨i, hi, hdestroyed, hwatchers, hvnode, hevents⟩
  by_cases hvm : vm = u
  · subst hvm
    have hmore := hf i hi
    exact ⟨f i, by rw [instance?_update_self, hi, Option.map_some], hmore.destroyed hdestroyed,
      hmore.watchers hwatchers, hmore.vnode hvnode, fun hdeaf => hmore.events (hevents hdeaf)⟩
  · exact ⟨i, (instance?_update_of_ne hvm f w).trans hi, hdestroyed, hwatchers, hvnode, hevents⟩

theorem has_onInstances (u : Uid) : World.OnInstances (World.Has u) := by
  intro w w' hinstances _ h
  rw [World.Has, World.instance?, hinstances]
  exact h

theorem has_permits (u vm : Uid) : World.Permits (World.Has u) vm Instance.NoMore := by
  rintro w f - ⟨i, hi⟩
  by_cases hvm : vm = u
  · subst hvm
    exact ⟨f i, by rw [instance?_update_self, hi, Option.map_some]⟩
  · exact ⟨i, (instance?_update_of_ne hvm f w).trans hi⟩

/-- What leaves links alone takes no instance away. -/
theorem preserves_has {α : Type} {act : Run α}
    (h : ∀ L H, Run.Preserves (World.LinkedAs L H) act) (u : Uid) :
    Run.Preserves (World.Has u) act := by
  rintro w ⟨i, hi⟩
  have hlink : w.links u = some i.link := congrArg (Option.map Instance.link) hi
  have hkept := (h w.links w.Names w w.linkedAs_self).linked u i.link hlink
  obtain ⟨j, hj, -⟩ := Option.map_eq_some_iff.1 hkept
  exact ⟨j, hj⟩

theorem Application.Calm.preserves_has (hcalm : app.Calm) (u : Uid) :
    app.Preserves (World.Has u) where
  hook id vm := ViewTree.preserves_has (fun L H => (hcalm L H).hook id vm) u
  data id vm := ViewTree.preserves_has (fun L H => (hcalm L H).data id vm) u
  method id vm args := ViewTree.preserves_has (fun L H => (hcalm L H).method id vm args) u
  computed id vm := ViewTree.preserves_has (fun L H => (hcalm L H).computed id vm) u
  watcher id vm new old := ViewTree.preserves_has (fun L H => (hcalm L H).watcher id vm new old) u
  errorCaptured id f vm info :=
    ViewTree.preserves_has (fun L H => (hcalm L H).errorCaptured id f vm info) u
  render id vm := ViewTree.preserves_has (fun L H => (hcalm L H).render id vm) u
  validator id v := ViewTree.preserves_has (fun L H => (hcalm L H).validator id v) u
  factory id := ViewTree.preserves_has (fun L H => (hcalm L H).factory id) u
  listener label args := ViewTree.preserves_has (fun L H => (hcalm L H).listener label args) u

/-! ## Along the steps -/

section

variable {I : World → Prop}

/-- The steps of a teardown give no instance anything. -/
theorem preserves_perform (h : app.Preserves I) (hI : World.OnInstances I)
    (hp : ∀ vm, World.Permits I vm Instance.NoMore) (step : TeardownStep) :
    Run.Preserves I (step.perform app) := by
  have hhook (vm : Uid) (hook : LifecycleHook) : Run.Preserves I (app.callHook vm hook) :=
    preserves_callHook h hI (hp vm) Instance.NoMore.refl Instance.noMore_off hook
  have hunlink (vm : Uid) : Run.Preserves I (Application.unlink vm) := by
    refine preserves_get.bind fun w => ?_
    cases w.parent? vm with
    | none => exact preserves_pure _
    | some p =>
      refine (preserves_inst p).bind fun i => ?_
      split
      · exact (hp p).preserves_update fun _ => ⟨id, id, id, id⟩
      · exact preserves_pure _
  cases step with
  | begins vm =>
    refine Run.Preserves.discard ((hhook vm .beforeDestroy).bind fun _ => ?_)
    refine Run.Preserves.bind ((hp vm).preserves_update fun _ => ⟨id, id, id, id⟩) fun _ => ?_
    refine (hunlink vm).bind fun _ => (preserves_inst vm).bind fun i => ?_
    refine Run.Preserves.bind ((hp vm).preserves_update fun _ => ⟨id, id, id, id⟩) fun _ => ?_
    refine Run.Preserves.bind ?_ fun _ => preserves_pure _
    exact hI.preserves_modify fun _ => ⟨rfl, rfl⟩
  | ends vm =>
    refine Run.Preserves.bind ?_ fun _ => (hhook vm .destroyed).bind fun _ => ?_
    · exact (hp vm).preserves_update fun _ => ⟨fun _ => rfl, fun _ => rfl, fun _ => rfl, id⟩
    · exact (hp vm).preserves_update fun _ => ⟨id, id, id, fun _ => rfl⟩
  | releases vm => exact hI.preserves_modify fun _ => ⟨rfl, rfl⟩

theorem preserves_performAll (h : app.Preserves I) (hI : World.OnInstances I)
    (hp : ∀ vm, World.Permits I vm Instance.NoMore) (steps : List TeardownStep) :
    Run.Preserves I (performAll app steps) := by
  induction steps with
  | nil => exact preserves_pure _
  | cons step steps ih => exact (preserves_perform h hI hp step).bind fun _ => ih

end

/-- An instance that is there is stripped when its teardown ends. -/
theorem stripped_ends (hadds : app.AddsNothing) (h : w.Has u) :
    (((ends u).perform app).run w).2.Stripped u true := by
  obtain ⟨i, hi⟩ := h
  let cleared := ((Run.update u fun i =>
    { i with watchers := [], vnode := none, destroyed := true }).run w).2
  have hcleared : cleared.Stripped u false :=
    ⟨_, by rw [instance?_update_self, hi, Option.map_some], rfl, rfl, rfl, nofun⟩
  obtain ⟨j, hj, hdestroyed, hwatchers, hvnode, -⟩ :=
    preserves_callHook (hadds u false) (stripped_onInstances u false) (stripped_permits u false u)
      Instance.NoMore.refl Instance.noMore_off .destroyed cleared hcleared
  let hooked := ((app.callHook u .destroyed).run cleared).2
  have hdeaf : (((ends u).perform app).run w).2.instance? u = some { j with events := [] } := by
    show ((Run.update u fun i => { i with events := [] }).run hooked).2.instance? u = _
    rw [instance?_update_self, hj, Option.map_some]
  exact ⟨_, hdeaf, hdestroyed, hwatchers, hvnode, fun _ => rfl⟩

/-- Once its teardown has ended, an instance stays stripped. -/
theorem stripped_performAll (hcalm : app.Calm) (hadds : app.AddsNothing)
    {steps : List TeardownStep} (hu : u ∈ ended steps) (h : w.Has u) :
    ((performAll app steps).run w).2.Stripped u true := by
  induction steps generalizing w with
  | nil => cases hu
  | cons step steps ih =>
    let w' := ((step.perform app).run w).2
    show ((performAll app steps).run w').2.Stripped u true
    have hrest : u ∈ ended steps → ((performAll app steps).run w').2.Stripped u true := fun hu =>
      ih hu (preserves_perform (hcalm.preserves_has u) (has_onInstances u) (has_permits u) step w h)
    cases step with
    | begins vm => exact hrest hu
    | releases vm => exact hrest hu
    | ends vm =>
      rcases List.mem_cons.1 hu with rfl | hu
      · exact preserves_performAll (hadds u true) (stripped_onInstances u true)
          (stripped_permits u true) steps _ (stripped_ends hadds h)
      · exact hrest hu

/-! ## A subtree is torn down -/

/-- What destroying an instance comes to. Its steps begin and end with the instance and have those
of its children between, in order; they visit every instance of the subtree once. The subtree is
torn down then, and has nothing left if nothing is given to it later. No other instance lists the
instance, and the others are what they were otherwise, but for what the application does with them.
Destroying the instance again does nothing. -/
structure TearsDown (app : Application) (w : World) (vm : Uid) (below : List TeardownStep)
    (w' : World) : Prop where
  steps : Teardown w.links.childrenOf (w.links.childrenOf vm) below
  performed : (app.destroy vm).run w = (performAll app (teardownOf vm below)).run w
  once : (begun (teardownOf vm below)).Nodup ∧
    (ended (teardownOf vm below)).Perm (begun (teardownOf vm below))
  subtree : ∀ u, u ∈ begun (teardownOf vm below) ↔ w.links.Under vm u
  closed : ∀ u, w.links.Under vm u → ∃ j, w'.instance? u = some j ∧ j.beingDestroyed = true ∧
    j.destroyed = true ∧ j.children = []
  stripped : app.AddsNothing → ∀ u, w.links.Under vm u → w'.Stripped u true
  unlisted : ∀ u j, w'.instance? u = some j → vm ∉ j.children
  others : ∀ u l, ¬ w.links.Under vm u → w.links u = some l →
    w'.links u = some (Links.unlisting vm l)
  untouched : ∀ u, ¬ w.links.Under vm u → app.LeavesAlone u →
    w'.instance? u = (w.instance? u).map (Instance.unlisting vm)
  again : (app.destroy vm).run w' = ((), w')

theorem begun_teardownOf (vm : Uid) (below : List TeardownStep) :
    begun (teardownOf vm below) = vm :: begun below := by
  simp [begun, teardownOf]

theorem ended_teardownOf (vm : Uid) (below : List TeardownStep) :
    ended (teardownOf vm below) = ended below ++ [vm] := by
  simp [ended, teardownOf]

/-- What is known of the links of an instance that is there. -/
theorem exists_of_links {l : Link} (hl : w.links u = some l) :
    ∃ i, w.instance? u = some i ∧ i.link = l :=
  Option.map_eq_some_iff.1 hl

/-- What is left of an instance outside of the subtree: it does not list its root any more, which
only the parent of the root did. -/
theorem Links.Forest.remainder_eq_unlisting {L : Links} {H : Uid → Prop} (hforest : L.Forest H)
    {vm : Uid} {root l : Link} (hroot : L vm = some root) (hu : L u = some l) {us : List Uid}
    (hnot : u ∉ us) : Links.remainder us root.parent vm u l = Links.unlisting vm l := by
  rw [Links.remainder, if_neg hnot]
  split
  · rfl
  · rename_i hparent
    have hfilter : l.children.filter (· != vm) = l.children := by
      refine List.filter_eq_self.2 fun c hc => bne_iff_ne.2 ?_
      rintro rfl
      obtain ⟨lc, hlc, hp, -⟩ := hforest.parent_of_mem hu hc
      rw [hroot] at hlc
      cases hlc
      exact hparent hp
    rw [Links.unlisting, hfilter]

theorem tearsDown_of_forest (hcalm : app.Calm) (hforest : w.links.Forest w.Names) {vm : Uid}
    {i : Instance} (hi : w.instance? vm = some i) (hbegun : i.beingDestroyed = false) :
    ∃ below, TearsDown app w vm below ((app.destroy vm).run w).2 := by
  have hself := w.linkedAs_self
  have hl : w.links vm = some i.link := congrArg (Option.map Instance.link) hi
  have hopen : i.link.destroyed = false := (hforest.settled vm i.link hl).symm.trans hbegun
  obtain ⟨below, ht, hperformed, hlinked, huntouched⟩ :=
    destroy_eq hcalm hself hforest (fun u l => hself.lt_length) hl hopen
  have hsubtree (u : Uid) : u ∈ vm :: begun below ↔ w.links.Under vm u := mem_cons_begun ht
  let w' := ((app.destroy vm).run w).2
  have hafter (u : Uid) : ((w.links.unlist vm).close (vm :: begun below)) u =
      (w.links u).map (Links.remainder (vm :: begun below) i.link.parent vm u) :=
    hforest.close_apply hl hsubtree u
  have hforest' : w'.links.Forest w'.Names := (hforest.close hl hsubtree).of_linkedAs hlinked
  have hclosed (u : Uid) (hu : w.links.Under vm u) : ∃ j, w'.instance? u = some j ∧
      j.beingDestroyed = true ∧ j.destroyed = true ∧ j.children = [] := by
    obtain ⟨lu, hlu, -⟩ := hforest.open_of_under hl hopen hu
    have hremainder : Links.remainder (vm :: begun below) i.link.parent vm u lu =
        Links.closed lu := if_pos ((hsubtree u).2 hu)
    have hlu' := hlinked.linked u (Links.closed lu)
      (by rw [hafter, hlu, Option.map_some, hremainder])
    obtain ⟨j, hj, hlink⟩ := exists_of_links hlu'
    exact ⟨j, hj, congrArg Link.beingDestroyed hlink, congrArg Link.destroyed hlink,
      congrArg Link.children hlink⟩
  have hvm' := hclosed vm .self
  refine ⟨below, ht, hperformed, ?once, ?subtree, hclosed, ?stripped, ?unlisted, ?others,
    ?untouched, ?again⟩
  case once =>
    rw [begun_teardownOf, ended_teardownOf]
    refine ⟨List.nodup_cons.2 ⟨fun hvm => ?_, ?_⟩, ?_⟩
    · exact Nat.lt_irrefl vm (hforest.lt_of_begun ht hvm)
    · exact hforest.begun_nodup ht (fun _ hu => hu) (hforest.childrenOf_nodup vm)
    · exact List.perm_append_singleton vm (ended below) |>.trans ((Links.ended_perm ht).cons vm)
  case subtree =>
    rw [begun_teardownOf]
    exact hsubtree
  case stripped =>
    intro hadds u hu
    have hmem : u ∈ ended (teardownOf vm below) := by
      rw [ended_teardownOf]
      rcases List.mem_cons.1 ((hsubtree u).2 hu) with rfl | hu
      · exact List.mem_append_right _ (List.mem_singleton.2 rfl)
      · exact List.mem_append_left _ ((Links.ended_perm ht).mem_iff.2 hu)
    obtain ⟨lu, hlu, -⟩ := hforest.open_of_under hl hopen hu
    obtain ⟨j, hj, -⟩ := exists_of_links hlu
    show ((app.destroy vm).run w).2.Stripped u true
    rw [hperformed]
    exact stripped_performAll hcalm hadds hmem ⟨j, hj⟩
  case unlisted =>
    intro u j hj hc
    -- Only instances that are not torn down are listed.
    obtain ⟨lc, hlc, -, hopen'⟩ :=
      hforest'.parent_of_mem (congrArg (Option.map Instance.link) hj) hc
    obtain ⟨jv, hjv, -, hdestroyed, -⟩ := hvm'
    have hlv : w'.links vm = some jv.link := congrArg (Option.map Instance.link) hjv
    rw [hlc] at hlv
    cases hlv
    exact Bool.false_ne_true (hopen'.symm.trans hdestroyed)
  case others =>
    intro u l hu hlu
    have hnot : u ∉ vm :: begun below := fun hmem => hu ((hsubtree u).1 hmem)
    have hremainder := hforest.remainder_eq_unlisting hl hlu hnot
    exact hlinked.linked u _ (by rw [hafter, hlu, Option.map_some, hremainder])
  case untouched =>
    intro u hu hleaves
    exact huntouched u (fun hmem => hu ((hsubtree u).1 hmem)) hleaves
  case again =>
    obtain ⟨jv, hjv, hbegun', -⟩ := hvm'
    exact destroy_again app hjv hbegun'

end

/-- Every hook writes down its instance; nothing else does anything. -/
def Code.noting : Application :=
  { Code.idle with
    hook := fun _ vm => do
      Run.report (.note (.nat vm))
      pure (.ok ()) }

/-- Every hook renders the first instance. -/
def Code.rendering : Application :=
  { Code.idle with
    hook := fun _ _ => do
      Code.idle.mount 0 none
      pure (.ok ()) }

theorem noting_preserves {I : World → Prop} (hI : World.OnInstances I) :
    Code.noting.Preserves I :=
  { idle_preserves I with
    hook := fun _ _ => (preserves_report hI _).bind fun _ => preserves_pure _ }

theorem noting_calm : Code.noting.Calm :=
  fun _ _ => noting_preserves linkedAs_onInstances

theorem noting_addsNothing : Code.noting.AddsNothing :=
  fun u deaf => noting_preserves (stripped_onInstances u deaf)

theorem rendering_calm : Code.rendering.Calm := fun L H =>
  { idle_preserves (World.LinkedAs L H) with
    hook := fun _ _ => Run.Preserves.bind
      (preserves_mount (idle_preserves _) linkedAs_onInstances (linkedAs_permits 0)
        initializes_link.toFillsIn none)
      fun _ => preserves_pure _ }

namespace World

/-- Another name for an instance. -/
def name (w : World) (label : String) (u : Uid) : World :=
  { w with instanceNames := (label, u) :: w.instanceNames }

/-- A root with a hook that runs when it has been destroyed. -/
def withRoot (app : Application) (w : World) : World :=
  let options := { ComponentOptions.empty with hooks := [(.destroyed, [0])] }
  ((app.newInstance 0 options).run w).2

/-- One root, kept under a name. -/
def lone (app : Application) : World :=
  ((World.start .default).withRoot app).name "top" 0

/-- A root with a child. -/
def pair (app : Application) : World :=
  let node := ⟨"x-child", .definition 0, .empty, none, some 0, [], [], [], none⟩
  ((app.newChild 0 0 ⟨node, none, none⟩).run (lone app)).2

end World

theorem linkedAs_name {L : Links} {H : Uid → Prop} {w : World} (h : w.LinkedAs L H)
    (label : String) (u : Uid) : (w.name label u).LinkedAs L H :=
  ⟨h.linked, h.detached, fun v hv => List.mem_cons_of_mem u (h.kept v hv)⟩

theorem lone_steps (app : Application) :
    Relation.ReflTransGen app.TreeStep (.start .default) (.lone app) :=
  .tail (.tail .refl (.create 0 _)) (.other fun _ _ h => linkedAs_name h "top" 0)

end ViewTree
