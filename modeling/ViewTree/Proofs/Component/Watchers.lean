import Mathlib.Data.List.Perm.Subperm
import ViewTree.Proofs.Component.Layers
/-!
# Watchers in options

A watch map lists handlers for the expressions that are watched. Merging puts the handlers that a
layer lists, its further layers first, behind those of its parent (`mergeOptions_watch`,
`listed_merged`). What an operation does to the definitions is described by the watch map that it
leaves behind, and by what it registers: the handlers that are listed then and were not before
(`Edit.listed_watch`).
-/

namespace ViewTree

/-- The handlers that a watch map lists for an expression. -/
def listed (watch : Dict (List Watcher)) (expr : String) : List CallbackId :=
  ((watch.get? expr).getD []).map (·.handler)

/-! ## Watch maps -/

section

variable {parent child : Dict (List Watcher)} {expr : String}

/-- Merging appends the watchers of an expression that the child lists. -/
theorem get?_mergeWatch (parent : Dict (List Watcher)) (hchild : child.Sorted) (expr : String) :
    (mergeWatch parent child).get? expr =
      Option.merge (· ++ ·) (parent.get? expr) (child.get? expr) := by
  exact Dict.get?_foldl_insert (fun own watchers => own.getD [] ++ watchers) (fun _ => rfl)
    (fun _ _ => rfl) parent hchild expr

/-- Merging puts what the child lists behind what the parent lists. -/
theorem listed_mergeWatch (hchild : child.Sorted) :
    listed (mergeWatch parent child) expr = listed parent expr ++ listed child expr := by
  unfold listed
  rw [get?_mergeWatch parent hchild, ← List.map_append]
  congr 1
  cases parent.get? expr with
  | none =>
    cases child.get? expr with
    | none => rfl
    | some watchers => rfl
  | some own =>
    cases child.get? expr with
    | none => exact (List.append_nil own).symm
    | some watchers => rfl

theorem sorted_mergeWatch (hparent : parent.Sorted) (child : Dict (List Watcher)) :
    (mergeWatch parent child).Sorted :=
  hparent.foldl_insert (fun d e => (d.get? e.1).getD [] ++ e.2) child

theorem listed_foldl {maps : List (Dict (List Watcher))} (hmaps : ∀ m ∈ maps, m.Sorted) :
    listed (maps.foldl mergeWatch parent) expr =
      listed parent expr ++ maps.flatMap fun m => listed m expr := by
  induction maps generalizing parent with
  | nil => exact (List.append_nil _).symm
  | cons m maps ih =>
    rw [List.forall_mem_cons] at hmaps
    rw [List.foldl_cons, ih hmaps.2, listed_mergeWatch hmaps.1, List.flatMap_cons,
      List.append_assoc]

theorem sorted_foldl (hparent : parent.Sorted) (maps : List (Dict (List Watcher))) :
    (maps.foldl mergeWatch parent).Sorted := by
  induction maps generalizing parent with
  | nil => exact hparent
  | cons m maps ih => exact ih (sorted_mergeWatch hparent m)

end

/-! ## Layers -/

mutual

/-- The watch maps of a layer and of its further layers, in the order in which they are merged. -/
def ComponentOptions.watchMaps : ComponentOptions → List (Dict (List Watcher))
  | { watch, extending, mixins, .. } => extendingMaps extending ++ mixinMaps mixins ++ [watch]

def extendingMaps : Option ComponentOptions → List (Dict (List Watcher))
  | none => []
  | some layer => layer.watchMaps

def mixinMaps : List ComponentOptions → List (Dict (List Watcher))
  | [] => []
  | layer :: layers => layer.watchMaps ++ mixinMaps layers

end

namespace ComponentOptions

/-- The watch maps of the further layers alone. -/
def nestedMaps (o : ComponentOptions) : List (Dict (List Watcher)) :=
  extendingMaps o.extending ++ mixinMaps o.mixins

/-- The handlers that a layer and its further layers list for an expression. -/
def watchers (o : ComponentOptions) (expr : String) : List CallbackId :=
  o.watchMaps.flatMap fun m => listed m expr

/-- The handlers that the further layers list. -/
def nestedWatchers (o : ComponentOptions) (expr : String) : List CallbackId :=
  o.nestedMaps.flatMap fun m => listed m expr

/-- The watch maps of a layer and of its further layers are sorted. -/
def WatchSorted (o : ComponentOptions) : Prop :=
  ∀ m ∈ o.watchMaps, m.Sorted

end ComponentOptions

theorem watchMaps_eq (o : ComponentOptions) : o.watchMaps = o.nestedMaps ++ [o.watch] := by
  cases o
  rfl

theorem watchers_eq (o : ComponentOptions) (expr : String) :
    o.watchers expr = o.nestedWatchers expr ++ listed o.watch expr := by
  rw [ComponentOptions.watchers, watchMaps_eq, List.flatMap_append, List.flatMap_singleton]
  rfl

theorem watchSorted_iff (o : ComponentOptions) :
    o.WatchSorted ↔ (∀ m ∈ o.nestedMaps, m.Sorted) ∧ o.watch.Sorted := by
  rw [ComponentOptions.WatchSorted, watchMaps_eq, List.forall_mem_append, List.forall_mem_singleton]

/-! ## Merging -/

mutual

/-- The watch maps are those of the layers. -/
theorem watchMaps_layers : (o : ComponentOptions) → o.watchMaps = o.layers.map (·.watch)
  | { extending, mixins, .. } => by
    rw [ComponentOptions.watchMaps, ComponentOptions.layers, List.map_append, List.map_append,
      extendingMaps_layers, mixinMaps_layers]
    rfl

theorem extendingMaps_layers : (extending : Option ComponentOptions) →
    extendingMaps extending = (extendingLayers extending).map (·.watch)
  | none => rfl
  | some layer => watchMaps_layers layer

theorem mixinMaps_layers : (mixins : List ComponentOptions) →
    mixinMaps mixins = (mixinLayers mixins).map (·.watch)
  | [] => rfl
  | layer :: layers => by
    rw [mixinMaps, mixinLayers, List.map_append, watchMaps_layers layer, mixinMaps_layers layers]

end

theorem laysPart_watch :
    LaysPart (·.watch) fun watch layer => mergeWatch watch layer.watch :=
  fun _ _ _ _ => rfl

/-- Merging merges the watch maps of a layer, those of its further layers first. -/
theorem mergeOptions_watch (parent child : ComponentOptions) (forInstance : Bool) (w : World) :
    ((Run.mergeOptions parent child forInstance).run w).1.watch =
      child.watchMaps.foldl mergeWatch parent.watch := by
  rw [watchMaps_layers, List.foldl_map]
  exact mergeOptions_fold laysPart_watch parent child forInstance w

/-- Merged options list what the parent lists, and then what the child's layers list. -/
theorem listed_merged {merged parent child : ComponentOptions} (hchild : child.WatchSorted)
    (hmerged : merged.watch = child.watchMaps.foldl mergeWatch parent.watch) (expr : String) :
    listed merged.watch expr = listed parent.watch expr ++ child.watchers expr := by
  rw [hmerged]
  exact listed_foldl hchild

theorem watch_withSelf (o : ComponentOptions) (name : Option String) (cid : Cid) :
    (o.withSelf name cid).watch = o.watch := by
  cases name <;> rfl

/-- Carrying edits over takes the whole watch map as it is now, if it is another than the sealed
one. The further layers stay as they are. -/
theorem watch_carryEdits (latest sealedOptions extended : ComponentOptions) :
    (carryEdits latest sealedOptions extended).watch =
      if latest.watch = sealedOptions.watch then extended.watch else latest.watch := by
  show (if latest.watch != sealedOptions.watch then latest.watch else extended.watch) = _
  by_cases heq : latest.watch = sealedOptions.watch
  · simp [heq]
  · simp [heq]

theorem watchers_carryEdits (latest sealedOptions extended : ComponentOptions) (expr : String) :
    (carryEdits latest sealedOptions extended).watchers expr =
      extended.nestedWatchers expr ++
        listed (if latest.watch = sealedOptions.watch then extended.watch else latest.watch)
          expr := by
  rw [watchers_eq, watch_carryEdits]
  rfl

theorem watchSorted_carryEdits {latest extended : ComponentOptions} (hlatest : latest.watch.Sorted)
    (hextended : extended.WatchSorted) (sealedOptions : ComponentOptions) :
    (carryEdits latest sealedOptions extended).WatchSorted := by
  rw [watchSorted_iff] at hextended ⊢
  refine ⟨hextended.1, ?_⟩
  rw [watch_carryEdits]
  split
  · exact hextended.2
  · exact hlatest

/-! ## Operations -/

section

variable {w : World} {cid : Cid} {d : Definition}

/-- A definition that is merged again has what is carried merged into the watch map of its
parent. -/
theorem remerge_watch (h : w.definitions[cid]? = some d) (superOptions : ComponentOptions)
    (parentVersion : Nat) :
    let extended := carryEdits d.options d.sealedOptions d.extendOptions
    let r := (Run.remerge cid d superOptions parentVersion).run w
    r.1.watch = extended.watchMaps.foldl mergeWatch superOptions.watch ∧
      r.2.definitions = w.definitions.set cid
        { d with
          version := d.version + 1, options := r.1, superVersion := parentVersion
          superOptions := some superOptions, extendOptions := extended } := by
  intro extended r
  obtain ⟨w', merged, hmerged, hresult, hset⟩ := remerge_run h superOptions parentVersion
  refine ⟨?_, hset⟩
  rw [hresult, watch_withSelf, hmerged]
  exact mergeOptions_watch superOptions extended false w'

/-- A definition that extends another has its layers merged into the watch map that the parent
resolves to. -/
theorem extendDefinition_watch (w : World) (p : Cid) (options : ComponentOptions) :
    let s := (Run.resolveOptions p).run w
    ∃ merged : ComponentOptions, merged.watch = options.watchMaps.foldl mergeWatch s.1.watch ∧
      ((Run.extendDefinition p options).run w).2.definitions = s.2.definitions ++
        [⟨some p, 0, merged, (s.2.definitions[p]?.getD default).version, some s.1, options,
          merged⟩] := by
  intro s
  obtain ⟨w', merged, hmerged, hset⟩ := extendDefinition_made w p options
  refine ⟨merged, ?_, hset⟩
  rw [hmerged, watch_withSelf]
  exact mergeOptions_watch s.1 options false w'

end

namespace Edit

/-- The watch map that the change makes of that of some options. -/
def watch (o : ComponentOptions) : Edit → Dict (List Watcher)
  | mixin layer => layer.watchMaps.foldl mergeWatch o.watch
  | modify f => (f o).watch
  | _ => o.watch

/-- The handlers that the change to some options registers for an expression. -/
def watchers (o : ComponentOptions) (expr : String) : Edit → List CallbackId
  | mixin layer => layer.watchers expr
  | modify f => (listed (f o).watch expr).diff (listed o.watch expr)
  | _ => []

/-- The change to some options keeps all watchers. -/
def KeepsWatchers (o : ComponentOptions) : Edit → Prop
  | mixin layer => layer.WatchSorted
  | modify f =>
    (f o).watch.Sorted ∧ ∀ expr, (listed o.watch expr).Subperm (listed (f o).watch expr)
  | _ => True

variable {o : ComponentOptions} {e : Edit}

/-- What is listed after a change is what was listed before and what is registered. -/
theorem listed_watch (h : e.KeepsWatchers o) (expr : String) :
    (listed (e.watch o) expr).Perm (listed o.watch expr ++ e.watchers o expr) := by
  cases e with
  | mixin layer => exact .of_eq (listed_foldl h)
  | modify f =>
    exact (List.subperm_append_diff_self_of_count_le (List.subperm_ext_iff.1 (h.2 expr))).symm
  | component name target => exact .of_eq (List.append_nil _).symm
  | directive name hooks => exact .of_eq (List.append_nil _).symm
  | filter name id => exact .of_eq (List.append_nil _).symm

theorem sorted_watch (h : e.KeepsWatchers o) (ho : o.watch.Sorted) : (e.watch o).Sorted := by
  cases e with
  | mixin layer => exact sorted_foldl ho layer.watchMaps
  | modify f => exact h.1
  | component name target => exact ho
  | directive name hooks => exact ho
  | filter name id => exact ho

theorem watch_apply (e : Edit) (o : ComponentOptions) (w : World) :
    (e.apply o w).watch = e.watch o := by
  cases e with
  | mixin layer => exact mergeOptions_watch o layer false w
  | component name target => rfl
  | directive name hooks => rfl
  | filter name id => rfl
  | modify f => rfl

/-- A change leaves the watch map behind that it makes, and moves its definition on. -/
theorem run_watch {w : World} {cid : Cid} {d : Definition} (h : w.definitions[cid]? = some d) :
    ∃ options : ComponentOptions, options.watch = e.watch d.options ∧
      ((e.run cid).run w).2.definitions = w.definitions.set cid (d.withOptions options) := by
  obtain ⟨w', hset⟩ := edit_run e h
  exact ⟨_, watch_apply e d.options w', hset⟩

end Edit

end ViewTree
