import Mathlib.Data.List.Monad
import ViewTree.Proofs.Component.Hooks
import ViewTree.Proofs.Component.Watchers
/-!
# Merging in any grouping

Layers without further layers may be merged in any grouping, and options that hold nothing change
nothing when they are merged with merged ones (`merging_regroups`). Where data and provided values
come from is left aside: every merge makes a source of its own. For the rest, one merge is
`ComponentOptions.overlay`, and each of its strategies has its own laws.
-/

namespace ViewTree

/-! ## Strategies -/

theorem mergeWatch_assoc {a b c : Dict (List Watcher)} (ha : a.Sorted) (hb : b.Sorted)
    (hc : c.Sorted) : mergeWatch (mergeWatch a b) c = mergeWatch a (mergeWatch b c) := by
  refine (sorted_mergeWatch (sorted_mergeWatch ha b) c).ext (sorted_mergeWatch ha _) fun expr => ?_
  rw [get?_mergeWatch _ hc, get?_mergeWatch _ hb, get?_mergeWatch _ (sorted_mergeWatch hb c),
    get?_mergeWatch _ hc]
  exact Std.Associative.assoc _ _ _

theorem nil_mergeWatch {watch : Dict (List Watcher)} (h : watch.Sorted) :
    mergeWatch [] watch = watch := by
  refine (sorted_mergeWatch Dict.sorted_nil watch).ext h fun expr => ?_
  rw [get?_mergeWatch _ h, Dict.get?_nil, Option.merge_none_left]

section

variable {α : Type} [BEq α] [LawfulBEq α]

theorem eraseDups_append_right (l l' : List α) :
    (l ++ l'.eraseDups).eraseDups = (l ++ l').eraseDups := by
  refine eraseDups_append_congr ?_
  rw [List.removeAll, filter_eraseDups, eraseDups_of_nodup (nodup_eraseDups _)]
  rfl

theorem concatUnique_assoc (a b c : List α) :
    concatUnique (concatUnique a b) c = concatUnique a (concatUnique b c) := by
  rw [concatUnique_eq, concatUnique_eq, concatUnique_eq, concatUnique_eq, eraseDups_append_left,
    eraseDups_append_right, List.append_assoc]

theorem concatUnique_eq_nil_iff {a b : List α} : concatUnique a b = [] ↔ a = [] ∧ b = [] := by
  rw [concatUnique_eq, ← List.append_eq_nil_iff, List.eq_nil_iff_forall_not_mem,
    List.eq_nil_iff_forall_not_mem]
  simp only [List.mem_eraseDups]

/-- Nothing changes in a list that was merged before. -/
theorem nil_concatUnique (a b : List α) :
    concatUnique [] (concatUnique a b) = concatUnique a b := by
  rw [concatUnique_eq, concatUnique_eq, List.nil_append, eraseDups_of_nodup (nodup_eraseDups _)]

theorem concatUnique_nil (a b : List α) :
    concatUnique (concatUnique a b) [] = concatUnique a b := by
  rw [concatUnique_eq, concatUnique_eq, List.append_nil, eraseDups_of_nodup (nodup_eraseDups _)]

end

/-- The table that lists hooks for each moment; a moment without any has no entry. -/
def HookTable.ofLists (ids : LifecycleHook → List CallbackId) : HookTable :=
  LifecycleHook.all.filterMap fun hook =>
    if (ids hook).isEmpty then none else some (hook, ids hook)

section

variable (a b c : HookTable)

theorem mergeHooks_eq :
    mergeHooks a b = .ofLists fun hook => concatUnique (a.hooksOf hook) (b.hooksOf hook) := by
  unfold mergeHooks HookTable.ofLists
  congr 1
  funext hook
  dsimp only
  by_cases hnone : a.hooksOf hook = [] ∧ b.hooksOf hook = []
  · simp only [hnone.1, hnone.2]
    rfl
  · have hsome : ¬ (concatUnique (a.hooksOf hook) (b.hooksOf hook)).isEmpty := by
      rwa [List.isEmpty_iff, concatUnique_eq_nil_iff]
    rw [if_neg hsome]
    split
    · rename_i ha hb
      exact absurd ⟨ha, hb⟩ hnone
    · rfl

theorem hooksOf_merged (hook : LifecycleHook) :
    (mergeHooks a b).hooksOf hook = concatUnique (a.hooksOf hook) (b.hooksOf hook) := by
  rw [hooksOf_mergeHooks, concatUnique_eq]

/-- Merged tables are the same, if they list the same hooks for every moment. -/
theorem mergeHooks_congr {a b a' b' : HookTable}
    (h : ∀ hook, concatUnique (a.hooksOf hook) (b.hooksOf hook) =
      concatUnique (a'.hooksOf hook) (b'.hooksOf hook)) : mergeHooks a b = mergeHooks a' b' := by
  rw [mergeHooks_eq a b, mergeHooks_eq a' b']
  congr 1
  funext hook
  exact h hook

theorem mergeHooks_assoc : mergeHooks (mergeHooks a b) c = mergeHooks a (mergeHooks b c) := by
  refine mergeHooks_congr fun hook => ?_
  rw [hooksOf_merged, hooksOf_merged, concatUnique_assoc]

theorem nil_mergeHooks : mergeHooks [] (mergeHooks a b) = mergeHooks a b := by
  refine mergeHooks_congr fun hook => ?_
  rw [hooksOf_merged]
  exact nil_concatUnique _ _

theorem mergeHooks_nil : mergeHooks (mergeHooks a b) [] = mergeHooks a b := by
  refine mergeHooks_congr fun hook => ?_
  rw [hooksOf_merged]
  exact concatUnique_nil _ _

end

/-! ## One merge -/

namespace ComponentOptions

/-- The options but for where data and provided values come from. -/
def withoutSources (o : ComponentOptions) : ComponentOptions :=
  { o with data := none, provide := none }

/-- The dictionaries of the options themselves are in key order. -/
structure InOrder (o : ComponentOptions) : Prop where
  entries : o.Sorted
  watch : o.watch.Sorted

section

variable {a b c : ComponentOptions}

/-- Each strategy may be applied in any grouping. -/
theorem overlay_assoc (ha : a.InOrder) (hb : b.InOrder) (hc : c.InOrder)
    (data data' provide provide' : Option DataSource) :
    (a.overlay b data provide).overlay c none none =
      a.overlay (b.overlay c data' provide') none none := by
  have hdict (k : AssetKind) := Dict.overlay_assoc (ha.entries k) (hb.entries k) (hc.entries k)
  have hfns : (if c.staticRenderFns.isEmpty then
      if b.staticRenderFns.isEmpty then a.staticRenderFns else b.staticRenderFns
      else c.staticRenderFns) =
      if (if c.staticRenderFns.isEmpty then b.staticRenderFns else c.staticRenderFns).isEmpty then
        a.staticRenderFns
      else if c.staticRenderFns.isEmpty then b.staticRenderFns else c.staticRenderFns := by
    cases hc : c.staticRenderFns.isEmpty with
    | true => simp
    | false => simp [hc]
  simp only [overlay, mk.injEq, true_and, and_true]
  exact ⟨orElse_assoc .., orElse_assoc .., orElse_assoc .., hdict .prop, hdict .method,
    hdict .computed, mergeWatch_assoc ha.watch hb.watch hc.watch, mergeHooks_assoc ..,
    concatUnique_assoc .., hdict .component, hdict .directive, hdict .filter, hdict .inject,
    orElse_assoc .., hfns, orElse_assoc .., (Bool.or_assoc ..).symm, orElse_assoc ..⟩

/-- Laid over options that hold nothing, merged options are what they were. -/
theorem empty_overlay {data provide : Option DataSource} (h : (a.overlay b data provide).InOrder) :
    empty.overlay (a.overlay b data provide) none none =
      (a.overlay b data provide).withoutSources := by
  have hdict (k : AssetKind) := Dict.nil_overlay (h.entries k)
  have hfns (fns : List CallbackId) : (if fns.isEmpty then [] else fns) = fns := by
    cases fns with
    | nil => rfl
    | cons id ids => rfl
  simp only [overlay, withoutSources, empty, mk.injEq, true_and, and_true]
  exact ⟨orElse_failure _, orElse_failure _, orElse_failure _, hdict .prop, hdict .method,
    hdict .computed, nil_mergeWatch h.watch, nil_mergeHooks .., nil_concatUnique ..,
    hdict .component, hdict .directive, hdict .filter, hdict .inject, orElse_failure _, hfns _,
    orElse_failure _, Bool.or_false _, orElse_failure _⟩

/-- Options that hold nothing change nothing in merged ones. -/
theorem overlay_empty (data provide : Option DataSource) :
    (a.overlay b data provide).overlay empty none none =
      (a.overlay b data provide).withoutSources := by
  simp only [overlay, withoutSources, empty, mk.injEq, true_and, and_true]
  exact ⟨rfl, rfl, rfl, rfl, rfl, rfl, rfl, mergeHooks_nil .., concatUnique_nil .., rfl, rfl, rfl,
    rfl, rfl, rfl, rfl, Bool.false_or _, rfl⟩

end

/-! ## Merging -/

/-- What the merge of a layer with its further layers gives, in any world. -/
def mergedWith (parent child : ComponentOptions) (forInstance : Bool) (w : World) :
    ComponentOptions :=
  ((Run.mergeOptions parent child forInstance).run w).1

/-- A layer without further layers. -/
structure IsSingle (o : ComponentOptions) : Prop where
  extending : o.extending = none
  mixins : o.mixins = []

/-- The dictionaries of a layer and of its further layers are in key order. -/
structure AllInOrder (o : ComponentOptions) : Prop where
  entries : o.AllSorted
  watch : o.WatchSorted

/-- All that a single layer has of dictionaries are its own. -/
theorem InOrder.allInOrder {o : ComponentOptions} (h : o.InOrder) (hsingle : o.IsSingle) :
    o.AllInOrder where
  entries := by
    rw [allSorted_iff, hsingle.extending, hsingle.mixins]
    exact ⟨h.entries, trivial, trivial⟩
  watch := by
    refine (watchSorted_iff o).2 ⟨?_, h.watch⟩
    rw [nestedMaps, hsingle.extending, hsingle.mixins]
    exact List.forall_mem_nil _

section

variable (parent child : ComponentOptions) (forInstance : Bool) (w : World)

/-- The layer itself comes last, over all that it is merged with before. -/
theorem mergedWith_eq_overlay :
    ∃ (base : ComponentOptions) (data provide : Option DataSource),
      parent.mergedWith child forInstance w = base.overlay child data provide := by
  show ∃ (base : ComponentOptions) (data provide : Option DataSource),
    ((mergeLayers parent forInstance child).run ⟨w.nextSource, []⟩).1 =
      base.overlay child data provide
  rw [mergeLayers_eq]
  exact ⟨_, mergeOwn_eq _ child forInstance _⟩

variable {child}

/-- A single layer is merged with its parent alone. -/
theorem IsSingle.mergedWith (h : child.IsSingle) :
    ∃ data provide, parent.mergedWith child forInstance w = parent.overlay child data provide := by
  show ∃ data provide, ((mergeLayers parent forInstance child).run ⟨w.nextSource, []⟩).1 =
    parent.overlay child data provide
  rw [mergeLayers_eq, h.extending, h.mixins]
  exact mergeOwn_eq parent child forInstance _

variable {parent}

theorem InOrder.mergedWith (hparent : parent.InOrder) (hchild : child.AllInOrder) :
    (parent.mergedWith child forInstance w).InOrder where
  entries := (mergeOptions_spec hparent.entries hchild.entries forInstance w).2.1
  watch := by
    rw [ComponentOptions.mergedWith, mergeOptions_watch]
    exact sorted_foldl hparent.watch _

end

theorem isSingle_overlay (parent child : ComponentOptions) (data provide : Option DataSource) :
    (parent.overlay child data provide).IsSingle :=
  ⟨rfl, rfl⟩

theorem isSingle_empty : empty.IsSingle :=
  ⟨rfl, rfl⟩

end ComponentOptions

/-- Layers without further layers may be merged in any grouping, and merging options that hold
nothing with merged ones, on either side, changes nothing in them, but for where data and provided
values come from. What an outermost parent extends or mixes in is left aside either way. -/
theorem merging_regroups :
    (∀ a b c : ComponentOptions, a.InOrder → b.InOrder → c.InOrder → b.IsSingle → c.IsSingle →
      ∀ f₁ f₂ f₃ f₄ w₁ w₂ w₃ w₄,
        ((a.mergedWith b f₁ w₁).mergedWith c f₂ w₂).withoutSources =
          (a.mergedWith (b.mergedWith c f₃ w₃) f₄ w₄).withoutSources) ∧
      ∀ parent child : ComponentOptions, parent.InOrder → child.AllInOrder → ∀ f f' w w',
        let merged := parent.mergedWith child f w
        (ComponentOptions.empty.mergedWith merged f' w').withoutSources = merged.withoutSources ∧
          (merged.mergedWith .empty f' w').withoutSources = merged.withoutSources := by
  constructor
  · intro a b c ha hb hc hb' hc' f₁ f₂ f₃ f₄ w₁ w₂ w₃ w₄
    obtain ⟨data, provide, hab⟩ := hb'.mergedWith a f₁ w₁
    obtain ⟨data', provide', hbc⟩ := hc'.mergedWith b f₃ w₃
    obtain ⟨_, _, hleft⟩ := hc'.mergedWith (a.overlay b data provide) f₂ w₂
    obtain ⟨_, _, hright⟩ :=
      (ComponentOptions.isSingle_overlay b c data' provide').mergedWith a f₄ w₄
    rw [hab, hbc, hleft, hright]
    exact ComponentOptions.overlay_assoc ha hb hc data data' provide provide'
  · intro parent child hparent hchild f f' w w' merged
    have hsorted : merged.InOrder := hparent.mergedWith f w hchild
    obtain ⟨base, data, provide, hmerged⟩ :=
      ComponentOptions.mergedWith_eq_overlay parent child f w
    change merged = _ at hmerged
    rw [hmerged] at hsorted ⊢
    have hsingle := ComponentOptions.isSingle_overlay base child data provide
    obtain ⟨_, _, hbelow⟩ := hsingle.mergedWith .empty f' w'
    obtain ⟨_, _, habove⟩ :=
      ComponentOptions.isSingle_empty.mergedWith (base.overlay child data provide) f' w'
    rw [hbelow, habove]
    exact ⟨ComponentOptions.empty_overlay hsorted, ComponentOptions.overlay_empty data provide⟩

/-- A layer with a watcher, a hook and an error handler of its own, and with a hook and an error
handler that it shares. -/
def handling (id : CallbackId) : ComponentOptions :=
  { ComponentOptions.empty with
    watch := [("x", [⟨id, false⟩])]
    hooks := [(.created, [id, 0])]
    errorCaptured := [id, 0] }

theorem inOrder_handling (id : CallbackId) : (handling id).InOrder where
  entries k := sorted_empty k
  watch := List.pairwise_singleton _ _

theorem isSingle_handling (id : CallbackId) : (handling id).IsSingle :=
  ⟨rfl, rfl⟩

/-- Two layers with a shared hook and error handler, merged. -/
def handlingBoth : ComponentOptions :=
  (handling 1).mergedWith (handling 2) false (World.start .default)

/-- With a third layer that shares them, they stay where they stood first. -/
theorem merging_regroups_handling :
    handlingBoth.errorCaptured = [1, 0, 2] ∧
      (handlingBoth.mergedWith (handling 3) true (World.start .default)).withoutSources =
        ((handling 1).mergedWith
          ((handling 2).mergedWith (handling 3) false (World.start .default)) true
          (World.start .default)).withoutSources ∧
      (ComponentOptions.empty.mergedWith handlingBoth false (World.start .default)).withoutSources =
        handlingBoth.withoutSources ∧
      (handlingBoth.mergedWith .empty false (World.start .default)).withoutSources =
        handlingBoth.withoutSources := by
  have hregroups := merging_regroups.1 _ _ _ (inOrder_handling 1) (inOrder_handling 2)
    (inOrder_handling 3) (isSingle_handling 2) (isSingle_handling 3)
  have hempty := merging_regroups.2 _ _ (inOrder_handling 1)
    ((inOrder_handling 2).allInOrder (isSingle_handling 2))
  exact ⟨by decide, hregroups _ _ _ _ _ _ _ _, hempty _ _ _ _⟩

end ViewTree
