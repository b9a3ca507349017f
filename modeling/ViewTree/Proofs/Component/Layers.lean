import ViewTree.Proofs.Component.Resolution
/-!
# Layers of options

Options come with further layers below them. Merging lays all of them over the parent, one after the
other, so that a part of the merged options is a fold over the layers (`mergeOptions_fold`).
-/

namespace ViewTree

mutual

/-- A layer and its further layers, in the order in which they are merged. -/
def ComponentOptions.layers : ComponentOptions → List ComponentOptions
  | child@{ extending, mixins, .. } => extendingLayers extending ++ mixinLayers mixins ++ [child]

def extendingLayers : Option ComponentOptions → List ComponentOptions
  | none => []
  | some layer => layer.layers

def mixinLayers : List ComponentOptions → List ComponentOptions
  | [] => []
  | layer :: layers => layer.layers ++ mixinLayers layers

end

/-- The further layers alone. -/
def ComponentOptions.nestedLayers (o : ComponentOptions) : List ComponentOptions :=
  extendingLayers o.extending ++ mixinLayers o.mixins

theorem layers_eq (o : ComponentOptions) : o.layers = o.nestedLayers ++ [o] := by
  cases o
  rfl

section

variable {α : Type} {part : ComponentOptions → α} {lay : α → ComponentOptions → α}

/-- A merge lays some layers over a part of its parent, one after the other. -/
def FoldsOver (part : ComponentOptions → α) (lay : α → ComponentOptions → α)
    (merge : ComponentOptions → Merge ComponentOptions) (layers : List ComponentOptions) : Prop :=
  ∀ (parent : ComponentOptions) (s : MergeState),
    part ((merge parent).run s).1 = layers.foldl lay (part parent)

theorem foldsOver_pure : FoldsOver part lay (fun parent => pure parent) [] :=
  fun _ _ => rfl

theorem FoldsOver.bind {lower upper : ComponentOptions → Merge ComponentOptions}
    {layers layers' : List ComponentOptions} (hlower : FoldsOver part lay lower layers)
    (hupper : FoldsOver part lay upper layers') :
    FoldsOver part lay (fun parent => lower parent >>= upper) (layers ++ layers') := by
  intro parent s
  rw [List.foldl_append, ← hlower parent s]
  exact hupper _ ((lower parent).run s).2

/-- How a part of options comes out when one layer is laid over a parent. -/
def LaysPart (part : ComponentOptions → α) (lay : α → ComponentOptions → α) : Prop :=
  ∀ (parent child : ComponentOptions) (data provide : Option DataSource),
    part (parent.overlay child data provide) = lay (part parent) child

theorem LaysPart.own (h : LaysPart part lay) (child : ComponentOptions) (forInstance : Bool) :
    FoldsOver part lay (fun parent => mergeOwn parent child forInstance) [child] := by
  intro parent s
  obtain ⟨data, provide, hrun⟩ := mergeOwn_eq parent child forInstance s
  dsimp only
  rw [hrun]
  exact h parent child data provide

theorem LaysPart.layers (h : LaysPart part lay) {child : ComponentOptions} {forInstance : Bool}
    (hextending : FoldsOver part lay (mergeExtending · forInstance child.extending)
      (extendingLayers child.extending))
    (hmixins : FoldsOver part lay (mergeMixins · forInstance child.mixins)
      (mixinLayers child.mixins)) :
    FoldsOver part lay (mergeLayers · forInstance child) child.layers := by
  intro parent s
  dsimp only
  rw [mergeLayers_eq, layers_eq]
  exact (hextending.bind hmixins).bind (h.own child forInstance) parent
    ((checkComponentNames child.components.keys).run s).2

mutual

theorem mergeLayers_foldsOver (h : LaysPart part lay) (forInstance : Bool) :
    (child : ComponentOptions) → FoldsOver part lay (mergeLayers · forInstance child) child.layers
  | { extending, mixins, .. } =>
    h.layers (mergeExtending_foldsOver h forInstance extending)
      (mergeMixins_foldsOver h forInstance mixins)

theorem mergeExtending_foldsOver (h : LaysPart part lay) (forInstance : Bool) :
    (extending : Option ComponentOptions) →
    FoldsOver part lay (mergeExtending · forInstance extending) (extendingLayers extending)
  | none => foldsOver_pure
  | some layer => mergeLayers_foldsOver h forInstance layer

theorem mergeMixins_foldsOver (h : LaysPart part lay) (forInstance : Bool) :
    (mixins : List ComponentOptions) →
    FoldsOver part lay (mergeMixins · forInstance mixins) (mixinLayers mixins)
  | [] => foldsOver_pure
  | layer :: layers =>
    (mergeLayers_foldsOver h forInstance layer).bind (mergeMixins_foldsOver h forInstance layers)

end

/-- Merging lays all layers of the child over each part of the parent. -/
theorem mergeOptions_fold (h : LaysPart part lay) (parent child : ComponentOptions)
    (forInstance : Bool) (w : World) :
    part ((Run.mergeOptions parent child forInstance).run w).1 =
      child.layers.foldl lay (part parent) :=
  mergeLayers_foldsOver h forInstance child parent ⟨w.nextSource, []⟩

end

end ViewTree
