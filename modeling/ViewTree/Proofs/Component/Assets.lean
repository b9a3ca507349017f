import ViewTree.Component.Definition
import ViewTree.Proofs.Dict
import ViewTree.Proofs.Lookup
/-!
# What options hold

Options are looked up by kind and key: a component of some name, a prop, the template. For every
kind, merging lays the entries of a layer over those below (`find_mergeLayers`), and carrying
edits over takes the whole table of a kind or nothing of it (`entries_carryEdits`).
-/

namespace ViewTree

/-! ## Equality of values -/

mutual

theorem Value.same_self : (v : Value) → v.same v
  | .null => rfl
  | .bool b => beq_self_eq_true b
  | .number n => by
    cases n with
    | int n => exact beq_self_eq_true n
    | double d => simp [Value.same, Number.same, Double.sameNumber]
  | .string s => beq_self_eq_true s
  | .array items => Value.sameItems_self items
  | .object fields => Value.sameFields_self fields

theorem Value.sameItems_self : (items : List Value) → Value.sameItems items items
  | [] => rfl
  | v :: items => by
    simp [Value.sameItems, Value.same_self v, Value.sameItems_self items]

theorem Value.sameFields_self : (fields : List (String × Value)) → Value.sameFields fields fields
  | [] => rfl
  | (key, v) :: fields => by
    simp [Value.sameFields, Value.same_self v, Value.sameFields_self fields]

end

instance : ReflBEq Value := ⟨fun {v} => Value.same_self v⟩

deriving instance ReflBEq for DefaultValue
deriving instance ReflBEq for PropOptions
deriving instance ReflBEq for InjectOptions

/-! ## Kinds of entries -/

/-- What can be looked up in options. The name and the template stand under the empty key. -/
inductive AssetKind where
  | name
  | component
  | directive
  | filter
  | method
  | computed
  | prop
  | inject
  | template
deriving DecidableEq

namespace AssetKind

/-- What is found under a key. -/
def Value : AssetKind → Type
  | name => String
  | component => Cid
  | directive => DirectiveHooks
  | filter => CallbackId
  | method => CallbackId
  | computed => CallbackId
  | prop => PropOptions
  | inject => InjectOptions
  | template => String

instance : (k : AssetKind) → BEq k.Value
  | name => inferInstanceAs (BEq String)
  | component => inferInstanceAs (BEq Cid)
  | directive => inferInstanceAs (BEq DirectiveHooks)
  | filter => inferInstanceAs (BEq CallbackId)
  | method => inferInstanceAs (BEq CallbackId)
  | computed => inferInstanceAs (BEq CallbackId)
  | prop => inferInstanceAs (BEq PropOptions)
  | inject => inferInstanceAs (BEq InjectOptions)
  | template => inferInstanceAs (BEq String)

instance : (k : AssetKind) → ReflBEq k.Value
  | name => inferInstanceAs (ReflBEq String)
  | component => inferInstanceAs (ReflBEq Cid)
  | directive => inferInstanceAs (ReflBEq DirectiveHooks)
  | filter => inferInstanceAs (ReflBEq CallbackId)
  | method => inferInstanceAs (ReflBEq CallbackId)
  | computed => inferInstanceAs (ReflBEq CallbackId)
  | prop => inferInstanceAs (ReflBEq PropOptions)
  | inject => inferInstanceAs (ReflBEq InjectOptions)
  | template => inferInstanceAs (ReflBEq String)

end AssetKind

/-- An optional value as an entry without a key. -/
def Dict.single {α : Type} : Option α → Dict α
  | some v => [("", v)]
  | none => []

namespace ComponentOptions

/-- The entries of a kind. -/
def entries (o : ComponentOptions) : (k : AssetKind) → Dict k.Value
  | .name => Dict.single o.name
  | .component => o.components
  | .directive => o.directives
  | .filter => o.filters
  | .method => o.methods
  | .computed => o.computed
  | .prop => o.props
  | .inject => o.inject
  | .template => Dict.single o.template

/-- What the options themselves hold of a kind. -/
def find? (o : ComponentOptions) (k : AssetKind) : Lookup k.Value :=
  (o.entries k).get?

/-- The entries of every kind are sorted. -/
def Sorted (o : ComponentOptions) : Prop :=
  ∀ k, (o.entries k).Sorted

end ComponentOptions

theorem find?_empty (k : AssetKind) : ComponentOptions.empty.find? k = .empty := by
  cases k <;> rfl

theorem sorted_empty : ComponentOptions.empty.Sorted := by
  intro k
  cases k <;> exact Dict.sorted_nil

theorem Dict.single_beq {α : Type} [BEq α] (a b : Option α) :
    (Dict.single a == Dict.single b) = (a == b) := by
  cases a <;> cases b <;> simp [Dict.single, BEq.beq, List.beq, Option.instBEq.beq]

/-! ## Carrying edits over -/

theorem carried_eq {α : Type} [BEq α] (l s e : α) :
    (if l != s then l else e) = if l == s then e else l := by
  cases h : l == s <;> simp [bne, h]

theorem carried_single {α : Type} [BEq α] (l s e : Option α) :
    Dict.single (if l != s then l else e) =
      if Dict.single l == Dict.single s then Dict.single e else Dict.single l := by
  rw [carried_eq, Dict.single_beq]
  split <;> rfl

/-- Carrying edits over takes the table of a kind as it is now if it is another than the sealed
one. -/
theorem entries_carryEdits (latest sealedOptions extended : ComponentOptions) (k : AssetKind) :
    (carryEdits latest sealedOptions extended).entries k =
      if latest.entries k == sealedOptions.entries k then extended.entries k
      else latest.entries k := by
  cases k with
  | name => exact carried_single latest.name sealedOptions.name extended.name
  | component =>
    exact carried_eq latest.components sealedOptions.components extended.components
  | directive =>
    exact carried_eq latest.directives sealedOptions.directives extended.directives
  | filter => exact carried_eq latest.filters sealedOptions.filters extended.filters
  | method => exact carried_eq latest.methods sealedOptions.methods extended.methods
  | computed => exact carried_eq latest.computed sealedOptions.computed extended.computed
  | prop => exact carried_eq latest.props sealedOptions.props extended.props
  | inject => exact carried_eq latest.inject sealedOptions.inject extended.inject
  | template => exact carried_single latest.template sealedOptions.template extended.template

/-! ## Merging -/

mutual

/-- What a layer holds of a kind, its further layers included: its own entries over those of its
mixins, the last first, over those of the layer it extends. -/
def ComponentOptions.flat? (k : AssetKind) : ComponentOptions → Lookup k.Value
  | child@{ extending, mixins, .. } =>
    (child.find? k).onto ((flatMixins? k mixins).onto (flatExtending? k extending))

/-- What the layer that is extended holds. -/
def flatExtending? (k : AssetKind) : Option ComponentOptions → Lookup k.Value
  | none => .empty
  | some layer => layer.flat? k

/-- What the mixins hold. -/
def flatMixins? (k : AssetKind) : List ComponentOptions → Lookup k.Value
  | [] => .empty
  | layer :: layers => (flatMixins? k layers).onto (layer.flat? k)

end

/-- What the further layers of options hold. -/
def ComponentOptions.nested? (o : ComponentOptions) (k : AssetKind) : Lookup k.Value :=
  (flatMixins? k o.mixins).onto (flatExtending? k o.extending)

mutual

/-- The entries of a layer and of its further layers are sorted. -/
def ComponentOptions.AllSorted : ComponentOptions → Prop
  | child@{ extending, mixins, .. } =>
    child.Sorted ∧ extendingSorted extending ∧ mixinsSorted mixins

def extendingSorted : Option ComponentOptions → Prop
  | none => True
  | some layer => layer.AllSorted

def mixinsSorted : List ComponentOptions → Prop
  | [] => True
  | layer :: layers => layer.AllSorted ∧ mixinsSorted layers

end

theorem sorted_single {α : Type} (v : Option α) : (Dict.single v).Sorted := by
  cases v with
  | none => exact .nil
  | some v => exact List.pairwise_singleton _ _

theorem single_or {α : Type} (child parent : Option α) (key : String) :
    (Dict.single (child <|> parent)).get? key =
      ((Dict.single child).get? key).or ((Dict.single parent).get? key) := by
  cases child with
  | none => rfl
  | some v =>
    cases parent with
    | none => exact Option.or_none.symm
    | some u =>
      show (if "" = key then some v else none) =
        (if "" = key then some v else none).or (if "" = key then some u else none)
      split <;> rfl

theorem find?_overlay (parent child : ComponentOptions) (hchild : child.Sorted)
    (data provide : Option DataSource) (k : AssetKind) :
    (parent.overlay child data provide).find? k = (child.find? k).onto (parent.find? k) := by
  funext key
  cases k with
  | name => exact single_or child.name parent.name key
  | component => exact Dict.get?_overlay parent.components (hchild .component) key
  | directive => exact Dict.get?_overlay parent.directives (hchild .directive) key
  | filter => exact Dict.get?_overlay parent.filters (hchild .filter) key
  | method => exact Dict.get?_overlay parent.methods (hchild .method) key
  | computed => exact Dict.get?_overlay parent.computed (hchild .computed) key
  | prop => exact Dict.get?_overlay parent.props (hchild .prop) key
  | inject => exact Dict.get?_overlay parent.inject (hchild .inject) key
  | template => exact single_or child.template parent.template key

theorem sorted_overlay {parent : ComponentOptions} (hparent : parent.Sorted)
    (child : ComponentOptions) (data provide : Option DataSource) :
    (parent.overlay child data provide).Sorted := by
  intro k
  cases k with
  | name => exact sorted_single _
  | component => exact (hparent .component).overlay child.components
  | directive => exact (hparent .directive).overlay child.directives
  | filter => exact (hparent .filter).overlay child.filters
  | method => exact (hparent .method).overlay child.methods
  | computed => exact (hparent .computed).overlay child.computed
  | prop => exact (hparent .prop).overlay child.props
  | inject => exact (hparent .inject).overlay child.inject
  | template => exact sorted_single _

theorem mergeOwn_eq (parent child : ComponentOptions) (forInstance : Bool) (s : MergeState) :
    ∃ data provide,
      ((mergeOwn parent child forInstance).run s).1 = parent.overlay child data provide := by
  unfold mergeOwn
  dsimp only
  split
  · split
    · split
      · exact ⟨_, _, rfl⟩
      · exact ⟨_, _, rfl⟩
    · split
      · exact ⟨_, _, rfl⟩
      · exact ⟨_, _, rfl⟩
  · exact ⟨_, _, rfl⟩

theorem mergeLayers_eq (parent child : ComponentOptions) (forInstance : Bool) :
    mergeLayers parent forInstance child = (do
      checkComponentNames child.components.keys
      let base ← mergeExtending parent forInstance child.extending
      let base ← mergeMixins base forInstance child.mixins
      mergeOwn base child forInstance) := by
  cases child
  rfl

theorem flat?_eq (o : ComponentOptions) (k : AssetKind) :
    o.flat? k = (o.find? k).onto (o.nested? k) := by
  cases o
  rfl

theorem allSorted_iff (o : ComponentOptions) :
    o.AllSorted ↔ o.Sorted ∧ extendingSorted o.extending ∧ mixinsSorted o.mixins := by
  cases o
  exact Iff.rfl

theorem allSorted_empty : ComponentOptions.empty.AllSorted :=
  (allSorted_iff _).2 ⟨sorted_empty, trivial, trivial⟩

/-- A merge keeps options sorted and lays `top` over what they hold. -/
def LaysOver (merge : ComponentOptions → Merge ComponentOptions)
    (top : (k : AssetKind) → Lookup k.Value) : Prop :=
  ∀ parent : ComponentOptions, parent.Sorted → ∀ s : MergeState,
    ((merge parent).run s).1.Sorted ∧
      ∀ k, ((merge parent).run s).1.find? k = (top k).onto (parent.find? k)

theorem laysOver_pure : LaysOver (fun parent => pure parent) fun _ => .empty :=
  fun _ hparent _ => ⟨hparent, fun _ => rfl⟩

theorem LaysOver.bind {lower upper : ComponentOptions → Merge ComponentOptions}
    {low top : (k : AssetKind) → Lookup k.Value} (hlower : LaysOver lower low)
    (hupper : LaysOver upper top) :
    LaysOver (fun parent => lower parent >>= upper) fun k => (top k).onto (low k) := by
  intro parent hparent s
  obtain ⟨hsorted, hfind⟩ := hlower parent hparent s
  obtain ⟨hsorted', hfind'⟩ := hupper _ hsorted ((lower parent).run s).2
  refine ⟨hsorted', fun k => ?_⟩
  rw [Lookup.onto_assoc, ← hfind]
  exact hfind' k

theorem laysOver_own {child : ComponentOptions} (hchild : child.Sorted) (forInstance : Bool) :
    LaysOver (fun parent => mergeOwn parent child forInstance) child.find? := by
  intro parent hparent s
  obtain ⟨data, provide, hrun⟩ := mergeOwn_eq parent child forInstance s
  dsimp only
  rw [hrun]
  exact ⟨sorted_overlay hparent child data provide, find?_overlay parent child hchild data provide⟩

theorem laysOver_layers {child : ComponentOptions} {forInstance : Bool} (hchild : child.Sorted)
    (hextending : LaysOver (mergeExtending · forInstance child.extending)
      fun k => flatExtending? k child.extending)
    (hmixins : LaysOver (mergeMixins · forInstance child.mixins)
      fun k => flatMixins? k child.mixins) :
    LaysOver (mergeLayers · forInstance child) fun k => child.flat? k := by
  intro parent hparent s
  obtain ⟨hsorted, hfind⟩ := (hextending.bind hmixins).bind (laysOver_own hchild forInstance)
    parent hparent ((checkComponentNames child.components.keys).run s).2
  dsimp only
  rw [mergeLayers_eq]
  refine ⟨hsorted, fun k => ?_⟩
  rw [flat?_eq]
  exact hfind k

mutual

/-- Merging lays what a layer holds over its parent. -/
theorem mergeLayers_laysOver (forInstance : Bool) : (child : ComponentOptions) →
    child.AllSorted → LaysOver (mergeLayers · forInstance child) fun k => child.flat? k
  | { extending, mixins, .. }, hchild =>
    laysOver_layers hchild.1 (mergeExtending_laysOver forInstance extending hchild.2.1)
      (mergeMixins_laysOver forInstance mixins hchild.2.2)

theorem mergeExtending_laysOver (forInstance : Bool) : (extending : Option ComponentOptions) →
    extendingSorted extending → LaysOver (mergeExtending · forInstance extending)
      fun k => flatExtending? k extending
  | none, _ => laysOver_pure
  | some layer, hlayer => mergeLayers_laysOver forInstance layer hlayer

theorem mergeMixins_laysOver (forInstance : Bool) : (mixins : List ComponentOptions) →
    mixinsSorted mixins → LaysOver (mergeMixins · forInstance mixins)
      fun k => flatMixins? k mixins
  | [], _ => laysOver_pure
  | layer :: layers, hlayers =>
    (mergeLayers_laysOver forInstance layer hlayers.1).bind
      (mergeMixins_laysOver forInstance layers hlayers.2)

end

/-! ## What is carried over -/

/-- Carrying edits over leaves the further layers as they are. -/
theorem flat?_carryEdits (latest sealedOptions extended : ComponentOptions) (k : AssetKind) :
    (carryEdits latest sealedOptions extended).flat? k =
      if latest.entries k == sealedOptions.entries k then extended.flat? k
      else (latest.find? k).onto (extended.nested? k) := by
  rw [flat?_eq, flat?_eq, ComponentOptions.find?, entries_carryEdits]
  split <;> rfl

theorem allSorted_carryEdits {latest extended : ComponentOptions} (hlatest : latest.Sorted)
    (hextended : extended.AllSorted) (sealedOptions : ComponentOptions) :
    (carryEdits latest sealedOptions extended).AllSorted := by
  rw [allSorted_iff] at hextended ⊢
  refine ⟨fun k => ?_, hextended.2⟩
  rw [entries_carryEdits]
  split
  · exact hextended.1 k
  · exact hlatest k

end ViewTree
