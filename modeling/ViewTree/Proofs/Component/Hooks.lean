import ViewTree.Proofs.Component.Layers
/-!
# Hooks in options

Merging puts the hooks that a layer lists, its further layers first, behind those of its parent and
keeps each of them once, at its first place (`mergeOptions_hooks`). So does every change that only
appends hooks (`Edit.hooks_apply`).
-/

namespace ViewTree

/-! ## Lists without repetition -/

section

variable {α : Type} [BEq α] [LawfulBEq α]

theorem filter_eraseDups (p : α → Bool) (l : List α) :
    l.eraseDups.filter p = (l.filter p).eraseDups := by
  match l with
  | [] => rfl
  | x :: l =>
    have hswap : (l.filter fun y => !y == x).filter p = (l.filter p).filter fun y => !y == x := by
      rw [List.filter_filter, List.filter_filter]
      exact List.filter_congr fun y _ => Bool.and_comm _ _
    rw [List.eraseDups_cons, List.filter_cons, List.filter_cons, filter_eraseDups p, hswap]
    split
    · rw [List.eraseDups_cons]
    · -- What is filtered out is not there a second time.
      rename_i hx
      congr 1
      refine List.filter_eq_self.2 fun y hy => ?_
      have hne : y ≠ x := fun heq => hx (heq ▸ (List.mem_filter.1 hy).2)
      simpa using hne
termination_by l.length
decreasing_by exact Nat.lt_succ_of_le (List.length_filter_le _ _)

theorem nodup_eraseDups (l : List α) : l.eraseDups.Nodup := by
  match l with
  | [] => exact List.nodup_nil
  | x :: l =>
    rw [List.eraseDups_cons, List.nodup_cons]
    refine ⟨fun hx => ?_, nodup_eraseDups _⟩
    rw [List.mem_eraseDups, List.mem_filter] at hx
    simpa using hx.2
termination_by l.length
decreasing_by exact Nat.lt_succ_of_le (List.length_filter_le _ _)

theorem eraseDups_of_nodup {l : List α} (h : l.Nodup) : l.eraseDups = l := by
  induction l with
  | nil => rfl
  | cons x l ih =>
    obtain ⟨hx, hl⟩ := List.nodup_cons.1 h
    have hkept : (l.filter fun y => !y == x) = l := by
      refine List.filter_eq_self.2 fun y hy => ?_
      have hne : y ≠ x := fun heq => hx (heq ▸ hy)
      simpa using hne
    rw [List.eraseDups_cons, hkept, ih hl]

theorem removeAll_congr {seen seen' : List α} (h : ∀ x, x ∈ seen ↔ x ∈ seen') (l : List α) :
    l.removeAll seen = l.removeAll seen' := by
  refine List.filter_congr fun x _ => ?_
  simp [h x]

theorem eraseDups_append_left (l l' : List α) :
    (l.eraseDups ++ l').eraseDups = (l ++ l').eraseDups := by
  rw [List.eraseDups_append, List.eraseDups_append, eraseDups_of_nodup (nodup_eraseDups l),
    removeAll_congr fun _ => List.mem_eraseDups]

theorem eraseDups_append_of_subset {l l' : List α} (h : l' ⊆ l) :
    (l ++ l').eraseDups = l.eraseDups := by
  have hnone : l'.removeAll l = [] := by
    refine List.filter_eq_nil_iff.2 fun x hx => ?_
    simpa using h hx
  rw [List.eraseDups_append, hnone]
  exact List.append_nil _

/-- Lists are the same behind another one, if they are the same without its items. -/
theorem eraseDups_append_congr {base l l' : List α}
    (h : (l.removeAll base).eraseDups = (l'.removeAll base).eraseDups) :
    (base ++ l).eraseDups = (base ++ l').eraseDups := by
  rw [List.eraseDups_append, List.eraseDups_append, h]

/-- The first items stay in front. -/
theorem eraseDups_front (l l' : List α) : l.eraseDups <+: (l.eraseDups ++ l').eraseDups := by
  rw [eraseDups_append_left, List.eraseDups_append]
  exact List.prefix_append _ _

theorem keepFirst_eq {seen : List α} (hseen : seen.Nodup) (l : List α) :
    keepFirst seen l = (seen ++ l).eraseDups := by
  induction l generalizing seen with
  | nil => rw [List.append_nil, eraseDups_of_nodup hseen, keepFirst]
  | cons x l ih =>
    rw [keepFirst]
    split
    · rename_i hx
      have hsub : [x] ⊆ seen := by simpa using hx
      rw [ih hseen, ← List.singleton_append, ← List.append_assoc, ← eraseDups_append_left,
        ← eraseDups_append_left (seen ++ [x]), eraseDups_append_of_subset hsub]
    · rename_i hx
      have hnodup : (seen ++ [x]).Nodup := by
        rw [List.nodup_append]
        refine ⟨hseen, List.pairwise_singleton _ x, ?_⟩
        rintro y hy _ hmem rfl
        rw [List.mem_singleton.1 hmem] at hy
        simp [hy] at hx
      rw [ih hnodup, List.append_assoc, List.singleton_append]

theorem concatUnique_eq (parent child : List α) :
    concatUnique parent child = (parent ++ child).eraseDups :=
  keepFirst_eq List.nodup_nil _

/-- Layers that are put behind a list one after the other are put behind it at once. -/
theorem foldl_eraseDups {β : Type} (f : β → List α) (l : List α) (layers : List β) (last : β) :
    (layers ++ [last]).foldl (fun ids layer => (ids ++ f layer).eraseDups) l =
      (l ++ (layers ++ [last]).flatMap f).eraseDups := by
  have hall : (layers.foldl (fun ids layer => (ids ++ f layer).eraseDups) l).eraseDups =
      (l ++ layers.flatMap f).eraseDups := by
    induction layers generalizing l with
    | nil => rw [List.foldl_nil, List.flatMap_nil, List.append_nil]
    | cons layer layers ih =>
      rw [List.foldl_cons, ih, eraseDups_append_left, List.flatMap_cons, List.append_assoc]
  rw [List.foldl_append, List.foldl_cons, List.foldl_nil, ← eraseDups_append_left, hall,
    eraseDups_append_left, List.flatMap_append, List.flatMap_singleton, List.append_assoc]

end

/-! ## Hook tables -/

theorem LifecycleHook.mem_all (hook : LifecycleHook) : hook ∈ all := by
  cases hook <;> decide

theorem LifecycleHook.nodup_all : all.Nodup := by
  decide

theorem hooksOf_cons (e : LifecycleHook × List CallbackId) (table : HookTable)
    (hook : LifecycleHook) :
    HookTable.hooksOf (e :: table) hook =
      if e.1 = hook then e.2 else HookTable.hooksOf table hook := by
  unfold HookTable.hooksOf
  rw [List.find?_cons]
  by_cases heq : e.1 = hook
  · simp [heq]
  · simp only [beq_eq_false_iff_ne.2 heq, if_neg heq]

/-- A table that is made moment by moment has the hooks of each moment that it is made of. -/
theorem hooksOf_filterMap {f : LifecycleHook → Option (LifecycleHook × List CallbackId)}
    (hf : ∀ moment e, f moment = some e → e.1 = moment) (moments : List LifecycleHook)
    (hook : LifecycleHook) :
    HookTable.hooksOf (moments.filterMap f) hook =
      if hook ∈ moments then ((f hook).map (·.2)).getD [] else [] := by
  induction moments with
  | nil => rfl
  | cons moment moments ih =>
    rw [List.filterMap_cons]
    by_cases heq : hook = moment
    · subst heq
      cases hentry : f hook with
      | none => simp [ih, hentry]
      | some e => simp [hooksOf_cons, hf hook e hentry]
    · cases hentry : f moment with
      | none => simp [ih, heq]
      | some e => simp [hooksOf_cons, hf moment e hentry, Ne.symm heq, ih, heq]

theorem hooksOf_mergeHooks (parent child : HookTable) (hook : LifecycleHook) :
    (mergeHooks parent child).hooksOf hook =
      (parent.hooksOf hook ++ child.hooksOf hook).eraseDups := by
  unfold mergeHooks
  rw [hooksOf_filterMap, if_pos (LifecycleHook.mem_all hook)]
  · split
    · rename_i hparent hchild
      rw [hparent, hchild]
      rfl
    · exact concatUnique_eq _ _
  · intro moment e he
    split at he
    · cases he
    · exact congrArg Prod.fst (Option.some.inj he).symm

theorem hooksOf_set (table : HookTable) (moment hook : LifecycleHook) (ids : List CallbackId) :
    (table.set moment ids).hooksOf hook = if moment = hook then ids else table.hooksOf hook := by
  unfold HookTable.set
  induction table with
  | nil => rw [List.filter_nil, List.nil_append, hooksOf_cons]
  | cons e table ih =>
    rw [List.filter_cons]
    split
    · rename_i hkept
      rw [List.cons_append, hooksOf_cons, hooksOf_cons, ih]
      have hne : e.1 ≠ moment := by simpa using hkept
      by_cases heq : e.1 = hook
      · have hother : moment ≠ hook := fun h => hne (heq.trans h.symm)
        simp [heq, hother]
      · simp [heq]
    · rename_i hdropped
      have hsame : e.1 = moment := by simpa using hdropped
      rw [ih, hooksOf_cons, hsame]
      split <;> rfl

/-- The hooks of one moment that are carried over to the next merge. -/
def carriedHooks (latest sealedItems extended : List CallbackId) : List CallbackId :=
  if latest = sealedItems then extended else ownItems latest extended sealedItems

theorem hooksOf_carryHooks (latest sealedHooks extended : HookTable)
    (moment hook : LifecycleHook) :
    (carryHooks latest sealedHooks extended moment).hooksOf hook =
      if moment = hook then
        carriedHooks (latest.hooksOf hook) (sealedHooks.hooksOf hook) (extended.hooksOf hook)
      else extended.hooksOf hook := by
  have hrun : carryHooks latest sealedHooks extended moment =
      if latest.hooksOf moment = sealedHooks.hooksOf moment then extended
      else extended.set moment (ownItems (latest.hooksOf moment) (extended.hooksOf moment)
        (sealedHooks.hooksOf moment)) := by
    unfold carryHooks
    by_cases heq : latest.hooksOf moment = sealedHooks.hooksOf moment
    · simp [heq]
    · simp [heq]
  rw [hrun]
  by_cases heq : moment = hook
  · subst heq
    rw [if_pos rfl]
    unfold carriedHooks
    split
    · rfl
    · rw [hooksOf_set, if_pos rfl]
  · rw [if_neg heq]
    split
    · rfl
    · rw [hooksOf_set, if_neg heq]

theorem hooksOf_carryEdits (latest sealedOptions extended : ComponentOptions)
    (hook : LifecycleHook) :
    (carryEdits latest sealedOptions extended).hooks.hooksOf hook =
      carriedHooks (latest.hooks.hooksOf hook) (sealedOptions.hooks.hooksOf hook)
        (extended.hooks.hooksOf hook) := by
  -- Every moment is gone through once, so the hooks of a moment are carried over once.
  have hall (moments : List LifecycleHook) (hnodup : moments.Nodup) (table : HookTable) :
      (moments.foldl (carryHooks latest.hooks sealedOptions.hooks) table).hooksOf hook =
        if hook ∈ moments then
          carriedHooks (latest.hooks.hooksOf hook) (sealedOptions.hooks.hooksOf hook)
            (table.hooksOf hook)
        else table.hooksOf hook := by
    induction moments generalizing table with
    | nil => rfl
    | cons moment moments ih =>
      obtain ⟨hmoment, hnodup⟩ := List.nodup_cons.1 hnodup
      rw [List.foldl_cons, ih hnodup, hooksOf_carryHooks]
      by_cases heq : moment = hook
      · subst heq
        simp [hmoment]
      · simp [heq, Ne.symm heq]
  have hrun := hall LifecycleHook.all LifecycleHook.nodup_all extended.hooks
  rw [if_pos (LifecycleHook.mem_all hook)] at hrun
  exact hrun

/-! ## Merging -/

namespace ComponentOptions

/-- The hooks of a moment that a layer and its further layers list. -/
def allHooks (o : ComponentOptions) (hook : LifecycleHook) : List CallbackId :=
  o.layers.flatMap fun layer => layer.hooks.hooksOf hook

/-- The hooks that the further layers list. -/
def nestedHooks (o : ComponentOptions) (hook : LifecycleHook) : List CallbackId :=
  o.nestedLayers.flatMap fun layer => layer.hooks.hooksOf hook

end ComponentOptions

theorem allHooks_eq (o : ComponentOptions) (hook : LifecycleHook) :
    o.allHooks hook = o.nestedHooks hook ++ o.hooks.hooksOf hook := by
  rw [ComponentOptions.allHooks, layers_eq, List.flatMap_append, List.flatMap_singleton]
  rfl

theorem laysPart_hooks (hook : LifecycleHook) :
    LaysPart (fun o => o.hooks.hooksOf hook)
      fun ids layer => (ids ++ layer.hooks.hooksOf hook).eraseDups :=
  fun parent child _ _ => hooksOf_mergeHooks parent.hooks child.hooks hook

/-- Merged options list what the parent lists and then what the child's layers list, each hook
once. -/
theorem mergeOptions_hooks (parent child : ComponentOptions) (forInstance : Bool) (w : World)
    (hook : LifecycleHook) :
    ((Run.mergeOptions parent child forInstance).run w).1.hooks.hooksOf hook =
      (parent.hooks.hooksOf hook ++ child.allHooks hook).eraseDups := by
  rw [ComponentOptions.allHooks, layers_eq, ← foldl_eraseDups, ← layers_eq]
  exact mergeOptions_fold (laysPart_hooks hook) parent child forInstance w

theorem hooks_withSelf (o : ComponentOptions) (name : Option String) (cid : Cid) :
    (o.withSelf name cid).hooks = o.hooks := by
  cases name <;> rfl

theorem allHooks_carryEdits (latest sealedOptions extended : ComponentOptions)
    (hook : LifecycleHook) :
    (carryEdits latest sealedOptions extended).allHooks hook =
      extended.nestedHooks hook ++
        carriedHooks (latest.hooks.hooksOf hook) (sealedOptions.hooks.hooksOf hook)
          (extended.hooks.hooksOf hook) := by
  rw [allHooks_eq, hooksOf_carryEdits]
  rfl

/-! ## Changes -/

namespace Edit

/-- The hooks that the change to some options brings. -/
def hooks (o : ComponentOptions) (hook : LifecycleHook) : Edit → List CallbackId
  | mixin layer => layer.allHooks hook
  | modify f => ((f o).hooks.hooksOf hook).drop (o.hooks.hooksOf hook).length
  | _ => []

/-- The change to some options only appends fresh hooks: what is listed stays in front, and nothing
is there twice. -/
def AppendsHooks (o : ComponentOptions) : Edit → Prop
  | modify f => ∀ hook, o.hooks.hooksOf hook <+: (f o).hooks.hooksOf hook ∧
      ((f o).hooks.hooksOf hook).Nodup
  | _ => True

instance (o : ComponentOptions) : (e : Edit) → Decidable (e.AppendsHooks o)
  | modify f => decidable_of_iff (∀ hook ∈ LifecycleHook.all,
      o.hooks.hooksOf hook <+: (f o).hooks.hooksOf hook ∧ ((f o).hooks.hooksOf hook).Nodup)
      ⟨fun h hook => h hook hook.mem_all, fun h hook _ => h hook⟩
  | mixin _ => .isTrue trivial
  | component _ _ => .isTrue trivial
  | directive _ _ => .isTrue trivial
  | filter _ _ => .isTrue trivial

/-- What is listed after a change is what was listed before, and then what the change brings. -/
theorem hooks_apply {o : ComponentOptions} {e : Edit} (h : e.AppendsHooks o) (w : World)
    {hook : LifecycleHook} (ho : (o.hooks.hooksOf hook).Nodup) :
    (e.apply o w).hooks.hooksOf hook =
      (o.hooks.hooksOf hook ++ e.hooks o hook).eraseDups := by
  have hkept : o.hooks.hooksOf hook = (o.hooks.hooksOf hook ++ []).eraseDups := by
    rw [List.append_nil, eraseDups_of_nodup ho]
  cases e with
  | mixin layer => exact mergeOptions_hooks o layer false w hook
  | modify f =>
    obtain ⟨hfront, hnodup⟩ := h hook
    show (f o).hooks.hooksOf hook = _
    rw [hooks, List.prefix_iff_eq_append.1 hfront, eraseDups_of_nodup hnodup]
  | component name target => exact hkept
  | directive name hooks => exact hkept
  | filter name id => exact hkept

end Edit

end ViewTree
