import ViewTree.Proofs.Instance.Teardown
/-!
# Destroying performs the steps

Destroying an instance performs the steps that tear down its subtree. Every instance of it is then
torn down, the others are linked as before, but for the parent, which does not list the instance any
more, and what the steps do not concern is left alone.
-/

namespace ViewTree

open TeardownStep

/-- A condition is not about some instances, and the code of the application preserves it. -/
structure Outside (app : Application) (us : List Uid) (J : World → Prop) : Prop where
  preserved : app.Preserves J
  onInstances : World.OnInstances J
  permits : ∀ u ∈ us, World.Permits J u fun _ _ => True

section

variable {app : Application} {L : Links} {H : Uid → Prop} {w : World} {vm : Uid} {l : Link}

theorem World.LinkedAs.link_eq (h : w.LinkedAs L H) (hl : L vm = some l) :
    ((w.instance? vm).getD default).link = l := by
  obtain ⟨i, hi, hlink⟩ := Option.map_eq_some_iff.1 (h.linked vm l hl)
  rw [hi]
  exact hlink

theorem World.parent?_eq (h : w.LinkedAs L H) (hl : L vm = some l) :
    w.parent? vm = l.parent.filter w.alive := by
  obtain ⟨i, hi, rfl⟩ := Option.map_eq_some_iff.1 (h.linked vm l hl)
  rw [World.parent?, hi]
  rfl

/-- What has a name is alive. -/
theorem World.Names.alive (h : w.Names vm) : w.alive vm := by
  rw [World.alive, World.held, List.contains_iff_mem.2 h, Bool.or_true, Bool.true_or]

/-! ## Leaving the parent -/

/-- A parent that is being torn down itself has no list any more. -/
theorem unlink_below (h : w.LinkedAs L H) (hl : L vm = some l)
    (hparent : ∀ p, l.parent = some p → ∃ lp, L p = some lp ∧ lp.beingDestroyed = true) :
    (Application.unlink vm).run w = ((), w) := by
  rw [Application.unlink, run_get_bind]
  cases hp : w.parent? vm with
  | none => rfl
  | some p =>
    rw [World.parent?_eq h hl, Option.filter_eq_some_iff] at hp
    obtain ⟨lp, hlp, hbegun⟩ := hparent p hp.1
    have hbegun' : ((w.instance? p).getD default).beingDestroyed = true :=
      (congrArg Link.beingDestroyed (h.link_eq hlp)).trans hbegun
    dsimp only
    rw [run_inst_bind, hbegun']
    rfl

/-- Takes an instance off the list of its parent. -/
def unlistFrom (vm : Uid) : Option Uid → Run Unit
  | none => pure ()
  | some p => Run.update p fun i => { i with children := i.children.filter (· != vm) }

/-- A parent that is open does not list the instance any more. -/
theorem unlink_above (h : w.LinkedAs L H) (hl : L vm = some l)
    (hparent : ∀ p, l.parent = some p →
      H p ∧ ∃ lp, L p = some lp ∧ lp.beingDestroyed = false) :
    (Application.unlink vm).run w = (unlistFrom vm l.parent).run w := by
  rw [Application.unlink, run_get_bind]
  cases hp : l.parent with
  | none =>
    have hnone : w.parent? vm = none := by
      rw [World.parent?_eq h hl, hp]
      rfl
    rw [hnone]
    rfl
  | some p =>
    obtain ⟨hnamed, lp, hlp, hopen⟩ := hparent p hp
    have hsome : w.parent? vm = some p := by
      rw [World.parent?_eq h hl, hp, Option.filter_some, (h.kept p hnamed).alive, if_pos rfl]
    have hopen' : ((w.instance? p).getD default).beingDestroyed = false :=
      (congrArg Link.beingDestroyed (h.link_eq hlp)).trans hopen
    rw [hsome]
    dsimp only
    rw [run_inst_bind, hopen']
    rfl

theorem linkedAs_unlistFrom (h : w.LinkedAs L H) (hl : L vm = some l)
    (hparent : ∀ p, l.parent = some p → ∃ lp, L p = some lp) :
    ((unlistFrom vm l.parent).run w).2.LinkedAs (L.unlist vm) H := by
  have hbind : (L vm).bind (·.parent) = l.parent := by
    rw [hl]
    rfl
  cases hp : l.parent with
  | none =>
    have hsame : L.unlist vm = L := by
      funext u
      rw [Links.unlist, hbind, hp, if_neg (Option.some_ne_none u).symm]
    rw [hsame]
    exact h
  | some p =>
    obtain ⟨lp, hlp⟩ := hparent p hp
    have hunlist : L.unlist vm = Function.update L p (some (Links.unlisting vm lp)) := by
      funext u
      rw [Links.unlist, hbind, hp]
      by_cases hu : u = p
      · subst hu
        rw [if_pos rfl, hlp, Function.update_self]
        rfl
      · rw [if_neg fun heq => hu (Option.some.inj heq).symm, Function.update_of_ne hu]
    rw [hunlist]
    exact h.update hlp fun i hi => by
      subst hi
      rfl

/-! ## Single steps -/

/-- The state when an instance has begun to be torn down and is about to leave its parent. -/
def World.marked (app : Application) (vm : Uid) (w : World) : World :=
  let hooked := ((app.callHook vm .beforeDestroy).run w).2
  ((Run.update vm fun i => { i with beingDestroyed := true }).run hooked).2

theorem linkedAs_marked (hcalm : app.Calm) (h : w.LinkedAs L H) (hl : L vm = some l) :
    (w.marked app vm).LinkedAs
      (Function.update L vm (some { l with beingDestroyed := true })) H := by
  have hhooked := preserves_lifecycleHook (hcalm L H) linkedAs_onInstances (linkedAs_permits vm)
    initializes_link.toFillsIn .beforeDestroy w h
  exact hhooked.update hl fun i hi => by
    subst hi
    rfl

theorem Outside.marked {J : World → Prop} {us : List Uid} (hJ : Outside app us J) (hvm : vm ∈ us)
    (h : J w) : J (w.marked app vm) := by
  have hhooked := preserves_callHook hJ.preserved hJ.onInstances (hJ.permits vm hvm)
    (fun _ => trivial) (fun _ _ _ _ _ => trivial) .beforeDestroy w h
  exact hJ.permits vm hvm _ _ (fun _ _ => trivial) hhooked

/-- The state when an instance that has left its parent has given up its children too. -/
def World.emptied (vm : Uid) (w : World) : World :=
  ((Run.update vm fun i => { i with children := [] }).run w).2

theorem begin_run (app : Application) (vm : Uid) (w : World) :
    let unlinked := ((Application.unlink vm).run (w.marked app vm)).2
    let children := ((unlinked.instance? vm).getD default).children
    (TeardownStep.begin app vm).run w =
      (children, { unlinked.emptied vm with pins := children ++ (unlinked.emptied vm).pins }) :=
  rfl

/-- The children that an instance gives up are those that it has when it has left its parent. -/
theorem begin_linked {L' : Links} {l' : Link} (hl' : L' vm = some l')
    (hunlinked : ((Application.unlink vm).run (w.marked app vm)).2.LinkedAs L' H) :
    ((TeardownStep.begin app vm).run w).1 = l'.children ∧
      ((TeardownStep.begin app vm).run w).2.LinkedAs
        (Function.update L' vm (some { l' with children := [] })) H := by
  let unlinked := ((Application.unlink vm).run (w.marked app vm)).2
  have hemptied : (unlinked.emptied vm).LinkedAs
      (Function.update L' vm (some { l' with children := [] })) H :=
    hunlinked.update hl' fun i hi => by
      subst hi
      rfl
  rw [begin_run]
  exact ⟨congrArg Link.children (hunlinked.link_eq hl'),
    linkedAs_onInstances (unlinked.emptied vm) _ rfl rfl hemptied⟩

/-- An instance whose parent has begun to be torn down begins too. -/
theorem begin_below (hcalm : app.Calm) (h : w.LinkedAs L H) (hl : L vm = some l)
    (hparent : ∀ p, l.parent = some p →
      p ≠ vm ∧ ∃ lp, L p = some lp ∧ lp.beingDestroyed = true) :
    let r := (TeardownStep.begin app vm).run w
    r.1 = l.children ∧ r.2.LinkedAs (Function.update L vm (some (Links.closing l))) H ∧
      ∀ us J, vm ∈ us → Outside app us J → J w → J r.2 := by
  have hmarked := linkedAs_marked hcalm h hl
  have hself : Function.update L vm (some { l with beingDestroyed := true }) vm =
      some { l with beingDestroyed := true } := Function.update_self ..
  have hunlink := unlink_below hmarked hself fun p hp => by
    obtain ⟨hne, lp, hlp, hbegun⟩ := hparent p hp
    exact ⟨lp, (Function.update_of_ne hne ..).trans hlp, hbegun⟩
  obtain ⟨hchildren, hlinked⟩ := begin_linked hself (by rw [hunlink]; exact hmarked)
  refine ⟨hchildren, ?_, fun us J hvm hJ hw => ?_⟩
  · rw [Function.update_idem] at hlinked
    exact hlinked
  · rw [begin_run, hunlink]
    have hemptied : J ((w.marked app vm).emptied vm) :=
      hJ.permits vm hvm _ _ (fun _ _ => trivial) (hJ.marked hvm hw)
    exact hJ.onInstances ((w.marked app vm).emptied vm) _ rfl rfl hemptied

/-- An instance whose children are torn down ends. -/
theorem ends_linked (hcalm : app.Calm) (h : w.LinkedAs L H) (hl : L vm = some l) :
    let w' := (((ends vm).perform app).run w).2
    w'.LinkedAs (Function.update L vm (some { l with destroyed := true })) H ∧
      ∀ us J, vm ∈ us → Outside app us J → J w → J w' := by
  let L' := Function.update L vm (some { l with destroyed := true })
  let cleared := ((Run.update vm fun i =>
    { i with watchers := [], vnode := none, destroyed := true }).run w).2
  have hcleared : cleared.LinkedAs L' H := h.update hl fun i hi => by
    subst hi
    rfl
  refine ⟨?_, fun us J hvm hJ hw => ?_⟩
  · have hhooked := preserves_lifecycleHook (hcalm L' H) linkedAs_onInstances
      (linkedAs_permits vm) initializes_link.toFillsIn .destroyed cleared hcleared
    exact linkedAs_permits vm _ (fun i => { i with events := [] }) (fun _ _ => rfl) hhooked
  · have hcleared : J cleared := hJ.permits vm hvm w _ (fun _ _ => trivial) hw
    have hhooked := preserves_callHook hJ.preserved hJ.onInstances (hJ.permits vm hvm)
      (fun _ => trivial) (fun _ _ _ _ _ => trivial) .destroyed cleared hcleared
    exact hJ.permits vm hvm _ (fun i => { i with events := [] }) (fun _ _ => trivial) hhooked

/-! ## The recursion -/

/-- An instance that is not being torn down begins, its children are torn down, and it ends. -/
theorem destroyWithin_run (app : Application) (depth : Nat) {vm : Uid} {w : World}
    (hopen : ((w.instance? vm).getD default).beingDestroyed = false) :
    let begun := (TeardownStep.begin app vm).run w
    (app.destroyWithin (depth + 1) vm).run w =
      ((ends vm).perform app).run
        ((Application.forEachPinned.go (app.destroyWithin depth) begun.1).run begun.2).2 := by
  unfold Application.destroyWithin
  generalize app.destroyWithin depth = act
  rw [run_inst_bind, hopen]
  rfl

/-- An instance whose turn is over is released. -/
theorem forEachPinned_go_cons (app : Application) (act : Uid → Run Unit) (vm : Uid)
    (rest : List Uid) (w : World) :
    (Application.forEachPinned.go act (vm :: rest)).run w =
      (Application.forEachPinned.go act rest).run
        (((releases vm).perform app).run ((act vm).run w).2).2 :=
  rfl

/-- Releasing an instance is nothing to the instances. -/
theorem World.OnInstances.releases {J : World → Prop} (hJ : World.OnInstances J) (h : J w) :
    J (((TeardownStep.releases vm).perform app).run w).2 :=
  hJ w _ rfl rfl h

/-- An instance that is being torn down is left alone. -/
theorem destroyWithin_again (app : Application) (depth : Nat) {vm : Uid} {w : World}
    (hbegun : ((w.instance? vm).getD default).beingDestroyed = true) :
    (app.destroyWithin (depth + 1) vm).run w = ((), w) := by
  rw [Application.destroyWithin, run_inst_bind, hbegun]
  rfl

/-- What steps come to: the links of the instances that they tear down are closed, and what they do
not concern is left alone. -/
structure ClosesAll (app : Application) (L : Links) (H : Uid → Prop)
    (steps : List TeardownStep) (w : World) : Prop where
  linked : ((performAll app steps).run w).2.LinkedAs (L.close (begun steps)) H
  outside : ∀ us J, (∀ u ∈ begun steps, u ∈ us) → Outside app us J → J w →
    J ((performAll app steps).run w).2

/-- Destroying several instances one after the other, when their parents have begun to be torn down,
performs the steps that tear them down. -/
theorem destroyAll_eq (hcalm : app.Calm) {children : Uid → List Uid} {n : Nat} {us : List Uid}
    {steps : List TeardownStep} (ht : Teardown children us steps) :
    ∀ {L : Links} {depth : Nat} {w : World}, w.LinkedAs L H → L.Ready children n us steps →
      (∀ u ∈ us, n - u < depth) →
      (Application.forEachPinned.go (app.destroyWithin depth) us).run w =
          (performAll app steps).run w ∧ ClosesAll app L H steps w := by
  induction ht with
  | nil =>
    intro L depth w h _ _
    refine ⟨rfl, ?_, fun _ _ _ _ hw => hw⟩
    have hsame : L.close (begun []) = L := by
      funext u
      exact Links.close_of_not_mem List.not_mem_nil
    rw [hsame]
    exact h
  | @cons vm rest below after hbelow hafter ihbelow ihafter =>
    intro L depth w h hready hdepth
    obtain ⟨depth, rfl⟩ : ∃ d, depth = d + 1 :=
      Nat.exists_eq_succ_of_ne_zero
        (Nat.ne_of_gt (Nat.zero_lt_of_lt (hdepth vm List.mem_cons_self)))
    have hvm : vm ∈ begun (begins vm :: below ++ ends vm :: releases vm :: after) := by
      rw [Links.begun_cons]
      exact List.mem_append_left _ List.mem_cons_self
    obtain ⟨l, hl, hopen, hchildren⟩ := hready.still_open vm hvm
    -- The states between the steps.
    let w₁ := ((TeardownStep.begin app vm).run w).2
    let w₂ := ((performAll app below).run w₁).2
    let w₃ := (((ends vm).perform app).run w₂).2
    let w₄ := (((releases vm).perform app).run w₃).2
    obtain ⟨hgiven, hlinked₁, houtside₁⟩ := begin_below hcalm h hl (hready.first_parent hl hopen)
    have hdepth' (c : Uid) (hc : c ∈ children vm) : n - c < depth := by
      obtain ⟨hlt, hltn, -⟩ := hready.child vm hvm c hc
      have hless : n - c < n - vm := Nat.sub_lt_sub_left (Nat.lt_trans hlt hltn) hlt
      exact Nat.lt_of_lt_of_le hless (Nat.le_of_lt_succ (hdepth vm List.mem_cons_self))
    obtain ⟨hrun₂, hcloses₂⟩ := ihbelow hlinked₁ (hready.goesDown hl) hdepth'
    have hvm_below : vm ∉ begun below := by
      have hnodup := hready.nodup
      rw [Links.begun_cons, List.cons_append, List.nodup_cons, List.mem_append, not_or] at hnodup
      exact hnodup.1.1
    have hl₂ : Links.close (Function.update L vm (some (Links.closing l))) (begun below) vm =
        some (Links.closing l) := by
      rw [Links.close_of_not_mem hvm_below, Function.update_self]
    obtain ⟨hlinked₃, houtside₃⟩ := ends_linked hcalm hcloses₂.linked hl₂
    rw [Links.closing_close hl] at hlinked₃
    have hlinked₄ : w₄.LinkedAs (L.close (vm :: begun below)) H :=
      linkedAs_onInstances.releases hlinked₃
    obtain ⟨hrun₅, hcloses₅⟩ := ihafter hlinked₄ hready.goesOn
      fun u hu => hdepth u (List.mem_cons_of_mem vm hu)
    have hperform : (performAll app (begins vm :: below ++ ends vm :: releases vm :: after)).run w =
        (performAll app after).run w₄ :=
      performAll_append app below (ends vm :: releases vm :: after) w₁
    have hopen' : ((w.instance? vm).getD default).beingDestroyed = false :=
      (congrArg Link.beingDestroyed (h.link_eq hl)).trans hopen
    have hself : (app.destroyWithin (depth + 1) vm).run w = ((ends vm).perform app).run w₂ := by
      rw [destroyWithin_run app depth hopen', hgiven, hchildren, hrun₂]
    have hgo : (Application.forEachPinned.go (app.destroyWithin (depth + 1)) (vm :: rest)).run w =
        (Application.forEachPinned.go (app.destroyWithin (depth + 1)) rest).run w₄ := by
      rw [forEachPinned_go_cons app, hself]
    refine ⟨?_, ?_, fun us J hus hJ hw => ?_⟩
    · rw [hgo, hrun₅, hperform]
    · rw [hperform, Links.begun_cons]
      have hlinked₅ := hcloses₅.linked
      rw [Links.close_close] at hlinked₅
      exact hlinked₅
    · rw [hperform]
      rw [Links.begun_cons] at hus
      have hvm_us := hus vm (List.mem_append_left _ List.mem_cons_self)
      have hw₂ : J w₂ := hcloses₂.outside us J
        (fun u hu => hus u (List.mem_append_left _ (List.mem_cons_of_mem vm hu))) hJ
        (houtside₁ us J hvm_us hJ hw)
      have hw₄ : J w₄ := hJ.onInstances.releases (houtside₃ us J hvm_us hJ hw₂)
      exact hcloses₅.outside us J (fun u hu => hus u (List.mem_append_right _ hu)) hJ hw₄

/-! ## A whole subtree -/

/-- The steps that tear an instance down, with those that tear its children down between. -/
def teardownOf (vm : Uid) (below : List TeardownStep) : List TeardownStep :=
  begins vm :: below ++ [ends vm]

/-- The instance does not list a child any more. -/
def Instance.unlisting (vm : Uid) (i : Instance) : Instance :=
  { i with children := i.children.filter (· != vm) }

/-- Nothing that the application runs changes the instance. -/
def Application.LeavesAlone (app : Application) (u : Uid) : Prop :=
  ∀ x : Option Instance, app.Preserves fun w => w.instance? u = x

section

variable {n : Nat} {below : List TeardownStep}

/-- Under an instance there are only younger ones. -/
theorem Links.Forest.lt_of_begun (h : L.Forest H)
    (ht : Teardown L.childrenOf (L.childrenOf vm) below) {u : Uid} (hu : u ∈ begun below) :
    vm < u := by
  obtain ⟨c, hc, hcu⟩ := (Links.mem_begun ht).1 hu
  obtain ⟨l, hl, hcl⟩ := Links.mem_childrenOf.1 hc
  exact Nat.lt_of_lt_of_le (h.lt_of_mem hl hcl) (h.le_of_under hcu)

/-- When the root of a subtree has begun to be torn down, its children can be. -/
theorem Links.Forest.ready (h : L.Forest H) (hn : ∀ u l, L u = some l → u < n)
    (ht : Teardown L.childrenOf (L.childrenOf vm) below) {L' : Links} {l' : Link}
    (hvm : L' vm = some l') (hbegun : l'.beingDestroyed = true)
    (hsame : ∀ c ∈ begun below, L' c = L c) :
    L'.Ready L.childrenOf n (L.childrenOf vm) below := by
  have hmem {u c : Uid} (hu : u ∈ begun below) (hc : c ∈ L.childrenOf u) : c ∈ begun below := by
    obtain ⟨d, hd, hdu⟩ := (Links.mem_begun ht).1 hu
    obtain ⟨lu, hlu, hcl⟩ := Links.mem_childrenOf.1 hc
    exact (Links.mem_begun ht).2 ⟨d, hd, .child hdu hlu hcl⟩
  have hparent {u c : Uid} (hc : c ∈ L.childrenOf u) (hcb : c ∈ begun below) :
      u < c ∧ c < n ∧ (L' c).bind (·.parent) = some u := by
    obtain ⟨lu, hlu, hcl⟩ := Links.mem_childrenOf.1 hc
    obtain ⟨lc, hlc, hparent, -⟩ := h.parent_of_mem hlu hcl
    refine ⟨h.lt_of_mem hlu hcl, hn c lc hlc, ?_⟩
    rw [hsame c hcb, hlc]
    exact hparent
  refine ⟨h.begun_nodup ht (fun _ hu => hu) (h.childrenOf_nodup vm), fun u hu => ?_,
    fun u hu c hc => hparent hc (hmem hu hc), fun u hu => ?_⟩
  · obtain ⟨c, hc, hcu⟩ := (Links.mem_begun ht).1 hu
    obtain ⟨l, hl, hcl⟩ := Links.mem_childrenOf.1 hc
    obtain ⟨lc, hlc, -, hopenc⟩ := h.parent_of_mem hl hcl
    obtain ⟨lu, hlu, hopenu⟩ := h.open_of_under hlc hopenc hcu
    refine ⟨lu, (hsame u hu).trans hlu, (h.settled u lu hlu).trans hopenu, ?_⟩
    rw [Links.childrenOf, hlu]
    rfl
  · have hub : u ∈ begun below := (Links.mem_begun ht).2 ⟨u, hu, .self⟩
    exact ⟨vm, l', (hparent hu hub).2.2, hvm, hbegun⟩

end

/-- Nobody but the parent lists an instance. -/
theorem map_unlisting_of_ne (h : w.LinkedAs L H) (hforest : L.Forest H) (hl : L vm = some l)
    {u : Uid} (hne : l.parent ≠ some u) :
    (w.instance? u).map (Instance.unlisting vm) = w.instance? u := by
  cases hi : w.instance? u with
  | none => rfl
  | some i =>
    have hlink : w.links u = some i.link := congrArg (Option.map Instance.link) hi
    have hnot : vm ∉ i.children := by
      intro hmem
      cases hu : L u with
      | none =>
        have hchildren : i.children = [] := congrArg Link.children (h.detached u i.link hu hlink)
        rw [hchildren] at hmem
        cases hmem
      | some lu =>
        rw [h.linked u lu hu] at hlink
        cases hlink
        obtain ⟨lc, hlc, hparent, -⟩ := hforest.parent_of_mem hu hmem
        rw [hl] at hlc
        cases hlc
        exact hne hparent
    have hsame : i.children.filter (· != vm) = i.children :=
      List.filter_eq_self.2 fun c hc => bne_iff_ne.2 fun heq => hnot (heq ▸ hc)
    rw [Option.map_some, Instance.unlisting, hsame]

/-- Another instance is left alone by an instance that begins, but for the list of the parent. -/
theorem begin_untouched (h : w.LinkedAs L H) (hforest : L.Forest H) (hl : L vm = some l) {u : Uid}
    (hne : u ≠ vm) (hleaves : app.LeavesAlone u) :
    (World.emptied vm ((unlistFrom vm l.parent).run (w.marked app vm)).2).instance? u =
      (w.instance? u).map (Instance.unlisting vm) := by
  have hJ : Outside app [vm] fun w' => w'.instance? u = w.instance? u := by
    refine ⟨hleaves _, fun w₁ w₂ hinstances _ hw => ?_, fun v hv w' f _ hw => ?_⟩
    · rw [World.instance?, hinstances]
      exact hw
    · rw [List.mem_singleton.1 hv, instance?_update_of_ne (Ne.symm hne)]
      exact hw
  have hmarked_u : (w.marked app vm).instance? u = w.instance? u :=
    hJ.marked List.mem_cons_self rfl
  rw [World.emptied, instance?_update_of_ne (Ne.symm hne)]
  cases hp : l.parent with
  | none =>
    rw [map_unlisting_of_ne h hforest hl (hp ▸ (Option.some_ne_none u).symm)]
    exact hmarked_u
  | some p =>
    by_cases hpu : p = u
    · subst hpu
      show ((Run.update p _).run _).2.instance? p = _
      rw [instance?_update_self, hmarked_u]
      rfl
    · show ((Run.update p _).run _).2.instance? u = _
      rw [instance?_update_of_ne hpu, hmarked_u,
        map_unlisting_of_ne h hforest hl fun heq => hpu (Option.some.inj (hp.symm.trans heq))]

/-- An instance that is not torn down is taken off the list of its parent when it begins. -/
theorem begin_above (hcalm : app.Calm) (h : w.LinkedAs L H) (hforest : L.Forest H)
    (hl : L vm = some l) (hopen : l.destroyed = false) :
    let r := (TeardownStep.begin app vm).run w
    r.1 = l.children ∧
      r.2.LinkedAs (Function.update (L.unlist vm) vm (some (Links.closing l))) H ∧
      ∀ u, u ≠ vm → app.LeavesAlone u →
        r.2.instance? u = (w.instance? u).map (Instance.unlisting vm) := by
  let l' := { l with beingDestroyed := true }
  let L' : Links := Function.update L vm (some l')
  have hparent_ne (p : Uid) (hp : l.parent = some p) : p ≠ vm :=
    Nat.ne_of_lt (hforest.parent_lt vm l p hl hp)
  have hparent (p : Uid) (hp : l.parent = some p) :
      H p ∧ ∃ lp, L' p = some lp ∧ lp.beingDestroyed = false := by
    obtain ⟨lp, hlp⟩ := hforest.parent_linked vm l p hl hp
    refine ⟨hforest.parent_named vm l p hl hp, lp, ?_, ?_⟩
    · exact (Function.update_of_ne (hparent_ne p hp) ..).trans hlp
    · exact (hforest.settled p lp hlp).trans (hforest.open_above vm l p lp hl hp hlp hopen)
  have hmarked : (w.marked app vm).LinkedAs L' H := linkedAs_marked hcalm h hl
  have hl' : L' vm = some l' := Function.update_self ..
  have hunlink : (Application.unlink vm).run (w.marked app vm) =
      (unlistFrom vm l.parent).run (w.marked app vm) := unlink_above (l := l') hmarked hl' hparent
  have hunlinked : ((Application.unlink vm).run (w.marked app vm)).2.LinkedAs (L'.unlist vm) H := by
    rw [hunlink]
    exact linkedAs_unlistFrom (l := l') hmarked hl' fun p hp => by
      obtain ⟨-, lp, hlp, -⟩ := hparent p hp
      exact ⟨lp, hlp⟩
  have hself : L'.unlist vm vm = some l' := by
    have hne : (L' vm).bind (·.parent) ≠ some vm := by
      rw [hl']
      exact fun hp => hparent_ne vm hp rfl
    rw [Links.unlist, if_neg hne, hl']
  obtain ⟨hchildren, hlinked⟩ := begin_linked hself hunlinked
  refine ⟨hchildren, ?_, fun u hne hleaves => ?_⟩
  · have hsame : Function.update (L'.unlist vm) vm (some { l' with children := [] }) =
        Function.update (L.unlist vm) vm (some (Links.closing l)) := by
      funext u
      by_cases hu : u = vm
      · subst hu
        rw [Function.update_self, Function.update_self]
        rfl
      · have hu' : L' u = L u := Function.update_of_ne hu ..
        rw [Function.update_of_ne hu, Function.update_of_ne hu, Links.unlist, Links.unlist, hu',
          hl', hl]
        rfl
    rw [← hsame]
    exact hlinked
  · rw [begin_run, hunlink]
    exact begin_untouched h hforest hl hne hleaves

/-- Destroying an instance performs the steps that tear its subtree down. All of it is closed then,
and nothing else is changed but by what the application runs, besides that the parent does not list
the instance any more. -/
theorem destroy_eq (hcalm : app.Calm) (h : w.LinkedAs L H) (hforest : L.Forest H)
    (hn : ∀ u l, L u = some l → u < w.instances.length) (hl : L vm = some l)
    (hopen : l.destroyed = false) :
    ∃ below, Teardown L.childrenOf (L.childrenOf vm) below ∧
      (app.destroy vm).run w = (performAll app (teardownOf vm below)).run w ∧
      ((app.destroy vm).run w).2.LinkedAs ((L.unlist vm).close (vm :: begun below)) H ∧
      ∀ u, u ∉ vm :: begun below → app.LeavesAlone u →
        ((app.destroy vm).run w).2.instance? u = (w.instance? u).map (Instance.unlisting vm) := by
  obtain ⟨below, ht⟩ := hforest.exists_teardown hn (L.childrenOf vm)
  obtain ⟨hchildren, hlinked₁, houtside₁⟩ := begin_above hcalm h hforest hl hopen
  let w₁ := ((TeardownStep.begin app vm).run w).2
  let w₂ := ((performAll app below).run w₁).2
  let L₁ : Links := Function.update (L.unlist vm) vm (some (Links.closing l))
  have hl₁ : L₁ vm = some (Links.closing l) := Function.update_self ..
  have hunlist {u : Uid} (hu : vm ≤ u) : L.unlist vm u = L u := by
    refine if_neg fun hp => ?_
    rw [hl] at hp
    exact absurd (hforest.parent_lt vm l u hl hp) (Nat.not_lt_of_le hu)
  have hsame (c : Uid) (hc : c ∈ begun below) : L₁ c = L c := by
    have hlt := hforest.lt_of_begun ht hc
    exact (Function.update_of_ne (Nat.ne_of_gt hlt) ..).trans (hunlist (Nat.le_of_lt hlt))
  have hready := hforest.ready hn ht hl₁ rfl hsame
  have hdepth (u : Uid) (hu : u ∈ L.childrenOf vm) :
      w.instances.length - u < w.instances.length := by
    obtain ⟨lu, hlu, hul⟩ := Links.mem_childrenOf.1 hu
    have hlt := hforest.lt_of_mem hlu hul
    obtain ⟨lc, hlc, -⟩ := hforest.parent_of_mem hlu hul
    exact Nat.sub_lt (Nat.zero_lt_of_lt (hn u lc hlc)) (Nat.zero_lt_of_lt hlt)
  obtain ⟨hrun₂, hcloses₂⟩ := destroyAll_eq hcalm ht hlinked₁ hready hdepth
  have hvm_below : vm ∉ begun below := fun hvm => Nat.lt_irrefl vm (hforest.lt_of_begun ht hvm)
  have hl₂ : L₁.close (begun below) vm = some (Links.closing l) := by
    rw [Links.close_of_not_mem hvm_below, hl₁]
  obtain ⟨hlinked₃, houtside₃⟩ := ends_linked hcalm hcloses₂.linked hl₂
  rw [Links.closing_close ((hunlist (Nat.le_refl vm)).trans hl)] at hlinked₃
  have hperform : (performAll app (teardownOf vm below)).run w = ((ends vm).perform app).run w₂ :=
    performAll_append app below [ends vm] w₁
  have hdestroy : (app.destroy vm).run w = ((ends vm).perform app).run w₂ := by
    have hopen' : ((w.instance? vm).getD default).beingDestroyed = false :=
      (congrArg Link.beingDestroyed (h.link_eq hl)).trans ((hforest.settled vm l hl).trans hopen)
    have hgiven : L.childrenOf vm = l.children := by
      rw [Links.childrenOf, hl]
      rfl
    show (app.destroyWithin (w.instances.length + 1) vm).run w = _
    rw [destroyWithin_run app w.instances.length hopen', hchildren, ← hgiven, hrun₂]
  refine ⟨below, ht, hdestroy.trans hperform.symm, ?_, fun u hu hleaves => ?_⟩
  · rw [hdestroy]
    exact hlinked₃
  · rw [hdestroy]
    have hJ : Outside app (vm :: begun below) fun w' =>
        w'.instance? u = (w.instance? u).map (Instance.unlisting vm) := by
      refine ⟨hleaves _, fun w₁ w₂ hinstances _ hw => ?_, fun v hv w' f _ hw => ?_⟩
      · rw [World.instance?, hinstances]
        exact hw
      · have hne : v ≠ u := by
          rintro rfl
          exact hu hv
        rw [instance?_update_of_ne hne]
        exact hw
    have hw₁ := houtside₁ u (fun heq => hu (heq ▸ List.mem_cons_self)) hleaves
    have hw₂ := hcloses₂.outside _ _ (fun v hv => List.mem_cons_of_mem vm hv) hJ hw₁
    exact houtside₃ _ _ List.mem_cons_self hJ hw₂

end

end ViewTree
