import ViewTree.Proofs.Component.Hooks
import ViewTree.Proofs.Component.Operations
/-!
# Hooks stay in order

A definition lists the hooks that it has taken over from its parent, and behind them those that it
was given itself, each once (`HoldsHooks`). What it brings to its next merge may list inherited
hooks as well; laid over a parent that has them, it comes out like its own hooks (`SameOver`). As
parents only ever list more, that is kept by every operation, and a definition that is resolved
lists the hooks of its lineage from the root down (`hooks_inOrder`).
-/

namespace ViewTree

/-! ## Own items -/

/-- Behind anything that has what is inherited, the two lists come to the same. -/
def SameOver (inherited ids ids' : List CallbackId) : Prop :=
  ∀ base : List CallbackId, inherited ⊆ base →
    (base ++ ids).eraseDups = (base ++ ids').eraseDups

section

variable {inherited inherited' ids ids' own nested extended sealedItems : List CallbackId}

theorem SameOver.mono (h : SameOver inherited ids ids') (hsub : inherited ⊆ inherited') :
    SameOver inherited' ids ids' :=
  fun base hbase => h base (List.Subset.trans hsub hbase)

/-- What is listed already may be listed again. -/
theorem SameOver.append_right (h : SameOver inherited ids ids') {more : List CallbackId}
    (hmore : more ⊆ inherited ++ ids') : SameOver inherited ids (ids' ++ more) := by
  intro base hbase
  have hsub : more ⊆ base ++ ids' := fun id hid =>
    List.mem_append.2 ((List.mem_append.1 (hmore hid)).imp_left fun hid => hbase hid)
  rw [h base hbase, ← List.append_assoc, eraseDups_append_of_subset hsub]

/-- The own items of a list come to what was put behind the inherited ones. -/
theorem sameOver_ownItems (hnested : nested <+: own)
    (hsealed : sealedItems ⊆ inherited ++ (nested ++ extended)) :
    SameOver inherited
      (nested ++ ownItems (inherited ++ own).eraseDups extended sealedItems) own := by
  obtain ⟨rest, rfl⟩ := hnested
  intro base hbase
  rw [← List.append_assoc, ← List.append_assoc, ← List.append_assoc]
  apply eraseDups_append_congr
  let mine (id : CallbackId) : Bool := extended.contains id || !sealedItems.contains id
  let new (id : CallbackId) : Bool := !(base ++ nested).elem id
  have hnew {id : CallbackId} (hid : new id = true) : id ∉ base ++ nested := by
    simpa [new] using hid
  have hold : ((inherited ++ nested).filter mine).filter new = [] := by
    refine List.filter_eq_nil_iff.2 fun id hid hout => hnew hout ?_
    exact (List.mem_append.1 (List.mem_of_mem_filter hid)).elim
      (fun hid => List.mem_append_left nested (hbase hid)) (List.mem_append_right base)
  have hrest : (rest.filter mine).filter new = rest.filter new := by
    rw [List.filter_filter]
    refine List.filter_congr fun id _ => ?_
    cases hout : new id with
    | false => rfl
    | true =>
      -- What is new here and was there at the sealing came with the extension.
      have hin : id ∈ sealedItems → id ∈ extended := by
        intro hid
        have hmem := hsealed hid
        rw [← List.append_assoc, List.mem_append] at hmem
        refine hmem.resolve_left fun hmem => hnew hout ?_
        exact List.mem_append.2 ((List.mem_append.1 hmem).imp_left fun hid => hbase hid)
      by_cases hid : id ∈ sealedItems
      · simp [mine, hin hid]
      · simp [mine, hid]
  show (((inherited ++ nested ++ rest).eraseDups.filter mine).filter new).eraseDups =
    (rest.filter new).eraseDups
  rw [filter_eraseDups, filter_eraseDups, eraseDups_of_nodup (nodup_eraseDups _),
    List.filter_append, List.filter_append, hold, hrest, List.nil_append]

end

/-! ## Definitions -/

/-- The hooks that a definition has taken over from its parent. -/
def Definition.superHooks (d : Definition) (hook : LifecycleHook) : List CallbackId :=
  match d.superOptions with
  | none => []
  | some o => o.hooks.hooksOf hook

/-- A definition lists what it has taken over and then its own hooks, each once. What it extends its
parent with comes first among its own; unless it lists more than it was made with, that is all. -/
structure HoldsHooks (hook : LifecycleHook) (own : List CallbackId) (d : Definition) : Prop where
  lists : d.options.hooks.hooksOf hook = (d.superHooks hook ++ own).eraseDups
  nested : d.extendOptions.nestedHooks hook <+: own
  sealed_listed : d.sealedOptions.hooks.hooksOf hook ⊆ d.options.hooks.hooksOf hook
  sealed_from :
    d.sealedOptions.hooks.hooksOf hook ⊆ d.superHooks hook ++ d.extendOptions.allHooks hook
  extends_with : d.options.hooks.hooksOf hook = d.sealedOptions.hooks.hooksOf hook →
    SameOver (d.superHooks hook) (d.extendOptions.allHooks hook) own
  root : d.parent = none → d.superOptions = none

section

variable {hook : LifecycleHook} {own ids : List CallbackId} {d dp : Definition} {p : Cid}
  {options layer : ComponentOptions}

theorem HoldsHooks.mem_lists (h : HoldsHooks hook own d) {id : CallbackId} :
    id ∈ d.options.hooks.hooksOf hook ↔ id ∈ d.superHooks hook ++ own := by
  rw [h.lists, List.mem_eraseDups]

theorem HoldsHooks.nodup (h : HoldsHooks hook own d) : (d.options.hooks.hooksOf hook).Nodup :=
  h.lists ▸ nodup_eraseDups _

/-- What a definition brings to its next merge comes to its own hooks. -/
theorem HoldsHooks.carries (h : HoldsHooks hook own d) :
    SameOver (d.superHooks hook) (d.carries.allHooks hook) own := by
  unfold Definition.carries
  rw [allHooks_carryEdits]
  unfold carriedHooks
  split
  · rename_i hsealed
    rw [← allHooks_eq]
    exact h.extends_with hsealed
  · rw [h.lists]
    exact sameOver_ownItems h.nested (allHooks_eq d.extendOptions hook ▸ h.sealed_from)

/-- The sealed hooks are brought to the next merge, as far as the parent has not got them. -/
theorem HoldsHooks.sealed_carried (h : HoldsHooks hook own d) :
    d.sealedOptions.hooks.hooksOf hook ⊆ d.superHooks hook ++ d.carries.allHooks hook := by
  intro id hid
  have hfrom := h.sealed_from hid
  rw [allHooks_eq, List.mem_append, List.mem_append] at hfrom
  unfold Definition.carries
  rw [allHooks_carryEdits, List.mem_append, List.mem_append]
  refine hfrom.imp_right fun hfrom => hfrom.imp_right fun hext => ?_
  unfold carriedHooks
  split
  · exact hext
  · refine List.mem_filter.2 ⟨h.sealed_listed hid, ?_⟩
    simp [hext]

theorem holdsHooks_base : HoldsHooks hook [] ⟨none, 0, .empty, 0, none, .empty, .empty⟩ :=
  { lists := rfl
    nested := List.nil_prefix
    sealed_listed := List.Subset.refl _
    sealed_from := List.Subset.refl _
    extends_with := fun _ _ _ => rfl
    root := fun _ => rfl }

theorem holdsHooks_extension (hoptions : options.hooks.hooksOf hook =
      (dp.options.hooks.hooksOf hook ++ layer.allHooks hook).eraseDups) :
    HoldsHooks hook (layer.allHooks hook) (Definition.extension p dp layer options) :=
  { lists := hoptions
    nested := by
      rw [allHooks_eq]
      exact List.prefix_append _ _
    sealed_listed := List.Subset.refl _
    sealed_from := by
      show options.hooks.hooksOf hook ⊆ _
      intro id hid
      rwa [hoptions, List.mem_eraseDups] at hid
    extends_with := fun _ _ _ => rfl
    root := nofun }

/-- A definition is given more hooks, which are put behind those that it lists. -/
theorem HoldsHooks.give (h : HoldsHooks hook own d) (hoptions : options.hooks.hooksOf hook =
      (d.options.hooks.hooksOf hook ++ ids).eraseDups) :
    HoldsHooks hook (own ++ ids) (d.withOptions options) := by
  have hlists : options.hooks.hooksOf hook = (d.superHooks hook ++ (own ++ ids)).eraseDups := by
    rw [hoptions, h.lists, eraseDups_append_left, List.append_assoc]
  refine
    { lists := hlists
      nested := h.nested.trans (List.prefix_append _ _)
      sealed_listed := fun id hid => ?_
      sealed_from := h.sealed_from
      extends_with := fun hsealed => ?_
      root := h.root }
  · show id ∈ options.hooks.hooksOf hook
    rw [hoptions, List.mem_eraseDups]
    exact List.mem_append_left _ (h.sealed_listed hid)
  · -- If nothing is listed but the sealed hooks, then nothing new was given.
    replace hsealed : options.hooks.hooksOf hook = d.sealedOptions.hooks.hooksOf hook := hsealed
    have hids : ids ⊆ d.options.hooks.hooksOf hook := by
      refine fun id hid => h.sealed_listed ?_
      rw [← hsealed, hoptions, List.mem_eraseDups]
      exact List.mem_append_right _ hid
    rw [hoptions, eraseDups_append_of_subset hids, eraseDups_of_nodup h.nodup] at hsealed
    exact (h.extends_with hsealed).append_right fun id hid => h.mem_lists.1 (hids hid)

/-- A definition is merged again over a parent that has what was taken over. -/
theorem HoldsHooks.remerged (h : HoldsHooks hook own d) (hparent : d.parent = some p)
    (hgrown : d.superHooks hook ⊆ dp.options.hooks.hooksOf hook)
    (hoptions : options.hooks.hooksOf hook =
      (dp.options.hooks.hooksOf hook ++ d.carries.allHooks hook).eraseDups) :
    HoldsHooks hook own (d.remerged dp options) := by
  have hcarries := h.carries.mono hgrown
  have hlists : options.hooks.hooksOf hook =
      (dp.options.hooks.hooksOf hook ++ own).eraseDups := by
    rw [hoptions, hcarries _ (List.Subset.refl _)]
  refine
    { lists := hlists
      nested := h.nested
      sealed_listed := fun id hid => ?_
      sealed_from := fun id hid => ?_
      extends_with := fun _ => hcarries
      root := fun hroot => nomatch hparent.symm.trans hroot }
  · show id ∈ options.hooks.hooksOf hook
    rw [hlists, List.mem_eraseDups]
    have hmem := h.mem_lists.1 (h.sealed_listed hid)
    exact List.mem_append.2 ((List.mem_append.1 hmem).imp_left fun hid => hgrown hid)
  · have hmem := h.sealed_carried hid
    exact List.mem_append.2 ((List.mem_append.1 hmem).imp_left fun hid => hgrown hid)

end

/-! ## Operations -/

/-- Every definition holds the hooks that were given to it, and its parent lists what it has taken
over. -/
structure HooksHeld (hook : LifecycleHook) (own : Cid → List CallbackId) (ds : List Definition) :
    Prop where
  holds : ∀ {cid : Cid} {d : Definition}, ds[cid]? = some d → HoldsHooks hook (own cid) d
  inherits : ∀ {cid p : Cid} {d dp : Definition}, ds[cid]? = some d → d.parent = some p →
    ds[p]? = some dp → d.superHooks hook ⊆ dp.options.hooks.hooksOf hook
  nothing : ∀ {cid : Cid}, ds.length ≤ cid → own cid = []

namespace Op

/-- The hooks that an operation gives to a definition. -/
def gives (w : World) (hook : LifecycleHook) (cid : Cid) : Op → List CallbackId
  | extend _ options => if cid = w.definitions.length then options.allHooks hook else []
  | edit c e => if cid = c then e.hooks (w.latest c) hook else []
  | _ => []

/-- The operation only appends fresh hooks. -/
def AppendsHooks (w : World) : Op → Prop
  | edit cid e => e.AppendsHooks (w.latest cid)
  | _ => True

instance (w : World) : (op : Op) → Decidable (op.AppendsHooks w)
  | edit cid e => inferInstanceAs (Decidable (e.AppendsHooks (w.latest cid)))
  | base => .isTrue trivial
  | extend _ _ => .isTrue trivial
  | resolve _ => .isTrue trivial

end Op

section

variable {hook : LifecycleHook} {own own' : Cid → List CallbackId} {ds ds' : List Definition}
  {cid : Cid} {d d' : Definition} {w : World}

theorem hooksHeld_nil : HooksHeld hook (fun _ => []) [] :=
  ⟨nofun, nofun, fun _ => rfl⟩

/-- One definition is replaced by one that lists what it listed, and may be given more. -/
theorem HooksHeld.set (h : HooksHeld hook own ds) (hd : ds[cid]? = some d)
    (hparent : d'.parent = d.parent) (hnew : HoldsHooks hook (own' cid) d')
    (hsuper : ∀ p dp, d.parent = some p → ds[p]? = some dp →
      d'.superHooks hook ⊆ dp.options.hooks.hooksOf hook)
    (hmore : d.options.hooks.hooksOf hook ⊆ d'.options.hooks.hooksOf hook)
    (hown : ∀ c, c ≠ cid → own' c = own c) : HooksHeld hook own' (ds.set cid d') := by
  have hlt := (List.getElem?_eq_some_iff.1 hd).1
  constructor
  · intro c dc hdc
    rcases getElem?_set_cases hlt hdc with ⟨rfl, rfl⟩ | ⟨hne, hdc⟩
    · exact hnew
    · exact hown c hne ▸ h.holds hdc
  · intro c p dc dp hdc hp hdp
    -- The parent lists at least what it did, whether it is the one replaced or not.
    have hgrown : ∃ dq, ds[p]? = some dq ∧
        dq.options.hooks.hooksOf hook ⊆ dp.options.hooks.hooksOf hook := by
      rcases getElem?_set_cases hlt hdp with ⟨rfl, rfl⟩ | ⟨-, hdp⟩
      · exact ⟨d, hd, hmore⟩
      · exact ⟨dp, hdp, List.Subset.refl _⟩
    obtain ⟨dq, hdq, hsub⟩ := hgrown
    rcases getElem?_set_cases hlt hdc with ⟨rfl, rfl⟩ | ⟨-, hdc⟩
    · exact List.Subset.trans (hsuper p dq (hparent ▸ hp) hdq) hsub
    · exact List.Subset.trans (h.inherits hdc hp hdq) hsub
  · intro c hc
    rw [List.length_set] at hc
    rw [hown c (Nat.ne_of_gt (Nat.lt_of_lt_of_le hlt hc)), h.nothing hc]

/-- One definition is added that has taken over what its parent lists. -/
theorem HooksHeld.concat (h : HooksHeld hook own ds) (hl : Linked ds)
    (hnew : HoldsHooks hook (own' ds.length) d)
    (hsuper : ∀ p, d.parent = some p → ∃ dp, ds[p]? = some dp ∧
      d.superHooks hook ⊆ dp.options.hooks.hooksOf hook)
    (hown : ∀ c, c ≠ ds.length → own' c = own c) : HooksHeld hook own' (ds ++ [d]) := by
  constructor
  · intro c dc hdc
    rcases getElem?_concat_cases hdc with ⟨rfl, rfl⟩ | ⟨hc, hdc⟩
    · exact hnew
    · exact hown c (Nat.ne_of_lt hc) ▸ h.holds hdc
  · intro c p dc dp hdc hp hdp
    rcases getElem?_concat_cases hdc with ⟨rfl, rfl⟩ | ⟨-, hdc⟩
    · obtain ⟨dq, hdq, hsub⟩ := hsuper p hp
      rw [List.getElem?_append_left (List.getElem?_eq_some_iff.1 hdq).1] at hdp
      cases hdq.symm.trans hdp
      exact hsub
    · have hplt := Nat.lt_trans (hl.parent_lt hdc hp) (List.getElem?_eq_some_iff.1 hdc).1
      rw [List.getElem?_append_left hplt] at hdp
      exact h.inherits hdc hp hdp
  · intro c hc
    rw [List.length_append, List.length_singleton] at hc
    rw [hown c (Nat.ne_of_gt hc), h.nothing (Nat.le_of_lt hc)]

/-- Merging a definition again gives it nothing and takes nothing from it. -/
theorem HooksHeld.remerges (hstep : Remerges ds ds') (h : HooksHeld hook own ds) :
    HooksHeld hook own ds' := by
  cases hstep with
  | @merge cid p d dp merged w hd hparent hdp hmoved hmerged =>
    have hgrown := h.inherits hd hparent hdp
    have hnew : HoldsHooks hook (own cid) (d.remerged dp (merged.withSelf merged.name cid)) := by
      refine (h.holds hd).remerged hparent hgrown ?_
      rw [hooks_withSelf, hmerged]
      exact mergeOptions_hooks dp.options d.carries false w hook
    refine h.set hd rfl hnew (fun q dq hq hdq => ?_) (fun id hid => ?_) fun _ _ => rfl
    · cases hparent.symm.trans hq
      cases hdp.symm.trans hdq
      exact List.Subset.refl _
    · have hmem := (h.holds hd).mem_lists.1 hid
      exact hnew.mem_lists.2
        (List.mem_append.2 ((List.mem_append.1 hmem).imp_left fun hid => hgrown hid))

/-- Every operation that only appends hooks leaves definitions with the hooks that they were
given. -/
theorem HooksHeld.op (h : HooksHeld hook own w.definitions) (hl : Linked w.definitions)
    {op : Op} (hop : op.OnExisting w) (happends : op.AppendsHooks w) :
    HooksHeld hook (fun cid => own cid ++ op.gives w hook cid) (op.run.run w).2.definitions := by
  have hleads := op.leads hl hop
  generalize (op.run.run w).2.definitions = after at hleads ⊢
  cases hleads with
  | base =>
    simp only [Op.gives, List.append_nil]
    exact h.concat hl (h.nothing (Nat.le_refl _) ▸ holdsHooks_base) nofun fun _ _ => rfl
  | @extend p options merged ds dp w' hsteps hdp hmerged =>
    have hlength : ds.length = w.definitions.length := length_of_parents (parents_steps hsteps)
    have hds : HooksHeld hook own ds := steps_induct hsteps HooksHeld.remerges h
    refine hds.concat (hl.steps hsteps) ?_ ?_ fun c hc => ?_
    · rw [hds.nothing (Nat.le_refl _), List.nil_append, Op.gives, if_pos hlength]
      apply holdsHooks_extension
      rw [hmerged, hooks_withSelf]
      exact mergeOptions_hooks dp.options options false w' hook
    · rintro q ⟨⟩
      exact ⟨dp, hdp, List.Subset.refl _⟩
    · rw [Op.gives, if_neg (hlength ▸ hc), List.append_nil]
  | @edit cid e d w' hd =>
    have hlatest : w.latest cid = d.options := by
      rw [World.latest, hd]
      rfl
    replace happends : e.AppendsHooks d.options := hlatest ▸ happends
    have hd' := h.holds hd
    have hlists := e.hooks_apply happends w' hd'.nodup
    refine h.set hd rfl ?_ (fun p dp hp hdp => ?_) (fun id hid => ?_) fun c hc => ?_
    · rw [Op.gives, if_pos rfl, hlatest]
      exact hd'.give hlists
    · have hsub := h.inherits hd hp hdp
      exact hsub
    · show id ∈ (e.apply d.options w').hooks.hooksOf hook
      rw [hlists, List.mem_eraseDups]
      exact List.mem_append_left _ hid
    · rw [Op.gives, if_neg hc, List.append_nil]
  | resolve hsteps =>
    simp only [Op.gives, List.append_nil]
    exact steps_induct hsteps HooksHeld.remerges h

end

/-! ## Runs -/

/-- The hooks that a run of operations gives to a definition, in order. -/
def World.given (w : World) (hook : LifecycleHook) (cid : Cid) : List Op → List CallbackId
  | [] => []
  | op :: ops => op.gives w hook cid ++ World.given (op.run.run w).2 hook cid ops

/-- The hooks of a lineage from the root down. -/
def hooksDown (parents : List (Option Cid)) (own : Cid → List CallbackId) (cid : Cid) :
    List CallbackId :=
  (lineage parents cid).reverse.flatMap own

section

variable {hook : LifecycleHook} {own : Cid → List CallbackId} {w : World} {ops : List Op}
  {cid c : Cid} {d : Definition}

theorem hooksHeld_after (h : HooksHeld hook own w.definitions) (hl : Linked w.definitions)
    (hops : w.Along Op.OnExisting ops) (happends : w.Along Op.AppendsHooks ops) :
    HooksHeld hook (fun cid => own cid ++ w.given hook cid ops) (w.after ops).definitions := by
  induction ops generalizing w own with
  | nil =>
    simp only [World.given, List.append_nil]
    exact h
  | cons op ops ih =>
    have hrest := ih (h.op hl hops.1 happends.1) (hl.op hops.1) hops.2 happends.2
    simp only [World.given, ← List.append_assoc]
    exact hrest

/-- A definition that is resolved lists what its parent lists when it is resolved, and then its own
hooks. -/
theorem hooks_resolved (h : HooksHeld hook own w.definitions) (hl : Linked w.definitions)
    (hd : w.definitions[cid]? = some d) :
    (w.resolved cid).hooks.hooksOf hook =
      ((d.parent.elim [] fun p => (w.resolved p).hooks.hooksOf hook) ++ own cid).eraseDups := by
  have hlt := (List.getElem?_eq_some_iff.1 hd).1
  have hr := resolve_refreshes hl hlt
  obtain ⟨d', hd', hoptions⟩ := hr.result
  have hheld : HooksHeld hook own ((Run.resolveOptions cid).run w).2.definitions :=
    steps_induct hr.steps HooksHeld.remerges h
  have hparent : d'.parent = d.parent := by
    have hsame := getElem?_parentsOf hd' rfl
    rw [hr.parents, getElem?_parentsOf hd rfl] at hsame
    exact (Option.some.inj hsame).symm
  show ((Run.resolveOptions cid).run w).1.hooks.hooksOf hook = _
  rw [← hoptions, (hheld.holds hd').lists]
  congr 2
  cases hp : d.parent with
  | none => rw [Definition.superHooks, (hheld.holds hd').root (hparent.trans hp)]; rfl
  | some p =>
    -- The parent is the same as when it is resolved alone.
    obtain ⟨dp, hdp, -, hsuper⟩ := (hr.linked hl).current hr.fresh (self_mem_lineage _ cid) hd' p
      (hparent.trans hp)
    have hplt := hl.parent_lt hd hp
    obtain ⟨dq, hdq, hresolved⟩ := (resolve_refreshes hl (Nat.lt_trans hplt hlt)).result
    rw [resolve_parent hl hd hp (Nat.ne_of_lt hplt), hdq] at hdp
    cases hdp
    rw [Definition.superHooks, hsuper]
    exact congrArg (fun o => o.hooks.hooksOf hook) hresolved

/-- A definition that is resolved lists the hooks of its lineage from the root down. -/
theorem hooks_down (h : HooksHeld hook own w.definitions) (hl : Linked w.definitions)
    (hlt : cid < w.definitions.length) :
    (w.resolved cid).hooks.hooksOf hook =
      (hooksDown (parentsOf w.definitions) own cid).eraseDups := by
  induction cid using Nat.strongRecOn with
  | ind cid ih =>
    have hd : w.definitions[cid]? = some w.definitions[cid] := List.getElem?_eq_getElem hlt
    rw [hooks_resolved h hl hd, hooksDown]
    cases hparent : w.definitions[cid].parent with
    | none =>
      rw [lineage_root (getElem?_parentsOf hd hparent), List.reverse_singleton,
        List.flatMap_singleton]
      rfl
    | some p =>
      have hplt := hl.parent_lt hd hparent
      rw [lineage_child (getElem?_parentsOf hd hparent) hplt, List.reverse_cons,
        List.flatMap_append, List.flatMap_singleton, Option.elim_some,
        ih p hplt (Nat.lt_trans hplt hlt), eraseDups_append_left]
      rfl

/-- What is resolved of an ancestor stands in front. -/
theorem hooksDown_front {parents : List (Option Cid)} (hc : c ∈ lineage parents cid) :
    (hooksDown parents own c).eraseDups <+: (hooksDown parents own cid).eraseDups := by
  obtain ⟨later, hlater⟩ := lineage_suffix hc
  rw [hooksDown, hooksDown, ← hlater, List.reverse_append, List.flatMap_append,
    ← eraseDups_append_left]
  exact eraseDups_front _ _

/-- After any run that only appends fresh hooks, a definition that is resolved lists what its parent
lists when it is resolved, and then the hooks that it was given itself, each once. So the hooks of an
ancestor come first, and every hook that was given to a definition of the lineage is listed once. -/
theorem hooks_inOrder (config : Config) {ops : List Op}
    (hops : (World.start config).Along Op.OnExisting ops)
    (happends : (World.start config).Along Op.AppendsHooks ops) (hook : LifecycleHook) :
    let w := (World.start config).after ops
    let own := fun cid => (World.start config).given hook cid ops
    ∀ cid d, w.definitions[cid]? = some d →
      (w.resolved cid).hooks.hooksOf hook =
        ((d.parent.elim [] fun p => (w.resolved p).hooks.hooksOf hook) ++ own cid).eraseDups ∧
      ∀ c ∈ lineage (parentsOf w.definitions) cid,
        (w.resolved c).hooks.hooksOf hook <+: (w.resolved cid).hooks.hooksOf hook ∧
        ∀ id ∈ own c, ((w.resolved cid).hooks.hooksOf hook).count id = 1 := by
  intro w own cid d hd
  have hl : Linked w.definitions := linked_after linked_nil hops
  have hheld : HooksHeld hook own w.definitions := by
    have hrun := hooksHeld_after (@hooksHeld_nil hook) (w := World.start config) linked_nil hops happends
    simpa using hrun
  have hlt := (List.getElem?_eq_some_iff.1 hd).1
  refine ⟨hooks_resolved hheld hl hd, fun c hc => ?_⟩
  have hclt := Nat.lt_of_le_of_lt (le_of_mem_lineage hc) hlt
  rw [hooks_down hheld hl hlt, hooks_down hheld hl hclt]
  refine ⟨hooksDown_front hc, fun id hid => ?_⟩
  refine List.count_eq_one_of_mem (nodup_eraseDups _) (List.mem_eraseDups.2 ?_)
  exact List.mem_flatMap.2 ⟨c, List.mem_reverse.2 hc, hid⟩

end

/-- A layer with a hook that runs when an instance is created. -/
def creating (id : CallbackId) : ComponentOptions :=
  { ComponentOptions.empty with hooks := [(.created, [id])] }

/-- Puts a hook that runs when an instance is created behind the others. -/
def appendCreated (id : CallbackId) (o : ComponentOptions) : ComponentOptions :=
  { o with hooks := o.hooks.set .created (o.hooks.hooksOf .created ++ [id]) }

/-- A definition is extended, by options with further layers, and its extension is extended. Then the
first two are given more hooks, and the last is resolved in between and at the end. -/
def creatingAlong : List Op :=
  [.base, .edit 0 (.mixin (creating 1)),
    .extend 0 { creating 4 with extending := some (creating 2), mixins := [creating 3] },
    .extend 1 (creating 5), .edit 0 (.mixin (creating 6)), .resolve 2,
    .edit 1 (.modify (appendCreated 7)), .edit 0 (.mixin (creating 8)), .resolve 2]

/-- Along `creatingAlong`, the hooks stay in order. -/
theorem hooks_inOrder_creatingAlong :
    let w := (World.start .default).after creatingAlong
    let own := fun cid => (World.start .default).given .created cid creatingAlong
    (World.start .default).Along Op.OnExisting creatingAlong ∧
      (World.start .default).Along Op.AppendsHooks creatingAlong ∧
      (w.resolved 2).hooks.hooksOf .created = [1, 6, 8, 2, 3, 4, 7, 5] ∧
      ∀ cid d, w.definitions[cid]? = some d →
        (w.resolved cid).hooks.hooksOf .created =
          ((d.parent.elim [] fun p => (w.resolved p).hooks.hooksOf .created) ++
            own cid).eraseDups ∧
        ∀ c ∈ lineage (parentsOf w.definitions) cid,
          (w.resolved c).hooks.hooksOf .created <+: (w.resolved cid).hooks.hooksOf .created ∧
          ∀ id ∈ own c, ((w.resolved cid).hooks.hooksOf .created).count id = 1 := by
  intro w own
  have hops : (World.start .default).Along Op.OnExisting creatingAlong := by decide +kernel
  have happends : (World.start .default).Along Op.AppendsHooks creatingAlong := by decide +kernel
  exact ⟨hops, happends, by decide +kernel, hooks_inOrder .default hops happends .created⟩

end ViewTree
