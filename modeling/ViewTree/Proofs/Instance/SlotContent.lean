import ViewTree.Proofs.Instance.Family
import ViewTree.Proofs.VNode.Distribution
import ViewTree.Proofs.VNode.Extraction
/-!
# What components see in their slots

A component that an instance uses gets the children of the use as slot content. A component with an
instance of its own has a placeholder, and slot names count on children that the same instance
rendered as the placeholder. A functional component has no placeholder, so that slot names do not
count, and all children are in its default slot. So the two see the same only if no child names
another slot or is a template (`slots_agree_iff`).
-/

namespace ViewTree

/-! ## Slots with and without a context -/

namespace VNode

mutual

/-- The number of nodes in a tree. -/
def weight : VNode → Nat
  | element _ _ children _ _ => weightAll children + 1
  | component ⟨_, _, _, _, _, _, _, children, _⟩ => weightAll children + 1
  | text _ => 1
  | comment _ => 1

/-- The number of nodes in several trees. -/
def weightAll : List VNode → Nat
  | [] => 0
  | v :: vs => weight v + weightAll vs

end

/-- The node stays where it is when slot names do not count: it names no slot, or the default one
and is no template. -/
def Stays (context : Option Uid) (v : VNode) : Prop :=
  ∀ name, v.NamesSlot context name → name = "default" ∧ v.tag? ≠ some "template"

section

variable {context : Option Uid} {v : VNode} {children : List VNode}

theorem weightAll_append (vs ws : List VNode) :
    weightAll (vs ++ ws) = weightAll vs + weightAll ws := by
  induction vs with
  | nil => exact (Nat.zero_add _).symm
  | cons v vs ih => rw [List.cons_append, weightAll, weightAll, ih, Nat.add_assoc]

theorem weight_withoutSlotAttr (v : VNode) : v.withoutSlotAttr.weight = v.weight := by
  match v with
  | element _ none _ _ _ => rfl
  | element _ (some _) children _ _ => rw [withoutSlotAttr, weight, weight]
  | component ⟨_, _, _, _, _, _, _, _, _⟩ => rw [withoutSlotAttr, weight, weight]
  | text _ => rfl
  | comment _ => rfl

theorem weight_pos (v : VNode) : 0 < v.weight := by
  match v with
  | element _ _ _ _ _ => exact Nat.succ_pos _
  | component ⟨_, _, _, _, _, _, _, _, _⟩ => exact Nat.succ_pos _
  | text _ => exact Nat.one_pos
  | comment _ => exact Nat.one_pos

theorem weightAll_children_lt (v : VNode) : weightAll v.children < v.weight := by
  match v with
  | element _ _ cs _ _ => exact Nat.lt_succ_self (weightAll cs)
  | component ⟨_, _, _, _, _, _, _, cs, _⟩ => exact Nat.lt_succ_self (weightAll cs)
  | text _ => exact Nat.one_pos
  | comment _ => exact Nat.one_pos

theorem isWhitespace_withoutSlotAttr (v : VNode) :
    v.withoutSlotAttr.isWhitespace = v.isWhitespace := by
  match v with
  | element _ none _ _ _ => rfl
  | element _ (some _) _ _ _ => rfl
  | component _ => rfl
  | text _ => rfl
  | comment _ => rfl

/-- A node that names a slot shows. -/
theorem NamesSlot.shows {name : String} (h : v.NamesSlot context name) :
    v.isWhitespace = false := by
  cases h with
  | element => rfl
  | component => rfl

theorem Stays.slotEntry_eq (h : v.Stays context) :
    v.slotEntry context = ("default", [v.withoutSlotAttr]) := by
  by_cases hnamed : ∃ name, v.NamesSlot context name
  · obtain ⟨name, hnames⟩ := hnamed
    obtain ⟨rfl, htag⟩ := h name hnames
    rw [hnames.slotEntry_eq, if_neg htag]
  · exact slotEntry_unnamed fun name hnames => hnamed ⟨name, hnames⟩

/-- Where every child stays, all are gathered by the default slot. -/
theorem gathered_of_stays (h : ∀ v ∈ children, v.Stays context) (name : String) :
    gathered context (· = name) children =
      if name = "default" then children.map withoutSlotAttr else [] := by
  induction children with
  | nil => rw [List.map_nil, ite_self]; rfl
  | cons v children ih =>
    have hv := (h v List.mem_cons_self).slotEntry_eq
    rw [gathered_cons, hv, ih fun u hu => h u (List.mem_cons_of_mem v hu)]
    by_cases hname : name = "default"
    · rw [if_pos hname.symm, if_pos hname, if_pos hname, List.map_cons, List.singleton_append]
    · rw [if_neg (Ne.symm hname), if_neg hname, if_neg hname, List.nil_append]

theorem all_isWhitespace_map (children : List VNode) :
    (children.map withoutSlotAttr).all isWhitespace = children.all isWhitespace := by
  rw [List.all_map]
  exact congrArg children.all (funext isWhitespace_withoutSlotAttr)

theorem get?_resolveSlots_of_stays (h : ∀ v ∈ children, v.Stays context) (name : String) :
    (resolveSlots children context).get? name =
      if name = "default" ∧ ∃ v ∈ children, v.isWhitespace = false then
        some (children.map withoutSlotAttr)
      else none := by
  rw [get?_resolveSlots, gathered_of_stays h]
  by_cases hname : name = "default"
  · rw [if_pos hname]
    simp only [all_isWhitespace_map, ← all_isWhitespace_iff, hname, true_and]
    cases children.all isWhitespace with
    | true => rfl
    | false => rfl
  · have hother : ¬ (name = "default" ∧ ∃ v ∈ children, v.isWhitespace = false) :=
      fun h => hname h.1
    rw [if_neg hname, if_neg hother]
    rfl

/-- What a child gives to the default slot is no more than itself, and less if it does not stay. -/
theorem weightAll_given (context : Option Uid) (v : VNode) :
    let given := if (v.slotEntry context).1 = "default" then (v.slotEntry context).2 else []
    weightAll given ≤ v.weight ∧ (¬ v.Stays context → weightAll given < v.weight) := by
  intro given
  by_cases hstays : v.Stays context
  · have hgiven : given = [v.withoutSlotAttr] := by
      unfold given
      rw [hstays.slotEntry_eq, if_pos rfl]
    rw [hgiven, weightAll, weightAll, weight_withoutSlotAttr]
    exact ⟨Nat.le_refl _, fun h => absurd hstays h⟩
  · have hless : weightAll given < v.weight := by
      -- It names another slot, or is a template.
      simp only [Stays, Classical.not_forall] at hstays
      obtain ⟨name, hnames, hmoves⟩ := hstays
      unfold given
      rw [hnames.slotEntry_eq]
      by_cases hname : name = "default"
      · have htag : v.tag? = some "template" := by
          by_contra htag
          exact hmoves ⟨hname, htag⟩
        rw [if_pos hname, if_pos htag]
        exact weightAll_children_lt v
      · rw [if_neg hname]
        exact weight_pos v
    exact ⟨Nat.le_of_lt hless, fun _ => hless⟩

/-- If some child does not stay, the default slot gathers less than there is. -/
theorem weightAll_gathered_lt {v : VNode} (hmem : v ∈ children) (hmoves : ¬ v.Stays context) :
    weightAll (gathered context (· = "default") children) <
      weightAll (children.map withoutSlotAttr) := by
  have hle (us : List VNode) : weightAll (gathered context (· = "default") us) ≤
      weightAll (us.map withoutSlotAttr) := by
    induction us with
    | nil => exact Nat.le_refl _
    | cons u us ih =>
      rw [gathered_cons, weightAll_append, List.map_cons, weightAll, weight_withoutSlotAttr]
      exact Nat.add_le_add (weightAll_given context u).1 ih
  obtain ⟨before, after, rfl⟩ := List.append_of_mem hmem
  induction before with
  | nil =>
    rw [List.nil_append, gathered_cons, weightAll_append, List.map_cons, weightAll,
      weight_withoutSlotAttr]
    exact Nat.add_lt_add_of_lt_of_le ((weightAll_given context v).2 hmoves) (hle after)
  | cons u before ih =>
    rw [List.cons_append, gathered_cons, weightAll_append, List.map_cons, weightAll,
      weight_withoutSlotAttr]
    exact Nat.add_lt_add_of_le_of_lt (weightAll_given context u).1
      (ih (List.mem_append_right before List.mem_cons_self))

/-- The slots are the same without a context exactly if every child stays. -/
theorem resolveSlots_eq_iff (hnone : ∀ v ∈ children, ∀ name, ¬ v.NamesSlot none name) :
    (∀ name, (resolveSlots children none).get? name = (resolveSlots children context).get? name) ↔
      ∀ v ∈ children, v.Stays context := by
  have hstays : ∀ v ∈ children, v.Stays none := fun v hv name hnames =>
    absurd hnames (hnone v hv name)
  constructor
  · intro hsame v hv
    by_contra hmoves
    have hshows : ∃ u ∈ children, u.isWhitespace = false := by
      simp only [Stays, Classical.not_forall] at hmoves
      obtain ⟨name, hnames, -⟩ := hmoves
      exact ⟨v, hv, hnames.shows⟩
    have hall := hsame "default"
    rw [get?_resolveSlots_of_stays hstays, if_pos ⟨rfl, hshows⟩] at hall
    have hgathered := gather_iff.1 (get?_resolveSlots_eq_some_iff.1 hall.symm).1
    have hless := weightAll_gathered_lt hv hmoves
    rw [hgathered] at hless
    exact Nat.lt_irrefl _ hless
  · intro h name
    rw [get?_resolveSlots_of_stays hstays, get?_resolveSlots_of_stays h]

end

end VNode

/-- What shows for a slot: its content, or the fallback. -/
def Child.ofSlot (slots : Dict (List VNode)) (name : String) (fallback : List Child) : Child :=
  let nodes := (slots.get? name).getD []
  if nodes.isEmpty then .list fallback else .ofNodes nodes

/-- Slots that are there are not empty. -/
theorem Child.ofSlot_resolveSlots (children : List VNode) (context : Option Uid) (name : String)
    (fallback : List Child) :
    Child.ofSlot (VNode.resolveSlots children context) name fallback =
      match (VNode.resolveSlots children context).get? name with
      | some nodes => .ofNodes nodes
      | none => .list fallback := by
  unfold Child.ofSlot
  cases hnodes : (VNode.resolveSlots children context).get? name with
  | none => rfl
  | some nodes =>
    obtain ⟨-, v, hv, -⟩ := VNode.get?_resolveSlots_eq_some_iff.1 hnodes
    have hnonempty : nodes.isEmpty = false := List.isEmpty_eq_false_iff_exists_mem.2 ⟨v, hv⟩
    simp only [Option.getD_some, hnonempty, Bool.false_eq_true, if_false]

theorem Child.ofNodes_injective {vs ws : List VNode} (h : Child.ofNodes vs = .ofNodes ws) :
    vs = ws := by
  have hmap : vs.map Child.node = ws.map Child.node := Child.list.inj h
  exact List.map_injective_iff.2 (fun _ _ heq => Child.node.inj heq) hmap

theorem Child.ofNodes_ne (vs : List VNode) : Child.ofNodes vs ≠ .list [.empty] := by
  intro h
  have hmap : vs.map Child.node = [.empty] := Child.list.inj h
  obtain ⟨v, -, hv⟩ := List.mem_map.1 (hmap ▸ List.mem_cons_self : Child.empty ∈ vs.map Child.node)
  cases hv

/-- Slots show the same for every fallback only if their content is the same. -/
theorem Child.ofSlot_congr_iff {children : List VNode} {context context' : Option Uid}
    {name : String} :
    let slots := VNode.resolveSlots children context
    let slots' := VNode.resolveSlots children context'
    (∀ fallback, Child.ofSlot slots name fallback = .ofSlot slots' name fallback) ↔
      slots.get? name = slots'.get? name := by
  intro slots slots'
  constructor
  · intro h
    have hsame := h [.empty]
    rw [ofSlot_resolveSlots, ofSlot_resolveSlots] at hsame
    change (match slots.get? name with
      | some nodes => ofNodes nodes
      | none => list [.empty]) = (match slots'.get? name with
      | some nodes => ofNodes nodes
      | none => list [.empty]) at hsame
    cases hnodes : slots.get? name with
    | none =>
      cases hnodes' : slots'.get? name with
      | none => rfl
      | some nodes' =>
        rw [hnodes, hnodes'] at hsame
        exact absurd hsame.symm (ofNodes_ne nodes')
    | some nodes =>
      cases hnodes' : slots'.get? name with
      | none =>
        rw [hnodes, hnodes'] at hsame
        exact absurd hsame (ofNodes_ne nodes)
      | some nodes' =>
        rw [hnodes, hnodes'] at hsame
        rw [ofNodes_injective hsame]
  · intro h fallback
    unfold ofSlot
    rw [h]

/-! ## Uses of components -/

/-- The call of a functional component that an instance uses. -/
def FunctionalCall.ofUse (vm : Uid) (bag : DataBag VNode) (props : List String)
    (children : List VNode) : FunctionalCall :=
  let (values, rest) := extractProps bag props
  ⟨values, rest, children, vm⟩

/-- The placeholder of a component that an instance uses. -/
def Placeholder.ofUse (vm : Uid) (ctor : ComponentRef) (name tag : Option String)
    (bag : DataBag VNode) (props : List String) (children : List VNode) : Placeholder VNode :=
  let (values, rest) := extractProps bag props
  { tag := placeholderTag ctor.cid (name <|> tag)
    ctor := ctor
    data := { rest with on := rest.nativeOn, nativeOn := [] }
    ns := none
    context := some vm
    props := values
    listeners := rest.on
    children := children
    componentTag := tag }

/-- The element factory calls functional components, and makes placeholders of others. -/
theorem createComponent_eq {m : Type → Type} [Monad m] (ctx : RenderContext m)
    (ctor : ComponentRef) (data : Option (DataBag VNode)) (children : List VNode)
    (tag : Option String) :
    createComponent ctx ctor data children tag = (do
      let props ← ctx.propNames ctor
      if ← ctx.isFunctional ctor then
        ctx.renderFunctional ctor (.ofUse ctx.id (data.getD .empty) props children)
      else
        let name ← ctx.componentName ctor
        pure (some (.node (.component
          (.ofUse ctx.id ctor name tag (data.getD .empty) props children))))) :=
  rfl

/-- What the declared props take leaves scoped slots alone. -/
theorem scopedSlots_extractProps (bag : DataBag VNode) (props : List String) :
    (extractProps bag props).2.scopedSlots = bag.scopedSlots := by
  induction props using List.reverseRecOn with
  | nil => rfl
  | append_singleton props prop ih =>
    rw [extractProps_concat, ← ih]
    generalize extractProps bag props = acc
    rw [show extractNext acc prop = extractNext (acc.1, acc.2) prop from rfl, extractNext_rest]
    match acc.2.firstPlace? prop with
    | none => rfl
    | some (.domProp _) => rfl
    | some (.attr _) => rfl

/-! ## Slots that stay filled -/

/-- An instance has certain slots, and neither it nor its placeholder has scoped ones. -/
def World.Fills (u : Uid) (slots : Dict (List VNode)) (w : World) : Prop :=
  ∃ i, w.instance? u = some i ∧ i.slots = slots ∧ i.scopedSlots = [] ∧
    ∀ node, i.parentNode = some node → node.data.scopedSlots = []

/-- The code of an application leaves the slots of instances alone. -/
def Application.KeepsSlots (app : Application) : Prop :=
  ∀ u slots, app.Preserves (World.Fills u slots)

/-- An instance keeps its slots, and has no scoped ones that its placeholder lacks. -/
structure Instance.KeepsSlots (i j : Instance) : Prop where
  slots : j.slots = i.slots
  parentNode : j.parentNode = i.parentNode
  scopedSlots : j.scopedSlots = i.scopedSlots ∨
    ∃ node, i.parentNode = some node ∧ j.scopedSlots = node.data.scopedSlots

section

variable {u : Uid} {slots : Dict (List VNode)}

theorem Instance.keepsSlots_of_eq {i j : Instance} (hslots : j.slots = i.slots)
    (hnode : j.parentNode = i.parentNode) (hscoped : j.scopedSlots = i.scopedSlots) :
    i.KeepsSlots j :=
  ⟨hslots, hnode, .inl hscoped⟩

theorem initializes_keepsSlots : Instance.Initializes Instance.KeepsSlots where
  events _ _ _ := Instance.keepsSlots_of_eq rfl rfl rfl
  el _ _ := Instance.keepsSlots_of_eq rfl rfl rfl
  tree _ _ _ := Instance.keepsSlots_of_eq rfl rfl rfl
  scopedSlots _ node hnode := ⟨rfl, rfl, .inr ⟨node, hnode, rfl⟩⟩
  props _ _ := Instance.keepsSlots_of_eq rfl rfl rfl
  methods _ _ := Instance.keepsSlots_of_eq rfl rfl rfl
  data _ _ := Instance.keepsSlots_of_eq rfl rfl rfl
  computed _ _ := Instance.keepsSlots_of_eq rfl rfl rfl
  watchers _ _ _ := Instance.keepsSlots_of_eq rfl rfl rfl
  injections _ _ := Instance.keepsSlots_of_eq rfl rfl rfl
  provided _ _ := Instance.keepsSlots_of_eq rfl rfl rfl

theorem fills_onInstances : World.OnInstances (World.Fills u slots) := by
  intro w w' hinstances _ h
  rw [World.Fills, World.instance?, hinstances]
  exact h

theorem fills_permits (vm : Uid) :
    World.Permits (World.Fills u slots) vm Instance.KeepsSlots := by
  rintro w f hf ⟨i, hi, hslots, hscoped, hnode⟩
  by_cases hvm : vm = u
  · subst hvm
    obtain ⟨hslots', hnode', hscoped'⟩ := hf i hi
    refine ⟨f i, by rw [instance?_update_self, hi, Option.map_some], hslots'.trans hslots, ?_, ?_⟩
    · rcases hscoped' with heq | ⟨node, hi', heq⟩
      · exact heq.trans hscoped
      · exact heq.trans (hnode node hi')
    · rw [hnode']
      exact hnode
  · exact ⟨i, (instance?_update_of_ne hvm f w).trans hi, hslots, hscoped, hnode⟩

/-- What a slot shows is its content, or the fallback. -/
theorem World.Fills.renderSlot_run {w : World} (h : w.Fills u slots) (name : String)
    (fallback : List Child) :
    (Application.renderSlot u name fallback).run w = (Child.ofSlot slots name fallback, w) := by
  obtain ⟨i, hi, rfl, hscoped, -⟩ := h
  rw [Application.renderSlot, run_inst_bind, hi, Option.getD_some, hscoped]
  unfold Child.ofSlot
  cases (i.slots.get? name).getD [] with
  | nil => rfl
  | cons v vs => rfl

end

/-! ## Functional components -/

section

variable {app : Application} {w : World}

/-- Runs something where a functional component renders. -/
def Application.inFunctional {α : Type} (app : Application) (cid : Cid) (call : FunctionalCall)
    (body : ComponentOptions → Uid → Run α) : Run α := do
  let options ← Run.resolveOptions cid
  let uid := (← get).instances.length
  let fresh : Instance :=
    { Instance.fresh cid options with
      propsData := some call.props
      renderChildren := call.children
      slots := VNode.resolveSlots call.children none
      attrs := call.data.attrs
      listeners := call.data.on
      scopedSlots := call.data.scopedSlots }
  modify fun w => { w with instances := w.instances ++ [fresh] }
  Run.pinned uid do
    app.initProps uid
    body options uid

/-- What runs there is the render function. -/
theorem renderFunctional_eq (app : Application) (cid : Cid) (call : FunctionalCall) :
    app.renderFunctional cid call = app.inFunctional cid call fun options uid =>
      match options.render with
      | some render => app.render render uid
      | none => pure .empty :=
  rfl

/-- A functional component has the slots that its children fill without a context. -/
theorem inFunctional_renderSlot (hkeeps : app.KeepsSlots) (cid : Cid) {call : FunctionalCall}
    (hscoped : call.data.scopedSlots = []) (name : String) (fallback : List Child) :
    ((app.inFunctional cid call fun _ uid => Application.renderSlot uid name fallback).run w).1 =
      Child.ofSlot (VNode.resolveSlots call.children none) name fallback := by
  let resolved := (Run.resolveOptions cid).run w
  let uid := resolved.2.instances.length
  let slots := VNode.resolveSlots call.children none
  let fresh : Instance :=
    { Instance.fresh cid resolved.1 with
      propsData := some call.props
      renderChildren := call.children
      slots := slots
      attrs := call.data.attrs
      listeners := call.data.on
      scopedSlots := call.data.scopedSlots }
  let pinned : World := { resolved.2.add fresh with pins := uid :: resolved.2.pins }
  have hadded : pinned.Fills uid slots := by
    refine ⟨fresh, ?_, rfl, hscoped, fun node hnode => nomatch hnode⟩
    exact List.getElem?_concat_length
  have hfilled : ((app.initProps uid).run pinned).2.Fills uid slots :=
    preserves_initProps (hkeeps uid slots) fills_onInstances (fills_permits uid)
      initializes_keepsSlots.toFillsIn pinned hadded
  exact congrArg Prod.fst (hfilled.renderSlot_run name fallback)

/-! ## Components with an instance of their own -/

/-- An instance has not got its slots yet, and will have those of a placeholder. -/
def World.Awaits (u : Uid) (node : Placeholder VNode) (w : World) : Prop :=
  ∃ i, w.instance? u = some i ∧ i.parentNode = some node ∧ i.renderChildren = node.children

theorem awaits_onInstances (u : Uid) (node : Placeholder VNode) :
    World.OnInstances (World.Awaits u node) := by
  intro w w' hinstances _ h
  rw [World.Awaits, World.instance?, hinstances]
  exact h

theorem awaits_attach (u : Uid) (node : Placeholder VNode) (listeners : Dict (List Listener)) :
    Run.Preserves (World.Awaits u node) (Run.attach u listeners) := by
  let Same (i j : Instance) : Prop :=
    j.parentNode = i.parentNode ∧ j.renderChildren = i.renderChildren
  have hpermits : World.Permits (World.Awaits u node) u Same := by
    rintro w f hf ⟨i, hi, hnode, hchildren⟩
    obtain ⟨hnode', hchildren'⟩ := hf i hi
    exact ⟨f i, by rw [instance?_update_self, hi, Option.map_some], hnode'.trans hnode,
      hchildren'.trans hchildren⟩
  refine preserves_attach hpermits ?_ listeners
  exact ⟨fun _ _ _ => ⟨rfl, rfl⟩, fun _ _ => ⟨rfl, rfl⟩, fun _ _ _ => ⟨rfl, rfl⟩,
    fun _ _ _ => ⟨rfl, rfl⟩, fun _ _ => ⟨rfl, rfl⟩, fun _ _ => ⟨rfl, rfl⟩, fun _ _ => ⟨rfl, rfl⟩,
    fun _ _ => ⟨rfl, rfl⟩, fun _ _ _ => ⟨rfl, rfl⟩⟩

/-- Setting up an instance fills its slots in the context of its placeholder. -/
theorem fills_setUp (hkeeps : app.KeepsSlots) {u : Uid} {node : Placeholder VNode}
    (hscoped : node.data.scopedSlots = []) (h : w.Awaits u node) :
    ((app.setUp u).run w).2.Fills u (VNode.resolveSlots node.children node.context) := by
  let listeners := ((w.instance? u).getD default).parentListeners
  let attached := ((Run.attach u listeners).run w).2
  let rendering := ((Run.update u Instance.rendering).run attached).2
  have hattached : attached.Awaits u node := awaits_attach u node listeners w h
  have hrendering : rendering.Fills u (VNode.resolveSlots node.children node.context) := by
    obtain ⟨i, hi, hnode, hchildren⟩ := hattached
    refine ⟨i.rendering, by rw [instance?_update_self, hi, Option.map_some], ?_, rfl, ?_⟩
    · show VNode.resolveSlots i.renderChildren (i.parentNode.bind (·.context)) = _
      rw [hchildren, hnode]
      rfl
    · intro node' hnode'
      have heq : i.parentNode = some node' := hnode'
      rw [hnode] at heq
      exact Option.some.inj heq ▸ hscoped
  rw [Application.setUp_run, run_bind, run_bind]
  exact preserves_whenFilled (hkeeps u _) fills_onInstances (fills_permits u)
    initializes_keepsSlots w.config.performance rendering hrendering

/-- An instance that is made for a placeholder has the slots that its children fill in the context
of the placeholder. -/
theorem fills_createChild (hkeeps : app.KeepsSlots) {p : Uid} (hp : p < w.instances.length)
    (node : Placeholder VNode) (hlives : w.definitionLives node.ctor.cid = true)
    (hscoped : node.data.scopedSlots = []) :
    let r := (app.createChild p node).run w
    ∃ u, r.1 = some u ∧ r.2.Fills u (VNode.resolveSlots node.children node.context) := by
  let fresh := w.childOf node.ctor.cid p ⟨node, none, none⟩
  rw [createChild_run, if_pos hlives, newChild_run, start_fst, start_snd]
  refine ⟨w.instances.length, rfl, ?_⟩
  have hplaced : (w.placed fresh).Awaits w.instances.length node := by
    refine ⟨fresh, ?_, rfl, rfl⟩
    exact (instance?_update_of_ne (Nat.ne_of_lt hp) _ _).trans List.getElem?_concat_length
  dsimp only
  exact pinned_of (awaits_onInstances _ node) fills_onInstances _
    (fun _ => fills_setUp hkeeps hscoped) hplaced

end

/-! ## The same use -/

namespace Application

variable (app : Application) (w : World)

/-- What a slot shows where a functional component renders. -/
def functionalSlot (cid : Cid) (call : FunctionalCall) (slot : String) (fallback : List Child) :
    Child :=
  ((app.inFunctional cid call fun _ uid => renderSlot uid slot fallback).run w).1

/-- What a slot shows in the component that is created behind a placeholder. -/
def createdSlot (vm : Uid) (node : Placeholder VNode) (slot : String) (fallback : List Child) :
    Option Child :=
  let created := (app.createChild vm node).run w
  created.1.map fun uid => ((renderSlot uid slot fallback).run created.2).1

end Application

section

variable {app : Application} {w : World} {vm : Uid} {bag : DataBag VNode}

theorem functionalSlot_ofUse (hkeeps : app.KeepsSlots) (hscoped : bag.scopedSlots = []) (cid : Cid)
    (props : List String) (children : List VNode) (slot : String) (fallback : List Child) :
    app.functionalSlot w cid (.ofUse vm bag props children) slot fallback =
      .ofSlot (VNode.resolveSlots children none) slot fallback :=
  inFunctional_renderSlot hkeeps cid ((scopedSlots_extractProps bag props).trans hscoped) slot
    fallback

theorem createdSlot_ofUse (hkeeps : app.KeepsSlots) (hvm : vm < w.instances.length)
    (hscoped : bag.scopedSlots = []) {ctor : ComponentRef}
    (hlives : w.definitionLives ctor.cid = true) (name tag : Option String) (props : List String)
    (children : List VNode) (slot : String) (fallback : List Child) :
    app.createdSlot w vm (.ofUse vm ctor name tag bag props children) slot fallback =
      some (.ofSlot (VNode.resolveSlots children (some vm)) slot fallback) := by
  let node := Placeholder.ofUse vm ctor name tag bag props children
  have hnode : node.data.scopedSlots = [] := (scopedSlots_extractProps bag props).trans hscoped
  obtain ⟨u, hu, hfills⟩ := fills_createChild hkeeps hvm node hlives hnode
  show ((app.createChild vm node).run w).1.map (fun uid => _) = _
  rw [hu, Option.map_some]
  exact congrArg (fun r : Child × World => some r.1) (hfills.renderSlot_run slot fallback)

/-- An instance uses a functional component and another one with the same children, all of them
rendered by some instance if they name slots. In the functional component the default slot shows all
children, and every other slot its fallback. The other component has the content that the children
give to its slots. So both show the same exactly if no child names another slot than the default
one, and no template names that. -/
theorem slots_agree_iff (hkeeps : app.KeepsSlots) (hvm : vm < w.instances.length)
    (hscoped : bag.scopedSlots = []) {children : List VNode}
    (hbuilt : ∀ v ∈ children, ∀ slot, v.slotName? = some slot → v.context? ≠ none)
    (functional : Cid) {ordinary : ComponentRef} (hlives : w.definitionLives ordinary.cid = true)
    (name tag : Option String) (props props' : List String) :
    let call := FunctionalCall.ofUse vm bag props children
    let node := Placeholder.ofUse vm ordinary name tag bag props' children
    (∀ slot fallback, app.functionalSlot w functional call slot fallback =
        if slot = "default" ∧ ∃ v ∈ children, v.isWhitespace = false then
          .ofNodes (children.map VNode.withoutSlotAttr)
        else .list fallback) ∧
      (∀ slot fallback, app.createdSlot w vm node slot fallback =
        some (.ofSlot (VNode.resolveSlots children (some vm)) slot fallback)) ∧
      ((∀ slot fallback, app.createdSlot w vm node slot fallback =
          some (app.functionalSlot w functional call slot fallback)) ↔
        ∀ v ∈ children, ∀ slot, v.NamesSlot (some vm) slot →
          slot = "default" ∧ v.tag? ≠ some "template") := by
  intro call node
  have hnone : ∀ v ∈ children, ∀ slot, ¬ v.NamesSlot none slot := by
    intro v hv slot hnames
    obtain ⟨hslot, hcontext⟩ := VNode.namesSlot_iff.1 hnames
    exact hbuilt v hv slot hslot hcontext
  have hcalled (slot : String) (fallback : List Child) :
      app.functionalSlot w functional call slot fallback =
        .ofSlot (VNode.resolveSlots children none) slot fallback :=
    functionalSlot_ofUse hkeeps hscoped functional props children slot fallback
  have hcreated (slot : String) (fallback : List Child) :=
    createdSlot_ofUse hkeeps hvm hscoped hlives name tag props' children slot fallback
  refine ⟨fun slot fallback => ?_, hcreated, ?_⟩
  · rw [hcalled, Child.ofSlot_resolveSlots, VNode.get?_resolveSlots_of_stays
      fun v hv slot hnames => absurd hnames (hnone v hv slot)]
    by_cases hshown : slot = "default" ∧ ∃ v ∈ children, v.isWhitespace = false
    · rw [if_pos hshown, if_pos hshown]
    · rw [if_neg hshown, if_neg hshown]
  · refine Iff.trans ?_ (VNode.resolveSlots_eq_iff hnone)
    refine forall_congr' fun slot => ?_
    refine Iff.trans (forall_congr' fun fallback => ?_) Child.ofSlot_congr_iff
    rw [hcalled, hcreated, Option.some_inj]
    exact eq_comm

end

/-! ## Named content -/

/-- The element factory sees the component as a functional one. -/
def World.isFunctional (w : World) (ctor : ComponentRef) : Bool :=
  ((Application.componentOptions ctor).run w).1.functional

/-- Options of a functional component. -/
def ComponentOptions.card : ComponentOptions :=
  { ComponentOptions.empty with functional := true }

/-- A definition, a functional one that extends it, both kept under names, and an instance of the
first. -/
def World.withCard : World :=
  { World.start .default with
    definitions :=
      [⟨none, 0, .empty, 0, none, .empty, .empty⟩, ⟨some 0, 0, .card, 0, some .empty, .card, .card⟩]
    instances := [.fresh 0 .empty]
    definitionNames := [("base", 0), ("card", 1)] }

/-- A paragraph that the instance renders for a slot. -/
def VNode.paragraphIn (slot : String) : VNode :=
  .element "p" (some { DataBag.empty with slot := some slot }) [] none (some 0)

theorem withCard_lives : World.withCard.definitionLives (ComponentRef.definition 0).cid = true := by
  decide +kernel

theorem withCard_functional : World.withCard.isFunctional (.definition 1) = true ∧
    World.withCard.isFunctional (.definition 0) = false := by
  decide +kernel

/-- A paragraph for the default slot is seen in both. -/
theorem slots_agree_paragraph :
    Code.idle.KeepsSlots ∧ 0 < World.withCard.instances.length ∧
      (DataBag.empty : DataBag VNode).scopedSlots = [] ∧
      World.withCard.definitionLives (ComponentRef.definition 0).cid = true ∧
      let children := [VNode.paragraphIn "default"]
      (∀ v ∈ children, ∀ slot, v.slotName? = some slot → v.context? ≠ none) ∧
      ∀ slot fallback,
        Code.idle.createdSlot .withCard 0 (.ofUse 0 (.definition 0) none none .empty [] children)
            slot fallback =
          some (Code.idle.functionalSlot .withCard 1 (.ofUse 0 .empty [] children) slot
            fallback) := by
  have hkeeps : Code.idle.KeepsSlots := fun _ _ => idle_preserves _
  have hbuilt : ∀ v ∈ [VNode.paragraphIn "default"], ∀ slot, v.slotName? = some slot →
      v.context? ≠ none := by
    rintro v hv slot - hnone
    rw [List.mem_singleton.1 hv] at hnone
    cases hnone
  have hstays : ∀ v ∈ [VNode.paragraphIn "default"], ∀ slot, v.NamesSlot (some 0) slot →
      slot = "default" ∧ v.tag? ≠ some "template" := by
    rintro v hv slot hnames
    rw [List.mem_singleton.1 hv] at hnames ⊢
    have hslot : some "default" = some slot := (VNode.namesSlot_iff.1 hnames).1
    exact ⟨(Option.some.inj hslot).symm, by decide⟩
  have hvm : 0 < World.withCard.instances.length := Nat.one_pos
  have hscoped : (DataBag.empty : DataBag VNode).scopedSlots = [] := rfl
  have h := slots_agree_iff hkeeps hvm hscoped hbuilt 1 withCard_lives none none [] []
  exact ⟨hkeeps, hvm, hscoped, withCard_lives, hbuilt, h.2.2.2 hstays⟩

/-- A paragraph for a slot of a name is not seen there in a functional component. -/
theorem slots_disagree :
    ¬ ∀ (app : Application) (w : World) (vm : Uid) (children : List VNode) (functional : Cid)
        (ordinary : ComponentRef), app.KeepsSlots → vm < w.instances.length →
        (∀ v ∈ children, v.context? = some vm) → w.definitionLives ordinary.cid = true →
        w.isFunctional (.definition functional) = true → w.isFunctional ordinary = false →
      ∀ slot fallback,
        app.createdSlot w vm (.ofUse vm ordinary none none .empty [] children) slot fallback =
          some (app.functionalSlot w functional (.ofUse vm .empty [] children) slot fallback) := by
  intro h
  have hkeeps : Code.idle.KeepsSlots := fun _ _ => idle_preserves _
  have hbuilt : ∀ v ∈ [VNode.paragraphIn "title"], v.context? = some 0 := by
    intro v hv
    rw [List.mem_singleton.1 hv]
    rfl
  have hsame := h Code.idle .withCard 0 [.paragraphIn "title"] 1 (.definition 0) hkeeps Nat.one_pos
    hbuilt withCard_lives withCard_functional.1 withCard_functional.2 "title" []
  rw [createdSlot_ofUse hkeeps Nat.one_pos rfl withCard_lives, functionalSlot_ofUse hkeeps rfl]
    at hsame
  -- In the one there is the paragraph, in the other nothing.
  have hlength := congrArg (Option.map fun c => c.nodes.length) hsame
  revert hlength
  decide +kernel

end ViewTree
