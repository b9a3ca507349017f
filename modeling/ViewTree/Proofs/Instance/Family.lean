import Mathlib.Logic.Relation
import ViewTree.Instance.Create
import ViewTree.Proofs.Instance.Destroying
/-!
# Instances come and go as a tree

Whatever instances are created, as roots or below others, and destroyed, their links form a forest
(`forest_steps`), if the code that is called neither creates nor destroys instances itself. So
every list of children is in the order of creation and has what its owner is the parent of, and an
instance's root is at the top of its ancestors. Destroying an instance tears down its subtree and
nothing else (`family_tornDown`).
-/

namespace ViewTree

open TeardownStep

section

variable {app : Application} {I : World → Prop} {L : Links} {H : Uid → Prop} {w : World}

/-! ## Making instances -/

theorem preserves_mergeOptions (hI : World.OnInstances I) (parent child : ComponentOptions)
    (forInstance : Bool) : Run.Preserves I (Run.mergeOptions parent child forInstance) := by
  have hwarn (messages : List String) : Run.Preserves I (Run.warnAll messages) := by
    induction messages with
    | nil => exact preserves_pure _
    | cons message messages ih => exact (preserves_warn hI _ _).bind fun _ => ih
  intro w hw
  exact hwarn _ _ (hI w _ rfl rfl hw)

theorem preserves_updateDefn (hI : World.OnInstances I) (cid : Cid) (f : Definition → Definition) :
    Run.Preserves I (Run.updateDefn cid f) :=
  hI.preserves_modify fun _ => ⟨rfl, rfl⟩

theorem preserves_resolveOptions (hI : World.OnInstances I) (cid : Cid) :
    Run.Preserves I (Run.resolveOptions cid) := by
  -- The induction is on the number, since a definition extends an older one.
  induction cid using Nat.strongRecOn with
  | ind cid ih =>
    have hdefn (cid : Cid) : Run.Preserves I (Run.defn cid) := fun _ hw => hw
    rw [Run.resolveOptions]
    refine (hdefn cid).bind fun d => ?_
    cases d.parent with
    | none => exact preserves_pure _
    | some parent =>
      dsimp only
      split
      · rename_i hlt
        refine (ih parent hlt).bind fun superOptions => (hdefn parent).bind fun p => ?_
        split
        · exact preserves_pure _
        · refine (preserves_updateDefn hI cid _).bind fun _ => ?_
          refine (preserves_mergeOptions hI _ _ _).bind fun merged => ?_
          exact (preserves_updateDefn hI cid _).bind fun _ => preserves_pure _
      · exact preserves_pure _

/-- The number of the instance that is made next is new. -/
theorem World.LinkedAs.lt_length (h : w.LinkedAs L H) {u : Uid} {l : Link} (hl : L u = some l) :
    u < w.instances.length := by
  obtain ⟨i, hi, -⟩ := Option.map_eq_some_iff.1 (h.linked u l hl)
  exact (List.getElem?_eq_some_iff.1 hi).1

/-- The state with an instance that is made, listed with its parent. -/
def World.placed (w : World) (fresh : Instance) : World :=
  match fresh.parent with
  | some p => ((Run.update p fun i => { i with children := i.children ++ [w.instances.length] }).run
    (w.add fresh)).2
  | none => w.add fresh

theorem start_fst (app : Application) (fresh : Instance) (w : World) :
    ((app.start fresh).run w).1 = w.instances.length := by
  unfold Application.start
  generalize app.setUp = setUp
  cases fresh.parent with
  | none => rfl
  | some p => rfl

theorem start_snd (app : Application) (fresh : Instance) (w : World) :
    ((app.start fresh).run w).2 =
      ((Run.pinned w.instances.length (app.setUp w.instances.length)).run (w.placed fresh)).2 := by
  unfold Application.start World.placed
  generalize app.setUp = setUp
  cases fresh.parent with
  | none => rfl
  | some p => rfl

/-- Making an instance adds its link, and lists it with its parent. -/
theorem linkedAs_start (hcalm : app.Calm) (h : w.LinkedAs L H) {fresh : Instance}
    (hparent : ∀ p, fresh.parent = some p → ∃ lp, L p = some lp) :
    ((app.start fresh).run w).2.LinkedAs (L.grow w.instances.length fresh.link) H := by
  let uid := w.instances.length
  let placed := w.placed fresh
  have hadded : (w.add fresh).LinkedAs (Function.update L uid (some fresh.link)) H := h.add fresh
  have hplaced : placed.LinkedAs (L.grow uid fresh.link) H := by
    unfold placed World.placed
    cases hp : fresh.parent with
    | none =>
      rw [Links.grow_root L uid hp]
      exact hadded
    | some p =>
      obtain ⟨lp, hlp⟩ := hparent p hp
      have hne : p ≠ uid := Nat.ne_of_lt (h.lt_length hlp)
      have hlp' : Function.update L uid (some fresh.link) p = some lp :=
        (Function.update_of_ne hne ..).trans hlp
      rw [Links.grow_below L hp hne hlp]
      exact hadded.update hlp' fun i hi => by
        subst hi
        rfl
  rw [start_snd]
  exact preserves_pinned linkedAs_onInstances uid
    (preserves_setUp (hcalm _ H) linkedAs_onInstances (linkedAs_permits uid) initializes_link
      fun _ => rfl) placed hplaced

/-! ## The forest is kept -/

/-- What is known to be a forest is one. -/
theorem Links.Forest.of_linkedAs (hforest : L.Forest H) (h : w.LinkedAs L H) :
    w.links.Forest w.Names :=
  hforest.extend h.kept h.linked h.detached

/-- A new root is a tree of its own. -/
theorem forest_start_root (hcalm : app.Calm) (hforest : L.Forest H) (h : w.LinkedAs L H)
    {fresh : Instance} (hfresh : fresh.link = .detached) :
    let w' := ((app.start fresh).run w).2
    w'.links.Forest w'.Names := by
  have hparent (p : Uid) (hp : fresh.parent = some p) : ∃ lp, L p = some lp := by
    have hnone : fresh.parent = none := congrArg Link.parent hfresh
    rw [hnone] at hp
    cases hp
  have hstart := linkedAs_start hcalm h hparent
  rw [hfresh] at hstart
  have hgrown : (L.grow w.instances.length .detached).Forest H := by
    refine hforest.extend (fun _ hu => hu) (fun u l hl => ?_) fun u l hnone hl => ?_
    · rw [Links.grow_other L (Nat.ne_of_lt (h.lt_length hl)) (Option.some_ne_none u).symm, hl]
    · by_cases hu : u = w.instances.length
      · subst hu
        rw [Links.grow_self] at hl
        exact (Option.some.inj hl).symm
      · rw [Links.grow_other L hu (Option.some_ne_none u).symm, hnone] at hl
        cases hl
  exact hgrown.of_linkedAs hstart

/-- The root that a new child gets is the one of its parent. -/
theorem root_eq (hforest : L.Forest H) (h : w.LinkedAs L H) {u : Uid} {l : Link}
    (hl : L u = some l) : w.root u = l.root.getD u := by
  obtain ⟨i, hi, rfl⟩ := Option.map_eq_some_iff.1 (h.linked u l hl)
  rw [World.root, hi]
  show ((i.root).filter w.alive).getD u = i.root.getD u
  cases hr : i.root with
  | none => rfl
  | some r =>
    have halive := (h.kept r (hforest.root_named u i.link r hl hr)).alive
    rw [Option.filter_some, if_pos halive]

/-- A new child is a leaf of the tree of its parent. -/
theorem forest_start_child (hcalm : app.Calm) (hforest : L.Forest H) (h : w.LinkedAs L H)
    {p : Uid} {lp : Link} (hlp : L p = some lp) (hp : H p) (hopen : lp.destroyed = false)
    {fresh : Instance} (hfresh : fresh.link = Links.childLink p lp) :
    let w' := ((app.start fresh).run w).2
    w'.links.Forest w'.Names := by
  have hparent : fresh.parent = some p := congrArg Link.parent hfresh
  have hlinked (q : Uid) (hq : fresh.parent = some q) : ∃ lq, L q = some lq := by
    rw [hparent] at hq
    cases hq
    exact ⟨lp, hlp⟩
  have hstart := linkedAs_start hcalm h hlinked
  rw [hfresh] at hstart
  exact (hforest.grow (fun u l hl => h.lt_length hl) hlp hp hopen).of_linkedAs hstart

/-- Something happens to the instances: one is made as a root or below another that is not torn
down, or is destroyed, or anything else happens that leaves the links alone. Instances that others
are made below are kept under names. -/
inductive Application.TreeStep (app : Application) (w : World) : World → Prop
  | create (definition : Cid) (options : ComponentOptions) :
    TreeStep app w ((app.newInstance definition options).run w).2
  | createChild {p : Uid} {i : Instance} (node : Placeholder VNode) :
    w.instance? p = some i → i.destroyed = false → w.Names p →
      TreeStep app w ((app.createChild p node).run w).2
  | createInternal {p : Uid} {i : Instance} (definition : Cid) (child : ChildOptions) :
    w.instance? p = some i → i.destroyed = false → w.Names p →
      TreeStep app w ((app.newChild definition p child).run w).2
  | destroy {vm : Uid} {i : Instance} : w.instance? vm = some i →
      TreeStep app w ((app.destroy vm).run w).2
  | other {w' : World} : (∀ L H, w.LinkedAs L H → w'.LinkedAs L H) → TreeStep app w w'

/-- An instance that is made below another, before it is initialized. -/
def World.childOf (w : World) (definition : Cid) (p : Uid) (child : ChildOptions) : Instance :=
  let options := ((w.definition? definition).getD default).options
  let options :=
    { options with
      render := child.render <|> options.render
      staticRenderFns := child.staticRenderFns.getD options.staticRenderFns }
  { Instance.fresh definition options with
    parent := some p
    root := some (w.root p)
    parentNode := some child.parentNode
    propsData := some child.parentNode.props
    parentListeners := child.parentNode.listeners
    renderChildren := child.parentNode.children
    componentTag := child.parentNode.componentTag }

theorem newChild_then (start : Instance → Run Uid) (w : World) (definition : Cid) (p : Uid)
    (child : ChildOptions) :
    (do
      let options := (← Run.defn definition).options
      let options :=
        { options with
          render := child.render <|> options.render
          staticRenderFns := child.staticRenderFns.getD options.staticRenderFns }
      let node := child.parentNode
      let root := (← get).root p
      start
        { Instance.fresh definition options with
          parent := some p
          root := some root
          parentNode := some node
          propsData := some node.props
          parentListeners := node.listeners
          renderChildren := node.children
          componentTag := node.componentTag } : Run Uid).run w =
      (start (w.childOf definition p child)).run w :=
  rfl

theorem newChild_run (app : Application) (w : World) (definition : Cid) (p : Uid)
    (child : ChildOptions) :
    (app.newChild definition p child).run w =
      (app.start (w.childOf definition p child)).run w :=
  newChild_then app.start w definition p child

theorem forest_newChild (hcalm : app.Calm) (hforest : w.links.Forest w.Names) {p : Uid}
    {i : Instance} (hi : w.instance? p = some i) (hopen : i.destroyed = false) (hp : w.Names p)
    (definition : Cid) (child : ChildOptions) :
    let w' := ((app.newChild definition p child).run w).2
    w'.links.Forest w'.Names := by
  have hlp : w.links p = some i.link := congrArg (Option.map Instance.link) hi
  rw [newChild_run]
  refine forest_start_child hcalm hforest w.linkedAs_self hlp hp hopen ?_
  rw [Links.childLink, ← root_eq hforest w.linkedAs_self hlp]
  rfl

/-- The options of a new root. -/
def Run.instanceOptions (definition : Cid) (options : ComponentOptions) : Run ComponentOptions := do
  mergeOptions (← resolveOptions definition) options true

theorem newInstance_run (app : Application) (w : World) (definition : Cid)
    (options : ComponentOptions) :
    let r := (Run.instanceOptions definition options).run w
    (app.newInstance definition options).run w =
      (app.start { Instance.fresh definition r.1 with propsData := options.propsData }).run
        r.2 := by
  unfold Application.newInstance
  generalize app.start = start
  rfl

theorem forest_newInstance (hcalm : app.Calm) (hforest : w.links.Forest w.Names)
    (definition : Cid) (options : ComponentOptions) :
    let w' := ((app.newInstance definition options).run w).2
    w'.links.Forest w'.Names := by
  have hmerged : ((Run.instanceOptions definition options).run w).2.LinkedAs w.links w.Names :=
    (preserves_resolveOptions linkedAs_onInstances definition).bind
      (fun resolved => preserves_mergeOptions linkedAs_onInstances resolved options true) w
      w.linkedAs_self
  rw [newInstance_run]
  exact forest_start_root hcalm hforest hmerged rfl

/-- What is created behind a placeholder, if its definition lives. -/
theorem createChild_run (app : Application) (w : World) (p : Uid) (node : Placeholder VNode) :
    (app.createChild p node).run w =
      if w.definitionLives node.ctor.cid then
        (some ((app.newChild node.ctor.cid p ⟨node, none, none⟩).run w).1,
          ((app.newChild node.ctor.cid p ⟨node, none, none⟩).run w).2)
      else
        (none, ((Run.warn s!"Unknown component definition: {node.tag}" (some p)).run w).2) := by
  have hrun : (app.createChild p node).run w =
      (if w.definitionLives node.ctor.cid then
          some <$> app.newChild node.ctor.cid p ⟨node, none, none⟩
        else do
          Run.warn s!"Unknown component definition: {node.tag}" (some p)
          pure none : Run (Option Uid)).run w := rfl
  have hsome (make : Run Uid) :
      (some <$> make).run w = (some (make.run w).1, (make.run w).2) := rfl
  rw [hrun]
  split
  · exact hsome _
  · rfl

theorem forest_createChild (hcalm : app.Calm) (hforest : w.links.Forest w.Names) {p : Uid}
    {i : Instance} (hi : w.instance? p = some i) (hopen : i.destroyed = false) (hp : w.Names p)
    (node : Placeholder VNode) :
    let w' := ((app.createChild p node).run w).2
    w'.links.Forest w'.Names := by
  rw [createChild_run]
  split
  · exact forest_newChild hcalm hforest hi hopen hp node.ctor.cid ⟨node, none, none⟩
  · exact hforest.of_linkedAs (preserves_warn linkedAs_onInstances _ _ w w.linkedAs_self)

/-- The steps of a teardown begin with just the instances of the subtree. -/
theorem mem_cons_begun {vm : Uid} {below : List TeardownStep}
    (ht : Teardown L.childrenOf (L.childrenOf vm) below) {u : Uid} :
    u ∈ vm :: begun below ↔ L.Under vm u := by
  rw [List.mem_cons, Links.mem_begun ht, ← Links.under_iff]

/-- An instance that is being torn down is not torn down again. -/
theorem destroy_again (app : Application) {vm : Uid} {i : Instance} (hi : w.instance? vm = some i)
    (hbegun : i.beingDestroyed = true) : (app.destroy vm).run w = ((), w) := by
  have hagain : (app.destroyWithin (w.instances.length + 1) vm).run w = ((), w) := by
    refine destroyWithin_again app w.instances.length ?_
    rw [hi]
    exact hbegun
  exact hagain

theorem forest_destroy (hcalm : app.Calm) (hforest : w.links.Forest w.Names) {vm : Uid}
    {i : Instance} (hi : w.instance? vm = some i) :
    let w' := ((app.destroy vm).run w).2
    w'.links.Forest w'.Names := by
  have hl : w.links vm = some i.link := congrArg (Option.map Instance.link) hi
  cases hbegun : i.beingDestroyed with
  | true =>
    rw [destroy_again app hi hbegun]
    exact hforest
  | false =>
    have hself := w.linkedAs_self
    have hopen : i.link.destroyed = false := (hforest.settled vm i.link hl).symm.trans hbegun
    obtain ⟨below, ht, -, hlinked, -⟩ :=
      destroy_eq hcalm hself hforest (fun u l => hself.lt_length) hl hopen
    exact (hforest.close hl fun u => mem_cons_begun ht).of_linkedAs hlinked

/-- Whatever happens, the links form a forest. -/
theorem forest_step (hcalm : app.Calm) (hforest : w.links.Forest w.Names) {w' : World}
    (hstep : app.TreeStep w w') : w'.links.Forest w'.Names := by
  cases hstep with
  | create definition options => exact forest_newInstance hcalm hforest definition options
  | createChild node hi hopen hp => exact forest_createChild hcalm hforest hi hopen hp node
  | createInternal definition child hi hopen hp =>
    exact forest_newChild hcalm hforest hi hopen hp definition child
  | destroy hi => exact forest_destroy hcalm hforest hi
  | other hsame => exact hforest.of_linkedAs (hsame _ _ w.linkedAs_self)

theorem forest_steps (hcalm : app.Calm) {w₀ : World} (hstart : w₀.instances = [])
    (hsteps : Relation.ReflTransGen app.TreeStep w₀ w) : w.links.Forest w.Names := by
  induction hsteps with
  | refl =>
    have hempty : w₀.links = fun _ => none := by
      funext u
      rw [World.links, World.instance?, hstart]
      rfl
    rw [hempty]
    exact Links.forest_empty _
  | tail _ hstep ih => exact forest_step hcalm ih hstep

/-! ## What a forest looks like -/

/-- The children of an instance are listed in the order of their creation, each by its parent only,
and the root of an instance is at the top of its ancestors. -/
structure World.FamilyTree (w : World) : Prop where
  ordered : ∀ p i, w.instance? p = some i → i.children.Pairwise (· < ·)
  parent : ∀ p i c, w.instance? p = some i → c ∈ i.children → w.parent? c = some p
  one_list : ∀ p q i j c, w.instance? p = some i → w.instance? q = some j → c ∈ i.children →
    c ∈ j.children → p = q
  root : ∀ u, w.root u = (w.ancestors u).getLastD u

theorem familyTree_of_forest (hforest : w.links.Forest w.Names) : w.FamilyTree := by
  have hself := w.linkedAs_self
  have hlink {u : Uid} {i : Instance} (hi : w.instance? u = some i) : w.links u = some i.link :=
    congrArg (Option.map Instance.link) hi
  have hparent {u p : Uid} {l : Link} (hl : w.links u = some l) (hp : l.parent = some p) :
      w.parent? u = some p := by
    have halive : w.alive p := (hforest.parent_named u l p hl hp).alive
    rw [World.parent?_eq hself hl, hp, Option.filter_some, if_pos halive]
  refine ⟨fun p i hi => hforest.ordered p i.link (hlink hi), fun p i c hi hc => ?_,
    fun p q i j c hi hj hc hc' => hforest.parent_unique (hlink hi) (hlink hj) hc hc', fun u => ?_⟩
  · obtain ⟨lc, hlc, hp, -⟩ := hforest.parent_of_mem (hlink hi) hc
    exact hparent hlc hp
  · -- The induction is on the number, since parents are older.
    induction u using Nat.strongRecOn with
    | ind u ih =>
      rw [World.ancestors]
      cases hl : w.links u with
      | none =>
        have hnone : w.instance? u = none := Option.map_eq_none_iff.1 hl
        rw [World.root, World.parent?, hnone]
        rfl
      | some l =>
        rw [root_eq hforest hself hl]
        cases hp : l.parent with
        | none =>
          rw [World.parent?_eq hself hl, hp, hforest.root_none u l hl hp]
          rfl
        | some p =>
          have hlt := hforest.parent_lt u l p hl hp
          obtain ⟨lp, hlp⟩ := hforest.parent_linked u l p hl hp
          rw [hparent hl hp, hforest.root_some u l p lp hl hp hlp]
          show lp.root.getD p = (if p < u then p :: w.ancestors p else []).getLastD u
          rw [if_pos hlt, List.getLastD_cons, ← ih p hlt, root_eq hforest hself hlp]

end

end ViewTree
