import Mathlib.Data.List.Perm.Basic
import ViewTree.Proofs.Dict
import ViewTree.VNode.Element
import ViewTree.VNode.Slots
/-!
# Every child goes to one slot

A child belongs to exactly one slot, and gives it itself or, as a template, its children. A slot
holds what the children that belong to it give, in their order, and is there if some of that shows.
So what belongs to the slots that are there is in them, nothing of it twice
(`resolveSlots_distributes`).
-/

namespace ViewTree

namespace VNode

/-- The node names the slot: it is an element with data, or a placeholder, that the context
rendered. -/
inductive NamesSlot (context : Option Uid) (name : String) : VNode → Prop
  | element {tag bag children ns} : bag.slot = some name →
    NamesSlot context name (element tag (some bag) children ns context)
  | component {c} : c.data.slot = some name → c.context = context →
    NamesSlot context name (component c)

/-- The node belongs to the slot that it names, else to the default slot. -/
inductive BelongsTo (context : Option Uid) (v : VNode) : String → Prop
  | named {name} : v.NamesSlot context name → BelongsTo context v name
  | unnamed : (∀ name, ¬ v.NamesSlot context name) → BelongsTo context v "default"

/-- The second node is the first without a `slot` attribute. -/
inductive LosesSlotAttr : VNode → VNode → Prop
  | element {tag bag children ns context} :
    LosesSlotAttr (element tag (some bag) children ns context)
      (element tag (some { bag with attrs := bag.attrs.erase "slot" }) children ns context)
  | bare {tag children ns context} :
    LosesSlotAttr (element tag none children ns context) (element tag none children ns context)
  | component {c} :
    LosesSlotAttr (component c)
      (component { c with data := { c.data with attrs := c.data.attrs.erase "slot" } })
  | text {t} : LosesSlotAttr (text t) (text t)
  | comment {t} : LosesSlotAttr (comment t) (comment t)

/-- The nodes that a node gives to its slot: a template that names the slot gives its children, any
other node gives itself, without a `slot` attribute. -/
inductive Gives (context : Option Uid) (v : VNode) : List VNode → Prop
  | children {name} : v.NamesSlot context name → v.tag? = some "template" →
    Gives context v v.children
  | itself {v'} : (∀ name, v.NamesSlot context name → v.tag? ≠ some "template") →
    v.LosesSlotAttr v' → Gives context v [v']

/-- The nodes that children give to slots of some kind, in the order of the children. -/
inductive Gather (context : Option Uid) (P : String → Prop) : List VNode → List VNode → Prop
  | nil : Gather context P [] []
  | take {v name given children nodes} : v.BelongsTo context name → P name →
    v.Gives context given → Gather context P children nodes →
      Gather context P (v :: children) (given ++ nodes)
  | pass {v name children nodes} : v.BelongsTo context name → ¬ P name →
    Gather context P children nodes → Gather context P (v :: children) nodes

section

variable {context : Option Uid} {v v' : VNode} {name : String} {given : List VNode}

/-! ## Where a node goes -/

theorem namesSlot_iff :
    v.NamesSlot context name ↔ v.slotName? = some name ∧ v.context? = context := by
  constructor
  · rintro (hslot | ⟨hslot, hcontext⟩)
    · exact ⟨hslot, rfl⟩
    · exact ⟨hslot, hcontext⟩
  · rintro ⟨hslot, hcontext⟩
    cases v with
    | element tag data children ns context' =>
      cases data with
      | none => cases hslot
      | some bag =>
        obtain rfl : context' = context := hcontext
        exact .element hslot
    | component c => exact .component hslot hcontext
    | text t => cases hslot
    | comment t => cases hslot

theorem NamesSlot.unique {name' : String} (h : v.NamesSlot context name)
    (h' : v.NamesSlot context name') : name = name' :=
  Option.some.inj ((namesSlot_iff.1 h).1.symm.trans (namesSlot_iff.1 h').1)

theorem BelongsTo.unique {name' : String} (h : v.BelongsTo context name)
    (h' : v.BelongsTo context name') : name = name' := by
  cases h with
  | named hnames =>
    cases h' with
    | named hnames' => exact hnames.unique hnames'
    | unnamed hnone => exact absurd hnames (hnone _)
  | unnamed hnone =>
    cases h' with
    | named hnames' => exact absurd hnames' (hnone _)
    | unnamed => rfl

theorem losesSlotAttr_iff : v.LosesSlotAttr v' ↔ v' = v.withoutSlotAttr := by
  constructor
  · rintro (_ | _ | _ | _ | _)
    all_goals rfl
  · rintro rfl
    cases v with
    | element tag data children ns context =>
      cases data with
      | none => exact .bare
      | some bag => exact .element
    | component c => exact .component
    | text t => exact .text
    | comment t => exact .comment

theorem Gives.unique {given' : List VNode} (h : v.Gives context given)
    (h' : v.Gives context given') : given = given' := by
  cases h with
  | children hnames htag =>
    cases h' with
    | children => rfl
    | itself hnone => exact absurd htag (hnone _ hnames)
  | itself hnone hloses =>
    cases h' with
    | children hnames htag => exact absurd htag (hnone _ hnames)
    | itself _ hloses' => rw [losesSlotAttr_iff.1 hloses, losesSlotAttr_iff.1 hloses']

/-- Losing an attribute leaves the tag and the children of a node alone. -/
theorem tag?_withoutSlotAttr (v : VNode) : v.withoutSlotAttr.tag? = v.tag? := by
  match v with
  | element _ none _ _ _ => rfl
  | element _ (some _) _ _ _ => rfl
  | component _ => rfl
  | text _ => rfl
  | comment _ => rfl

theorem children_withoutSlotAttr (v : VNode) : v.withoutSlotAttr.children = v.children := by
  match v with
  | element _ none _ _ _ => rfl
  | element _ (some _) _ _ _ => rfl
  | component _ => rfl
  | text _ => rfl
  | comment _ => rfl

/-- A node that names a slot goes there. -/
theorem NamesSlot.slotEntry_eq (h : v.NamesSlot context name) :
    v.slotEntry context =
      (name, if v.tag? = some "template" then v.children else [v.withoutSlotAttr]) := by
  obtain ⟨hslot, hcontext⟩ := namesSlot_iff.1 h
  unfold slotEntry
  simp only [hslot, if_pos hcontext, tag?_withoutSlotAttr, children_withoutSlotAttr]

/-- A node that names no slot goes to the default one. -/
theorem slotEntry_unnamed (h : ∀ name, ¬ v.NamesSlot context name) :
    v.slotEntry context = ("default", [v.withoutSlotAttr]) := by
  unfold slotEntry
  cases hslot : v.slotName? with
  | none => rfl
  | some name =>
    have hcontext : v.context? ≠ context := fun heq => h name (namesSlot_iff.2 ⟨hslot, heq⟩)
    simp only [if_neg hcontext]

theorem belongsTo_slotEntry (context : Option Uid) (v : VNode) :
    v.BelongsTo context (v.slotEntry context).1 := by
  by_cases h : ∃ name, v.NamesSlot context name
  · obtain ⟨name, hnames⟩ := h
    rw [hnames.slotEntry_eq]
    exact .named hnames
  · have hnone (name : String) : ¬ v.NamesSlot context name := fun hnames => h ⟨name, hnames⟩
    rw [slotEntry_unnamed hnone]
    exact .unnamed hnone

theorem gives_slotEntry (context : Option Uid) (v : VNode) :
    v.Gives context (v.slotEntry context).2 := by
  have hloses : v.LosesSlotAttr v.withoutSlotAttr := losesSlotAttr_iff.2 rfl
  by_cases h : ∃ name, v.NamesSlot context name
  · obtain ⟨name, hnames⟩ := h
    rw [hnames.slotEntry_eq]
    dsimp only
    split
    · rename_i htag
      exact .children hnames htag
    · rename_i htag
      exact .itself (fun _ _ => htag) hloses
  · have hnone (name : String) : ¬ v.NamesSlot context name := fun hnames => h ⟨name, hnames⟩
    rw [slotEntry_unnamed hnone]
    exact .itself (fun name hnames => absurd hnames (hnone name)) hloses

end

/-- Among the placeholders that the element factory makes, none is a template. -/
theorem placeholderTag_ne_template (cid : Nat) (name : Option String) :
    placeholderTag cid name ≠ "template" := by
  have hfirst (rest : String) : ("vue-component-" ++ rest).toList.head? = some 'v' := by
    rw [String.toList_append]
    rfl
  intro heq
  have hfirst' : (placeholderTag cid name).toList.head? = some 'v' := by
    unfold placeholderTag
    cases name with
    | none => exact hfirst _
    | some n =>
      have happend : "vue-component-" ++ toString cid ++ "-" ++ n =
          "vue-component-" ++ (toString cid ++ "-" ++ n) := by
        simp only [String.append_assoc]
      exact (congrArg (fun t => t.toList.head?) happend).trans (hfirst _)
  rw [heq] at hfirst'
  cases hfirst'

/-! ## What is gathered -/

/-- What children give to slots of some kind. -/
def gathered (context : Option Uid) (P : String → Prop) [DecidablePred P] (children : List VNode) :
    List VNode :=
  children.flatMap fun v =>
    if P (v.slotEntry context).1 then (v.slotEntry context).2 else []

section

variable {context : Option Uid} {P : String → Prop} [DecidablePred P] {v : VNode}
  {children nodes : List VNode}

theorem gathered_cons :
    gathered context P (v :: children) =
      (if P (v.slotEntry context).1 then (v.slotEntry context).2 else []) ++
        gathered context P children :=
  List.flatMap_cons

theorem gather_iff : Gather context P children nodes ↔ nodes = gathered context P children := by
  constructor
  · intro h
    induction h with
    | nil => rfl
    | take hbelongs hP hgives _ ih =>
      rw [hbelongs.unique (belongsTo_slotEntry _ _)] at hP
      rw [gathered_cons, if_pos hP, ← ih, hgives.unique (gives_slotEntry _ _)]
    | pass hbelongs hP _ ih =>
      rw [hbelongs.unique (belongsTo_slotEntry _ _)] at hP
      rw [gathered_cons, if_neg hP, ← ih, List.nil_append]
  · rintro rfl
    induction children with
    | nil => exact .nil
    | cons v children ih =>
      rw [gathered_cons]
      split
      · rename_i hP
        exact .take (belongsTo_slotEntry context v) hP (gives_slotEntry context v) ih
      · rename_i hP
        exact .pass (belongsTo_slotEntry context v) hP ih

/-- Slots one by one gather what they gather together. -/
theorem flatMap_gathered (context : Option Uid) (children : List VNode) {names : List String}
    (hnames : names.Nodup) :
    (names.flatMap fun name => gathered context (· = name) children).Perm
      (gathered context (· ∈ names) children) := by
  induction children with
  | nil => exact .of_eq (List.flatMap_eq_nil_iff.2 fun _ _ => rfl)
  | cons v children ih =>
    -- A node gives something to the one slot that it belongs to.
    have hown : (names.flatMap fun name =>
        if (v.slotEntry context).1 = name then (v.slotEntry context).2 else []) =
          if (v.slotEntry context).1 ∈ names then (v.slotEntry context).2 else [] := by
      clear ih
      induction names with
      | nil => rfl
      | cons name names ih =>
        obtain ⟨hnew, hnames⟩ := List.nodup_cons.1 hnames
        rw [List.flatMap_cons, ih hnames]
        by_cases heq : (v.slotEntry context).1 = name
        · subst heq
          rw [if_pos rfl, if_neg hnew, if_pos List.mem_cons_self, List.append_nil]
        · simp only [if_neg heq, List.nil_append, List.mem_cons, or_iff_right heq]
    simp only [gathered_cons]
    refine (List.flatMap_append_perm names _ _).symm.trans ?_
    rw [hown]
    exact ih.append_left _

end

/-! ## Grouping -/

/-- The slots when one more child has been put into its slot. -/
def enter (context : Option Uid) (slots : Dict (List VNode)) (v : VNode) : Dict (List VNode) :=
  slots.upsert (v.slotEntry context).1 [] (· ++ (v.slotEntry context).2)

theorem groupSlots_eq (children : List VNode) (context : Option Uid) :
    groupSlots children context = children.foldl (enter context) [] :=
  rfl

section

variable {context : Option Uid} {slots : Dict (List VNode)}

theorem getD_enter (v : VNode) (name : String) :
    ((enter context slots v).get? name).getD [] =
      (slots.get? name).getD [] ++
        if (v.slotEntry context).1 = name then (v.slotEntry context).2 else [] := by
  unfold enter Dict.upsert
  rw [Dict.get?_insert]
  split
  · rename_i heq
    subst heq
    rfl
  · exact (List.append_nil _).symm

theorem foldl_enter (children : List VNode) (name : String) :
    ((children.foldl (enter context) slots).get? name).getD [] =
      (slots.get? name).getD [] ++ gathered context (· = name) children := by
  induction children generalizing slots with
  | nil => exact (List.append_nil _).symm
  | cons v children ih => rw [List.foldl_cons, ih, getD_enter, gathered_cons, List.append_assoc]

theorem sorted_foldl_enter (hslots : slots.Sorted) (children : List VNode) :
    (children.foldl (enter context) slots).Sorted := by
  induction children generalizing slots with
  | nil => exact hslots
  | cons v children ih => exact ih (hslots.insert _ _)

end

theorem sorted_groupSlots (children : List VNode) (context : Option Uid) :
    (groupSlots children context).Sorted :=
  sorted_foldl_enter Dict.sorted_nil children

theorem sorted_resolveSlots (children : List VNode) (context : Option Uid) :
    (resolveSlots children context).Sorted :=
  (sorted_groupSlots children context).filter _

theorem all_isWhitespace_iff {nodes : List VNode} :
    (!nodes.all isWhitespace) = true ↔ ∃ v ∈ nodes, v.isWhitespace = false := by
  simp

/-- A slot is there if something in it shows. -/
theorem get?_resolveSlots (children : List VNode) (context : Option Uid) (name : String) :
    (resolveSlots children context).get? name =
      let nodes := gathered context (· = name) children
      if nodes.all isWhitespace then none else some nodes := by
  have hgroup : ((groupSlots children context).get? name).getD [] =
      gathered context (· = name) children := by
    rw [groupSlots_eq, foldl_enter]
    rfl
  unfold resolveSlots
  rw [(sorted_groupSlots children context).get?_filter fun nodes => !nodes.all isWhitespace,
    ← hgroup]
  cases (groupSlots children context).get? name with
  | none => rfl
  | some nodes =>
    rw [Option.filter_some]
    cases hblank : nodes.all isWhitespace with
    | true => simp [hblank]
    | false => simp [hblank]

theorem get?_resolveSlots_eq_some_iff {children nodes : List VNode} {context : Option Uid}
    {name : String} :
    (resolveSlots children context).get? name = some nodes ↔
      Gather context (· = name) children nodes ∧ ∃ v ∈ nodes, v.isWhitespace = false := by
  rw [get?_resolveSlots, gather_iff, ← all_isWhitespace_iff]
  dsimp only
  split
  · rename_i hblank
    constructor
    · intro hnone
      cases hnone
    · rintro ⟨rfl, hshows⟩
      rw [hblank] at hshows
      cases hshows
  · rename_i hshows
    constructor
    · rintro ⟨rfl⟩
      exact ⟨rfl, by simpa using hshows⟩
    · rintro ⟨rfl, -⟩
      rfl

/-- Together the slots that are there hold what the children give to them. -/
theorem values_resolveSlots (children : List VNode) (context : Option Uid) :
    let slots := resolveSlots children context
    slots.values.flatten.Perm (gathered context (· ∈ slots.keys) children) := by
  intro slots
  have hsorted := sorted_resolveSlots children context
  have hvalues : slots.values.flatten =
      slots.keys.flatMap fun name => gathered context (· = name) children := by
    have hentry : ∀ e ∈ slots, e.2 = gathered context (· = e.1) children := fun e he =>
      gather_iff.1 (get?_resolveSlots_eq_some_iff.1 (hsorted.get?_of_mem he)).1
    rw [Dict.values, Dict.keys, List.flatMap_map, ← List.flatMap_def]
    exact List.flatMap_congr hentry
  rw [hvalues]
  exact flatMap_gathered context children hsorted.nodup_keys

/-- Every child belongs to one slot and gives certain nodes to it. A slot is there if something in
it shows, and holds what the children that belong to it give, in their order. What the children give
to the slots that are there is what those hold together. -/
theorem resolveSlots_distributes (children : List VNode) (context : Option Uid) :
    let slots := resolveSlots children context
    (∀ v : VNode, (∃! name, v.BelongsTo context name) ∧ ∃! given, v.Gives context given) ∧
      slots.Sorted ∧
      (∀ name nodes, slots.get? name = some nodes ↔
        Gather context (· = name) children nodes ∧ ∃ v ∈ nodes, v.isWhitespace = false) ∧
      ∃! nodes, Gather context (· ∈ slots.keys) children nodes ∧
        slots.values.flatten.Perm nodes := by
  refine ⟨fun v => ⟨?_, ?_⟩, sorted_resolveSlots children context,
    fun name nodes => get?_resolveSlots_eq_some_iff, ?_⟩
  · exact ⟨_, belongsTo_slotEntry context v, fun name h => h.unique (belongsTo_slotEntry _ _)⟩
  · exact ⟨_, gives_slotEntry context v, fun given h => h.unique (gives_slotEntry _ _)⟩
  · exact ⟨_, ⟨gather_iff.2 rfl, values_resolveSlots children context⟩,
      fun nodes h => gather_iff.1 h.1⟩

end VNode

end ViewTree
