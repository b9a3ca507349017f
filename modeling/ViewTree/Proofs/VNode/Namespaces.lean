import ViewTree.Application.Bare
import ViewTree.Proofs.VNode.Normalizing
/-!
# Namespaces from the leaves upwards

The element factory is called for children before their parents, and every call hands the
namespace of its own tag down to what it finds below. `VNode.named` says where namespaces come
from as a rule that is read from the root downwards. A tree that is built from its leaves has the
namespaces of the rule (`namespaces_topDown`).
-/

namespace ViewTree

/-! ## The rule -/

/-- Elements below stand in a foreign object with no `svg` in between. The tags above them are
given from the nearest on. -/
def inForeign (above : List String) : Bool :=
  (above.takeWhile (· != "svg")).contains "foreignObject"

/-- The namespace of an element with a tag. In a foreign object there is none, save for `svg`
itself; elsewhere it is the tag's own, or else that of the parent. -/
def namespaceBelow : List String → String → Option String
  | [], tag => Platform.tagNamespace tag
  | parent :: above, tag =>
    if inForeign (parent :: above) then if tag = "svg" then some "svg" else none
    else Platform.tagNamespace tag <|> namespaceBelow above parent

namespace VNode

mutual

/-- The node with the namespaces of the rule, where it stands below elements with these tags. -/
def named (above : List String) : VNode → VNode
  | element tag data children _ context =>
    element tag data (namedAll (tag :: above) children) (namespaceBelow above tag) context
  | component c => component c
  | text t => text t
  | comment t => comment t

/-- The nodes with the namespaces of the rule. -/
def namedAll (above : List String) : List VNode → List VNode
  | [] => []
  | v :: vs => named above v :: namedAll above vs

end

mutual

/-- The node with all namespaces taken off. -/
def unnamed : VNode → VNode
  | element tag data children _ context => element tag data (unnamedAll children) none context
  | component c => component c
  | text t => text t
  | comment t => comment t

/-- The nodes with all namespaces taken off. -/
def unnamedAll : List VNode → List VNode
  | [] => []
  | v :: vs => unnamed v :: unnamedAll vs

end

end VNode

/-! ## Trees that are built from their leaves -/

/-- What a render function writes down: elements under tag names, with their data, their children
and how these are to be normalized, and what else can stand among children. -/
inductive Sketch where
  | element (tag : String) (data : Option (DataBag VNode)) (children : List Sketch)
      (mode : Normalization) (always : Bool)
  | text (t : String)
  | comment (t : String)
  | group (items : List Sketch)
  | nothing

/-- The data argument of a call with or without a bag. -/
def DataArg.ofBag? : Option (DataBag VNode) → DataArg
  | some bag => .data bag
  | Option.none => .none

namespace Sketch

mutual

/-- Builds a tree by calls of the element factory, children first. -/
def build {m : Type → Type} [Monad m] (ctx : RenderContext m) : Sketch → m Child
  | element tag data children mode always => do
    let children ← buildAll ctx children
    let rendered ←
      createElement ctx (some (.html tag)) (.ofBag? data) (some children) mode always
    pure rendered.toChild
  | text t => pure (.text t)
  | comment t => pure (.node (.comment t))
  | group items => do
    let items ← buildAll ctx items
    pure (.list items)
  | nothing => pure .empty

/-- Builds trees in order. -/
def buildAll {m : Type → Type} [Monad m] (ctx : RenderContext m) : List Sketch → m (List Child)
  | [] => pure []
  | t :: ts => do
    let child ← build ctx t
    let children ← buildAll ctx ts
    pure (child :: children)

end

mutual

/-- The tree as it is written down, without namespaces. -/
def tree (id : Uid) : Sketch → Child
  | element tag data children mode always =>
    .node (.element tag data
      (Child.normalize (if always then .always else mode) (treeAll id children)) none (some id))
  | text t => .text t
  | comment t => .node (.comment t)
  | group items => .list (treeAll id items)
  | nothing => .empty

/-- The trees as they are written down. -/
def treeAll (id : Uid) : List Sketch → List Child
  | [] => []
  | t :: ts => tree id t :: treeAll id ts

end

/-- The factory builds an element for the tag and data: there is a tag name and nothing else to go
by, no component is registered for it, and the data is fresh. -/
def BuildsElement (components : String → Option ComponentRef) (tag : String)
    (data : Option (DataBag VNode)) : Prop :=
  tag ≠ "" ∧ (Platform.isReservedTag tag ∨ components tag = none) ∧
    ∀ bag ∈ data, bag.observed = false ∧ bag.is.isNone

mutual

/-- All tags stand for elements. -/
def OfElements (components : String → Option ComponentRef) : Sketch → Prop
  | element tag data children _ _ =>
    BuildsElement components tag data ∧ AllOfElements components children
  | text _ => True
  | comment _ => True
  | group items => AllOfElements components items
  | nothing => True

/-- All tags of the trees stand for elements. -/
def AllOfElements (components : String → Option ComponentRef) : List Sketch → Prop
  | [] => True
  | t :: ts => OfElements components t ∧ AllOfElements components ts

end

end Sketch

/-! ## Handing namespaces down -/

section

variable {above above' : List String} {tag : String}

theorem inForeign_cons (above : List String) (tag : String) :
    inForeign (tag :: above) = (tag == "foreignObject" || (tag != "svg" && inForeign above)) := by
  unfold inForeign
  rw [List.takeWhile_cons]
  by_cases hsvg : tag = "svg"
  · subst hsvg
    rfl
  · rw [if_pos (bne_iff_ne.2 hsvg), List.contains_cons, bne_iff_ne.2 hsvg, Bool.true_and,
      Bool.beq_comm]

/-- The namespace that an element inherits where it stands. -/
def inherited : List String → Option String
  | [] => none
  | parent :: above => namespaceBelow above parent

theorem namespaceBelow_foreign (h : inForeign above = true) (tag : String) :
    namespaceBelow above tag = if tag = "svg" then some "svg" else none := by
  cases above with
  | nil => cases h
  | cons parent above => rw [namespaceBelow, if_pos h]

theorem namespaceBelow_plain (h : inForeign above = false) (tag : String) :
    namespaceBelow above tag = (Platform.tagNamespace tag).or (inherited above) := by
  cases above with
  | nil => exact (Option.or_none).symm
  | cons parent above =>
    rw [namespaceBelow, h, if_neg Bool.false_ne_true]
    cases Platform.tagNamespace tag <;> rfl

/-- An `svg` element is in its namespace wherever it stands. -/
theorem namespaceBelow_svg (above : List String) : namespaceBelow above "svg" = some "svg" := by
  cases h : inForeign above with
  | true => rw [namespaceBelow_foreign h, if_pos rfl]
  | false =>
    have hsvg : Platform.tagNamespace "svg" = some "svg" := by decide
    rw [namespaceBelow_plain h, hsvg, Option.some_or]

/-- A tag without a namespace of its own does not begin a foreign object. -/
theorem ne_foreignObject (h : Platform.tagNamespace tag = none) : tag ≠ "foreignObject" := by
  rintro rfl
  exact absurd h (by decide)

/-- Below a tag without a namespace of its own it is as it is above. -/
theorem inForeign_below (h : Platform.tagNamespace tag = none)
    (habove : inForeign above = false) : inForeign (tag :: above) = false := by
  rw [inForeign_cons, habove, Bool.and_false, Bool.or_false, beq_eq_false_iff_ne]
  exact ne_foreignObject h

/-- Two places are the same for the elements that stand there. -/
def Alike (above above' : List String) : Prop :=
  inForeign above = inForeign above' ∧
    (inForeign above = false → inherited above = inherited above')

theorem Alike.namespaceBelow (h : Alike above above') (tag : String) :
    namespaceBelow above tag = namespaceBelow above' tag := by
  cases hforeign : inForeign above with
  | true => rw [namespaceBelow_foreign hforeign, namespaceBelow_foreign (h.1 ▸ hforeign)]
  | false =>
    rw [namespaceBelow_plain hforeign, namespaceBelow_plain (h.1 ▸ hforeign), h.2 hforeign]

theorem Alike.cons (h : Alike above above') (tag : String) : Alike (tag :: above) (tag :: above') :=
  ⟨by rw [inForeign_cons, inForeign_cons, h.1], fun _ => h.namespaceBelow tag⟩

/-- Below an `svg` element it does not matter what is above it. -/
theorem alike_svg (above above' : List String) : Alike ("svg" :: above) ("svg" :: above') :=
  ⟨by rw [inForeign_cons, inForeign_cons]; rfl,
    fun _ => (namespaceBelow_svg above).trans (namespaceBelow_svg above').symm⟩

end

namespace VNode

/-- Elements, texts and comments, without namespaces so far. -/
inductive Bare : VNode → Prop where
  | element {tag : String} {data : Option (DataBag VNode)} {children : List VNode}
      {context : Option Uid} (h : ∀ v ∈ children, Bare v) :
      Bare (.element tag data children none context)
  | text (t : String) : Bare (.text t)
  | comment (t : String) : Bare (.comment t)

/-- A child with the namespace handed down to it, if it takes it. -/
def handDown (ns : Option String) (force : Bool) (v : VNode) : VNode :=
  if v.takesNs force then applyNs ns force v else v

/-- The node with a namespace assigned to it, if there is one. -/
def assigned (ns : Option String) (v : VNode) : VNode :=
  if ns.isSome then applyNs ns false v else v

theorem namedAll_eq_map (above : List String) (vs : List VNode) :
    namedAll above vs = vs.map (named above) := by
  induction vs with
  | nil => rfl
  | cons v vs ih => rw [namedAll, ih, List.map_cons]

theorem unnamedAll_eq_map (vs : List VNode) : unnamedAll vs = vs.map unnamed := by
  induction vs with
  | nil => rfl
  | cons v vs ih => rw [unnamedAll, ih, List.map_cons]

theorem applyNsAll_eq_map (ns : Option String) (force : Bool) (vs : List VNode) :
    applyNsAll ns force vs = vs.map (handDown ns force) := by
  induction vs with
  | nil => rfl
  | cons v vs ih => rw [applyNsAll, ih, List.map_cons, handDown]

theorem named_element (above : List String) (tag : String) (data : Option (DataBag VNode))
    (children : List VNode) (ns : Option String) (context : Option Uid) :
    named above (.element tag data children ns context) =
      .element tag data (children.map (named (tag :: above))) (namespaceBelow above tag)
        context := by
  rw [named, namedAll_eq_map]

/-- A namespace assigned to an element goes down to its children; below a foreign object it is
taken back. -/
theorem applyNs_element (ns : Option String) (force : Bool) (tag : String)
    (data : Option (DataBag VNode)) (children : List VNode) (ns' : Option String)
    (context : Option Uid) :
    applyNs ns force (.element tag data children ns' context) =
      .element tag data
        (children.map (if tag = "foreignObject" then handDown none true else handDown ns force))
        ns context := by
  rw [applyNs]
  split <;> rw [applyNsAll_eq_map]

/-- An element that has a namespace keeps it, and one that has none takes what is handed down. -/
theorem handDown_element (ns : Option String) (tag : String) (data : Option (DataBag VNode))
    (children : List VNode) (ns' : Option String) (context : Option Uid) :
    handDown ns false (.element tag data children ns' context) =
      if ns'.isNone then applyNs ns false (.element tag data children ns' context)
      else .element tag data children ns' context := by
  cases ns' <;> rfl

/-- Where it is forced, only an `svg` element keeps its namespace. -/
theorem handDown_forced (ns : Option String) (tag : String) (data : Option (DataBag VNode))
    (children : List VNode) (ns' : Option String) (context : Option Uid) :
    handDown ns true (.element tag data children ns' context) =
      if ns'.isNone || tag != "svg" then applyNs ns true (.element tag data children ns' context)
      else .element tag data children ns' context :=
  rfl

section

variable {above above' : List String} {v : VNode}

theorem Bare.unnamed_named (h : v.Bare) (above : List String) : unnamed (named above v) = v := by
  induction h generalizing above with
  | element hchildren ih =>
    rw [named_element, unnamed, unnamedAll_eq_map, List.map_map]
    congr 1
    exact (List.map_congr_left fun v hv => ih v hv _).trans (List.map_id' _)
  | text t => rfl
  | comment t => rfl

/-- In places that are alike a node gets the same namespaces. -/
theorem Bare.named_congr (h : v.Bare) (halike : Alike above above') :
    named above v = named above' v := by
  induction h generalizing above above' with
  | @element tag data children context hchildren ih =>
    rw [named_element, named_element, halike.namespaceBelow tag]
    congr 1
    exact List.map_congr_left fun v hv => ih v hv (halike.cons tag)
  | text t => rfl
  | comment t => rfl

/-- In a foreign object namespaces are taken back, whatever they were before. -/
theorem Bare.handDown_foreign (h : v.Bare) (hforeign : inForeign above = true)
    (above' : List String) : handDown none true (named above' v) = named above v := by
  induction h generalizing above above' with
  | @element tag data children context hchildren ih =>
    rw [named_element, named_element, handDown_forced]
    by_cases hsvg : tag = "svg"
    · subst hsvg
      rw [namespaceBelow_svg, namespaceBelow_svg, if_neg (by decide)]
      congr 1
      exact List.map_congr_left fun v hv => (hchildren v hv).named_congr (alike_svg above' above)
    · have hbelow : inForeign (tag :: above) = true := by
        rw [inForeign_cons, bne_iff_ne.2 hsvg, hforeign, Bool.true_and, Bool.or_true]
      rw [if_pos (by simp [hsvg]), applyNs_element, ite_self, List.map_map,
        namespaceBelow_foreign hforeign, if_neg hsvg]
      congr 1
      exact List.map_congr_left fun v hv => ih v hv hbelow _
  | text t => rfl
  | comment t => rfl

/-- Elsewhere a namespace goes down to all that have none so far. -/
theorem Bare.handDown_plain (h : v.Bare) (hplain : inForeign above = false)
    (hplain' : inForeign above' = false)
    (hns : inherited above' = none ∨ inherited above' = inherited above) :
    handDown (inherited above) false (named above' v) = named above v := by
  induction h generalizing above above' with
  | @element tag data children context hchildren ih =>
    have hcons : inForeign (tag :: above') = inForeign (tag :: above) := by
      rw [inForeign_cons, inForeign_cons, hplain, hplain']
    -- Where the element has its namespace already, so has everything below it.
    have hkept {n : String} (hn : namespaceBelow above' tag = some n)
        (heq : namespaceBelow above tag = some n) :
        handDown (inherited above) false (named above' (.element tag data children none context)) =
          named above (.element tag data children none context) := by
      rw [named_element, named_element, handDown_element, hn, heq, if_neg (by simp)]
      congr 1
      exact List.map_congr_left fun v hv =>
        (hchildren v hv).named_congr ⟨hcons, fun _ => hn.trans heq.symm⟩
    have habove := namespaceBelow_plain hplain tag
    have habove' := namespaceBelow_plain hplain' tag
    cases hown : Platform.tagNamespace tag with
    | some n =>
      rw [hown, Option.some_or] at habove habove'
      exact hkept habove' habove
    | none =>
      rw [hown, Option.none_or] at habove habove'
      cases hnone : inherited above' with
      | some n =>
        have hsome : inherited above = some n := by
          rcases hns with hns | hns
          · rw [hnone] at hns
            cases hns
          · rw [← hns, hnone]
        exact hkept (habove'.trans hnone) (habove.trans hsome)
      | none =>
        rw [named_element, named_element, handDown_element, habove', hnone, if_pos (by decide),
          applyNs_element, if_neg (ne_foreignObject hown), List.map_map, habove]
        congr 1
        refine List.map_congr_left fun v hv => ?_
        have hdown := ih v hv (inForeign_below hown hplain) (inForeign_below hown hplain')
          (.inl (habove'.trans hnone))
        rwa [inherited, habove] at hdown
  | text t => rfl
  | comment t => rfl

/-- An element takes the namespace of its own tag and hands it down to children that were built
before it, or that have been named below it already. -/
theorem applyNs_named {tag : String} {data : Option (DataBag VNode)} {children : List VNode}
    {context : Option Uid} (hchildren : ∀ v ∈ children, v.Bare) (ns : Option String)
    (habove : above = [] ∨ above = [tag]) :
    applyNs (Platform.tagNamespace tag) false
        (.element tag data (children.map (named above)) ns context) =
      named [] (.element tag data children none context) := by
  rw [applyNs_element, named_element, List.map_map]
  congr 1
  refine List.map_congr_left fun v hv => ?_
  by_cases htag : tag = "foreignObject"
  · subst htag
    rw [if_pos rfl]
    exact (hchildren v hv).handDown_foreign (by decide) above
  · rw [if_neg htag]
    have hplain : inForeign [tag] = false := by
      rw [inForeign_cons, beq_eq_false_iff_ne.2 htag, Bool.false_or]
      exact Bool.and_false _
    rcases habove with rfl | rfl
    · exact (hchildren v hv).handDown_plain hplain rfl (.inl rfl)
    · exact (hchildren v hv).handDown_plain hplain hplain (.inr rfl)

/-- The namespace of its own tag is all that an element needs, once its children are built. -/
theorem named_assigned {tag : String} {data : Option (DataBag VNode)} {children : List VNode}
    {context : Option Uid} (hchildren : ∀ v ∈ children, v.Bare) :
    assigned (Platform.tagNamespace tag)
        (.element tag data (children.map (named [])) none context) =
      named [] (.element tag data children none context) := by
  unfold assigned
  split
  · exact applyNs_named hchildren none (.inl rfl)
  · rename_i hnone
    have hown : Platform.tagNamespace tag = none := Option.not_isSome_iff_eq_none.1 hnone
    have hns : namespaceBelow [] tag = none := hown
    rw [named_element, hns]
    refine congrArg (fun cs => VNode.element tag data cs none context) ?_
    exact List.map_congr_left fun v hv =>
      (hchildren v hv).named_congr ⟨(inForeign_below hown rfl).symm, fun _ => hns.symm⟩

/-- Naming leaves texts as they are, and makes no texts of other nodes. -/
theorem keepsTexts_named (above : List String) : Child.KeepsTexts (named above) where
  text _ := rfl
  other {v} hv := by
    cases v with
    | element tag data children ns context =>
      rw [named_element]
      rfl
    | component c => rfl
    | text t => cases hv
    | comment t => rfl

end

end VNode

/-! ## Calls of the factory -/

/-- A run gives a value, whatever state it starts in. -/
def Gives {σ α : Type} (act : StateM σ α) (a : α) : Prop :=
  ∀ s, (act.run s).1 = a

section

variable {σ α β : Type}

theorem gives_pure (a : α) : Gives (pure a : StateM σ α) a :=
  fun _ => rfl

theorem Gives.bind {act : StateM σ α} {f : α → StateM σ β} {a : α} {b : β} (h : Gives act a)
    (hf : Gives (f a) b) : Gives (act >>= f) b := by
  intro s
  show ((f (act.run s).1).run (act.run s).2).1 = b
  rw [h s]
  exact hf _

/-- What is done first does not matter, if it gives nothing. -/
theorem Gives.after {act : StateM σ Unit} {f : Unit → StateM σ β} {b : β} (hf : Gives (f ()) b) :
    Gives (act >>= f) b :=
  fun s => hf (act.run s).2

variable {ctx : RenderContext (StateM σ)}

theorem gives_finishElement (v : VNode) (ns : Option String) :
    Gives (finishElement ctx (some (.node v)) ns)
      (.node (v.assigned ns)) := by
  unfold finishElement
  dsimp only
  split
  · exact .after (gives_pure _)
  · exact gives_pure _

theorem gives_buildTag (hns : ctx.placeholderNs = none) {tag : String}
    (h : Platform.isReservedTag tag ∨ ctx.resolveComponent tag = none)
    (data : Option (DataBag VNode)) (children : List VNode) :
    Gives (buildTag ctx (.html tag) data children)
      (some (.node (.element tag data children none (some ctx.id))),
        Platform.tagNamespace tag) := by
  unfold buildTag
  rw [hns]
  dsimp only
  rcases h with hreserved | hnone
  · rw [if_pos hreserved]
    exact gives_pure _
  · rw [hnone]
    split
    · exact gives_pure _
    · exact gives_pure _

/-- The factory builds the element with its children normalized, and hands the namespace of the
tag down. -/
theorem gives_createElement (hns : ctx.placeholderNs = none) {tag : String}
    {data : Option (DataBag VNode)} (h : Sketch.BuildsElement ctx.resolveComponent tag data)
    {children : List Child} (hslot : ∀ s, children.head? ≠ some (.slot s)) (mode : Normalization)
    (always : Bool) :
    Gives (createElement ctx (some (.html tag)) (.ofBag? data) (some children) mode always)
      (.node (.assigned (Platform.tagNamespace tag) (.element tag data
        (Child.normalize (if always then .always else mode) children) none (some ctx.id)))) := by
  obtain ⟨htag, hplain, hbag⟩ := h
  have hdata : (DataArg.ofBag? data).bag? = data := by cases data <;> rfl
  have hchildren : (DataArg.ofBag? data).childrenOr (some children) = some children := by
    cases data <;> rfl
  have hfresh : data.filter (·.observed) = none := by
    rw [Option.filter_eq_none_iff]
    intro bag hmem
    rw [(hbag bag hmem).1]
    exact Bool.false_ne_true
  have hresolved : ((data.bind (·.is)) <|> some (TagRef.html tag)).bind TagRef.resolved =
      some (.html tag) := by
    have his : data.bind (·.is) = none := by
      cases data with
      | none => rfl
      | some bag => exact Option.isNone_iff_eq_none.1 (hbag bag rfl).2
    rw [his]
    exact if_neg htag
  have hadopt : adoptSlot data children = (data, children) := by
    unfold adoptSlot
    split
    · exact absurd rfl (hslot _)
    · rfl
  simp only [createElement, hdata, hchildren, Option.getD_some, hfresh, hresolved, hadopt]
  have hfinish (cs : List VNode) : Gives
      (buildTag ctx (.html tag) data cs >>= fun built => finishElement ctx built.1 built.2) _ :=
    (gives_buildTag hns hplain data cs).bind (gives_finishElement _ _)
  split
  · exact .after (hfinish _)
  · exact hfinish _

end

namespace Sketch

section

variable {id : Uid} {components : String → Option ComponentRef}

mutual

theorem bare_tree (id : Uid) : ∀ t, ∀ v ∈ Child.nodes (tree id t), v.Bare
  | element tag data children mode always => by
    refine List.forall_mem_singleton.2 (.element ?_)
    exact Child.all_normalize VNode.Bare.text _ (bare_treeAll id children)
  | text t => List.forall_mem_singleton.2 (.text t)
  | comment t => List.forall_mem_singleton.2 (.comment t)
  | group items => bare_treeAll id items
  | nothing => fun _ hv => absurd hv List.not_mem_nil

theorem bare_treeAll (id : Uid) : ∀ ts, ∀ v ∈ Child.nodesAll (treeAll id ts), v.Bare
  | [] => fun _ hv => absurd hv List.not_mem_nil
  | t :: ts => List.forall_mem_append.2 ⟨bare_tree id t, bare_treeAll id ts⟩

end

end

section

variable {σ : Type} {ctx : RenderContext (StateM σ)}

mutual

/-- What is built is what is written down, with the namespaces of the rule. -/
theorem gives_build (hns : ctx.placeholderNs = none) :
    ∀ t, OfElements ctx.resolveComponent t →
      Gives (build ctx t) ((tree ctx.id t).map (VNode.named []))
  | element tag data children mode always, ht => by
    have hchildren := gives_buildAll hns children ht.2
    have hslot (s : ScopedSlot) :
        (Child.mapAll (VNode.named []) (treeAll ctx.id children)).head? ≠ some (.slot s) := by
      cases children with
      | nil => exact fun h => nomatch h
      | cons t ts => cases t <;> exact fun h => nomatch h
    have hcreate := gives_createElement hns ht.1 hslot mode always
    rw [Child.normalize_map (VNode.keepsTexts_named [])] at hcreate
    rw [VNode.named_assigned (Child.all_normalize VNode.Bare.text _ (bare_treeAll ctx.id children))]
      at hcreate
    exact hchildren.bind (hcreate.bind (gives_pure _))
  | text t, _ => gives_pure _
  | comment t, _ => gives_pure _
  | group items, ht => (gives_buildAll hns items ht).bind (gives_pure _)
  | nothing, _ => gives_pure _

theorem gives_buildAll (hns : ctx.placeholderNs = none) :
    ∀ ts, AllOfElements ctx.resolveComponent ts →
      Gives (buildAll ctx ts) (Child.mapAll (VNode.named []) (treeAll ctx.id ts))
  | [], _ => gives_pure _
  | t :: ts, hts =>
    (gives_build hns t hts.1).bind ((gives_buildAll hns ts hts.2).bind (gives_pure _))

end

end

end Sketch

/-! ## The law -/

/-- An element that is built from its leaves is the element that was written down, with the
namespaces of the rule: that they come from the root is not seen by the calls, which begin at the
leaves. To assign its namespace once more changes nothing, and without namespaces it is what was
written down. -/
theorem namespaces_topDown {σ : Type} {ctx : RenderContext (StateM σ)}
    (hns : ctx.placeholderNs = none) {t : Sketch} (ht : t.OfElements ctx.resolveComponent)
    {v : VNode} (hv : t.tree ctx.id = .node v) :
    Gives (t.build ctx) (.node (v.named [])) ∧
      (v.named []).applyNs (v.named []).ns? false = v.named [] ∧ (v.named []).unnamed = v := by
  have hbare : v.Bare := by
    have hnodes := Sketch.bare_tree ctx.id t
    rw [hv] at hnodes
    exact hnodes v (List.mem_singleton.2 rfl)
  refine ⟨?_, ?_, hbare.unnamed_named []⟩
  · have hbuild := Sketch.gives_build hns t ht
    rwa [hv] at hbuild
  · cases hbare with
    | @element tag data children context hchildren =>
      rw [VNode.named_element]
      exact (VNode.applyNs_named hchildren _ (.inr rfl)).trans (VNode.named_element ..)
    | text t => rfl
    | comment t => rfl

/-- An element with a tag and children, and no data. -/
def Sketch.plain (tag : String) (children : List Sketch) : Sketch :=
  .element tag none children .none false

/-- A drawing with a foreign object, in which there is another drawing. -/
def Sketch.drawing : Sketch :=
  .plain "svg" [
    .plain "foreignObject" [.plain "g" [], .plain "math" [.plain "svg" [.plain "p" []]]],
    .plain "p" [.text "t", .plain "math" [.plain "mi" []]]]

/-- An element of the drawing as it is built. -/
def VNode.drawn (tag : String) (ns : Option String) (children : List VNode) : VNode :=
  .element tag none children ns (some 7)

/-- The drawing without namespaces. -/
def VNode.outline : VNode :=
  .drawn "svg" none [
    .drawn "foreignObject" none [.drawn "g" none [],
      .drawn "math" none [.drawn "svg" none [.drawn "p" none []]]],
    .drawn "p" none [.text "t", .drawn "math" none [.drawn "mi" none []]]]

/-- The drawing with its namespaces. -/
def VNode.drawing : VNode :=
  .drawn "svg" (some "svg") [
    .drawn "foreignObject" (some "svg") [.drawn "g" none [],
      .drawn "math" none [.drawn "svg" (some "svg") [.drawn "p" (some "svg") []]]],
    .drawn "p" (some "svg") [.text "t",
      .drawn "math" (some "math") [.drawn "mi" (some "math") []]]]

/-- A tree with foreign objects and several namespaces. -/
theorem namespaces_topDown_drawing :
    (bareContext 7 none []).placeholderNs = none ∧
      Sketch.drawing.OfElements (bareContext 7 none []).resolveComponent ∧
      Sketch.drawing.tree (bareContext 7 none []).id = .node .outline ∧
      Gives (Sketch.drawing.build (bareContext 7 none [])) (.node .drawing) := by
  have hplain (tag : String) (htag : tag ≠ "") :
      Sketch.BuildsElement (bareContext 7 none []).resolveComponent tag none :=
    ⟨htag, .inr rfl, fun _ h => nomatch h⟩
  have hdrawing : Sketch.drawing.OfElements (bareContext 7 none []).resolveComponent := by
    simp [Sketch.drawing, Sketch.plain, Sketch.OfElements, Sketch.AllOfElements, hplain]
  have houtline : Sketch.drawing.tree (bareContext 7 none []).id = .node .outline := rfl
  exact ⟨rfl, hdrawing, houtline, (namespaces_topDown rfl hdrawing houtline).1⟩

end ViewTree
