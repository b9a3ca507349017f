import ViewTree.Proofs.VNode.Coalescing
import ViewTree.Proofs.VNode.Namespaces
/-!
# The mode of normalization

How much of its children a compiled call asks to be flattened does not show in what it renders: all
lists are flattened anyway. Full normalization shows in the children of an element, where texts are
joined, and in nothing else (`createElement_modes`): namespaces are handed down to the same nodes,
and the same warnings and read marks are given.
-/

namespace ViewTree

namespace VNode

/-- An element with the texts among its children joined. -/
def coalesced : VNode → VNode
  | element tag data children ns context => element tag data (coalesce children) ns context
  | v => v

/-! ## Namespaces -/

section

variable {f : VNode → VNode}

theorem pushNode_map (hf : Child.KeepsTexts f) (v : VNode) (after : List VNode) :
    Child.pushNode (f v) (after.map f) = (Child.pushNode v after).map f := by
  have hpush (v : VNode) (after : List VNode) :
      Child.normalizeInto (.node v) after = Child.pushNode v after := Child.normalizeInto_eq ..
  rw [← hpush, ← hpush]
  exact Child.normalizeInto_map hf (.node v) after

/-- It is the same to change nodes before or after their texts are joined. -/
theorem coalesce_map (hf : Child.KeepsTexts f) (vs : List VNode) :
    coalesce (vs.map f) = (coalesce vs).map f := by
  rw [← foldr_pushNode, ← foldr_pushNode]
  induction vs with
  | nil => rfl
  | cons v vs ih => rw [List.map_cons, List.foldr_cons, ih, pushNode_map hf, List.foldr_cons]

end

theorem text?_applyNs (ns : Option String) (force : Bool) (v : VNode) :
    (applyNs ns force v).text? = v.text? := by
  cases v with
  | element tag data children ns' context =>
    rw [applyNs_element]
    rfl
  | _ => rfl

/-- A namespace that is handed down leaves texts as they are, and makes no texts of other nodes. -/
theorem keepsTexts_handDown (ns : Option String) (force : Bool) :
    Child.KeepsTexts (handDown ns force) where
  text _ := rfl
  other {v} hv := by
    unfold handDown
    split
    · rw [text?_applyNs, hv]
    · exact hv

/-- Namespaces go down to the same nodes, whether the texts beside them are joined or not. -/
theorem coalesced_assigned (ns : Option String) (v : VNode) :
    v.coalesced.assigned ns = (v.assigned ns).coalesced := by
  unfold assigned
  split
  · cases v with
    | element tag data children ns' context =>
      simp only [coalesced, applyNs_element]
      split
      · rw [coalesce_map (keepsTexts_handDown none true)]
      · rw [coalesce_map (keepsTexts_handDown ns false)]
    | _ => rfl
  · rfl

theorem data?_coalesced (v : VNode) : v.coalesced.data? = v.data? := by
  cases v <;> rfl

end VNode

/-! ## Calls of the factory -/

/-- What is rendered, with the texts among the children of an element joined. -/
def Rendered.coalesced : Rendered → Rendered
  | node v => node v.coalesced
  | many vs => many vs

/-- The tag that a call asks for: that of the bag's `is`, or else its own. -/
def askedTag (tag : Option TagRef) (arg : DataArg) : Option TagRef :=
  ((arg.bag?.bind (·.is)) <|> tag).bind TagRef.resolved

section

variable {m : Type → Type} [Monad m] {ctx : RenderContext m}

/-- The tag stands for an element: it is one of the platform, or no component has the name. -/
def RenderContext.IsElementTag (ctx : RenderContext m) (tag : String) : Prop :=
  Platform.isReservedTag tag ∨ ctx.resolveComponent tag = none

theorem RenderContext.IsElementTag.buildTag_eq {tag : String} (h : ctx.IsElementTag tag)
    (data : Option (DataBag VNode)) (children : List VNode) :
    buildTag ctx (.html tag) data children =
      pure (some (.node (.element tag data children none (some ctx.id))),
        ctx.placeholderNs <|> Platform.tagNamespace tag) := by
  unfold buildTag
  dsimp only
  rcases h with hreserved | hnone
  · rw [if_pos hreserved]
  · rw [hnone]
    split
    · rfl
    · rfl

theorem finishElement_coalesced [LawfulMonad m] (v : VNode) (ns : Option String) :
    finishElement ctx (some (.node v.coalesced)) ns =
      Rendered.coalesced <$> finishElement ctx (some (.node v)) ns := by
  have hassigned := VNode.coalesced_assigned ns v
  have hdata := VNode.data?_coalesced (v.assigned ns)
  unfold VNode.assigned at hassigned hdata
  unfold finishElement
  simp only [hassigned, hdata]
  split
  · simp only [map_bind, map_pure]
    rfl
  · rw [map_pure]
    rfl

/-- Compiled calls may ask for a level to be flattened, or for nothing. -/
theorem createElement_simple (ctx : RenderContext m) (tag : Option TagRef) (arg : DataArg)
    (children : Option (List Child)) (always : Bool) :
    createElement ctx tag arg children .none always =
      createElement ctx tag arg children .simple always := by
  have hmodes (cs : List Child) :
      Child.normalize (if always then .always else .none) cs =
        Child.normalize (if always then .always else .simple) cs := by
    cases always with
    | true => rfl
    | false => exact (Child.simplified_eq cs).symm
  unfold createElement
  simp only [hmodes]

/-- Whether a call asks for no flattening or for that of one level makes no difference, whatever it
renders. Where its tag is that of an element, full normalization joins the texts among the children
of the element; all else that is rendered, and what is done besides, is the same. -/
theorem createElement_modes [LawfulMonad m] (ctx : RenderContext m) (tag : Option TagRef)
    (arg : DataArg) (children : Option (List Child)) (always : Bool) :
    createElement ctx tag arg children .none always =
        createElement ctx tag arg children .simple always ∧
      ∀ name, askedTag tag arg = some (.html name) → ctx.IsElementTag name →
        createElement ctx tag arg children .always always =
          Rendered.coalesced <$> createElement ctx tag arg children .none false := by
  refine ⟨createElement_simple ctx tag arg children always, fun name hasked hname => ?_⟩
  have hfinish (data : Option (DataBag VNode)) (cs : List VNode) (ns : Option String) :
      finishElement ctx
          (some (.node (.element name data (VNode.coalesce cs) none (some ctx.id)))) ns =
        Rendered.coalesced <$>
          finishElement ctx (some (.node (.element name data cs none (some ctx.id)))) ns :=
    finishElement_coalesced (.element name data cs none (some ctx.id)) ns
  unfold askedTag at hasked
  simp only [createElement, hasked, hname.buildTag_eq, pure_bind, Child.normalize, ite_self,
    Bool.false_eq_true, if_false, Child.normalized_eq_coalesce, hfinish]
  split
  · simp only [map_bind, map_pure]
    rfl
  · split
    · rw [map_bind]
    · rfl

end

/-- Texts in lists, and an element with texts of its own. -/
def Child.grouped : List Child :=
  [.text "a", .list [.text "", .list [.text "b"], .node (.comment "c")],
    .node (.element "g" none [.text "x", .text "y"] none none)]

/-- The texts of the element itself are joined, and its namespace goes down. -/
theorem createElement_modes_grouped :
    LawfulMonad Building ∧ askedTag (some (.html "svg")) .none = some (.html "svg") ∧
      (bareContext 7 none []).IsElementTag "svg" ∧
      (createElement (bareContext 7 none []) (some (.html "svg")) .none (some Child.grouped) .always
          false).run ⟨[], []⟩ =
        (.node (.element "svg" none [.text "ab", .comment "c",
          .element "g" none [.text "x", .text "y"] (some "svg") none] (some "svg") (some 7)),
          ⟨[], []⟩) := by
  have htag : (bareContext 7 none []).IsElementTag "svg" := .inl (by decide)
  have hmodes := (createElement_modes (bareContext 7 none []) (some (.html "svg")) .none
    (some Child.grouped) false).2 "svg" rfl htag
  refine ⟨inferInstance, rfl, htag, ?_⟩
  rw [hmodes]
  rfl

end ViewTree
