import ViewTree.VNode.Children
/-!
# Normalized children

Normalization flattens lists and joins texts. It looks at nodes only to see which are texts, so it
can be exchanged with a change of the nodes that leaves texts alone (`normalize_map`), and what it
gives are texts and nodes that it was given (`mem_normalize`).
-/

namespace ViewTree.Child

mutual

/-- The child with its nodes changed. -/
def map (f : VNode → VNode) : Child → Child
  | node v => node (f v)
  | text t => text t
  | list items => list (mapAll f items)
  | slot s => slot s
  | empty => empty

/-- The children with their nodes changed. -/
def mapAll (f : VNode → VNode) : List Child → List Child
  | [] => []
  | c :: cs => map f c :: mapAll f cs

end

/-- A change of nodes that leaves texts as they are, and makes no texts of others. -/
structure KeepsTexts (f : VNode → VNode) : Prop where
  text : ∀ t, f (.text t) = .text t
  other : ∀ {v}, v.text? = none → (f v).text? = none

/-- A node with the content of a text is that text. -/
theorem eq_text {v : VNode} {t : String} (h : v.text? = some t) : v = .text t := by
  cases v with
  | text u => exact congrArg VNode.text (Option.some.inj h)
  | element tag data children ns context => cases h
  | component c => cases h
  | comment u => cases h

theorem nodesAll_append (cs ds : List Child) :
    nodesAll (cs ++ ds) = nodesAll cs ++ nodesAll ds := by
  induction cs with
  | nil => rfl
  | cons c cs ih => rw [List.cons_append, nodesAll, ih, nodesAll, List.append_assoc]

/-- Lists are spliced in place anyway. -/
theorem simplified_eq (cs : List Child) : simplified cs = nodesAll cs := by
  unfold simplified
  induction cs with
  | nil => rfl
  | cons c cs ih =>
    rw [List.flatMap_cons, nodesAll_append, ih, nodesAll]
    cases c <;> simp [spread, nodes, nodesAll]

section

variable {f : VNode → VNode}

mutual

theorem nodes_map (hf : KeepsTexts f) : ∀ c, nodes (map f c) = (nodes c).map f
  | node v => rfl
  | text t => by simp [map, nodes, hf.text]
  | list items => nodesAll_map hf items
  | slot s => rfl
  | empty => rfl

theorem nodesAll_map (hf : KeepsTexts f) : ∀ cs, nodesAll (mapAll f cs) = (nodesAll cs).map f
  | [] => rfl
  | c :: cs => by
    rw [mapAll, nodesAll, nodesAll, List.map_append, nodes_map hf c, nodesAll_map hf cs]

end

/-- A text is not joined with a node that is no text. -/
theorem pushText_cons {v : VNode} (hv : v.text? = none) (t : String) (after : List VNode) :
    pushText t (v :: after) = if t = "" then v :: after else .text t :: v :: after := by
  cases v with
  | text u => cases hv
  | _ => rfl

theorem pushText_map (hf : KeepsTexts f) (t : String) (after : List VNode) :
    pushText t (after.map f) = (pushText t after).map f := by
  cases after with
  | nil =>
    unfold pushText
    split
    · rfl
    · exact congrArg (· :: []) (hf.text t).symm
  | cons v after =>
    cases hv : v.text? with
    | some u =>
      obtain rfl := eq_text hv
      rw [List.map_cons, hf.text]
      unfold pushText
      split
      · exact congrArg (· :: _) (hf.text u).symm
      · exact congrArg (· :: _) (hf.text _).symm
    | none =>
      rw [List.map_cons, pushText_cons (hf.other hv), pushText_cons hv]
      split
      · rfl
      · exact congrArg (· :: _) (hf.text t).symm

/-- Nodes that are no texts are put in front. -/
theorem normalizeInto_node {v : VNode} (hv : v.text? = none) (after : List VNode) :
    normalizeInto (node v) after = v :: after := by
  cases v with
  | text u => cases hv
  | _ => rfl

mutual

theorem normalizeInto_map (hf : KeepsTexts f) :
    ∀ c after, normalizeInto (map f c) (after.map f) = (normalizeInto c after).map f
  | node v, after => by
    cases hv : v.text? with
    | some u =>
      obtain rfl := eq_text hv
      rw [map, hf.text]
      exact pushText_map hf u after
    | none => rw [map, normalizeInto_node (hf.other hv), normalizeInto_node hv, List.map_cons]
  | text t, after => pushText_map hf t after
  | list items, after => normalizeAllInto_map hf items after
  | slot s, after => rfl
  | empty, after => rfl

theorem normalizeAllInto_map (hf : KeepsTexts f) :
    ∀ cs after, normalizeAllInto (mapAll f cs) (after.map f) = (normalizeAllInto cs after).map f
  | [], after => rfl
  | c :: cs, after => by
    rw [mapAll, normalizeAllInto, normalizeAllInto, normalizeAllInto_map hf cs after,
      normalizeInto_map hf c]

end

/-- It is the same to change nodes before or after they are normalized. -/
theorem normalize_map (hf : KeepsTexts f) (mode : Normalization) (cs : List Child) :
    normalize mode (mapAll f cs) = (normalize mode cs).map f := by
  cases mode with
  | none => exact nodesAll_map hf cs
  | simple =>
    show simplified (mapAll f cs) = (simplified cs).map f
    rw [simplified_eq, simplified_eq, nodesAll_map hf]
  | always => exact normalizeAllInto_map hf cs []

end

section

variable {P : VNode → Prop}

theorem all_pushText (ht : ∀ t, P (.text t)) (t : String) {after : List VNode}
    (hafter : ∀ v ∈ after, P v) : ∀ v ∈ pushText t after, P v := by
  unfold pushText
  split
  · exact hafter
  · split
    · exact List.forall_mem_cons.2 ⟨ht _, fun v hv => hafter v (List.mem_cons_of_mem _ hv)⟩
    · exact List.forall_mem_cons.2 ⟨ht t, hafter⟩

mutual

theorem all_normalizeInto (ht : ∀ t, P (.text t)) :
    ∀ c after, (∀ v ∈ nodes c, P v) → (∀ v ∈ after, P v) → ∀ v ∈ normalizeInto c after, P v
  | node u, after, hc, hafter => by
    cases hu : u.text? with
    | some t =>
      obtain rfl := eq_text hu
      exact all_pushText ht t hafter
    | none =>
      rw [normalizeInto_node hu]
      exact List.forall_mem_cons.2 ⟨hc u List.mem_cons_self, hafter⟩
  | text t, after, hc, hafter => all_pushText ht t hafter
  | list items, after, hc, hafter => all_normalizeAllInto ht items after hc hafter
  | slot s, after, hc, hafter => hafter
  | empty, after, hc, hafter => hafter

theorem all_normalizeAllInto (ht : ∀ t, P (.text t)) :
    ∀ cs after, (∀ v ∈ nodesAll cs, P v) → (∀ v ∈ after, P v) →
      ∀ v ∈ normalizeAllInto cs after, P v
  | [], after, _, hafter => hafter
  | c :: cs, after, hcs, hafter => by
    rw [nodesAll] at hcs
    have hrest := all_normalizeAllInto ht cs after
      (fun v hv => hcs v (List.mem_append_right _ hv)) hafter
    exact all_normalizeInto ht c _ (fun v hv => hcs v (List.mem_append_left _ hv)) hrest

end

/-- What holds of texts and of the nodes among children holds of the normalized children. -/
theorem all_normalize (ht : ∀ t, P (.text t)) (mode : Normalization) {cs : List Child}
    (hcs : ∀ v ∈ nodesAll cs, P v) : ∀ v ∈ normalize mode cs, P v := by
  cases mode with
  | none => exact hcs
  | simple =>
    show ∀ v ∈ simplified cs, P v
    rw [simplified_eq]
    exact hcs
  | always => exact all_normalizeAllInto ht cs [] hcs fun v hv => absurd hv List.not_mem_nil

end

end ViewTree.Child
