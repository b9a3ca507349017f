import ViewTree.Proofs.Template.Opening
import ViewTree.Proofs.Template.Parts
import ViewTree.Proofs.Template.Refusals
/-!
# What becomes of the pieces of a template

An entry says what was read between two tags and what was made of it: a text with its parts, a
comment, or an element with its own entries. What stands of entries in the tree depends on what is
behind them, since a further branch of a condition sweeps away what is in front of it up to the last
element (`nodes_concat_sweeping`), and the end of an element may take a space (`nodesLeft_true`).
-/

namespace ViewTree.Template

/-! ## Entries -/

/-- What becomes of an element: it is kept, it is a branch that finds no condition, or it is dropped
when it is closed. -/
inductive Fate where
  | kept
  | stray
  | dropped
deriving DecidableEq

/-- Something read between two tags, and what was made of it. -/
inductive Entry where
  | text (t : String) (parts : List Part)
  | comment (t : String)
  | element (opening : OpenTag) (made : Element) (fate : Fate) (inside : List Entry)

/-- The next element behind, dropped ones aside, is a further branch of a condition; it sweeps
away what is in front of it up to the last element. -/
def sweeps : List Entry → Bool
  | [] => false
  | .text _ _ :: behind => sweeps behind
  | .comment _ :: behind => sweeps behind
  | .element _ made fate _ :: behind =>
    match fate with
    | .kept => made.isBranch
    | .stray => true
    | .dropped => sweeps behind

/-- The nodes of the entries that stand. -/
def nodes : List Entry → List Node
  | [] => []
  | .text _ parts :: behind => (if sweeps behind then [] else parts.map Part.node) ++ nodes behind
  | .comment t :: behind => (if sweeps behind then [] else [.comment t]) ++ nodes behind
  | .element _ made fate _ :: behind =>
    (if fate = .kept then [.element made] else []) ++ nodes behind

/-- The last part is a single space behind which nothing stands, and the end of the element takes
it. -/
def isTrimmed (trims : Bool) (parts : List Part) (behind : List Entry) : Bool :=
  trims && (nodes behind).isEmpty && endInSpace (parts.map Part.node)

/-- The parts of a text that are left, where `trims` says that the end of the element takes a space
at the end. -/
def left (trims : Bool) (parts : List Part) (behind : List Entry) : List Part :=
  if sweeps behind then []
  else if isTrimmed trims parts behind then parts.dropLast
  else parts

/-- The nodes that are left of the entries when the element around them has ended. -/
def nodesLeft (trims : Bool) : List Entry → List Node
  | [] => []
  | .text _ parts :: behind => (left trims parts behind).map Part.node ++ nodesLeft trims behind
  | .comment t :: behind => (if sweeps behind then [] else [.comment t]) ++ nodesLeft trims behind
  | .element _ made fate _ :: behind =>
    (if fate = .kept then [.element made] else []) ++ nodesLeft trims behind

/-! ## One more entry -/

theorem parts_element? (parts : List Part) : ∀ n ∈ parts.map Part.node, n.element? = none := by
  intro n hn
  obtain ⟨p, _, rfl⟩ := List.mem_map.1 hn
  exact p.node_element?

theorem upToElement_append (ns ms : List Node) :
    upToElement (ns ++ ms) =
      if (upToElement ms).isEmpty then upToElement ns else ns ++ upToElement ms := by
  simp only [upToElement, List.rdropWhile, List.reverse_append, List.dropWhile_append,
    List.isEmpty_reverse]
  split
  · rfl
  · rw [List.reverse_append, List.reverse_reverse]

theorem upToElement_eq_nil_iff {ns : List Node} :
    upToElement ns = [] ↔ ∀ n ∈ ns, n.element? = none := by
  simp [upToElement, List.rdropWhile_eq_nil_iff]

section

variable {es : List Entry} {x : Entry}

/-- What does not sweep changes nothing for those in front. -/
theorem sweeps_concat (hx : sweeps [x] = false) : sweeps (es ++ [x]) = sweeps es := by
  induction es with
  | nil => exact hx
  | cons e es ih =>
    cases e with
    | text t parts => exact ih
    | comment t => exact ih
    | element t made fate inside =>
      cases fate with
      | kept => rfl
      | stray => rfl
      | dropped => exact ih

theorem nodes_concat (hx : sweeps [x] = false) : nodes (es ++ [x]) = nodes es ++ nodes [x] := by
  induction es with
  | nil => rfl
  | cons e es ih =>
    cases e with
    | text t parts =>
      rw [List.cons_append, nodes, nodes, sweeps_concat hx, ih, List.append_assoc]
    | comment t =>
      rw [List.cons_append, nodes, nodes, sweeps_concat hx, ih, List.append_assoc]
    | element t made fate inside =>
      rw [List.cons_append, nodes, nodes, ih, List.append_assoc]

/-- Where no element stands, something that sweeps reaches everything in front. -/
theorem sweeps_concat_of_none (hx : sweeps [x]) (hes : ∀ n ∈ nodes es, n.element? = none) :
    sweeps (es ++ [x]) := by
  induction es with
  | nil => exact hx
  | cons e es ih =>
    cases e with
    | text t parts => exact ih (List.forall_mem_append.1 hes).2
    | comment t => exact ih (List.forall_mem_append.1 hes).2
    | element t made fate inside =>
      cases fate with
      | kept => cases hes _ List.mem_cons_self
      | stray => rfl
      | dropped => exact ih hes

/-- Where an element stands, something that sweeps reaches nothing in front of it. -/
theorem sweeps_concat_of_mem {n : Node} (hn : n ∈ nodes es) (helement : n.element?.isSome) :
    sweeps (es ++ [x]) = sweeps es := by
  have hbehind {swept : Bool} {ms : List Node} {es : List Entry}
      (hms : ∀ m ∈ ms, m.element? = none)
      (hn : n ∈ (if swept then [] else ms) ++ nodes es) : n ∈ nodes es := by
    refine (List.mem_append.1 hn).resolve_left fun hmem => ?_
    split at hmem
    · cases hmem
    · rw [hms n hmem] at helement
      cases helement
  induction es with
  | nil => cases hn
  | cons e es ih =>
    cases e with
    | text t parts => exact ih (hbehind (parts_element? parts) hn)
    | comment t => exact ih (hbehind (by simp [Node.element?]) hn)
    | element t made fate inside =>
      cases fate with
      | kept => rfl
      | stray => rfl
      | dropped => exact ih hn

/-- A branch sweeps away what is behind the last element. -/
theorem nodes_concat_sweeping (hx : sweeps [x]) :
    nodes (es ++ [x]) = upToElement (nodes es) ++ nodes [x] := by
  have hbehind {es : List Entry} {ms : List Node} (hms : ∀ m ∈ ms, m.element? = none) :
      (if sweeps (es ++ [x]) then [] else ms) ++ upToElement (nodes es) =
        upToElement ((if sweeps es then [] else ms) ++ nodes es) := by
    rw [upToElement_append]
    by_cases hes : ∀ n ∈ nodes es, n.element? = none
    · have hms' : upToElement (if sweeps es then [] else ms) = [] := by
        rw [upToElement_eq_nil_iff]
        split
        · exact List.forall_mem_nil _
        · exact hms
      rw [upToElement_eq_nil_iff.2 hes, sweeps_concat_of_none hx hes, hms']
      rfl
    · have hne : (upToElement (nodes es)).isEmpty = false := by
        rw [List.isEmpty_eq_false_iff, Ne, upToElement_eq_nil_iff]
        exact hes
      push Not at hes
      obtain ⟨n, hn, helement⟩ := hes
      rw [hne, sweeps_concat_of_mem hn (Option.isSome_iff_ne_none.2 helement)]
      rfl
  induction es with
  | nil => rfl
  | cons e es ih =>
    cases e with
    | text t parts =>
      rw [List.cons_append, nodes, nodes, ih, ← List.append_assoc, hbehind (parts_element? parts)]
    | comment t =>
      rw [List.cons_append, nodes, nodes, ih, ← List.append_assoc,
        hbehind (by simp [Node.element?])]
    | element t made fate inside =>
      have hown : upToElement (if fate = .kept then [.element made] else []) =
          if fate = .kept then [.element made] else [] := by
        split
        · rfl
        · rfl
      rw [List.cons_append, nodes, nodes, ih, ← List.append_assoc, upToElement_append]
      generalize (if fate = .kept then [Node.element made] else []) = own at hown ⊢
      rw [hown]
      split
      · rename_i hempty
        rw [List.isEmpty_iff.1 hempty, List.append_nil]
      · rfl

theorem nodes_element (t : OpenTag) (made : Element) (fate : Fate) (inside : List Entry) :
    nodes [.element t made fate inside] = if fate = .kept then [.element made] else [] :=
  List.append_nil _

/-- An element that is not dropped is attached to the nodes that stand. -/
theorem attach_nodes (t : OpenTag) (e : Element) (inside : List Entry) :
    (Builder.attach (nodes es) e).2 =
      nodes (es ++ [.element t e
        (if e.isBranch && Builder.front (nodes es) != some true then .stray else .kept)
        inside]) := by
  cases hbranch : e.isBranch with
  | false =>
    have hkept : sweeps [.element t e .kept inside] = false := hbranch
    rw [Bool.false_and, if_neg Bool.false_ne_true, nodes_concat hkept]
    simp [Builder.attach, hbranch, nodes_element]
  | true =>
    rw [Builder.attach_branch _ hbranch, Bool.true_and]
    by_cases hfront : Builder.front (nodes es) = some true
    · have hsweeps : sweeps [.element t e .kept inside] := hbranch
      simp [hfront, nodes_concat_sweeping hsweeps, nodes_element]
    · have hsweeps : sweeps [.element t e .stray inside] := rfl
      simp [hfront, nodes_concat_sweeping hsweeps, nodes_element]

end

/-! ## The end of an element -/

theorem dropTrailingSpace_eq (children : List Node) :
    Builder.dropTrailingSpace children =
      if endInSpace children then children.dropLast else children := by
  unfold Builder.dropTrailingSpace
  split
  · rename_i hlast
    rw [if_pos (endInSpace_iff.2 hlast)]
  · rename_i hlast
    rw [if_neg (mt endInSpace_iff.1 hlast)]

theorem dropTrailingSpace_append (ns ms : List Node) :
    Builder.dropTrailingSpace (ns ++ ms) =
      if ms.isEmpty then Builder.dropTrailingSpace ns
      else ns ++ Builder.dropTrailingSpace ms := by
  split
  · rename_i hempty
    rw [List.isEmpty_iff.1 hempty, List.append_nil]
  · rename_i hne
    have hne : ms ≠ [] := mt List.isEmpty_iff.2 hne
    have hend : endInSpace (ns ++ ms) = endInSpace ms := by
      rw [endInSpace, endInSpace, List.getLast?_append_of_ne_nil ns hne]
    rw [dropTrailingSpace_eq, dropTrailingSpace_eq, hend, List.dropLast_append_of_ne_nil hne]
    split
    · rfl
    · rfl

theorem left_sublist (trims : Bool) (parts : List Part) (behind : List Entry) :
    (left trims parts behind).Sublist parts := by
  unfold left
  split
  · exact List.nil_sublist parts
  · split
    · exact List.dropLast_sublist parts
    · exact List.Sublist.refl parts

/-- The nodes of an entry before anything behind it takes them away. -/
def Entry.own : Entry → List Node
  | text _ parts => parts.map Part.node
  | comment t => [.comment t]
  | element _ made fate _ => if fate = .kept then [.element made] else []

/-- What is left of entries is among their own nodes. -/
theorem exists_of_mem_nodesLeft {trims : Bool} {es : List Entry} {n : Node}
    (hn : n ∈ nodesLeft trims es) : ∃ x ∈ es, n ∈ x.own := by
  induction es with
  | nil => cases hn
  | cons e es ih =>
    have hfirst {ns : List Node} (hns : ns ⊆ e.own) (hn : n ∈ ns ++ nodesLeft trims es) :
        ∃ x ∈ e :: es, n ∈ x.own := by
      rcases List.mem_append.1 hn with hn | hn
      · exact ⟨e, List.mem_cons_self, hns hn⟩
      · obtain ⟨x, hx, hn⟩ := ih hn
        exact ⟨x, List.mem_cons_of_mem e hx, hn⟩
    cases e with
    | text text parts => exact hfirst (List.map_subset _ (left_sublist trims parts es).subset) hn
    | comment text =>
      refine hfirst ?_ hn
      split
      · exact List.nil_subset _
      · exact List.Subset.refl _
    | element t made fate inside => exact hfirst (List.Subset.refl _) hn

theorem left_false (parts : List Part) (behind : List Entry) :
    left false parts behind = if sweeps behind then [] else parts := by
  simp [left, isTrimmed]

theorem nodesLeft_false (es : List Entry) : nodesLeft false es = nodes es := by
  induction es with
  | nil => rfl
  | cons e es ih =>
    cases e with
    | text t parts =>
      rw [nodesLeft, nodes, ih, left_false]
      split
      · rfl
      · rfl
    | comment t => rw [nodesLeft, nodes, ih]
    | element t made fate inside => rw [nodesLeft, nodes, ih]

theorem left_true_node (parts : List Part) (behind : List Entry) :
    (left true parts behind).map Part.node ++ Builder.dropTrailingSpace (nodes behind) =
      Builder.dropTrailingSpace
        ((if sweeps behind then [] else parts.map Part.node) ++ nodes behind) := by
  rw [dropTrailingSpace_append, left, isTrimmed]
  cases sweeps behind with
  | true =>
    cases hempty : (nodes behind).isEmpty with
    | true =>
      rw [List.isEmpty_iff.1 hempty]
      rfl
    | false => rfl
  | false =>
    simp only [Bool.true_and, Bool.false_eq_true, if_false]
    cases hempty : (nodes behind).isEmpty with
    | true =>
      rw [List.isEmpty_iff.1 hempty, dropTrailingSpace_eq (parts.map Part.node), Bool.true_and,
        if_pos rfl]
      split
      · rw [List.map_dropLast]
        exact List.append_nil _
      · exact List.append_nil _
    | false => rfl

/-- What is left of the entries is what stands of them, but for a space at the end. -/
theorem nodesLeft_true (es : List Entry) :
    nodesLeft true es = Builder.dropTrailingSpace (nodes es) := by
  have hown {own : List Node} (h : Builder.dropTrailingSpace own = own) (es : List Entry) :
      own ++ Builder.dropTrailingSpace (nodes es) =
        Builder.dropTrailingSpace (own ++ nodes es) := by
    rw [dropTrailingSpace_append]
    split
    · rename_i hempty
      rw [h, List.isEmpty_iff.1 hempty]
      exact List.append_nil own
    · rfl
  induction es with
  | nil => rfl
  | cons e es ih =>
    cases e with
    | text t parts => rw [nodesLeft, nodes, ih, left_true_node]
    | comment t =>
      rw [nodesLeft, nodes, ih]
      refine hown ?_ es
      split
      · rfl
      · rfl
    | element t made fate inside =>
      rw [nodesLeft, nodes, ih]
      refine hown ?_ es
      split
      · rfl
      · rfl

end ViewTree.Template
