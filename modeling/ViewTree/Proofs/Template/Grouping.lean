import Mathlib.Data.List.Induction
import ViewTree.Template.Generator
/-!
# How siblings are grouped

Neighbouring branches of a condition become one choice, and every other node stands alone. The
grouping is told apart from the code here: `clusters` decides what belongs together, `Cluster.code`
says what becomes of it, and `nodesCode_clusters` is what the generator does with siblings. The code
of a condition is a choice between the codes of its branches.
-/

namespace ViewTree.Template

/-- What becomes one child: a node that stands alone, or a condition with its further branches. -/
inductive Cluster where
  | alone (n : Node)
  | chain (head : Element) (branches : List Element)

namespace Cluster

/-- The siblings that a cluster is made of. -/
def nodes : Cluster → List Node
  | alone n => [n]
  | chain head branches => .element head :: branches.map .element

/-- The condition of a branch as it is written. -/
def guard? (e : Element) : Option String :=
  (OpenChain.condition? e).map Attribute.valueText

/-- The last branch of a condition is its alternative. -/
def isClosed (head : Element) (branches : List Element) : Bool :=
  (branches.getLast?.getD head).hasDirective "else"

/-- What a condition shows when none of its branches does, unless it is closed. -/
def fallback (head : Element) (branches : List Element) : List (Option String × Code) :=
  if isClosed head branches then [] else [(none, emptyChild)]

/-- The conditions of a choice between branches, in order. -/
def guards (head : Element) (branches : List Element) : List (Option String) :=
  (head :: branches).map guard? ++ (fallback head branches).map Prod.fst

end Cluster

/-! ## Choices -/

/-- The code of the first branch of a choice. -/
def branchCode : Option String × Code → Code
  | (some condition, body) => ifCode condition body
  | (none, body) => elseCode body

/-- The code of a further branch. -/
def furtherCode : Option String × Code → Code
  | (some condition, body) => .fixed " else " :: ifCode condition body
  | (none, body) => elseCode body

/-- The code of a choice between bodies under their conditions. -/
def choiceCode : List (Option String × Code) → Code
  | [] => []
  | first :: further => branchCode first ++ further.flatMap furtherCode

theorem choiceCode_append {bs : List (Option String × Code)} (h : bs ≠ [])
    (more : List (Option String × Code)) :
    choiceCode (bs ++ more) = choiceCode bs ++ more.flatMap furtherCode := by
  cases bs with
  | nil => exact absurd rfl h
  | cons first further => simp [choiceCode]

namespace OpenChain

theorem start_eq (e : Element) (body : Code) :
    start e body = ⟨choiceCode [(Cluster.guard? e, body)], e.hasDirective "else"⟩ := by
  unfold start Cluster.guard?
  cases condition? e <;> simp [choiceCode, branchCode]

theorem join_eq (c : OpenChain) (e : Element) (body : Code) :
    c.join e body = ⟨c.code ++ furtherCode (Cluster.guard? e, body), e.hasDirective "else"⟩ := by
  unfold join Cluster.guard?
  cases condition? e <;> simp [furtherCode]

end OpenChain

/-! ## Clusters -/

/-- The cluster that an open condition becomes. -/
def openCluster : Option (Element × List Element) → List Cluster
  | some (head, branches) => [.chain head branches]
  | none => []

/-- The clusters of siblings, where `opened` is a condition that the nodes in front left open. -/
def clusters (opened : Option (Element × List Element)) : List Node → List Cluster
  | [] => openCluster opened
  | n :: rest =>
    match n.element?, opened with
    | some e, some (head, branches) =>
      if e.isBranch then
        if e.hasDirective "else" then .chain head (branches ++ [e]) :: clusters none rest
        else clusters (some (head, branches ++ [e])) rest
      else if startsChain e then .chain head branches :: clusters (some (e, [])) rest
      else .chain head branches :: .alone n :: clusters none rest
    | some e, none =>
      if startsChain e then clusters (some (e, [])) rest else .alone n :: clusters none rest
    | none, _ => openCluster opened ++ .alone n :: clusters none rest

theorem eq_element {n : Node} {e : Element} (h : n.element? = some e) : n = .element e := by
  cases n <;> simp_all [Node.element?]

theorem clusters_element (e : Element) (rest : List Node) :
    clusters none (.element e :: rest) =
      if startsChain e then clusters (some (e, [])) rest
      else .alone (.element e) :: clusters none rest :=
  rfl

theorem clusters_other {n : Node} (hn : n.element? = none)
    (opened : Option (Element × List Element)) (rest : List Node) :
    clusters opened (n :: rest) = openCluster opened ++ .alone n :: clusters none rest := by
  simp only [clusters, hn]

theorem clusters_branch (head : Element) (branches : List Element) {e : Element}
    (he : e.isBranch) (rest : List Node) :
    clusters (some (head, branches)) (.element e :: rest) =
      if e.hasDirective "else" then .chain head (branches ++ [e]) :: clusters none rest
      else clusters (some (head, branches ++ [e])) rest := by
  simp only [clusters, Node.element?, he, if_true]

/-- A condition ends where no branch follows. -/
theorem clusters_no_branch (head : Element) (branches : List Element) {e : Element}
    (he : e.isBranch = false) (rest : List Node) :
    clusters (some (head, branches)) (.element e :: rest) =
      .chain head branches :: clusters none (.element e :: rest) := by
  rw [clusters_element]
  simp only [clusters, Node.element?, he, Bool.false_eq_true, if_false]
  split <;> rfl

/-- The siblings that an open condition is made of. -/
def openNodes : Option (Element × List Element) → List Node
  | some (head, branches) => (Cluster.chain head branches).nodes
  | none => []

theorem openCluster_nodes (opened : Option (Element × List Element)) :
    (openCluster opened).flatMap Cluster.nodes = openNodes opened := by
  cases opened with
  | none => rfl
  | some c => simp [openCluster, openNodes]

theorem clusters_nodes_open (opened : Option (Element × List Element)) (nodes : List Node) :
    (clusters opened nodes).flatMap Cluster.nodes = openNodes opened ++ nodes := by
  induction nodes generalizing opened with
  | nil => simp [clusters, openCluster_nodes]
  | cons n rest ih =>
    cases hn : n.element? with
    | none => simp [clusters_other hn, openCluster_nodes, ih, openNodes, Cluster.nodes]
    | some e =>
      obtain rfl := eq_element hn
      have hnone : (clusters none (.element e :: rest)).flatMap Cluster.nodes =
          .element e :: rest := by
        rw [clusters_element]
        split <;> simp [ih, openNodes, Cluster.nodes]
      cases opened with
      | none => exact hnone
      | some c =>
        by_cases hbranch : e.isBranch
        · rw [clusters_branch _ _ hbranch]
          split <;> simp [ih, openNodes, Cluster.nodes]
        · rw [clusters_no_branch _ _ (Bool.eq_false_iff.2 hbranch), List.flatMap_cons, hnone]
          rfl

/-- Every node is in one cluster, in order. -/
theorem clusters_nodes (nodes : List Node) :
    (clusters none nodes).flatMap Cluster.nodes = nodes :=
  clusters_nodes_open none nodes

section

variable (s : Settings)

/-- The code of a branch without its condition, which stands beside it. -/
def guardedCode (e : Element) : Generator (Option String × Code) := do
  pure (Cluster.guard? e, ← nodeCode s true (.element e))

/-- The code of a cluster: a node's own code, or a choice between the branches. -/
def Cluster.code : Cluster → Generator Code
  | alone n => nodeCode s false n
  | chain head branches => do
    let codes ← (head :: branches).mapM (guardedCode s)
    pure (choiceCode (codes ++ fallback head branches))

theorem code_alone (n : Node) : Cluster.code s (.alone n) = nodeCode s false n :=
  rfl

/-- A condition as the generator builds it, one branch after the other. -/
def buildChain (head : Element) (branches : List Element) : Generator OpenChain := do
  let body ← nodeCode s true (.element head)
  branches.foldlM (fun c e => do pure (c.join e (← nodeCode s true (.element e))))
    (OpenChain.start head body)

theorem buildChain_append (head : Element) (branches : List Element) (e : Element) :
    buildChain s head (branches ++ [e]) = (do
      let c ← buildChain s head branches
      pure (c.join e (← nodeCode s true (.element e)))) := by
  simp [buildChain, List.foldlM_append]

/-- Building a condition gives the choice between its branches. -/
theorem buildChain_eq (head : Element) (branches : List Element) :
    buildChain s head branches = (do
      let codes ← (head :: branches).mapM (guardedCode s)
      pure ⟨choiceCode codes, Cluster.isClosed head branches⟩) := by
  induction branches using List.reverseRecOn with
  | nil => simp [buildChain, guardedCode, OpenChain.start_eq, Cluster.isClosed]
  | append_singleton branches e ih =>
    rw [buildChain_append, ih]
    simp only [List.mapM_cons, List.mapM_append, List.mapM_nil, guardedCode, bind_assoc, pure_bind,
      OpenChain.join_eq, Cluster.isClosed, List.getLast?_append, List.getLast?_singleton,
      Option.some_or, Option.getD_some, ← List.cons_append, choiceCode_append (List.cons_ne_nil _ _),
      List.flatMap_cons, List.flatMap_nil, List.append_nil]

/-- An open condition that is finished is the code of its cluster. -/
theorem finish_buildChain (head : Element) (branches : List Element) :
    (buildChain s head branches >>= fun c => pure c.finish) =
      Cluster.code s (.chain head branches) := by
  rw [buildChain_eq]
  simp only [Cluster.code, List.mapM_cons, bind_assoc, pure_bind, OpenChain.finish,
    Cluster.fallback]
  split
  · simp
  · simp [choiceCode, furtherCode]

/-- A condition that begins with an element, and then the siblings behind it. -/
theorem buildChain_nil_bind {α : Type} (head : Element) (k : OpenChain → Generator α) :
    (buildChain s head [] >>= k) =
      nodeCode s true (.element head) >>= fun body => k (OpenChain.start head body) := by
  simp [buildChain]

/-- The code of siblings is that of their clusters, also behind a condition that is open. -/
theorem nodesCode_eq (nodes : List Node) :
    nodesCode s none nodes = (clusters none nodes).mapM (Cluster.code s) ∧
      ∀ head branches, (buildChain s head branches >>= fun c => nodesCode s (some c) nodes) =
        (clusters (some (head, branches)) nodes).mapM (Cluster.code s) := by
  induction nodes with
  | nil =>
    refine ⟨by simp [nodesCode, clusters, openCluster, OpenChain.finishAll], ?_⟩
    intro head branches
    simp [nodesCode, clusters, openCluster, OpenChain.finishAll, ← finish_buildChain]
  | cons n rest ih =>
    obtain ⟨ihnone, ihsome⟩ := ih
    cases hn : n.element? with
    | none =>
      refine ⟨?_, ?_⟩
      · simp [nodesCode, clusters, hn, openCluster, OpenChain.finishAll, ihnone, code_alone]
      · intro head branches
        simp [nodesCode, clusters, hn, openCluster, OpenChain.finishAll, ← finish_buildChain,
          ihnone, code_alone]
    | some e =>
      obtain rfl := eq_element hn
      refine ⟨?_, ?_⟩
      · by_cases hstart : startsChain e
        · simp [nodesCode, clusters, hn, hstart, ← ihsome, buildChain_nil_bind]
        · simp [nodesCode, clusters, hn, hstart, ihnone, code_alone]
      · intro head branches
        -- A branch joins the condition, an alternative ends it, any other element finishes it.
        by_cases hbranch : e.isBranch
        · by_cases helse : e.hasDirective "else"
          · simp [nodesCode, clusters, hn, hbranch, helse, ihnone, ← finish_buildChain,
              buildChain_append, OpenChain.join_eq]
          · simp [nodesCode, clusters, hn, hbranch, helse, ← ihsome, buildChain_append,
              OpenChain.join_eq]
        · by_cases hstart : startsChain e
          · simp [nodesCode, clusters, hn, hbranch, hstart, ← ihsome, ← finish_buildChain,
              buildChain_nil_bind]
          · simp [nodesCode, clusters, hn, hbranch, hstart, ihnone, ← finish_buildChain,
              code_alone]

/-- The code of siblings is that of their clusters, one after the other. -/
theorem nodesCode_clusters (nodes : List Node) :
    nodesCode s none nodes = (clusters none nodes).mapM (Cluster.code s) :=
  (nodesCode_eq s nodes).1

end

end ViewTree.Template
