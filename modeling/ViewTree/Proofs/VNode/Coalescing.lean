import Mathlib.Data.List.SplitBy
import ViewTree.Proofs.VNode.Normalizing
/-!
# Joining texts

Full normalization splices lists in place, drops empty texts and joins every run of texts that are
next to each other (`normalized_coalesces`). It goes through the children node by node, so all that
has to be said of it is what one node does in front of nodes that are joined already
(`pushNode_cases`), whatever list the node came out of.
-/

namespace ViewTree

namespace VNode

/-- A text node. -/
def isText (v : VNode) : Bool :=
  v.text?.isSome

/-- A text node without text. -/
def isEmptyText (v : VNode) : Bool :=
  v.text? == some ""

/-- Two text nodes. -/
def bothTexts (v w : VNode) : Bool :=
  v.isText && w.isText

/-- The texts of the nodes, one after the other. -/
def textOf (vs : List VNode) : String :=
  String.join (vs.filterMap text?)

/-- A run of texts as one text; a node that is no text is a run by itself. -/
def joinRun : List VNode → List VNode
  | .text t :: run => [.text (textOf (.text t :: run))]
  | run => run

/-- The nodes with each run of texts joined. -/
def joinTexts (vs : List VNode) : List VNode :=
  (vs.splitBy bothTexts).flatMap joinRun

/-- The nodes without empty texts, each run of texts joined. -/
def coalesce (vs : List VNode) : List VNode :=
  joinTexts (vs.filter (!·.isEmptyText))

/-- No text is empty, and no two texts are next to each other. -/
structure Settled (vs : List VNode) : Prop where
  shows : ∀ v ∈ vs, v.isEmptyText = false
  apart : vs.IsChain fun v w => v.bothTexts w = false

theorem isText_of_other {v : VNode} (hv : v.text? = none) : v.isText = false := by
  simp [isText, hv]

theorem isEmptyText_of_other {v : VNode} (hv : v.text? = none) : v.isEmptyText = false := by
  simp [isEmptyText, hv]

theorem isEmptyText_text {t : String} : (text t).isEmptyText = false ↔ t ≠ "" := by
  simp [isEmptyText, text?]

theorem bothTexts_of_other {v : VNode} (hv : v.text? = none) (w : VNode) :
    v.bothTexts w = false := by
  rw [bothTexts, isText_of_other hv, Bool.false_and]

theorem bothTexts_other {v : VNode} (hv : v.text? = none) (w : VNode) :
    w.bothTexts v = false := by
  rw [bothTexts, isText_of_other hv, Bool.and_false]

theorem textOf_cons_text (t : String) (vs : List VNode) :
    textOf (.text t :: vs) = t ++ textOf vs :=
  String.join_cons

theorem textOf_singleton (t : String) : textOf [.text t] = t :=
  (textOf_cons_text t []).trans String.append_empty

theorem textOf_cons_other {v : VNode} (hv : v.text? = none) (vs : List VNode) :
    textOf (v :: vs) = textOf vs := by
  rw [textOf, List.filterMap_cons_none hv, textOf]

end VNode

/-! ## Node by node -/

namespace Child

open VNode (bothTexts)

/-- Adds a node in front of nodes that are already normalized. -/
def pushNode : VNode → List VNode → List VNode
  | .text t, after => pushText t after
  | v, after => v :: after

theorem pushNode_empty (after : List VNode) : pushNode (.text "") after = after := by
  show pushText "" after = after
  exact if_pos rfl

mutual

theorem normalizeInto_eq : ∀ c after, normalizeInto c after = (nodes c).foldr pushNode after
  | node v, after => by cases v <;> rfl
  | text t, after => rfl
  | list items, after => normalizeAllInto_eq items after
  | slot s, after => rfl
  | empty, after => rfl

/-- The nodes are put in front one by one, whatever lists they are in. -/
theorem normalizeAllInto_eq :
    ∀ cs after, normalizeAllInto cs after = (nodesAll cs).foldr pushNode after
  | [], after => rfl
  | c :: cs, after => by
    rw [normalizeAllInto, nodesAll, List.foldr_append, normalizeAllInto_eq cs after,
      normalizeInto_eq c]

end

/-- What a node does: an empty text nothing, a text in front of a text is joined with it, and any
other node is put in front. -/
theorem pushNode_cases (v : VNode) (after : List VNode) :
    v = .text "" ∧ pushNode v after = after ∨
      (∃ t u rest, v = .text t ∧ after = .text u :: rest ∧ t ≠ "" ∧
        pushNode v after = .text (t ++ u) :: rest) ∨
      v.isEmptyText = false ∧ (∀ w ∈ after.head?, v.bothTexts w = false) ∧
        pushNode v after = v :: after := by
  cases hv : v.text? with
  | none =>
    have hpush : pushNode v after = v :: after := by
      cases v with
      | text t => cases hv
      | _ => rfl
    have hapart (w : VNode) : v.bothTexts w = false := VNode.bothTexts_of_other hv w
    exact .inr (.inr ⟨VNode.isEmptyText_of_other hv, fun w _ => hapart w, hpush⟩)
  | some t =>
    obtain rfl := eq_text hv
    by_cases ht : t = ""
    · exact .inl ⟨congrArg _ ht, if_pos ht⟩
    · cases after with
      | nil => exact .inr (.inr ⟨VNode.isEmptyText_text.2 ht, by simp, if_neg ht⟩)
      | cons w rest =>
        cases hw : w.text? with
        | some u =>
          obtain rfl := eq_text hw
          exact .inr (.inl ⟨t, u, rest, rfl, rfl, ht, if_neg ht⟩)
        | none =>
          have hpush : pushNode (.text t) (w :: rest) = .text t :: w :: rest :=
            (pushText_cons hw t rest).trans (if_neg ht)
          refine .inr (.inr ⟨VNode.isEmptyText_text.2 ht, fun x hx => ?_, hpush⟩)
          obtain rfl := Option.some.inj hx
          exact VNode.bothTexts_other hw _

theorem pushNode_of_apart {v : VNode} (hv : v.isEmptyText = false) {after : List VNode}
    (h : ∀ w ∈ after.head?, v.bothTexts w = false) : pushNode v after = v :: after := by
  obtain ⟨rfl, -⟩ | ⟨t, u, rest, rfl, rfl, -, -⟩ | ⟨-, -, hpush⟩ := pushNode_cases v after
  · cases hv
  · cases h _ rfl
  · exact hpush

end Child

/-! ## Runs -/

section

variable {α : Type} {r : α → α → Bool} {a b : α} {l g : List α} {gs : List (List α)}

/-- An element that does not go with the next one is a run by itself. -/
theorem splitBy_cons_of_head (h : ∀ y ∈ l.head?, r a y = false) :
    (a :: l).splitBy r = [a] :: l.splitBy r :=
  List.splitBy_append (l := [a]) (by simpa using h)

/-- An element that goes with the next one is in its run. -/
theorem splitBy_cons_cons (hab : r a b) (h : (b :: l).splitBy r = (b :: g) :: gs) :
    (a :: b :: l).splitBy r = (a :: b :: g) :: gs := by
  rw [List.splitBy_eq_iff] at h ⊢
  obtain ⟨hflat, hne, hruns, hbounds⟩ := h
  refine ⟨congrArg (a :: ·) hflat, ?_, ?_, ?_⟩
  · simpa using hne
  · refine List.forall_mem_cons.2 ⟨?_, fun run hrun => hruns run (List.mem_cons_of_mem _ hrun)⟩
    exact List.isChain_cons_cons.2 ⟨hab, hruns _ List.mem_cons_self⟩
  · rw [List.isChain_cons] at hbounds ⊢
    refine ⟨fun run hrun => ?_, hbounds.2⟩
    obtain ⟨hb, hrun, hbound⟩ := hbounds.1 run hrun
    exact ⟨List.cons_ne_nil _ _, hrun, by simpa using hbound⟩

/-- The first run begins with the first element. -/
theorem exists_splitBy_cons (r : α → α → Bool) (a : α) (l : List α) :
    ∃ g gs, (a :: l).splitBy r = (a :: g) :: gs := by
  obtain ⟨run, gs, hruns⟩ := List.exists_cons_of_ne_nil
    (List.splitBy_ne_nil.2 (List.cons_ne_nil a l) : (a :: l).splitBy r ≠ [])
  have hhead := List.head_head_splitBy r (List.cons_ne_nil a l)
  obtain ⟨b, g, rfl⟩ := List.exists_cons_of_ne_nil
    (List.ne_nil_of_mem_splitBy (hruns ▸ List.mem_cons_self) : run ≠ [])
  simp only [hruns, List.head_cons] at hhead
  exact ⟨g, gs, hhead ▸ hruns⟩

end

/-! ## What joining does and leaves -/

namespace VNode

open Child (pushNode pushNode_empty pushNode_cases pushNode_of_apart)

theorem joinTexts_cons_text (t u : String) (vs : List VNode) :
    ∃ w rest, joinTexts (.text u :: vs) = .text w :: rest ∧
      joinTexts (.text t :: .text u :: vs) = .text (t ++ w) :: rest := by
  obtain ⟨run, runs, hruns⟩ := exists_splitBy_cons bothTexts (.text u) vs
  refine ⟨textOf (.text u :: run), runs.flatMap joinRun, ?_, ?_⟩
  · rw [joinTexts, hruns]
    rfl
  · rw [joinTexts, splitBy_cons_cons rfl hruns, List.flatMap_cons, joinRun, textOf_cons_text]
    rfl

/-- A node that does not go with the next one stays as it is. -/
theorem joinTexts_cons_apart {v : VNode} {vs : List VNode}
    (h : ∀ w ∈ vs.head?, v.bothTexts w = false) : joinTexts (v :: vs) = v :: joinTexts vs := by
  have hrun : joinRun [v] = [v] := by
    cases v with
    | text t => exact congrArg (fun u => [text u]) (textOf_singleton t)
    | _ => rfl
  rw [joinTexts, splitBy_cons_of_head h, List.flatMap_cons, hrun]
  rfl

/-- Joining does not make a text of the first node, nor something else of a text. -/
theorem isText_head_joinTexts {v : VNode} {vs : List VNode} :
    ∀ w ∈ (joinTexts (v :: vs)).head?, w.isText = v.isText := by
  obtain ⟨run, runs, hruns⟩ := exists_splitBy_cons bothTexts v vs
  rw [joinTexts, hruns, List.flatMap_cons]
  intro w hw
  cases v <;> obtain rfl := Option.some.inj hw <;> rfl

theorem joinTexts_cons {v : VNode} (hv : v.isEmptyText = false) (vs : List VNode) :
    joinTexts (v :: vs) = pushNode v (joinTexts vs) := by
  cases vs with
  | nil =>
    rw [joinTexts_cons_apart (by simp)]
    exact (pushNode_of_apart hv (by simp [joinTexts])).symm
  | cons w vs =>
    cases hboth : v.bothTexts w with
    | true =>
      obtain ⟨hvtext, hwtext⟩ := Bool.and_eq_true_iff.1 hboth
      obtain ⟨t, ht⟩ := Option.isSome_iff_exists.1 hvtext
      obtain ⟨u, hu⟩ := Option.isSome_iff_exists.1 hwtext
      obtain rfl := Child.eq_text ht
      obtain rfl := Child.eq_text hu
      obtain ⟨x, rest, hvs, hjoined⟩ := joinTexts_cons_text t u vs
      rw [hjoined, hvs]
      exact (if_neg (isEmptyText_text.1 hv)).symm
    | false =>
      have hapart : ∀ x ∈ (w :: vs).head?, v.bothTexts x = false := by simpa using hboth
      rw [joinTexts_cons_apart hapart, pushNode_of_apart hv fun x hx => ?_]
      rw [bothTexts, isText_head_joinTexts x hx]
      exact hboth

/-- Putting the nodes in front one by one joins them. -/
theorem foldr_pushNode (vs : List VNode) : vs.foldr pushNode [] = coalesce vs := by
  induction vs with
  | nil => rfl
  | cons v vs ih =>
    rw [List.foldr_cons, ih]
    cases hv : v.isEmptyText with
    | true =>
      obtain rfl := Child.eq_text (beq_iff_eq.1 hv)
      exact pushNode_empty _
    | false =>
      rw [coalesce, coalesce, List.filter_cons_of_pos (by rw [hv]; rfl), joinTexts_cons hv]

theorem settled_nil : Settled [] :=
  ⟨fun _ hv => absurd hv List.not_mem_nil, .nil⟩

theorem settled_cons {v : VNode} {vs : List VNode} :
    Settled (v :: vs) ↔
      v.isEmptyText = false ∧ (∀ w ∈ vs.head?, v.bothTexts w = false) ∧ Settled vs := by
  constructor
  · rintro ⟨hshows, hapart⟩
    have hshows := List.forall_mem_cons.1 hshows
    have hapart := List.isChain_cons.1 hapart
    exact ⟨hshows.1, hapart.1, hshows.2, hapart.2⟩
  · rintro ⟨hv, hhead, hshows, hapart⟩
    exact ⟨List.forall_mem_cons.2 ⟨hv, hshows⟩, List.isChain_cons.2 ⟨hhead, hapart⟩⟩

/-- A node that is put in front of joined nodes is joined with them. -/
theorem Settled.pushNode {after : List VNode} (h : Settled after) (v : VNode) :
    Settled (pushNode v after) := by
  obtain ⟨-, hpush⟩ | ⟨t, u, rest, rfl, rfl, ht, hpush⟩ | ⟨hv, hhead, hpush⟩ :=
    pushNode_cases v after
  · rw [hpush]
    exact h
  · obtain ⟨-, hhead, hrest⟩ := settled_cons.1 h
    rw [hpush, settled_cons, isEmptyText_text]
    exact ⟨fun hempty => ht (String.append_eq_empty_iff.1 hempty).1, hhead, hrest⟩
  · rw [hpush]
    exact settled_cons.2 ⟨hv, hhead, h⟩

theorem settled_coalesce (vs : List VNode) : Settled (coalesce vs) := by
  rw [← foldr_pushNode]
  induction vs with
  | nil => exact settled_nil
  | cons v vs ih => exact ih.pushNode v

/-- Where nothing is left to join, nothing is changed. -/
theorem Settled.coalesce_eq {vs : List VNode} (h : Settled vs) : coalesce vs = vs := by
  rw [← foldr_pushNode]
  induction vs with
  | nil => rfl
  | cons v vs ih =>
    obtain ⟨hv, hhead, hrest⟩ := settled_cons.1 h
    rw [List.foldr_cons, ih hrest, pushNode_of_apart hv hhead]

theorem others_pushNode (v : VNode) (after : List VNode) :
    (pushNode v after).filter (!·.isText) = (v :: after).filter (!·.isText) := by
  obtain ⟨rfl, hpush⟩ | ⟨t, u, rest, rfl, rfl, -, hpush⟩ | ⟨-, -, hpush⟩ := pushNode_cases v after
  · rw [hpush]
    rfl
  · rw [hpush]
    rfl
  · rw [hpush]

theorem others_coalesce (vs : List VNode) :
    (coalesce vs).filter (!·.isText) = vs.filter (!·.isText) := by
  rw [← foldr_pushNode]
  induction vs with
  | nil => rfl
  | cons v vs ih => rw [List.foldr_cons, others_pushNode, List.filter_cons, ih, List.filter_cons]

theorem textOf_pushNode (v : VNode) (after : List VNode) :
    textOf (pushNode v after) = textOf (v :: after) := by
  obtain ⟨rfl, hpush⟩ | ⟨t, u, rest, rfl, rfl, -, hpush⟩ | ⟨-, -, hpush⟩ := pushNode_cases v after
  · rw [hpush, textOf_cons_text, String.empty_append]
  · rw [hpush, textOf_cons_text, textOf_cons_text, textOf_cons_text, String.append_assoc]
  · rw [hpush]

theorem textOf_coalesce (vs : List VNode) : textOf (coalesce vs) = textOf vs := by
  rw [← foldr_pushNode]
  induction vs with
  | nil => rfl
  | cons v vs ih =>
    rw [List.foldr_cons, textOf_pushNode]
    cases hv : v.text? with
    | some t =>
      obtain rfl := Child.eq_text hv
      rw [textOf_cons_text, textOf_cons_text, ih]
    | none => rw [textOf_cons_other hv, textOf_cons_other hv, ih]

/-! ## From the left -/

/-- Adds a node behind nodes that are joined already. -/
def appendNode (before : List VNode) : VNode → List VNode
  | text t =>
    if t = "" then before
    else
      match before.getLast? with
      | some (text u) => before.dropLast ++ [text (u ++ t)]
      | _ => before ++ [text t]
  | v => before ++ [v]

theorem pushNode_pushNode (t u : String) (after : List VNode) :
    pushNode (.text t) (pushNode (.text u) after) = pushNode (.text (t ++ u)) after := by
  show Child.pushText t (Child.pushText u after) = Child.pushText (t ++ u) after
  unfold Child.pushText
  by_cases ht : t = ""
  · simp [ht]
  · by_cases hu : u = ""
    · simp [hu]
    · rcases after with _ | ⟨v, after⟩
      · simp [ht, hu]
      · cases v <;> simp [ht, hu, String.append_assoc]

theorem appendNode_cases (before : List VNode) (v : VNode) :
    v = .text "" ∧ appendNode before v = before ∨
      (∃ front t u, before = front ++ [.text t] ∧ v = .text u ∧ u ≠ "" ∧
        appendNode before v = front ++ [.text (t ++ u)]) ∨
      v.isEmptyText = false ∧ (∀ w ∈ before.getLast?, w.bothTexts v = false) ∧
        appendNode before v = before ++ [v] := by
  cases hv : v.text? with
  | none =>
    have happend : appendNode before v = before ++ [v] := by
      cases v with
      | text u => cases hv
      | _ => rfl
    exact .inr (.inr ⟨isEmptyText_of_other hv, fun w _ => bothTexts_other hv w, happend⟩)
  | some u =>
    obtain rfl := Child.eq_text hv
    by_cases hu : u = ""
    · exact .inl ⟨congrArg _ hu, if_pos hu⟩
    · rw [appendNode, if_neg hu]
      split
      · rename_i t hlast
        obtain ⟨front, rfl⟩ := List.getLast?_eq_some_iff.1 hlast
        exact .inr (.inl ⟨front, t, u, rfl, rfl, hu, by simp⟩)
      · rename_i hother
        refine .inr (.inr ⟨isEmptyText_text.2 hu, fun w hw => ?_, rfl⟩)
        cases w with
        | text t => exact absurd hw (hother t)
        | _ => rfl

theorem settled_concat {before : List VNode} {v : VNode} :
    Settled (before ++ [v]) ↔
      Settled before ∧ v.isEmptyText = false ∧ ∀ w ∈ before.getLast?, w.bothTexts v = false := by
  constructor
  · rintro ⟨hshows, hapart⟩
    rw [List.forall_mem_append, List.forall_mem_singleton] at hshows
    rw [List.isChain_append] at hapart
    exact ⟨⟨hshows.1, hapart.1⟩, hshows.2, fun w hw => hapart.2.2 w hw v rfl⟩
  · rintro ⟨⟨hshows, hapart⟩, hv, hlast⟩
    refine ⟨List.forall_mem_append.2 ⟨hshows, List.forall_mem_singleton.2 hv⟩, ?_⟩
    refine List.isChain_append.2 ⟨hapart, .singleton v, fun w hw x hx => ?_⟩
    obtain rfl := Option.some.inj hx
    exact hlast w hw

/-- Joined nodes stay joined when a node is added behind them. -/
theorem Settled.appendNode {before : List VNode} (h : Settled before) (v : VNode) :
    Settled (appendNode before v) := by
  obtain ⟨-, happend⟩ | ⟨front, t, u, rfl, rfl, hu, happend⟩ | ⟨hv, hlast, happend⟩ :=
    appendNode_cases before v
  · rw [happend]
    exact h
  · obtain ⟨hfront, -, hlast⟩ := settled_concat.1 h
    rw [happend, settled_concat, isEmptyText_text]
    exact ⟨hfront, fun hempty => hu (String.append_eq_empty_iff.1 hempty).2, hlast⟩
  · rw [happend]
    exact settled_concat.2 ⟨h, hv, hlast⟩

theorem coalesce_appendNode (before : List VNode) (v : VNode) (vs : List VNode) :
    coalesce (appendNode before v ++ vs) = coalesce (before ++ v :: vs) := by
  simp only [← foldr_pushNode, List.foldr_append, List.foldr_cons]
  obtain ⟨rfl, happend⟩ | ⟨front, t, u, rfl, rfl, -, happend⟩ | ⟨-, -, happend⟩ :=
    appendNode_cases before v
  · rw [happend, pushNode_empty]
  · simp only [happend, List.foldr_append, List.foldr_cons, List.foldr_nil, pushNode_pushNode]
  · simp only [happend, List.foldr_append, List.foldr_cons, List.foldr_nil]

/-- It does not matter from which end the nodes are joined. -/
theorem foldl_appendNode {before : List VNode} (h : Settled before) (vs : List VNode) :
    vs.foldl appendNode before = coalesce (before ++ vs) := by
  induction vs generalizing before with
  | nil => rw [List.foldl_nil, List.append_nil, h.coalesce_eq]
  | cons v vs ih => rw [List.foldl_cons, ih (h.appendNode v), coalesce_appendNode]

end VNode

/-! ## The law -/

namespace Child

open VNode (isText textOf coalesce)

mutual

/-- The child, or what is in it if it is a list. -/
def ungrouped : Child → List Child
  | list items => ungroupedAll items
  | c => [c]

/-- The children with what is in a list in the place of the list. -/
def ungroupedAll : List Child → List Child
  | [] => []
  | c :: cs => ungrouped c ++ ungroupedAll cs

end

mutual

theorem nodesAll_ungrouped : ∀ c, nodesAll (ungrouped c) = nodes c
  | node _ => List.append_nil _
  | text _ => List.append_nil _
  | list items => nodesAll_ungroupedAll items
  | slot _ => List.append_nil _
  | empty => List.append_nil _

theorem nodesAll_ungroupedAll : ∀ cs, nodesAll (ungroupedAll cs) = nodesAll cs
  | [] => rfl
  | c :: cs => by
    rw [ungroupedAll, nodesAll_append, nodesAll_ungrouped c, nodesAll_ungroupedAll cs, nodesAll]

end

theorem nodesAll_node (vs : List VNode) : nodesAll (vs.map node) = vs := by
  induction vs with
  | nil => rfl
  | cons v vs ih => exact congrArg (v :: ·) ih

theorem normalized_eq_coalesce (cs : List Child) : normalized cs = coalesce (nodesAll cs) := by
  rw [normalized, normalizeAllInto_eq, VNode.foldr_pushNode]

/-- Normalizing is splicing lists in place, dropping empty texts and joining runs of texts. So no
text of the result is empty or next to another, the other nodes are those of the children in their
order, and the text is all of their text. How the children are grouped into lists does not count,
and there is nothing left to do when the nodes are normalized again. -/
theorem normalized_coalesces (cs : List Child) :
    normalized cs = coalesce (nodesAll cs) ∧
      .text "" ∉ normalized cs ∧
      (normalized cs).IsChain (fun v w => ¬ (v.isText ∧ w.isText)) ∧
      (normalized cs).filter (!·.isText) = (nodesAll cs).filter (!·.isText) ∧
      textOf (normalized cs) = textOf (nodesAll cs) ∧
      normalized (ungroupedAll cs) = normalized cs ∧
      normalized ((normalized cs).map node) = normalized cs := by
  have hsettled := VNode.settled_coalesce (nodesAll cs)
  simp only [normalized_eq_coalesce, nodesAll_ungroupedAll, nodesAll_node, VNode.others_coalesce,
    VNode.textOf_coalesce, hsettled.coalesce_eq, and_true, true_and]
  refine ⟨fun hmem => ?_, hsettled.apart.imp fun v w hapart hboth => ?_⟩
  · cases hsettled.shows _ hmem
  · exact absurd (Bool.and_eq_true_iff.2 hboth) (Bool.eq_false_iff.1 hapart)

end Child

end ViewTree
