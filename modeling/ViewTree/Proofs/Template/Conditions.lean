import ViewTree.Proofs.Template.Grouping
import ViewTree.Proofs.Template.Linking
import ViewTree.Template.Compiler
/-!
# Conditions of a template

When is a further branch shown under its condition only? The builder puts it behind an element
with a condition, the generator decides on its own what it joins. The two agree on a list of
siblings exactly when no alternative has a condition of its own and no condition with further
branches is inside a loop of its own (`sound_iff_unmixed`).
-/

namespace ViewTree.Template

/-- Where the conditions hold as `v` tells, the branch at `i` is shown: its own condition holds, or
it has none, and those in front of it do not. -/
def Selects (v : String → Bool) (guards : List (Option String)) (i : Nat) : Prop :=
  (∃ g, guards[i]? = some g ∧ ∀ c ∈ g, v c) ∧
    ∀ j < i, ∃ c, guards[j]? = some (some c) ∧ v c = false

/-- What a template promises about its conditions: no further branch stands alone; a condition
begins with an element that has one, goes on with further branches, and ends with an alternative,
so that it shows exactly one of them. -/
def Cluster.Sound : Cluster → Prop
  | alone n => n.isBranch = false
  | chain head branches =>
    head.isBranch = false ∧ head.hasDirective "if" ∧ (∀ e ∈ branches, e.isBranch) ∧
      (∃ conditions : List String, guards head branches = conditions.map some ++ [none]) ∧
      ∀ v, ∃! i, Selects v (guards head branches) i

/-- No alternative has a condition of its own, and no condition with further branches is inside a
loop of its own. -/
structure Unmixed (siblings : List Node) : Prop where
  alternatives : ∀ n ∈ siblings, n.has "else" → n.has "if" = false ∧ n.has "else-if" = false
  unlooped : siblings.IsChain fun n m => m.isBranch → n.has "for" → n.isBranch

/-! ## Choices -/

theorem selects_zero_iff {v : String → Bool} {c : String} {guards : List (Option String)} :
    Selects v (some c :: guards) 0 ↔ v c := by
  simp [Selects]

theorem selects_succ_iff {v : String → Bool} {c : String} {guards : List (Option String)}
    {i : Nat} : Selects v (some c :: guards) (i + 1) ↔ v c = false ∧ Selects v guards i := by
  constructor
  · rintro ⟨hi, hfront⟩
    obtain ⟨_, ⟨⟩, hc⟩ := hfront 0 (Nat.succ_pos i)
    exact ⟨hc, hi, fun j hj => hfront (j + 1) (Nat.succ_lt_succ hj)⟩
  · rintro ⟨hc, hi, hfront⟩
    refine ⟨hi, ?_⟩
    intro j hj
    cases j with
    | zero => exact ⟨c, rfl, hc⟩
    | succ j => exact hfront j (Nat.lt_of_succ_lt_succ hj)

/-- Conditions with an alternative behind them select one branch, however they turn out. -/
theorem selects_unique (v : String → Bool) (conditions : List String) :
    ∃! i, Selects v (conditions.map some ++ [none]) i := by
  induction conditions with
  | nil =>
    refine ⟨0, by simp [Selects], ?_⟩
    rintro i ⟨⟨g, hg, _⟩, _⟩
    have hi : i < 1 := (List.getElem?_eq_some_iff.1 hg).1
    omega
  | cons c conditions ih =>
    obtain ⟨i, hi, hunique⟩ := ih
    rw [List.map_cons, List.cons_append]
    cases hc : v c with
    | true =>
      refine ⟨0, selects_zero_iff.2 hc, ?_⟩
      intro j hj
      cases j with
      | zero => rfl
      | succ j => simp [selects_succ_iff.1 hj] at hc
    | false =>
      refine ⟨i + 1, selects_succ_iff.2 ⟨hc, hi⟩, ?_⟩
      intro j hj
      cases j with
      | zero => simp [selects_zero_iff.1 hj] at hc
      | succ j => rw [hunique j (selects_succ_iff.1 hj).2]

/-! ## Conditions that are open -/

theorem guard?_eq_none {e : Element} :
    Cluster.guard? e = none ↔ e.hasDirective "if" = false ∧ e.hasDirective "else-if" = false := by
  simp [Cluster.guard?, OpenChain.condition?, ElementOf.hasDirective]

theorem hasDirective_if_of_startsChain {e : Element} (h : startsChain e) :
    e.hasDirective "if" ∧ e.hasDirective "for" = false := by
  simpa [startsChain] using h

/-- A condition that another branch may join: it begins with an element that is no branch, and all
its further branches have conditions. -/
structure Joinable (head : Element) (branches : List Element) : Prop where
  starts : startsChain head
  first : head.isBranch = false
  further : ∀ e ∈ branches, e.isBranch ∧ e.hasDirective "else" = false

namespace Joinable

variable {head : Element} {branches : List Element}

theorem single (hstart : startsChain head) (hfirst : head.isBranch = false) :
    Joinable head [] :=
  ⟨hstart, hfirst, by simp⟩

theorem concat (h : Joinable head branches) {e : Element} (hbranch : e.isBranch)
    (helse : e.hasDirective "else" = false) : Joinable head (branches ++ [e]) := by
  refine ⟨h.starts, h.first, ?_⟩
  intro d hd
  rcases List.mem_append.1 hd with hd | hd
  · exact h.further d hd
  · cases List.mem_singleton.1 hd
    exact ⟨hbranch, helse⟩

/-- Every branch has a condition. -/
theorem guarded (h : Joinable head branches) :
    ∃ conditions : List String, (head :: branches).map Cluster.guard? = conditions.map some := by
  have hsome : ∀ e ∈ head :: branches, Cluster.guard? e ≠ none := by
    intro e he hnone
    obtain ⟨hif, helseif⟩ := guard?_eq_none.1 hnone
    rcases List.mem_cons.1 he with rfl | he
    · have hhead := (hasDirective_if_of_startsChain h.starts).1
      simp [hif] at hhead
    · obtain ⟨hbranch, helse⟩ := h.further e he
      simp [ElementOf.isBranch, helseif, helse] at hbranch
  refine ⟨(head :: branches).map fun e => (Cluster.guard? e).getD "", ?_⟩
  rw [List.map_map]
  refine List.map_congr_left fun e he => ?_
  obtain ⟨c, hc⟩ := Option.ne_none_iff_exists'.1 (hsome e he)
  simp [hc]

theorem not_closed (h : Joinable head branches) : Cluster.isClosed head branches = false := by
  unfold Cluster.isClosed
  rcases List.eq_nil_or_concat branches with rfl | ⟨front, e, rfl⟩
  · have hfirst := h.first
    simp only [ElementOf.isBranch, Bool.or_eq_false_iff] at hfirst
    exact hfirst.2
  · simpa using (h.further e (by simp)).2

/-- A loop is not around the last branch alone. -/
theorem last_unlooped (h : Joinable head branches) :
    (branches.getLast?.getD head).hasDirective "for" →
      (branches.getLast?.getD head).isBranch := by
  intro hfor
  rcases List.eq_nil_or_concat branches with rfl | ⟨front, e, rfl⟩
  · have hstart := (hasDirective_if_of_startsChain h.starts).2
    exact absurd hfor (by simpa using hstart)
  · simpa using (h.further e (by simp)).1

/-- A condition that stays open shows nothing where none of its branches is shown. -/
theorem sound (h : Joinable head branches) : (Cluster.chain head branches).Sound := by
  obtain ⟨conditions, hconditions⟩ := h.guarded
  have hguards : Cluster.guards head branches = conditions.map some ++ [none] := by
    rw [Cluster.guards, hconditions, Cluster.fallback, h.not_closed]
    rfl
  refine ⟨h.first, (hasDirective_if_of_startsChain h.starts).1, fun e he => (h.further e he).1,
    ⟨conditions, hguards⟩, ?_⟩
  rw [hguards]
  exact fun v => selects_unique v conditions

/-- An alternative ends a condition properly if it has no condition of its own. -/
theorem sound_concat_iff (h : Joinable head branches) {e : Element} (hbranch : e.isBranch)
    (helse : e.hasDirective "else") :
    (Cluster.chain head (branches ++ [e])).Sound ↔
      e.hasDirective "if" = false ∧ e.hasDirective "else-if" = false := by
  obtain ⟨conditions, hconditions⟩ := h.guarded
  have hguards : Cluster.guards head (branches ++ [e]) =
      conditions.map some ++ [Cluster.guard? e] := by
    have hclosed : Cluster.isClosed head (branches ++ [e]) := by
      simpa [Cluster.isClosed] using helse
    rw [Cluster.guards, ← hconditions, Cluster.fallback, hclosed]
    simp
  rw [← guard?_eq_none]
  constructor
  · rintro ⟨_, _, _, ⟨conditions', hend⟩, _⟩
    -- The promise says that the last branch has no condition, and the last one is the alternative.
    have hlast := congrArg List.getLast? (hguards.symm.trans hend)
    simpa using hlast
  · intro hnone
    rw [hnone] at hguards
    refine ⟨h.first, (hasDirective_if_of_startsChain h.starts).1, ?_, ⟨conditions, hguards⟩, ?_⟩
    · intro d hd
      rcases List.mem_append.1 hd with hd | hd
      · exact (h.further d hd).1
      · cases List.mem_singleton.1 hd
        exact hbranch
    · rw [hguards]
      exact fun v => selects_unique v conditions

end Joinable

/-! ## Siblings -/

/-- Everything that becomes of the nodes keeps the promise, where `opened` is a condition that the
nodes in front left open. -/
def AllSound (opened : Option (Element × List Element)) (nodes : List Node) : Prop :=
  ∀ c ∈ clusters opened nodes, c.Sound

/-- The nodes behind `prev` are linked. -/
def LinkedBehind (prev : Node) (nodes : List Node) : Prop :=
  (prev :: nodes).IsChain fun n m => m.isBranch → n.isCondition

/-- The nodes behind `prev` are unmixed. -/
def UnmixedBehind (prev : Node) (nodes : List Node) : Prop :=
  (∀ n ∈ nodes, n.has "else" → n.has "if" = false ∧ n.has "else-if" = false) ∧
    (prev :: nodes).IsChain fun n m => m.isBranch → n.has "for" → n.isBranch

theorem unmixedBehind_nil (prev : Node) : UnmixedBehind prev [] :=
  ⟨by simp, .singleton prev⟩

theorem unmixedBehind_cons {prev n : Node} {rest : List Node} :
    UnmixedBehind prev (n :: rest) ↔
      (n.has "else" → n.has "if" = false ∧ n.has "else-if" = false) ∧
        (n.isBranch → prev.has "for" → prev.isBranch) ∧ UnmixedBehind n rest := by
  simp only [UnmixedBehind, List.forall_mem_cons, List.isChain_cons_cons]
  tauto

theorem unmixedBehind_cons_of_not_branch {prev n : Node} {rest : List Node}
    (hn : n.isBranch = false) : UnmixedBehind prev (n :: rest) ↔ UnmixedBehind n rest := by
  have helse : n.has "else" = false := by
    simp only [Node.isBranch, Bool.or_eq_false_iff] at hn
    exact hn.2
  simp [unmixedBehind_cons, hn, helse]

/-- A condition that begins somewhere is in a cluster. -/
theorem chain_mem_clusters (head : Element) (branches : List Element) (nodes : List Node) :
    ∃ more, .chain head more ∈ clusters (some (head, branches)) nodes := by
  induction nodes generalizing branches with
  | nil => exact ⟨branches, List.mem_singleton_self _⟩
  | cons n rest ih =>
    cases hn : n.element? with
    | none =>
      rw [clusters_other hn]
      exact ⟨branches, List.mem_cons_self⟩
    | some e =>
      obtain rfl := eq_element hn
      by_cases hbranch : e.isBranch
      · rw [clusters_branch _ _ hbranch]
        split
        · exact ⟨_, List.mem_cons_self⟩
        · exact ih _
      · rw [clusters_no_branch _ _ (Bool.eq_false_iff.2 hbranch)]
        exact ⟨branches, List.mem_cons_self⟩

theorem exists_element_of_branch {n : Node} (hbranch : n.isBranch) : ∃ e, n = .element e := by
  cases hn : n.element? with
  | none => simp [Node.isBranch_of_element?_none hn] at hbranch
  | some e => exact ⟨e, eq_element hn⟩

/-- A branch that no condition in front of it takes breaks the promise. -/
theorem not_allSound_branch {e : Element} (hbranch : e.isBranch) (rest : List Node) :
    ¬ AllSound none (.element e :: rest) := by
  intro h
  rw [AllSound, clusters_element] at h
  split at h
  · obtain ⟨more, hmem⟩ := chain_mem_clusters e [] rest
    have hfirst := (h _ hmem).1
    simp [hbranch] at hfirst
  · have halone : e.isBranch = false := h _ List.mem_cons_self
    simp [hbranch] at halone

/-- What becomes of the nodes keeps the promise exactly if they are unmixed: behind a node that a
branch cannot properly join, and behind a condition that it can. -/
structure Agree (nodes : List Node) : Prop where
  fresh : ∀ prev, LinkedBehind prev nodes →
    (prev.isCondition → prev.has "for" ∧ prev.isBranch = false) →
      (AllSound none nodes ↔ UnmixedBehind prev nodes)
  joining : ∀ head branches, Joinable head branches →
    LinkedBehind (.element (branches.getLast?.getD head)) nodes →
      (AllSound (some (head, branches)) nodes ↔
        UnmixedBehind (.element (branches.getLast?.getD head)) nodes)

theorem agree_nil : Agree [] := by
  constructor
  · intro prev _ _
    simp [AllSound, clusters, openCluster, unmixedBehind_nil]
  · intro head branches h _
    simp [AllSound, clusters, openCluster, unmixedBehind_nil, h.sound]

/-- Nothing is sound, nor unmixed, if a branch is behind a node that it cannot properly join. -/
theorem allSound_iff_of_branch {prev n : Node} {rest : List Node} (hbranch : n.isBranch)
    (hfor : prev.has "for") (hno : prev.isBranch = false) :
    AllSound none (n :: rest) ↔ UnmixedBehind prev (n :: rest) := by
  obtain ⟨e, rfl⟩ := exists_element_of_branch hbranch
  refine iff_of_false (not_allSound_branch hbranch rest) ?_
  rw [unmixedBehind_cons]
  rintro ⟨_, hloop, _⟩
  simp [hloop hbranch hfor] at hno

namespace Agree

variable {n : Node} {rest : List Node} {head e : Element} {branches : List Element}

/-- A node that is no branch begins anew, whatever is in front of it. -/
theorem begin (h : Agree rest) (hbranch : n.isBranch = false) (hlinked : LinkedBehind n rest) :
    AllSound none (n :: rest) ↔ UnmixedBehind n rest := by
  cases hn : n.element? with
  | none =>
    have hcondition : n.isCondition = false := by
      simp [Node.isCondition, Node.has_of_element?_none hn]
    rw [← h.fresh n hlinked (by simp [hcondition]), AllSound, clusters_other hn]
    simp [AllSound, openCluster, Cluster.Sound, hbranch]
  | some e =>
    obtain rfl := eq_element hn
    rw [AllSound, clusters_element]
    split
    · rename_i hstart
      exact h.joining e [] (.single hstart hbranch) hlinked
    · rename_i hstart
      -- An element with a condition that no branch may join is inside a loop.
      have hloop (hcondition : (Node.element e).isCondition) : (Node.element e).has "for" := by
        simp only [Node.isBranch, Bool.or_eq_false_iff] at hbranch
        simp only [Node.isCondition, hbranch.1, Bool.or_false, Node.has_element] at hcondition
        simpa [startsChain, hcondition] using hstart
      rw [← h.fresh (.element e) hlinked fun hcondition => ⟨hloop hcondition, hbranch⟩]
      simp [AllSound, Cluster.Sound, hbranch]

/-- An alternative ends the condition, and nothing can join it. -/
theorem alternative (h : Agree rest) (hjoinable : Joinable head branches) (hbranch : e.isBranch)
    (helse : e.hasDirective "else") (hlinked : LinkedBehind (.element e) rest) :
    AllSound (some (head, branches)) (.element e :: rest) ↔
      UnmixedBehind (.element (branches.getLast?.getD head)) (.element e :: rest) := by
  rw [unmixedBehind_cons, AllSound, clusters_branch _ _ hbranch, if_pos helse,
    List.forall_mem_cons, hjoinable.sound_concat_iff hbranch helse]
  have hrest (halt : e.hasDirective "if" = false ∧ e.hasDirective "else-if" = false) :
      AllSound none rest ↔ UnmixedBehind (.element e) rest := by
    refine h.fresh (.element e) hlinked fun hcondition => ?_
    simp [Node.isCondition, halt.1, halt.2] at hcondition
  constructor
  · rintro ⟨halt, hsound⟩
    exact ⟨fun _ => halt, fun _ => hjoinable.last_unlooped, (hrest halt).1 hsound⟩
  · rintro ⟨halt, _, hunmixed⟩
    exact ⟨halt helse, (hrest (halt helse)).2 hunmixed⟩

/-- A branch with a condition joins the condition, which others may join in turn. -/
theorem further (h : Agree rest) (hjoinable : Joinable head branches) (hbranch : e.isBranch)
    (helse : e.hasDirective "else" = false) (hlinked : LinkedBehind (.element e) rest) :
    AllSound (some (head, branches)) (.element e :: rest) ↔
      UnmixedBehind (.element (branches.getLast?.getD head)) (.element e :: rest) := by
  have hconcat := h.joining head (branches ++ [e]) (hjoinable.concat hbranch helse)
  rw [List.getLast?_concat, Option.getD_some] at hconcat
  have helse' : ¬ e.hasDirective "else" := Bool.eq_false_iff.1 helse
  rw [unmixedBehind_cons, AllSound, clusters_branch _ _ hbranch, if_neg helse', ← AllSound,
    hconcat hlinked]
  constructor
  · intro hunmixed
    exact ⟨fun h => absurd h helse', fun _ => hjoinable.last_unlooped, hunmixed⟩
  · rintro ⟨_, _, hunmixed⟩
    exact hunmixed

/-- A node that is no branch leaves the condition in front of it as it is. -/
theorem close (h : Agree rest) (hjoinable : Joinable head branches) (hbranch : n.isBranch = false)
    (hlinked : LinkedBehind n rest) :
    AllSound (some (head, branches)) (n :: rest) ↔
      UnmixedBehind (.element (branches.getLast?.getD head)) (n :: rest) := by
  rw [unmixedBehind_cons_of_not_branch hbranch, ← h.begin hbranch hlinked]
  cases hn : n.element? with
  | none =>
    simp [AllSound, clusters_other hn, openCluster, hjoinable.sound]
  | some e =>
    obtain rfl := eq_element hn
    simp [AllSound, clusters_no_branch _ _ hbranch, hjoinable.sound]

theorem cons (n : Node) (h : Agree rest) : Agree (n :: rest) := by
  constructor
  · intro prev hlinked hprev
    obtain ⟨hnext, hlinked⟩ := List.isChain_cons_cons.1 hlinked
    by_cases hbranch : n.isBranch
    · obtain ⟨hfor, hno⟩ := hprev (hnext hbranch)
      exact allSound_iff_of_branch hbranch hfor hno
    · rw [Bool.not_eq_true] at hbranch
      rw [unmixedBehind_cons_of_not_branch hbranch]
      exact h.begin hbranch hlinked
  · intro head branches hjoinable hlinked
    obtain ⟨-, hlinked⟩ := List.isChain_cons_cons.1 hlinked
    by_cases hbranch : n.isBranch
    · obtain ⟨e, rfl⟩ := exists_element_of_branch hbranch
      cases helse : e.hasDirective "else" with
      | true => exact h.alternative hjoinable hbranch helse hlinked
      | false => exact h.further hjoinable hbranch helse hlinked
    · exact h.close hjoinable (Bool.eq_false_iff.2 hbranch) hlinked

end Agree

/-- The induction is on the siblings, for every condition that may be open in front of them. -/
theorem agree (nodes : List Node) : Agree nodes := by
  induction nodes with
  | nil => exact agree_nil
  | cons n rest ih => exact ih.cons n

/-- What becomes of linked siblings keeps the promise exactly if they are unmixed. -/
theorem sound_iff_unmixed {siblings : List Node} (h : Linked siblings) :
    AllSound none siblings ↔ Unmixed siblings := by
  -- No branch can join a text, so one in front of the siblings changes nothing.
  have hlinked : LinkedBehind (.text "") siblings := by
    refine h.next.cons fun n hn hbranch => ?_
    simp [h.first n hn] at hbranch
  rw [(agree siblings).fresh (.text "") hlinked fun hcondition => by cases hcondition]
  constructor
  · rintro ⟨halt, hloop⟩
    exact ⟨halt, hloop.tail⟩
  · rintro ⟨halt, hloop⟩
    refine ⟨halt, hloop.cons fun n hn hbranch => ?_⟩
    simp [h.first n hn] at hbranch

/-! ## Trees -/

theorem everywhere_congr {P Q : List Node → Prop} {roots : List Node}
    (h : Everywhere Linked roots) (hPQ : ∀ siblings, Linked siblings → (P siblings ↔ Q siblings)) :
    Everywhere P roots ↔ Everywhere Q roots := by
  induction h with
  | intro here inside ih =>
    constructor
    · intro hP
      exact .intro ((hPQ _ here).1 hP.here) fun e he => (ih e he).1 (hP.inside he)
    · intro hQ
      exact .intro ((hPQ _ here).2 hQ.here) fun e he => (ih e he).2 (hQ.inside he)

/-- Siblings stay linked when nodes are replaced by nodes with the same directives. -/
theorem Linked.map {siblings : List Node} (h : Linked siblings) {f : Node → Node}
    (hf : ∀ n name, (f n).has name = n.has name) : Linked (siblings.map f) := by
  have hbranch (n : Node) : (f n).isBranch = n.isBranch := by
    simp [Node.isBranch, hf]
  have hcondition (n : Node) : (f n).isCondition = n.isCondition := by
    simp [Node.isCondition, hf]
  refine ⟨?_, ?_⟩
  · intro m hm
    rw [List.head?_map, Option.mem_def, Option.map_eq_some_iff] at hm
    obtain ⟨n, hn, rfl⟩ := hm
    rw [hbranch]
    exact h.first n hn
  · rw [List.isChain_map]
    simpa [hbranch, hcondition] using h.next

/-- Marking leaves directives alone. -/
theorem has_markStatic (s : Settings) (inLoop : Bool) (n : Node) (name : String) :
    (n.markStatic s inLoop).has name = n.has name := by
  cases n <;> rfl

theorem has_markRoots (n : Node) (name : String) : n.markRoots.has name = n.has name := by
  cases n with
  | element e =>
    obtain ⟨tag, attrs, children, selfClosing, ns, extras, isStatic, staticRoot, span⟩ := e
    rw [Node.markRoots]
    split <;> rfl
  | text t => rfl
  | interpolation t => rfl
  | comment t => rfl

theorem everywhere_markStatic (s : Settings) {roots : List Node} (h : Everywhere Linked roots)
    (inLoop : Bool) : Everywhere Linked (roots.map (Node.markStatic s inLoop)) := by
  induction h generalizing inLoop with
  | intro here inside ih =>
    refine .intro (here.map (has_markStatic s inLoop)) ?_
    intro e he
    obtain ⟨n, hn, hmark⟩ := List.mem_map.1 he
    cases n with
    | element d =>
      cases hmark
      dsimp only
      rw [markStaticAll_eq_map]
      exact ih d hn _
    | text t => cases hmark
    | interpolation t => cases hmark
    | comment t => cases hmark

theorem everywhere_markRoots {roots : List Node} (h : Everywhere Linked roots) :
    Everywhere Linked (roots.map Node.markRoots) := by
  induction h with
  | intro here inside ih =>
    refine .intro (here.map has_markRoots) ?_
    intro e he
    obtain ⟨n, hn, hmark⟩ := List.mem_map.1 he
    cases n with
    | element d =>
      obtain ⟨tag, attrs, children, selfClosing, ns, extras, isStatic, staticRoot, span⟩ := d
      rw [Node.markRoots] at hmark
      split at hmark
      · cases hmark
        have hchildren := inside _ hn
        exact hchildren
      · cases hmark
        dsimp only
        rw [markRootsAll_eq_map]
        exact ih _ hn
    | text t => cases hmark
    | interpolation t => cases hmark
    | comment t => cases hmark

theorem optimize_linked (s : Settings) {roots : List Node} (h : Everywhere Linked roots) :
    Everywhere Linked (optimize s roots) := by
  have hmarked := everywhere_markRoots (everywhere_markStatic s h false)
  rwa [List.map_map] at hmarked

theorem optimize_branches (s : Settings) {roots : List Node} (h : ∀ n ∈ roots.tail, n.isBranch) :
    ∀ n ∈ (optimize s roots).tail, n.isBranch := by
  intro m hm
  rw [optimize, ← List.map_tail] at hm
  obtain ⟨n, hn, rfl⟩ := List.mem_map.1 hm
  simpa [Node.isBranch, has_markRoots, has_markStatic] using h n hn

/-! ## Templates -/

/-- The tree of a template, as the generator gets it. -/
def treeOf (template : String) : List Node :=
  (compileWith compileTemplate .base template).result.template.ast

/-- A template keeps its promise: everything that becomes of its siblings is sound, and no branch
is among what is left out behind the first root. -/
structure BranchesKept (roots : List Node) : Prop where
  sound : Everywhere (AllSound none) roots
  shown : ∀ c ∈ (clusters none roots).tail, ∀ n ∈ c.nodes, n.isBranch = false

/-- Where everything is sound, every cluster begins with a node that is no branch. -/
theorem Cluster.Sound.first {c : Cluster} (h : c.Sound) :
    ∃ n more, c.nodes = n :: more ∧ n.isBranch = false := by
  cases c with
  | alone n => exact ⟨n, [], rfl, h⟩
  | chain head branches => exact ⟨.element head, _, rfl, h.1⟩

/-- Roots that are branches behind the first become one child with it. -/
theorem clusters_tail_eq_nil {roots : List Node} (hbranches : ∀ n ∈ roots.tail, n.isBranch)
    (h : AllSound none roots) : (clusters none roots).tail = [] := by
  have hnodes := clusters_nodes roots
  rcases hclusters : clusters none roots with _ | ⟨c, _ | ⟨d, more⟩⟩
  · rfl
  · rfl
  · -- The second cluster would begin with a root that is no branch.
    obtain ⟨n, _, hc, _⟩ := (h c (by simp [hclusters])).first
    obtain ⟨m, _, hd, hm⟩ := (h d (by simp [hclusters])).first
    rw [hclusters] at hnodes
    have hmem : m ∈ roots.tail := by
      rw [← hnodes]
      simp [hc, hd]
    simp [hbranches m hmem] at hm

/-- The component's code is that of the first cluster of the roots. -/
theorem generateCode_body (s : Settings) (roots : List Node) :
    (generateCode s roots).1.body =
      match clusters none roots with
      | [] => placeholderCode
      | c :: _ => ((c.code s).run ⟨[], []⟩).1 := by
  unfold generateCode
  rw [nodesCode_clusters]
  cases clusters none roots with
  | nil => rfl
  | cons c more =>
    rw [List.mapM_cons]
    rfl

/-- The generator makes the code of siblings out of their clusters, which are made of all siblings
in order, and that of a component out of the first. A template keeps its promise about conditions
exactly if no alternative in it has a condition of its own and no condition with further branches
is inside a loop of its own. -/
theorem branchesKept_iff_unmixed (template : String) :
    (∀ nodes, nodesCode .base none nodes = (clusters none nodes).mapM (Cluster.code .base) ∧
      (clusters none nodes).flatMap Cluster.nodes = nodes) ∧
    ((generateCode .base (treeOf template)).1.body =
      match clusters none (treeOf template) with
      | [] => placeholderCode
      | c :: _ => ((c.code .base).run ⟨[], []⟩).1) ∧
    (BranchesKept (treeOf template) ↔ Everywhere Unmixed (treeOf template)) := by
  obtain ⟨hlinked, hbranches⟩ := parse_linked base_keepShape (Text.trim template)
  have htree : treeOf template = optimize .base (parse .base (Text.trim template)).1 := rfl
  have hlinked' := optimize_linked .base hlinked
  have hbranches' := optimize_branches .base hbranches
  rw [htree]
  refine ⟨fun nodes => ⟨nodesCode_clusters .base nodes, clusters_nodes nodes⟩,
    generateCode_body .base _, ?_⟩
  rw [← everywhere_congr hlinked' fun _ => sound_iff_unmixed]
  constructor
  · exact BranchesKept.sound
  · intro hsound
    refine ⟨hsound, ?_⟩
    rw [clusters_tail_eq_nil hbranches' hsound.here]
    rintro c ⟨⟩

/-- The cluster begins with a further branch of a condition. -/
def Cluster.isLoose (c : Cluster) : Bool :=
  c.nodes.head?.any Node.isBranch

theorem not_branchesKept_of_isLoose {roots : List Node} {e : Element} (he : .element e ∈ roots)
    (hloose : (clusters none e.children).any Cluster.isLoose) : ¬ BranchesKept roots := by
  intro h
  obtain ⟨c, hc, hbranch⟩ := List.any_eq_true.1 hloose
  obtain ⟨n, more, hnodes, hn⟩ := ((h.sound.inside he).here c hc).first
  simp [Cluster.isLoose, hnodes, hn] at hbranch

/-- The alternative to a condition inside a loop of its own is shown in any case. -/
theorem looped_condition_not_kept :
    (compileWith compileTemplate .base
        "<div><p v-if=\"a\" v-for=\"x in xs\"></p><p v-else></p></div>").result.errors = [] ∧
      ¬ BranchesKept (treeOf "<div><p v-if=\"a\" v-for=\"x in xs\"></p><p v-else></p></div>") := by
  refine ⟨by decide +kernel, ?_⟩
  have hloose : (treeOf "<div><p v-if=\"a\" v-for=\"x in xs\"></p><p v-else></p></div>").any
      fun n => n.element?.any fun e => (clusters none e.children).any Cluster.isLoose := by
    decide +kernel
  obtain ⟨n, hn, hany⟩ := List.any_eq_true.1 hloose
  obtain ⟨e, he, hloose⟩ := (Option.any_eq_true _ _).1 hany
  rw [eq_element he] at hn
  exact not_branchesKept_of_isLoose hn hloose

end ViewTree.Template
