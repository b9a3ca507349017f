import ViewTree.Proofs.Template.Grouping
/-!
# What a run of the generator adds

A run gives a result and adds hoisted bodies and diagnostics behind those there are. `Emits` states
what holds of them, with one rule for each way in which the generator is put together.
-/

namespace ViewTree.Template

/-- What holds of the bodies in front of a run, its result, and the bodies and diagnostics that it
adds. -/
abbrev Outcome (α : Type) :=
  List Code → α → List Code → List Diagnostic → Prop

/-- Every run of `m` has an outcome of `R`. -/
def Emits {α : Type} (m : Generator α) (R : Outcome α) : Prop :=
  ∀ h, ∃ a bodies ds,
    m.run h = (a, ⟨h.bodies ++ bodies, h.diagnostics ++ ds⟩) ∧ R h.bodies a bodies ds

section

variable {α β ι : Type} {m : Generator α} {R S : Outcome α}

theorem run_bind (m : Generator α) (k : α → Generator β) (h : Hoisted) :
    (m >>= k).run h = (k (m.run h).1).run (m.run h).2 :=
  rfl

theorem emits_pure {a : α} (h : ∀ front, R front a [] []) : Emits (pure a) R := by
  intro h'
  refine ⟨a, [], [], ?_, h h'.bodies⟩
  simp only [List.append_nil]
  rfl

theorem Emits.mono (hm : Emits m R)
    (h : ∀ front a bodies ds, R front a bodies ds → S front a bodies ds) : Emits m S := by
  intro h'
  obtain ⟨a, bodies, ds, hrun, hR⟩ := hm h'
  exact ⟨a, bodies, ds, hrun, h _ _ _ _ hR⟩

/-- What a second run adds stands behind what the first one adds. -/
theorem Emits.bind {k : α → Generator β} {K : α → Outcome β} {T : Outcome β} (hm : Emits m R)
    (hk : ∀ a, Emits (k a) (K a))
    (h : ∀ front a b bodies more ds ds', R front a bodies ds → K a (front ++ bodies) b more ds' →
      T front b (bodies ++ more) (ds ++ ds')) : Emits (m >>= k) T := by
  intro h'
  obtain ⟨a, bodies, ds, hrun, hR⟩ := hm h'
  obtain ⟨b, more, ds', hrun', hK⟩ := hk a ⟨h'.bodies ++ bodies, h'.diagnostics ++ ds⟩
  refine ⟨b, bodies ++ more, ds ++ ds', ?_, h _ _ _ _ _ _ _ hR hK⟩
  rw [run_bind, hrun, hrun', List.append_assoc, List.append_assoc]

theorem Emits.map (f : α → β) (hm : Emits m R) :
    Emits (m >>= fun a => pure (f a))
      fun front b bodies ds => ∃ a, f a = b ∧ R front a bodies ds := by
  intro h'
  obtain ⟨a, bodies, ds, hrun, hR⟩ := hm h'
  refine ⟨f a, bodies, ds, ?_, a, rfl, hR⟩
  rw [run_bind, hrun]
  rfl

theorem emits_report (d : Diagnostic) :
    Emits (Generator.report d) fun _ _ bodies ds => bodies = [] ∧ ds = [d] := by
  intro h
  refine ⟨(), [], [d], ?_, rfl, rfl⟩
  rw [List.append_nil]
  rfl

/-- One run for every item, each behind those in front. -/
theorem emits_mapM {f : ι → Generator α} {xs : List ι} {R : ι → Outcome α}
    {S : List ι → Outcome (List α)} (h : ∀ x ∈ xs, Emits (f x) (R x))
    (nil : ∀ front, S [] front [] [] [])
    (cons : ∀ x xs front a as bodies more ds ds', R x front a bodies ds →
      S xs (front ++ bodies) as more ds' →
        S (x :: xs) front (a :: as) (bodies ++ more) (ds ++ ds')) :
    Emits (xs.mapM f) (S xs) := by
  induction xs with
  | nil => exact emits_pure nil
  | cons x xs ih =>
    rw [List.mapM_cons]
    have hxs := ih fun y hy => h y (List.mem_cons_of_mem x hy)
    refine (h x List.mem_cons_self).bind (fun a => hxs.map (a :: ·)) ?_
    rintro front a _ bodies more ds ds' hR ⟨as, rfl, hS⟩
    exact cons _ _ _ _ _ _ _ _ _ hR hS

end

section

variable {e : Element} {body : Generator Code} {R S : Outcome Code}

/-- A static root leaves a call behind, and its body behind all bodies in it. -/
theorem Emits.hoistLayer (hm : Emits body R)
    (stays : e.staticRoot = false → ∀ front code bodies ds, R front code bodies ds →
      S front code bodies ds)
    (hoisted : e.staticRoot → ∀ front code bodies ds, R front code bodies ds →
      S front [.hoisted (front.length + bodies.length)] (bodies ++ [code]) ds) :
    Emits (Template.hoistLayer e body) S := by
  unfold Template.hoistLayer
  split
  · rename_i hroot
    intro h'
    obtain ⟨code, bodies, ds, hrun, hR⟩ := hm h'
    refine ⟨_, _, ds, ?_, hoisted hroot _ _ _ _ hR⟩
    rw [run_bind, hrun, ← List.append_assoc, ← List.length_append]
    rfl
  · rename_i hroot
    exact hm.mono (stays (Bool.eq_false_iff.2 hroot))

/-- What is said about a component in a loop without a key. -/
def keyTips (s : Settings) (e : Element) (a : Attribute) : List Diagnostic :=
  if isComponentUse s e && (e.binding? "key").isNone then
    [.tip ("<" ++ e.tag ++ " v-for=\"" ++ a.valueText ++
      "\">: component lists rendered with v-for should have explicit keys.")]
  else []

/-- A loop goes around the code, unless it is malformed. -/
theorem Emits.loopLayer {s : Settings} (hm : Emits body R)
    (plain : e.directive? "for" = none → ∀ front code bodies ds, R front code bodies ds →
      S front code bodies ds)
    (malformed : ∀ a, e.directive? "for" = some a → LoopExpr.parse? a.valueText = none →
      ∀ front, S front emptyChild [] [.error ("Invalid v-for expression: " ++ a.valueText)])
    (loop : ∀ a l, e.directive? "for" = some a → LoopExpr.parse? a.valueText = some l →
      ∀ front code bodies ds, R front code bodies ds →
        S front (loopCode l code) bodies (keyTips s e a ++ ds)) :
    Emits (Template.loopLayer s e body) S := by
  unfold Template.loopLayer
  cases hfor : e.directive? "for" with
  | none => exact hm.mono (plain hfor)
  | some a =>
    dsimp only
    cases hparse : LoopExpr.parse? a.valueText with
    | none =>
      refine (emits_report _).bind (fun _ => emits_pure (R := fun _ code bodies ds =>
        code = emptyChild ∧ bodies = [] ∧ ds = []) fun _ => ⟨rfl, rfl, rfl⟩) ?_
      rintro front _ _ _ _ _ _ ⟨rfl, rfl⟩ ⟨rfl, rfl, rfl⟩
      exact malformed a hfor hparse front
    | some l =>
      have hcode := hm.map (loopCode l)
      dsimp only
      split
      · rename_i htip
        refine (emits_report _).bind (fun _ => hcode) ?_
        rintro front _ _ _ bodies _ ds ⟨rfl, rfl⟩ ⟨code, rfl, hR⟩
        have hS := loop a l hfor hparse front code bodies ds (by simpa using hR)
        rwa [keyTips, if_pos htip] at hS
      · rename_i htip
        refine hcode.mono ?_
        rintro front _ bodies ds ⟨code, rfl, hR⟩
        have hS := loop a l hfor hparse front code bodies ds hR
        rwa [keyTips, if_neg htip] at hS

end

/-! ## Nodes and their siblings -/

/-- Trees are proved about from the leaves up. -/
theorem Node.induct {P : Node → Prop} (text : ∀ t, P (.text t))
    (interpolation : ∀ expr, P (.interpolation expr)) (comment : ∀ t, P (.comment t))
    (element : ∀ e : Element, (∀ n ∈ e.children, P n) → P (.element e)) : ∀ n, P n
  | .text t => text t
  | .interpolation expr => interpolation expr
  | .comment t => comment t
  | .element ⟨tag, attrs, children, selfClosing, ns, extras, isStatic, staticRoot, span⟩ =>
    element _ fun n _ => Node.induct text interpolation comment element n

/-- The code of an element around the codes of its children. In a larger condition its own one is
left out. -/
def wrapCode (s : Settings) (inChain : Bool) (e : Element) (codes : List Code) : Code :=
  if inChain then elementCode s e codes else guardCode e (elementCode s e codes)

/-- The code of an element, from the inside out. -/
theorem nodeCode_element (s : Settings) (inChain : Bool) (e : Element) :
    nodeCode s inChain (.element e) = hoistLayer e (loopLayer s e
      (nodesCode s none e.children >>= fun codes => pure (wrapCode s inChain e codes))) := by
  cases e
  rfl

/-- What holds of an element's code holds through all its layers: around the children, inside its
own loop, and hoisted. -/
theorem emits_element {s : Settings} {inChain : Bool} {e : Element} {C : Outcome (List Code)}
    {R : Outcome Code} (h : Emits (nodesCode s none e.children) C)
    (wrap : ∀ front codes bodies ds, C front codes bodies ds →
      R front (wrapCode s inChain e codes) bodies ds)
    (malformed : ∀ a, e.directive? "for" = some a → LoopExpr.parse? a.valueText = none →
      ∀ front, R front emptyChild [] [.error ("Invalid v-for expression: " ++ a.valueText)])
    (loop : ∀ a l, e.directive? "for" = some a → LoopExpr.parse? a.valueText = some l →
      ∀ front code bodies ds, R front code bodies ds →
        R front (loopCode l code) bodies (keyTips s e a ++ ds))
    (hoisted : e.staticRoot → ∀ front code bodies ds, R front code bodies ds →
      R front [.hoisted (front.length + bodies.length)] (bodies ++ [code]) ds) :
    Emits (nodeCode s inChain (.element e)) R := by
  have hbody := (h.map (wrapCode s inChain e)).mono (S := R) <| by
    rintro front _ bodies ds ⟨codes, rfl, hcodes⟩
    exact wrap front codes bodies ds hcodes
  rw [nodeCode_element]
  exact (hbody.loopLayer (fun _ _ _ _ _ hR => hR) malformed loop).hoistLayer
    (fun _ _ _ _ _ hR => hR) hoisted

theorem mem_of_mem_cluster {nodes : List Node} {c : Cluster} (hc : c ∈ clusters none nodes)
    {n : Node} (hn : n ∈ c.nodes) : n ∈ nodes := by
  rw [← clusters_nodes nodes]
  exact List.mem_flatMap.2 ⟨c, hc, hn⟩

/-- Siblings become nodes of theirs that stand alone, and conditions of elements among them. -/
theorem forall_cluster {nodes : List Node} {P : Cluster → Prop} (alone : ∀ n ∈ nodes, P (.alone n))
    (chain : ∀ head branches, (∀ e ∈ head :: branches, .element e ∈ nodes) →
      P (.chain head branches)) : ∀ c ∈ clusters none nodes, P c := by
  intro c hc
  cases c with
  | alone n => exact alone n (mem_of_mem_cluster hc List.mem_cons_self)
  | chain head branches =>
    refine chain head branches fun e he => mem_of_mem_cluster hc ?_
    simpa [Cluster.nodes] using he

/-- Nothing but no child at all is shown in place of an alternative. -/
theorem forall_fallback {P : Option String × Code → Prop} (h : P (none, emptyChild))
    (head : Element) (branches : List Element) : ∀ b ∈ Cluster.fallback head branches, P b := by
  unfold Cluster.fallback
  split
  · simp
  · exact List.forall_mem_singleton.2 h

/-- A condition is generated branch by branch. -/
theorem emits_chain {s : Settings} {head : Element} {branches : List Element}
    {R : Element → Outcome Code} {L : List Element → Outcome (List (Option String × Code))}
    {S : Outcome Code}
    (h : ∀ e ∈ head :: branches, Emits (nodeCode s true (.element e)) (R e))
    (nil : ∀ front, L [] front [] [] [])
    (cons : ∀ e es front code codes bodies more ds ds', R e front code bodies ds →
      L es (front ++ bodies) codes more ds' →
      L (e :: es) front ((Cluster.guard? e, code) :: codes) (bodies ++ more) (ds ++ ds'))
    (whole : ∀ front codes bodies ds, L (head :: branches) front codes bodies ds →
      S front (choiceCode (codes ++ Cluster.fallback head branches)) bodies ds) :
    Emits (Cluster.code s (.chain head branches)) S := by
  have hbranches : Emits ((head :: branches).mapM (guardedCode s)) (L (head :: branches)) := by
    refine emits_mapM (fun e he => (h e he).map fun code => (Cluster.guard? e, code)) nil ?_
    rintro e es front _ codes bodies more ds ds' ⟨code, rfl, hR⟩ hL
    exact cons _ _ _ _ _ _ _ _ _ hR hL
  refine (hbranches.map fun codes => choiceCode (codes ++ Cluster.fallback head branches)).mono ?_
  rintro front _ bodies ds ⟨codes, rfl, hL⟩
  exact whole _ _ _ _ hL

end ViewTree.Template
