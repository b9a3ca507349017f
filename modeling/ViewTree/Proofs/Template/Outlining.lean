import ViewTree.Proofs.Template.Emission
import ViewTree.Proofs.Template.Expansion
/-!
# Hoisting is outlining

Without static roots nothing is hoisted. With them the code is the same once every call of a hoisted
function is replaced by its body, and every hoisted function is called exactly once. Both runs of
the generator are followed together, from the leaves of the tree up (`nodeCode_outlined`).
-/

namespace ViewTree.Template

open Code

/-! ## Trees without static roots -/

namespace Node

mutual

/-- The node without static roots. -/
def unrooted : Node → Node
  | element ⟨tag, attrs, children, selfClosing, ns, extras, isStatic, _, span⟩ =>
    element ⟨tag, attrs, unrootedAll children, selfClosing, ns, extras, isStatic, false, span⟩
  | n => n

/-- The nodes without static roots. -/
def unrootedAll : List Node → List Node
  | [] => []
  | n :: ns => unrooted n :: unrootedAll ns

end

theorem unrootedAll_eq_map (ns : List Node) : unrootedAll ns = ns.map unrooted := by
  induction ns with
  | nil => rfl
  | cons n ns ih => rw [unrootedAll, ih, List.map_cons]

end Node

/-- The element without static roots. -/
def ElementOf.unrooted (e : Element) : Element :=
  { e with children := e.children.map Node.unrooted, staticRoot := false }

theorem unrooted_element (e : Element) : Node.unrooted (.element e) = .element e.unrooted := by
  cases e
  simp only [Node.unrooted, Node.unrootedAll_eq_map, ElementOf.unrooted]

@[simp] theorem unrooted_hasDirective (e : Element) (name : String) :
    e.unrooted.hasDirective name = e.hasDirective name :=
  rfl

@[simp] theorem unrooted_isBranch (e : Element) : e.unrooted.isBranch = e.isBranch :=
  rfl

@[simp] theorem unrooted_startsChain (e : Element) : startsChain e.unrooted = startsChain e :=
  rfl

@[simp] theorem unrooted_guard? (e : Element) : Cluster.guard? e.unrooted = Cluster.guard? e :=
  rfl

theorem unrooted_element? (n : Node) : n.unrooted.element? = n.element?.map ElementOf.unrooted := by
  cases n with
  | element e => rw [unrooted_element]; rfl
  | text t => rfl
  | interpolation expr => rfl
  | comment t => rfl

theorem mayBeMany_unrooted (n : Node) : n.unrooted.mayBeMany = n.mayBeMany := by
  cases n with
  | element e => rw [unrooted_element]; rfl
  | text t => rfl
  | interpolation expr => rfl
  | comment t => rfl

/-- The cluster without static roots. -/
def Cluster.unrooted : Cluster → Cluster
  | alone n => alone n.unrooted
  | chain head branches => chain head.unrooted (branches.map ElementOf.unrooted)

/-- Siblings are grouped without regard to static roots. -/
theorem clusters_unrooted (nodes : List Node) :
    clusters none (nodes.map Node.unrooted) = (clusters none nodes).map Cluster.unrooted ∧
      ∀ head branches,
        clusters (some (head.unrooted, branches.map ElementOf.unrooted)) (nodes.map Node.unrooted) =
          (clusters (some (head, branches)) nodes).map Cluster.unrooted := by
  induction nodes with
  | nil => exact ⟨rfl, fun _ _ => rfl⟩
  | cons n rest ih =>
    obtain ⟨ihnone, ihsome⟩ := ih
    cases hn : n.element? with
    | none =>
      have hn' : n.unrooted.element? = none := by rw [unrooted_element?, hn]; rfl
      refine ⟨?_, fun head branches => ?_⟩
      · simp [clusters_other hn, clusters_other hn', openCluster, Cluster.unrooted, ihnone]
      · simp [clusters_other hn, clusters_other hn', openCluster, Cluster.unrooted, ihnone]
    | some e =>
      obtain rfl := eq_element hn
      rw [List.map_cons, unrooted_element]
      have hnone : clusters none (.element e.unrooted :: rest.map Node.unrooted) =
          (clusters none (.element e :: rest)).map Cluster.unrooted := by
        rw [clusters_element, clusters_element, unrooted_startsChain]
        split
        · exact ihsome e []
        · rw [ihnone, List.map_cons, Cluster.unrooted, unrooted_element]
      refine ⟨hnone, fun head branches => ?_⟩
      by_cases hbranch : e.isBranch
      · have hconcat : branches.map ElementOf.unrooted ++ [e.unrooted] =
            (branches ++ [e]).map ElementOf.unrooted := by simp
        rw [clusters_branch _ _ hbranch, clusters_branch _ _ (e := e.unrooted) hbranch, hconcat,
          unrooted_hasDirective]
        split
        · rw [ihnone, List.map_cons, Cluster.unrooted]
        · exact ihsome head (branches ++ [e])
      · rw [Bool.not_eq_true] at hbranch
        rw [clusters_no_branch _ _ hbranch, clusters_no_branch _ _ (e := e.unrooted) hbranch, hnone,
          List.map_cons, Cluster.unrooted]

/-! ## Elements -/

/-- What directives and extensions add to the data bag calls no hoisted function and does not depend
on static roots. -/
structure Settings.IgnoreRoots (s : Settings) : Prop where
  directives : ∀ name rule, s.directives.get? name = some rule →
    ∀ e a, rule e.unrooted a = rule e a ∧ Own (rule e a).data
  extensions : ∀ x ∈ s.extensions, ∀ e, x.data e.unrooted = x.data e ∧ Own (x.data e)

section

variable {s : Settings} (hs : s.IgnoreRoots) (e : Element)

include hs

theorem own_directiveCode (a : Attribute) : Own (directiveCode s e a) := by
  have hruntime : Own (runtimeDirective a) :=
    (only_runtimeDirective harmless_isOwn a).2 fun _ _ => trivial
  unfold directiveCode
  split
  · split
    · rename_i rule hrule
      refine only_append.2 ⟨(hs.directives _ _ hrule e a).2, ?_⟩
      split
      · exact hruntime
      · exact only_nil
    · exact hruntime
  · exact only_nil

theorem directiveCode_unrooted (a : Attribute) :
    directiveCode s e.unrooted a = directiveCode s e a := by
  unfold directiveCode
  split
  · split
    · rename_i rule hrule
      rw [(hs.directives _ _ hrule e a).1]
    · rfl
  · rfl

theorem own_dataCode : Own (dataCode s e) := by
  rw [Own, only_dataCode harmless_isOwn]
  refine ⟨fun _ _ => trivial, fun a _ => own_directiveCode hs e a,
    fun x hx => (hs.extensions x hx e).2, fun a _ => ?_⟩
  rw [only_attributeCode harmless_isOwn]
  exact ⟨fun _ _ => trivial, fun _ => trivial⟩

theorem dataCode_unrooted : dataCode s e.unrooted = dataCode s e := by
  have hdirectives : e.attrs.flatMap (directiveCode s e.unrooted) =
      e.attrs.flatMap (directiveCode s e) :=
    List.flatMap_congr fun a _ => directiveCode_unrooted hs e a
  have hextensions : s.extensions.flatMap (·.data e.unrooted) = s.extensions.flatMap (·.data e) :=
    List.flatMap_congr fun x hx => (hs.extensions x hx e).1
  have hattrs : e.unrooted.attrs = e.attrs := rfl
  have hattributes : attributeCode s e.unrooted = attributeCode s e := rfl
  have hkey : keyCode e.unrooted = keyCode e := rfl
  have hplain : e.unrooted.plainAttr? = e.plainAttr? := rfl
  rw [dataCode, dataCode, hextensions, hattributes, hkey, hattrs, hdirectives, hplain]

theorem woven_elementCode {codes codes' : List Code} (h : codes.length = codes'.length) :
    Woven codes codes' (elementCode s e codes) (elementCode s e.unrooted codes') := by
  have hlist := woven_list h
  have htag : e.unrooted.tag = e.tag := rfl
  have hnormalization : normalizationCode e.unrooted.children = normalizationCode e.children := by
    simp [ElementOf.unrooted, normalizationCode, Function.comp_def, mayBeMany_unrooted]
  have hplain : e.unrooted.plainAttr? = e.plainAttr? := rfl
  have htagCode : tagCode e.unrooted = tagCode e := rfl
  simp only [elementCode, htag, hnormalization, hplain, htagCode, dataCode_unrooted hs]
  split
  · exact hlist.around (own_fixed "Child::List(") (own_fixed ")")
  · split
    · have hname :
          Own [.literal (((e.plainAttr? "name").map Attribute.valueText).getD "default")] :=
        only_literal harmless_isOwn _
      have hslot := (hlist.behind (own_fixed ", ")).behind hname
      exact (hslot.around (own_fixed "vm.render_slot(") (own_fixed ")")).around
        (own_fixed "Child::from(") (own_fixed ")")
    · have hrest : Own (.fixed ", " :: normalizationCode e.children) := by
        simp [Own, normalizationCode, only_fixed harmless_isOwn]
      have hchildren := (hlist.around (own_fixed ", ") hrest).behind (own_dataCode hs e)
      have helement := (hchildren.behind (own_fixed ", ")).behind
        ((only_tagCode harmless_isOwn e).2 fun _ _ _ => trivial)
      exact (helement.around (own_fixed "vm.c(") (own_fixed ")")).around
        (own_fixed "Child::from(") (own_fixed ")")

end

theorem woven_guardCode (e : Element) (body body' : Code) :
    Woven [body] [body'] (guardCode e body) (guardCode e.unrooted body') := by
  have hif : e.unrooted.directive? "if" = e.directive? "if" := rfl
  unfold guardCode
  rw [hif]
  split
  · exact (woven_ifCode _ body body').append
      (.own ((only_elseCode harmless_isOwn).2 (only_emptyChild harmless_isOwn)))
  · exact .part body body'

/-! ## Runs with and without static roots -/

/-- Every run gives this result and these diagnostics, and hoists nothing. -/
def Yields {α : Type} (m : Generator α) (a : α) (ds : List Diagnostic) : Prop :=
  ∀ h, m.run h = (a, ⟨h.bodies, h.diagnostics ++ ds⟩)

section

variable {α β : Type}

theorem yields_pure (a : α) : Yields (pure a) a [] := by
  intro h
  rw [List.append_nil]
  rfl

theorem yields_report (d : Diagnostic) : Yields (Generator.report d) () [d] :=
  fun _ => rfl

theorem Yields.bind {m : Generator α} {k : α → Generator β} {a : α} {b : β}
    {ds ds' : List Diagnostic} (hm : Yields m a ds) (hk : Yields (k a) b ds') :
    Yields (m >>= k) b (ds ++ ds') := by
  intro h
  rw [run_bind, hm, hk, List.append_assoc]

theorem Yields.map {m : Generator α} {a : α} {ds : List Diagnostic} (hm : Yields m a ds)
    (f : α → β) : Yields (m >>= fun a => pure (f a)) (f a) ds := by
  have hbind := hm.bind (k := fun a => pure (f a)) (yields_pure (f a))
  rwa [List.append_nil] at hbind

end

section

variable {s : Settings} {e : Element} {body : Generator Code} {code : Code} {ds : List Diagnostic}

theorem Yields.hoistLayer (h : Yields body code ds) (hroot : e.staticRoot = false) :
    Yields (hoistLayer e body) code ds := by
  simpa [Template.hoistLayer, hroot] using h

theorem Yields.loopLayer_plain (h : Yields body code ds) (hfor : e.directive? "for" = none) :
    Yields (loopLayer s e body) code ds := by
  simpa [Template.loopLayer, hfor] using h

theorem yields_loopLayer_malformed {a : Attribute} (hfor : e.directive? "for" = some a)
    (hparse : LoopExpr.parse? a.valueText = none) :
    Yields (loopLayer s e body) emptyChild
      [.error ("Invalid v-for expression: " ++ a.valueText)] := by
  simp only [loopLayer, hfor, hparse]
  exact (yields_report _).map fun _ => emptyChild

theorem Yields.loopLayer_loop (h : Yields body code ds) {a : Attribute} {l : LoopExpr}
    (hfor : e.directive? "for" = some a) (hparse : LoopExpr.parse? a.valueText = some l) :
    Yields (loopLayer s e body) (loopCode l code) (keyTips s e a ++ ds) := by
  simp only [loopLayer, hfor, hparse, keyTips]
  split
  · exact (yields_report _).bind (h.map (loopCode l))
  · exact h.map (loopCode l)

end

/-- The outcome of a run beside the run without static roots. -/
abbrev Outlined (plain : Generator Code) : Outcome Code :=
  fun front code bodies ds => ∃ full, Yields plain full ds ∧ Outlines front [code] bodies [full]

/-- The outcome of a run for siblings beside the run without static roots. -/
abbrev AllOutlined (plain : Generator (List Code)) : Outcome (List Code) :=
  fun front codes bodies ds => ∃ full, Yields plain full ds ∧ Outlines front codes bodies full

section

variable {s : Settings}

theorem fallback_unrooted (head : Element) (branches : List Element) :
    Cluster.fallback head.unrooted (branches.map ElementOf.unrooted) =
      Cluster.fallback head branches := by
  have hlast : ((branches.map ElementOf.unrooted).getLast?.getD head.unrooted) =
      (branches.getLast?.getD head).unrooted := by
    rw [List.getLast?_map]
    cases branches.getLast? <;> rfl
  rw [Cluster.fallback, Cluster.fallback, Cluster.isClosed, Cluster.isClosed, hlast,
    unrooted_hasDirective]

theorem chain_outlined {head : Element} {branches : List Element}
    (h : ∀ e ∈ head :: branches, Emits (nodeCode s true (.element e))
      (Outlined (nodeCode s true (.element e.unrooted)))) :
    Emits (Cluster.code s (.chain head branches))
      (Outlined (Cluster.code s (Cluster.unrooted (.chain head branches)))) := by
  refine emits_chain (L := fun es front codes bodies ds => ∃ full,
    Yields ((es.map ElementOf.unrooted).mapM (guardedCode s)) full ds ∧
      codes.map Prod.fst = full.map Prod.fst ∧
      Outlines front (codes.map Prod.snd) bodies (full.map Prod.snd)) h ?_ ?_ ?_
  · exact fun _ => ⟨[], yields_pure [], rfl, .own (by simp)⟩
  · rintro e es front code codes bodies more ds ds' ⟨full, hyields, houtlines⟩
      ⟨fulls, hyields', hguards, houtlines'⟩
    refine ⟨(Cluster.guard? e, full) :: fulls, ?_, ?_, houtlines.append houtlines'⟩
    · rw [List.map_cons, List.mapM_cons]
      exact (hyields.map fun code => (Cluster.guard? e, code)).bind (hyields'.map _)
    · rw [List.map_cons, List.map_cons, hguards]
  · rintro front codes bodies ds ⟨full, hyields, hguards, houtlines⟩
    have hfallback : ∀ code ∈ (Cluster.fallback head branches).map Prod.snd, Own code :=
      List.forall_mem_map.2 (forall_fallback (only_emptyChild harmless_isOwn) head branches)
    refine ⟨choiceCode (full ++ Cluster.fallback head branches), ?_, ?_⟩
    · rw [Cluster.unrooted, Cluster.code, fallback_unrooted, ← List.map_cons]
      exact hyields.map fun codes => choiceCode (codes ++ Cluster.fallback head branches)
    · have hall := houtlines.append (.own hfallback)
      rw [← List.map_append, ← List.map_append, List.append_nil] at hall
      refine hall.weave (woven_choiceCode ?_)
      rw [List.map_append, List.map_append, hguards]

theorem nodesCode_outlined (nodes : List Node)
    (h : ∀ n ∈ nodes, ∀ inChain, Emits (nodeCode s inChain n)
      (Outlined (nodeCode s inChain n.unrooted))) :
    Emits (nodesCode s none nodes)
      (AllOutlined (nodesCode s none (nodes.map Node.unrooted))) := by
  rw [nodesCode_clusters, nodesCode_clusters, (clusters_unrooted nodes).1]
  refine emits_mapM
    (R := fun c => Outlined (Cluster.code s c.unrooted))
    (S := fun cs => AllOutlined ((cs.map Cluster.unrooted).mapM (Cluster.code s))) ?_ ?_ ?_
  · refine forall_cluster (fun n hn => h n hn false) fun head branches hmem => ?_
    refine chain_outlined fun e he => ?_
    rw [← unrooted_element]
    exact h _ (hmem e he) true
  · exact fun _ => ⟨[], yields_pure [], .own (by simp)⟩
  · rintro c cs front code codes bodies more ds ds' ⟨full, hyields, houtlines⟩
      ⟨fulls, hyields', houtlines'⟩
    refine ⟨full :: fulls, ?_, houtlines.append houtlines'⟩
    rw [List.map_cons, List.mapM_cons]
    exact hyields.bind (hyields'.map _)

/-- The induction is on the tree: both runs put the same code around those of the children. -/
theorem nodeCode_outlined (hs : s.IgnoreRoots) (n : Node) : ∀ inChain,
    Emits (nodeCode s inChain n) (Outlined (nodeCode s inChain n.unrooted)) := by
  have hown {code : Code} (h : Own code) (front : List Code) : Outlines front [code] [] [code] :=
    .own (by simpa using h)
  induction n using Node.induct with
  | text t =>
    refine fun _ => emits_pure fun front => ⟨_, yields_pure _, hown ?_ front⟩
    simp [Own, only_call harmless_isOwn, only_literal harmless_isOwn]
  | interpolation expr =>
    refine fun _ => emits_pure fun front => ⟨_, yields_pure _, hown ?_ front⟩
    simp [Own, only_call harmless_isOwn, only_fixed harmless_isOwn, only_binding, Piece.IsOwn]
  | comment t =>
    refine fun _ => emits_pure fun front => ⟨_, yields_pure _, hown ?_ front⟩
    simp [Own, only_call harmless_isOwn, only_owned harmless_isOwn]
  | element e ih =>
    intro inChain
    rw [nodeCode_element, unrooted_element, nodeCode_element]
    let plain : Generator Code := nodesCode s none e.unrooted.children >>= fun codes =>
      pure (wrapCode s inChain e.unrooted codes)
    have hbody := ((nodesCode_outlined _ ih).map (wrapCode s inChain e)).mono
      (S := Outlined plain) <| by
      rintro front _ bodies ds ⟨codes, rfl, full, hyields, houtlines⟩
      have helement := houtlines.weave (woven_elementCode hs e houtlines.expands.length_eq)
      refine ⟨_, hyields.map _, ?_⟩
      cases inChain with
      | true => exact helement
      | false => exact helement.weave (woven_guardCode e _ _)
    refine Emits.hoistLayer
      (hbody.loopLayer (s := s) (S := Outlined (loopLayer s e.unrooted plain)) ?_ ?_ ?_) ?_ ?_
    · rintro hfor _ _ _ _ ⟨full, hyields, houtlines⟩
      exact ⟨full, hyields.loopLayer_plain hfor, houtlines⟩
    · intro a hfor hparse front
      exact ⟨emptyChild, yields_loopLayer_malformed hfor hparse,
        hown (only_emptyChild harmless_isOwn) front⟩
    · rintro a l hfor hparse _ _ _ _ ⟨full, hyields, houtlines⟩
      exact ⟨loopCode l full, hyields.loopLayer_loop hfor hparse,
        houtlines.weave (woven_loopCode l _ _)⟩
    · rintro _ _ _ _ _ ⟨full, hyields, houtlines⟩
      exact ⟨full, hyields.hoistLayer rfl, houtlines⟩
    · rintro _ _ _ _ _ ⟨full, hyields, houtlines⟩
      exact ⟨full, hyields.hoistLayer rfl, houtlines.hoist⟩

end

/-! ## Templates -/

theorem base_ignoreRoots : Settings.base.IgnoreRoots where
  directives name rule hrule e a := by
    have hdisplay (property : String) : Own (displayDirective property e a).data :=
      (only_displayDirective harmless_isOwn property e a).2 trivial
    rcases get?_base_directives hrule with ⟨_, rfl⟩ | ⟨_, rfl⟩ | ⟨_, rfl⟩
    · exact ⟨rfl, hdisplay "textContent"⟩
    · exact ⟨rfl, hdisplay "innerHTML"⟩
    · exact ⟨rfl, only_nil⟩
  extensions x hx e := by
    refine ⟨?_, (only_extension_base harmless_isOwn e).2 ?_ x hx⟩
    · rcases List.mem_pair.1 hx with rfl | rfl
      · rfl
      · rfl
    · exact ⟨fun _ _ => trivial, fun _ _ => trivial⟩

theorem own_placeholderCode : Own placeholderCode := by
  simp [Own, placeholderCode, only_call harmless_isOwn, only_list harmless_isOwn,
    only_literal harmless_isOwn, only_fixed harmless_isOwn, normalizationCode]

end ViewTree.Template
