import ViewTree.Proofs.Dict
import ViewTree.Proofs.Template.Calls
import ViewTree.Proofs.Template.Marking
import ViewTree.Proofs.Template.Pieces
/-!
# What is hoisted reads nothing

The code of a constant part is silent: it neither reads an expression nor makes a listener. Static
roots are constant, so no hoisted function misses the scope that its body is taken out of
(`marks_and_hoisted_source`).
-/

namespace ViewTree.Template

theorem harmless_isSilent : Harmless Piece.IsSilent :=
  ⟨fun _ => trivial, fun _ => trivial⟩

/-- Code that reads nothing from the scope. -/
abbrev Code.Silent (code : Code) : Prop :=
  code.Only Piece.IsSilent

/-! ## Plain elements -/

section

variable {e : Element} (he : Plain .base e)

include he

/-- A key that keeps an element from being static is not among the extras of a plain one. -/
theorem Plain.get?_extras_eq_none {key : String} (hkey : Settings.base.isStaticKey key = false) :
    e.extras.get? key = none := by
  cases hget : e.extras.get? key with
  | none => rfl
  | some v =>
    have hstatic := he.extras key (Dict.mem_keys_of_get? hget)
    simp [hkey] at hstatic

theorem silent_dataCode : Code.Silent (dataCode .base e) := by
  have hkey : e.binding? "key" = none := he.attr?_eq_none (by decide) "key"
  have hclass : e.extras.get? "classBinding" = none := he.get?_extras_eq_none (by decide)
  have hstyle : e.extras.get? "styleBinding" = none := he.get?_extras_eq_none (by decide)
  rw [Code.Silent, only_dataCode harmless_isSilent, only_extension_base harmless_isSilent]
  refine ⟨by simp [hkey], ?_, by simp [hclass, hstyle], ?_⟩
  · intro a ha
    rw [only_directiveCode_base harmless_isSilent]
    simp [(he.attrs a ha).1]
  · intro a ha
    rw [only_attributeCode harmless_isSilent]
    simp [(he.attrs a ha).1]

theorem silent_elementCode {codes : List Code} (hcodes : ∀ code ∈ codes, Code.Silent code) :
    Code.Silent (elementCode .base e codes) := by
  rw [Code.Silent, only_elementCode harmless_isSilent, only_tagCode harmless_isSilent]
  exact ⟨fun _ => ⟨fun hcomponent => absurd hcomponent he.tag.2, silent_dataCode he⟩, hcodes⟩

theorem silent_guardCode {body : Code} (hbody : Code.Silent body) :
    Code.Silent (guardCode e body) := by
  have hif : e.directive? "if" = none := he.attr?_eq_none (by decide) "if"
  rw [Code.Silent, only_guardCode harmless_isSilent, hif]
  exact ⟨by simp, hbody⟩

theorem Plain.condition?_eq_none : OpenChain.condition? e = none := by
  have hdirective (name : String) : e.directive? name = none := he.attr?_eq_none (by decide) name
  simp [OpenChain.condition?, hdirective]

end

/-! ## Runs of the generator -/

/-- All hoisted bodies are silent, and so are the codes of constant parts. -/
def HoistsSilent (constant : Prop) (codes bodies : List Code) : Prop :=
  (constant → ∀ code ∈ codes, Code.Silent code) ∧ ∀ body ∈ bodies, Code.Silent body

theorem HoistsSilent.cons {p q : Prop} {code : Code} {codes bodies more : List Code}
    (h : HoistsSilent p [code] bodies) (hs : HoistsSilent q codes more) :
    HoistsSilent (p ∧ q) (code :: codes) (bodies ++ more) := by
  refine ⟨?_, ?_⟩
  · rintro ⟨hp, hq⟩
    exact List.forall_mem_cons.2 ⟨h.1 hp code List.mem_cons_self, hs.1 hq⟩
  · exact List.forall_mem_append.2 ⟨h.2, hs.2⟩

theorem HoistsSilent.imp {p q : Prop} (hpq : q → p) {codes bodies : List Code}
    (h : HoistsSilent p codes bodies) : HoistsSilent q codes bodies :=
  ⟨fun hq => h.1 (hpq hq), h.2⟩

/-- The constant branches of a condition are none: they have no conditions. -/
def BranchesSilent (branches : List Element) (codes : List (Option String × Code))
    (bodies : List Code) : Prop :=
  ((∀ e ∈ branches, (Node.element e).Constant .base) →
    ∀ b ∈ codes, b.1 = none ∧ Code.Silent b.2) ∧ ∀ body ∈ bodies, Code.Silent body

theorem chain_hoistsSilent (head : Element) (branches : List Element)
    (h : ∀ e ∈ head :: branches, Emits (nodeCode .base true (.element e))
      fun _ code bodies _ => HoistsSilent ((Node.element e).Constant .base) [code] bodies) :
    Emits (Cluster.code .base (.chain head branches)) fun _ code bodies _ =>
      HoistsSilent (∀ e ∈ head :: branches, (Node.element e).Constant .base) [code] bodies := by
  refine emits_chain (L := fun es _ codes bodies _ => BranchesSilent es codes bodies) h
    (fun _ => ⟨by simp, by simp⟩) ?_ ?_
  · rintro e es _ code codes bodies more _ _ ⟨hcode, hbodies⟩ ⟨hcodes, hmore⟩
    refine ⟨fun hconstant => ?_, List.forall_mem_append.2 ⟨hbodies, hmore⟩⟩
    obtain ⟨he, hes⟩ := List.forall_mem_cons.1 hconstant
    refine List.forall_mem_cons.2 ⟨⟨?_, hcode he code List.mem_cons_self⟩, hcodes hes⟩
    rw [Cluster.guard?, (he.plain e .self).condition?_eq_none]
    rfl
  · rintro _ codes bodies _ ⟨hcodes, hbodies⟩
    refine ⟨fun hconstant => List.forall_mem_singleton.2 ?_, hbodies⟩
    rw [Code.Silent, only_choiceCode harmless_isSilent]
    refine List.forall_mem_append.2 ⟨fun b hb => ?_, ?_⟩
    · obtain ⟨hnone, hsilent⟩ := hcodes hconstant b hb
      exact ⟨by simp [hnone], hsilent⟩
    · exact forall_fallback ⟨by simp, only_emptyChild harmless_isSilent⟩ head branches

theorem nodesCode_hoistsSilent (nodes : List Node)
    (h : ∀ n ∈ nodes, ∀ inChain, Emits (nodeCode .base inChain n)
      fun _ code bodies _ => HoistsSilent (n.Constant .base) [code] bodies) :
    Emits (nodesCode .base none nodes)
      fun _ codes bodies _ => HoistsSilent (∀ n ∈ nodes, n.Constant .base) codes bodies := by
  rw [nodesCode_clusters]
  have hclusters : Emits ((clusters none nodes).mapM (Cluster.code .base)) fun _ codes bodies _ =>
      HoistsSilent (∀ c ∈ clusters none nodes, ∀ n ∈ c.nodes, n.Constant .base) codes bodies := by
    refine emits_mapM (S := fun (cs : List Cluster) _ codes bodies _ =>
      HoistsSilent (∀ c ∈ cs, ∀ n ∈ c.nodes, n.Constant .base) codes bodies)
      (R := fun (c : Cluster) _ code bodies _ =>
        HoistsSilent (∀ n ∈ c.nodes, n.Constant .base) [code] bodies)
      (forall_cluster (fun n hn => ?_) fun head branches hmem => ?_) (fun _ => ⟨by simp, by simp⟩)
      fun _ _ _ _ _ _ _ _ _ hc hcs => (hc.cons hcs).imp List.forall_mem_cons.1
    · refine (h n hn false).mono fun _ _ _ _ hn => hn.imp fun hconstant => ?_
      exact hconstant n (by simp [Cluster.nodes])
    · have hbranches := chain_hoistsSilent head branches fun e he => h _ (hmem e he) true
      refine hbranches.mono fun _ _ _ _ hchain => hchain.imp fun hconstant e he => ?_
      exact hconstant _ (by simpa [Cluster.nodes] using he)
  refine hclusters.mono fun _ _ _ _ hcodes => hcodes.imp fun hconstant c hc n hn => ?_
  exact hconstant n (mem_of_mem_cluster hc hn)

/-- The induction is on the tree. A static root is constant, so its body is silent. -/
theorem nodeCode_hoistsSilent (n : Node)
    (hroots : ∀ e, Node.Inside (.element e) n → e.staticRoot → (Node.element e).Constant .base) :
    ∀ inChain, Emits (nodeCode .base inChain n)
      fun _ code bodies _ => HoistsSilent (n.Constant .base) [code] bodies := by
  induction n using Node.induct with
  | text t =>
    refine fun _ => emits_pure fun _ => ⟨fun _ => List.forall_mem_singleton.2 ?_, by simp⟩
    simp [Code.Silent, only_call harmless_isSilent, only_literal harmless_isSilent]
  | interpolation expr =>
    refine fun _ => emits_pure fun _ => ⟨fun hconstant => ?_, by simp⟩
    exact (Node.not_constant_interpolation expr hconstant).elim
  | comment t =>
    refine fun _ => emits_pure fun _ => ⟨fun _ => List.forall_mem_singleton.2 ?_, by simp⟩
    simp [Code.Silent, only_call harmless_isSilent, only_owned harmless_isSilent]
  | element e ih =>
    intro inChain
    have hchildren := nodesCode_hoistsSilent e.children fun n hn =>
      ih n hn fun d hd => hroots d (.child hn hd)
    refine emits_element hchildren ?_ ?_ ?_ ?_
    · rintro _ codes bodies _ ⟨hcodes, hbodies⟩
      refine ⟨fun hconstant => List.forall_mem_singleton.2 ?_, hbodies⟩
      obtain ⟨he, hchildren⟩ := (Node.constant_element_iff e).1 hconstant
      have helement := silent_elementCode he (hcodes hchildren)
      unfold wrapCode
      split
      · exact helement
      · exact silent_guardCode he helement
    · exact fun _ _ _ _ => ⟨fun _ => by simpa using only_emptyChild harmless_isSilent, by simp⟩
    · rintro a l hfor _ _ _ bodies _ ⟨_, hbodies⟩
      -- An element with a loop is not constant.
      refine ⟨fun hconstant => ?_, hbodies⟩
      have hnone : e.directive? "for" = none :=
        (hconstant.plain e .self).attr?_eq_none (by decide) "for"
      simp [hnone] at hfor
    · rintro hroot _ code bodies _ ⟨hcode, hbodies⟩
      have hconstant := hroots e .self hroot
      refine ⟨fun _ => by simp [Code.Silent, only_singleton, Piece.IsSilent], ?_⟩
      exact List.forall_mem_append.2 ⟨hbodies, hcode hconstant⟩

/-! ## Templates -/

theorem generateCode_silent (roots : List Node)
    (hroots : ∀ n ∈ roots, ∀ e, Node.Inside (.element e) n → e.staticRoot →
      (Node.element e).Constant .base) :
    ∀ body ∈ (generateCode .base roots).1.hoisted, Code.Silent body := by
  obtain ⟨codes, bodies, ds, hrun, _, hbodies⟩ := nodesCode_hoistsSilent roots
    (fun n hn => nodeCode_hoistsSilent n (hroots n hn)) ⟨[], []⟩
  unfold generateCode
  rw [hrun]
  simpa using hbodies

/-- Static roots are constant. -/
theorem constant_of_staticRoot {template : String} {n : Node}
    (hn : n ∈ optimize .base (parse .base template).1) {e : Element}
    (he : Node.Inside (.element e) n) (hroot : e.staticRoot) : (Node.element e).Constant .base := by
  obtain ⟨up, hup⟩ := exists_occurs_of_inside he fun d hd => ⟨[], .root (hd ▸ hn)⟩
  have hmarks := marks_of_occurs (parse_unrooted template) hup
  exact (hmarks.isStatic.1 (hmarks.staticRoot.1 hroot).1).2

/-- In every template that is parsed and marked, an element is static if and only if there is no
loop on it or around it and it is constant, and a static root if and only if it is static, in no
other static root, and worth a function of its own. So no hoisted function reads from the scope that
its body is taken out of. -/
theorem marks_and_hoisted_source (template : String) :
    (∀ up e, Occurs (optimize .base (parse .base template).1) up e → Marks .base up e) ∧
    ∀ source ∈ (generateCode .base (optimize .base (parse .base template).1)).1.staticRenderFns,
      NeverSays source "vm.resolve_in" ∧ NeverSays source "vm.listener" := by
  have hmarks (up : List Element) (e : Element)
      (h : Occurs (optimize .base (parse .base template).1) up e) : Marks .base up e :=
    marks_of_occurs (parse_unrooted template) h
  refine ⟨hmarks, ?_⟩
  have hsilent := generateCode_silent (optimize .base (parse .base template).1)
    fun n hn e => constant_of_staticRoot hn
  intro source hsource
  obtain ⟨name, body, hname, hbody, rfl⟩ := hoisted_cases hsource
  have hworded := (balanced_generated _ body (List.mem_cons_of_mem _ hbody)).worded
  have hnever {call : String} (hcall : call ∈ scopeCalls) :
      NeverSays (Code.text (Code.function name body)) call :=
    neverSays_function hname hworded (hsilent body hbody) hcall
  exact ⟨hnever (by decide), hnever (by decide)⟩

/-- A paragraph beside an interpolation is a static root, and what is hoisted for it does not read
the interpolated expression. -/
theorem marks_and_hoisted_source_paragraph :
    (∃ up e, Occurs (optimize .base (parse .base "<div><p><b></b></p>\x7b\x7ba\x7d\x7d</div>").1) up e ∧
      e.staticRoot ∧ e.isStatic ∧ (Node.element e).Constant .base) ∧
    ∃ source ∈ (generateCode .base (optimize .base
      (parse .base "<div><p><b></b></p>\x7b\x7ba\x7d\x7d</div>").1)).1.staticRenderFns,
        NeverSays source "vm.resolve_in" := by
  obtain ⟨hmarks, hsources⟩ :=
    marks_and_hoisted_source "<div><p><b></b></p>\x7b\x7ba\x7d\x7d</div>"
  have hroot : (optimize .base (parse .base "<div><p><b></b></p>\x7b\x7ba\x7d\x7d</div>").1).any
      fun n => n.element?.any fun d => d.children.any fun m => m.element?.any (·.staticRoot) := by
    decide +kernel
  have hcount : (generateCode .base (optimize .base
      (parse .base
        "<div><p><b></b></p>\x7b\x7ba\x7d\x7d</div>").1)).1.staticRenderFns.length = 1 := by
    decide +kernel
  refine ⟨?_, ?_⟩
  · obtain ⟨n, hn, hany⟩ := List.any_eq_true.1 hroot
    obtain ⟨d, hd, hany⟩ := (Option.any_eq_true _ _).1 hany
    obtain ⟨m, hm, hany⟩ := List.any_eq_true.1 hany
    obtain ⟨e, he, hroot⟩ := (Option.any_eq_true _ _).1 hany
    rw [eq_element hd] at hn
    rw [eq_element he] at hm
    have hmark := hmarks [d] e (.child (.root hn) hm)
    have hstatic := (hmark.staticRoot.1 hroot).1
    exact ⟨[d], e, .child (.root hn) hm, hroot, hstatic, (hmark.isStatic.1 hstatic).2⟩
  · obtain ⟨source, hsource⟩ := List.exists_mem_of_length_pos (hcount ▸ Nat.one_pos)
    exact ⟨source, hsource, (hsources source hsource).1⟩

end ViewTree.Template
