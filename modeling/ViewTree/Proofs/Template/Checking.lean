import ViewTree.Instance.Render
import ViewTree.Proofs.Expr.Blanks
import ViewTree.Proofs.Template.Conditions
import ViewTree.Proofs.Template.Hoisting
/-!
# Expressions that are checked and expressions that are read

The checker goes over the attributes of the tree that have a value. The generator reads expressions
from the same attributes, from some of them even without a value, and from the extras. So without
errors, everything that the sources read is an expression exactly if what is not checked is right by
itself (`reads_iff_readable`).
-/

namespace ViewTree.Template

/-- In a render the text is evaluated as an expression, in any instance and scope, instead of being
reported as none. -/
def Evaluates (text : String) : Prop :=
  ∃ e, Expr.parse text = .ok e ∧ ∀ (app : Application) (vm : Uid) (scope : Scope),
    app.resolveIn vm scope text = e.evalM (app.lookupIn vm scope)

theorem evaluates_iff (text : String) : Evaluates text ↔ (Expr.parse text).toOption.isSome := by
  unfold Evaluates
  cases hparse : Expr.parse text with
  | error err => simp [Except.toOption]
  | ok e => simp [Except.toOption, Application.resolveIn, hparse]

theorem evaluates_trim (text : String) : Evaluates (Text.trim text) ↔ Evaluates text := by
  rw [evaluates_iff, evaluates_iff, Expr.toOption_parse_trim]

theorem not_evaluates_empty : ¬ Evaluates "" := by
  rw [evaluates_iff]
  decide

/-- A piece of code that reads nothing but an expression. -/
def Piece.Evaluates : Piece → Prop
  | .read expr => Template.Evaluates expr
  | _ => True

theorem harmless_evaluates : Harmless Piece.Evaluates :=
  ⟨fun _ => trivial, fun _ => trivial⟩

theorem evaluates_read_trim (text : String) :
    Piece.Evaluates (.read (Text.trim text)) ↔ Evaluates text :=
  evaluates_trim text

/-! ## What is shown -/

/-- An element whose code is among that of the clusters, with the condition that stands in front of
it: its own one if it stands alone, and that of the branch in a larger condition. -/
inductive Shown : List Cluster → Option Attribute → Element → Prop
  | alone {cs : List Cluster} {e : Element} (h : .alone (.element e) ∈ cs) :
      Shown cs (e.directive? "if") e
  | branch {cs : List Cluster} {head : Element} {branches : List Element} {e : Element}
      (h : .chain head branches ∈ cs) (he : e ∈ head :: branches) :
      Shown cs (OpenChain.condition? e) e
  | inside {cs : List Cluster} {c condition : Option Attribute} {d e : Element} (hd : Shown cs c d)
      (h : Shown (clusters none d.children) condition e) : Shown cs condition e

/-- What an element reads without a check is an expression: its condition and its displays have
values, and its bound class and style are expressions. -/
structure Readable (condition : Option Attribute) (e : Element) : Prop where
  condition : ∀ a ∈ condition, a.value.isSome
  displays : e.tag ≠ "template" ∧ e.tag ≠ "slot" → ∀ a ∈ e.attrs, a.kind = .directive →
    a.name = "text" ∨ a.name = "html" → a.value.isSome
  bindings : e.tag ≠ "template" ∧ e.tag ≠ "slot" → ∀ key ∈ ["classBinding", "styleBinding"],
    ∀ v ∈ e.extras.get? key, Evaluates v

/-- All elements that are shown are readable. -/
def AllReadable (cs : List Cluster) : Prop :=
  ∀ condition e, Shown cs condition e → Readable condition e

/-- The element that a node is, and all that is shown inside it. -/
def Node.Readable (inChain : Bool) (n : Node) : Prop :=
  ∀ e, n = .element e →
    Template.Readable (if inChain then none else e.directive? "if") e ∧
      AllReadable (clusters none e.children)

theorem readable_element {inChain : Bool} {e : Element} :
    (Node.element e).Readable inChain ↔
      Readable (if inChain then none else e.directive? "if") e ∧
        AllReadable (clusters none e.children) :=
  ⟨fun h => h e rfl, fun h _ he => Node.element.inj he ▸ h⟩

/-- What is shown of a cluster. -/
def Cluster.Readable : Cluster → Prop
  | alone n => n.Readable false
  | chain head branches => ∀ e ∈ head :: branches,
      Template.Readable (OpenChain.condition? e) e ∧ AllReadable (clusters none e.children)

theorem readable_iff (condition : Option Attribute) (e : Element) :
    Readable condition e ↔ (∀ a ∈ condition, a.value.isSome) ∧ Readable none e := by
  constructor
  · rintro ⟨hcondition, hdisplays, hbindings⟩
    exact ⟨hcondition, ⟨by simp, hdisplays, hbindings⟩⟩
  · rintro ⟨hcondition, _, hdisplays, hbindings⟩
    exact ⟨hcondition, hdisplays, hbindings⟩

theorem AllReadable.cluster {cs : List Cluster} (h : AllReadable cs) {c : Cluster} (hc : c ∈ cs) :
    c.Readable := by
  cases c with
  | alone n =>
    rintro e rfl
    exact ⟨h _ e (.alone hc), fun condition d hd => h condition d (.inside (.alone hc) hd)⟩
  | chain head branches =>
    intro e he
    exact ⟨h _ e (.branch hc he), fun condition d hd => h condition d (.inside (.branch hc he) hd)⟩

/-- What is shown of clusters is what is shown of each. -/
theorem allReadable_iff (cs : List Cluster) : AllReadable cs ↔ ∀ c ∈ cs, c.Readable := by
  refine ⟨fun h c => h.cluster, fun h condition e hshown => ?_⟩
  have hinside : Readable condition e ∧ AllReadable (clusters none e.children) := by
    induction hshown with
    | alone hc => exact h _ hc _ rfl
    | branch hc he => exact h _ hc _ he
    | inside _ _ ihd ih => exact ih fun c => (ihd h).2.cluster
  exact hinside.1

theorem Plain.readable {e : Element} (he : Plain .base e) {condition : Option Attribute}
    (hcondition : condition = none) : Readable condition e := by
  have hbound : ∀ key ∈ ["classBinding", "styleBinding"],
      Settings.base.isStaticKey key = false := by decide
  refine ⟨by simp [hcondition], fun _ a ha hkind => ?_, fun _ key hkey v hv => ?_⟩
  · simp [(he.attrs a ha).1] at hkind
  · rw [he.get?_extras_eq_none (hbound key hkey)] at hv
    cases hv

/-- Constant parts read nothing. -/
theorem Node.Constant.readable {n : Node} (h : n.Constant .base) :
    ∀ inChain, n.Readable inChain := by
  induction n using Node.induct with
  | text t => exact fun _ _ he => nomatch he
  | interpolation expr => exact fun _ _ he => nomatch he
  | comment t => exact fun _ _ he => nomatch he
  | element e ih =>
    rintro inChain _ ⟨⟩
    obtain ⟨he, hchildren⟩ := (Node.constant_element_iff e).1 h
    have hif : e.directive? "if" = none := he.attr?_eq_none (by decide) "if"
    refine ⟨he.readable (by simp [hif]), (allReadable_iff _).2 (forall_cluster ?_ ?_)⟩
    · exact fun n hn => ih n hn (hchildren n hn) false
    · intro head branches hmem d hd
      have hconstant : (Node.element d).Constant .base := hchildren _ (hmem d hd)
      have hplain : Plain .base d := hconstant.plain d .self
      refine ⟨hplain.readable hplain.condition?_eq_none, ?_⟩
      exact (ih _ (hmem d hd) hconstant true d rfl).2

theorem mem_of_attr? {e : Element} {kind : AttrKind} {name : String} {a : Attribute}
    (h : a ∈ e.attr? kind name) : a ∈ e.attrs ∧ a.kind = kind ∧ a.name = name := by
  refine ⟨List.mem_of_find?_eq_some h, ?_⟩
  simpa [Attribute.isNamed] using List.find?_some h

/-! ## The checks -/

namespace Lint

theorem evaluates_of_expressionErrors {expr text : String} (h : expressionErrors expr text = []) :
    Evaluates expr := by
  unfold expressionErrors at h
  rw [evaluates_iff]
  split at h
  · cases h
  · split at h
    · rename_i hparse
      simp [hparse, Except.toOption]
    · cases h

theorem nodesErrors_eq_nil {nodes : List Node} :
    nodesErrors nodes = [] ↔ ∀ n ∈ nodes, nodeErrors n = [] := by
  induction nodes with
  | nil => simp [nodesErrors]
  | cons n nodes ih => simp [nodesErrors, ih]

theorem nodeErrors_element {e : Element} :
    nodeErrors (.element e) = [] ↔
      (∀ a ∈ e.attrs, attributeErrors a = []) ∧ ∀ n ∈ e.children, nodeErrors n = [] := by
  cases e
  simp only [nodeErrors, List.append_eq_nil_iff, List.flatMap_eq_nil_iff, nodesErrors_eq_nil]

section

variable {a : Attribute} (h : attributeErrors a = [])

include h

theorem evaluates_bind (hkind : a.kind = .bind) : Evaluates a.valueText := by
  simp only [attributeErrors, hkind] at h
  exact evaluates_of_expressionErrors h

/-- Only a directive with a value is checked. -/
theorem evaluates_directive (hkind : a.kind = .directive)
    (hname : a.name ∉ "for" :: withoutExpression) : Evaluates a.valueText ↔ a.value.isSome := by
  cases hvalue : a.value with
  | none => simpa [Attribute.valueText, hvalue] using not_evaluates_empty
  | some v =>
    rw [List.mem_cons, not_or] at hname
    have hcontains : withoutExpression.contains a.name = false := by simpa using hname.2
    simp only [attributeErrors, hkind, if_neg hname.1, hcontains, hvalue] at h
    simpa using evaluates_of_expressionErrors h

/-- The source of a loop is checked, and that it can be read. -/
theorem evaluates_loop (hkind : a.kind = .directive) (hname : a.name = "for") :
    ∃ l, LoopExpr.parse? a.valueText = some l ∧ Evaluates l.source := by
  simp only [attributeErrors, hkind, hname, if_true, loopErrors] at h
  split at h
  · cases h
  · rename_i l hparse
    rw [List.append_eq_nil_iff] at h
    exact ⟨l, hparse, evaluates_of_expressionErrors h.1⟩

end

end Lint

/-! ## Elements -/

section

variable {e : Element} (he : ∀ a ∈ e.attrs, Lint.attributeErrors a = [])

include he

theorem evaluates_binding {name : String} {a : Attribute} (h : a ∈ e.binding? name) :
    Piece.Evaluates (.read (Text.trim a.valueText)) := by
  obtain ⟨ha, hkind, _⟩ := mem_of_attr? h
  rw [evaluates_read_trim]
  exact Lint.evaluates_bind (he a ha) hkind

theorem evaluates_source {a : Attribute} (h : a ∈ e.directive? "for") :
    ∃ l, LoopExpr.parse? a.valueText = some l ∧ Evaluates l.source := by
  obtain ⟨ha, hkind, hname⟩ := mem_of_attr? h
  exact Lint.evaluates_loop (he a ha) hkind hname

theorem evaluates_condition {name : String} (hname : name ∉ "for" :: Lint.withoutExpression)
    {a : Attribute} (h : a ∈ e.directive? name) :
    Piece.Evaluates (.read (Text.trim a.valueText)) ↔ a.value.isSome := by
  obtain ⟨ha, hkind, rfl⟩ := mem_of_attr? h
  rw [evaluates_read_trim]
  exact Lint.evaluates_directive (he a ha) hkind hname

/-- A directive is attached with an expression, except that a display may have none. -/
theorem only_evaluates_directiveCode {a : Attribute} (ha : a ∈ e.attrs) :
    Code.Only Piece.Evaluates (directiveCode .base e a) ↔
      (a.kind = .directive → a.name = "text" ∨ a.name = "html" → a.value.isSome) := by
  rw [only_directiveCode_base harmless_evaluates]
  refine imp_congr_right fun hkind => ?_
  by_cases hdisplay : a.name = "text" ∨ a.name = "html"
  · have hnames : ∀ name ∈ ["text", "html"], structuralDirectives.contains name = false ∧
        name ∉ "for" :: Lint.withoutExpression := by decide
    obtain ⟨hstructural, hname⟩ := hnames a.name (by simpa using hdisplay)
    rw [imp_iff_right hstructural, imp_iff_right hdisplay, Attribute.read?, if_pos hdisplay]
    simpa [evaluates_read_trim] using Lint.evaluates_directive (he a ha) hkind hname
  · refine iff_of_true (fun hstructural v hv => ?_) fun h => absurd h hdisplay
    rw [Attribute.read?, if_neg hdisplay] at hv
    split at hv
    · cases hv
    · rename_i hcloak
      have hname : a.name ∉ "for" :: Lint.withoutExpression := by
        simp only [structuralDirectives, Lint.withoutExpression] at hstructural ⊢
        simp_all
      have hvalue : a.value = some v := hv
      rw [evaluates_read_trim]
      simpa [Attribute.valueText, hvalue] using Lint.evaluates_directive (he a ha) hkind hname

theorem only_evaluates_dataCode :
    Code.Only Piece.Evaluates (dataCode .base e) ↔
      (∀ a ∈ e.attrs, a.kind = .directive → a.name = "text" ∨ a.name = "html" → a.value.isSome) ∧
      ∀ key ∈ ["classBinding", "styleBinding"], ∀ v ∈ e.extras.get? key, Evaluates v := by
  have hattributes : ∀ a ∈ e.attrs, Code.Only Piece.Evaluates (attributeCode .base e a) := by
    intro a ha
    rw [only_attributeCode harmless_evaluates]
    refine ⟨fun hkind _ => ?_, fun _ => trivial⟩
    rw [evaluates_read_trim]
    exact Lint.evaluates_bind (he a ha) hkind
  rw [only_dataCode harmless_evaluates, only_extension_base harmless_evaluates,
    and_iff_right fun a ha => evaluates_binding he ha, and_iff_left hattributes]
  refine and_congr (forall₂_congr fun a ha => only_evaluates_directiveCode he ha) ?_
  simp only [evaluates_read_trim, List.forall_mem_cons]
  simp

theorem only_evaluates_elementCode {codes : List Code} :
    Code.Only Piece.Evaluates (elementCode .base e codes) ↔
      Readable none e ∧ ∀ code ∈ codes, Code.Only Piece.Evaluates code := by
  have htag : Code.Only Piece.Evaluates (tagCode e) := by
    rw [only_tagCode harmless_evaluates]
    exact fun _ a ha => evaluates_binding he ha
  rw [only_elementCode harmless_evaluates, and_iff_right htag, only_evaluates_dataCode he]
  refine and_congr_left fun _ => ⟨fun h => ?_, fun h hplace => ?_⟩
  · exact ⟨by simp, fun hplace => (h hplace).1, fun hplace => (h hplace).2⟩
  · exact ⟨h.displays hplace, h.bindings hplace⟩

/-- The code of an element by itself reads its own condition only if it stands alone. -/
theorem only_evaluates_wrapCode (inChain : Bool) {codes : List Code} :
    Code.Only Piece.Evaluates (wrapCode .base inChain e codes) ↔
      Readable (if inChain then none else e.directive? "if") e ∧
        ∀ code ∈ codes, Code.Only Piece.Evaluates code := by
  cases inChain with
  | true => exact only_evaluates_elementCode he
  | false =>
    have hguard : (∀ a ∈ e.directive? "if", Piece.Evaluates (.read (Text.trim a.valueText))) ↔
        ∀ a ∈ e.directive? "if", a.value.isSome :=
      forall₂_congr fun a ha => evaluates_condition he (by decide) ha
    rw [wrapCode, if_neg Bool.false_ne_true, if_neg Bool.false_ne_true,
      only_guardCode harmless_evaluates, hguard, only_evaluates_elementCode he,
      readable_iff (e.directive? "if"), and_assoc]

end

/-! ## Runs of the generator -/

/-- A branch reads nothing but expressions, its condition among them. -/
def BranchEvaluates (b : Option String × Code) : Prop :=
  (∀ text ∈ b.1, Piece.Evaluates (.read (Text.trim text))) ∧ Code.Only Piece.Evaluates b.2

theorem guard_evaluates {e : Element} (he : ∀ a ∈ e.attrs, Lint.attributeErrors a = []) :
    (∀ text ∈ Cluster.guard? e, Piece.Evaluates (.read (Text.trim text))) ↔
      ∀ a ∈ OpenChain.condition? e, a.value.isSome := by
  have hcondition : ∀ a ∈ OpenChain.condition? e,
      Piece.Evaluates (.read (Text.trim a.valueText)) ↔ a.value.isSome := by
    intro a ha
    unfold OpenChain.condition? at ha
    cases hif : e.directive? "if" with
    | some b =>
      rw [hif] at ha
      cases ha
      exact evaluates_condition he (by decide) hif
    | none =>
      have helse : a ∈ e.directive? "else-if" := by simpa [hif] using ha
      exact evaluates_condition he (by decide) helse
  unfold Cluster.guard?
  cases hcond : OpenChain.condition? e with
  | none => simp
  | some a => simpa [hcond] using hcondition a hcond

theorem chain_evaluates (head : Element) (branches : List Element)
    (hlint : ∀ e ∈ head :: branches, Lint.nodeErrors (.element e) = [])
    (h : ∀ e ∈ head :: branches, Emits (nodeCode .base true (.element e))
      fun _ code _ _ => Code.Only Piece.Evaluates code ↔ (Node.element e).Readable true) :
    Emits (Cluster.code .base (.chain head branches)) fun _ code _ _ =>
      Code.Only Piece.Evaluates code ↔ (Cluster.chain head branches).Readable := by
  refine emits_chain
    (R := fun e _ code _ _ => BranchEvaluates (Cluster.guard? e, code) ↔
      Readable (OpenChain.condition? e) e ∧ AllReadable (clusters none e.children))
    (L := fun es _ codes _ _ => (∀ b ∈ codes, BranchEvaluates b) ↔
      ∀ e ∈ es, Readable (OpenChain.condition? e) e ∧ AllReadable (clusters none e.children))
    (fun e he => (h e he).mono fun _ code _ _ hcode => ?_) (fun _ => by simp) ?_ ?_
  · rw [BranchEvaluates, guard_evaluates (Lint.nodeErrors_element.1 (hlint e he)).1, hcode,
      readable_element, readable_iff (OpenChain.condition? e), if_pos rfl, and_assoc]
  · intro e es _ code codes _ _ _ _ hcode hcodes
    rw [List.forall_mem_cons, List.forall_mem_cons, hcode, hcodes]
  · intro _ codes _ _ hcodes
    have hfallback : ∀ b ∈ Cluster.fallback head branches, BranchEvaluates b :=
      forall_fallback ⟨by simp, only_emptyChild harmless_evaluates⟩ head branches
    rw [only_choiceCode harmless_evaluates]
    change (∀ b ∈ codes ++ _, BranchEvaluates b) ↔ _
    rw [List.forall_mem_append, and_iff_left hfallback, hcodes]
    rfl

theorem cluster_evaluates (nodes : List Node) (hlint : ∀ n ∈ nodes, Lint.nodeErrors n = [])
    (h : ∀ n ∈ nodes, ∀ inChain, Emits (nodeCode .base inChain n)
      fun _ code _ _ => Code.Only Piece.Evaluates code ↔ n.Readable inChain) :
    ∀ c ∈ clusters none nodes, Emits (c.code .base)
      fun _ code _ _ => Code.Only Piece.Evaluates code ↔ c.Readable :=
  forall_cluster (fun n hn => h n hn false) fun head branches hmem =>
    chain_evaluates head branches (fun e he => hlint _ (hmem e he)) fun e he => h _ (hmem e he) true

theorem nodesCode_evaluates (nodes : List Node) (hlint : ∀ n ∈ nodes, Lint.nodeErrors n = [])
    (h : ∀ n ∈ nodes, ∀ inChain, Emits (nodeCode .base inChain n)
      fun _ code _ _ => Code.Only Piece.Evaluates code ↔ n.Readable inChain) :
    Emits (nodesCode .base none nodes) fun _ codes _ _ =>
      (∀ code ∈ codes, Code.Only Piece.Evaluates code) ↔ AllReadable (clusters none nodes) := by
  rw [nodesCode_clusters]
  simp only [allReadable_iff]
  refine emits_mapM (S := fun (cs : List Cluster) _ codes _ _ =>
      (∀ code ∈ codes, Code.Only Piece.Evaluates code) ↔ ∀ c ∈ cs, c.Readable)
    (cluster_evaluates nodes hlint h) (fun _ => by simp) ?_
  intro c cs _ code codes _ _ _ _ hcode hcodes
  rw [List.forall_mem_cons, List.forall_mem_cons, hcode, hcodes]

/-- The induction is on the tree. Nothing is left to be read where a static root is called, and a
static root is constant. -/
theorem nodeCode_evaluates (n : Node) (hlint : Lint.nodeErrors n = [])
    (hroots : ∀ e, Node.Inside (.element e) n → e.staticRoot → (Node.element e).Constant .base) :
    ∀ inChain, Emits (nodeCode .base inChain n)
      fun _ code _ _ => Code.Only Piece.Evaluates code ↔ n.Readable inChain := by
  induction n using Node.induct with
  | text t =>
    refine fun _ => emits_pure fun _ => iff_of_true ?_ fun _ he => nomatch he
    simp [only_call harmless_evaluates, only_literal harmless_evaluates]
  | interpolation expr =>
    refine fun _ => emits_pure fun _ => iff_of_true ?_ fun _ he => nomatch he
    have hexpr := Lint.evaluates_of_expressionErrors hlint
    simpa [only_call harmless_evaluates, only_fixed harmless_evaluates, only_binding,
      evaluates_read_trim] using hexpr
  | comment t =>
    refine fun _ => emits_pure fun _ => iff_of_true ?_ fun _ he => nomatch he
    simp [only_call harmless_evaluates, only_owned harmless_evaluates]
  | element e ih =>
    intro inChain
    obtain ⟨he, hnodes⟩ := Lint.nodeErrors_element.1 hlint
    have hchildren := nodesCode_evaluates e.children hnodes fun n hn =>
      ih n hn (hnodes n hn) fun d hd => hroots d (.child hn hd)
    refine emits_element hchildren ?_ ?_ ?_ ?_
    · intro _ codes _ _ hcodes
      rw [only_evaluates_wrapCode he, hcodes, readable_element]
    · intro a hfor hparse
      obtain ⟨l, hl, _⟩ := evaluates_source he hfor
      simp [hparse] at hl
    · intro a l hfor hparse _ code _ _ hcode
      obtain ⟨l', hl', hsource⟩ := evaluates_source he hfor
      cases hparse.symm.trans hl'
      rw [only_loopCode harmless_evaluates, evaluates_read_trim, and_iff_right hsource, hcode]
    · intro hroot _ _ _ _ _
      exact iff_of_true (only_singleton.2 trivial) ((hroots e .self hroot).readable inChain)

/-! ## Templates -/

theorem only_evaluates_iff {code : Code} :
    Code.Only Piece.Evaluates code ↔ ∀ expr, .read expr ∈ code → Evaluates expr := by
  constructor
  · exact fun h expr hexpr => h _ hexpr
  · intro h p hp
    cases p with
    | read expr => exact h expr hp
    | _ => trivial

/-- The render function reads what is shown of the first root. -/
theorem body_evaluates (roots : List Node) (hlint : ∀ n ∈ roots, Lint.nodeErrors n = [])
    (hroots : ∀ n ∈ roots, ∀ e, Node.Inside (.element e) n → e.staticRoot →
      (Node.element e).Constant .base) :
    Code.Only Piece.Evaluates (generateCode .base roots).1.body ↔
      AllReadable ((clusters none roots).take 1) := by
  rw [generateCode_body]
  cases hclusters : clusters none roots with
  | nil =>
    refine iff_of_true ?_ ((allReadable_iff _).2 (by simp))
    simp [placeholderCode, only_call harmless_evaluates, only_list harmless_evaluates,
      only_literal harmless_evaluates, normalizationCode, only_fixed harmless_evaluates]
  | cons c more =>
    have hnodes := cluster_evaluates roots hlint fun n hn =>
      nodeCode_evaluates n (hlint n hn) (hroots n hn)
    obtain ⟨code, _, _, hrun, hcode⟩ := hnodes c (by simp [hclusters]) ⟨[], []⟩
    rw [allReadable_iff]
    simpa [hrun] using hcode

/-- The sources of a template's functions. -/
def CompiledTemplate.sources (c : CompiledTemplate) : List String :=
  c.render :: c.staticRenderFns

/-- If a template compiles without errors, everything that its sources read is an expression exactly
if all that is shown is readable: every condition and every display has a value, and every bound
class and style is an expression. -/
theorem reads_iff_readable (template : String)
    (h : (compileWith compileTemplate .base template).result.errors = []) :
    (∀ source ∈ (compileWith compileTemplate .base template).result.template.sources,
      ∀ expr, ReadsIn source expr → Evaluates expr) ↔
        AllReadable ((clusters none (treeOf template)).take 1) := by
  have hlint : ∀ n ∈ treeOf template, Lint.nodeErrors n = [] :=
    Lint.nodesErrors_eq_nil.1 (List.append_eq_nil_iff.1 h).2
  have hroots : ∀ n ∈ treeOf template, ∀ e, Node.Inside (.element e) n → e.staticRoot →
      (Node.element e).Constant .base :=
    fun n hn e => constant_of_staticRoot hn
  have hbalanced := balanced_generated (treeOf template)
  rw [← body_evaluates _ hlint hroots, only_evaluates_iff]
  constructor
  · intro hreads expr hexpr
    refine hreads _ List.mem_cons_self expr ?_
    exact (readsIn_function (.inl rfl) (hbalanced _ List.mem_cons_self).worded expr).2 hexpr
  · intro hbody source hsource expr hexpr
    obtain ⟨name, body, hname, hmem, rfl⟩ := source_cases hsource
    rw [readsIn_function hname (hbalanced body hmem).worded] at hexpr
    rcases List.mem_cons.1 hmem with rfl | hhoisted
    · exact hbody expr hexpr
    · exact (generateCode_silent _ hroots body hhoisted _ hexpr).elim

/-- With a bound class and a condition that are expressions, all that is shown is readable. -/
theorem reads_iff_readable_conditional :
    (compileWith compileTemplate .base
        "<p :class=\"c\" v-if=\"a\">\x7b\x7bb\x7d\x7d</p>").result.errors = [] ∧
      AllReadable
        ((clusters none (treeOf "<p :class=\"c\" v-if=\"a\">\x7b\x7bb\x7d\x7d</p>")).take 1) := by
  have herrors : (compileWith compileTemplate .base
      "<p :class=\"c\" v-if=\"a\">\x7b\x7bb\x7d\x7d</p>").result.errors = [] := by decide +kernel
  let generated : Generated :=
    (generateCode .base (treeOf "<p :class=\"c\" v-if=\"a\">\x7b\x7bb\x7d\x7d</p>")).1
  have hreads : (generated.body :: generated.hoisted).all fun body => body.all fun p =>
      match p with
      | .read expr => (Expr.parse expr).toOption.isSome
      | _ => true := by decide +kernel
  refine ⟨herrors, (reads_iff_readable _ herrors).1 fun source hsource expr hexpr => ?_⟩
  obtain ⟨name, body, hname, hmem, rfl⟩ := source_cases hsource
  rw [readsIn_function hname (balanced_generated _ body hmem).worded] at hexpr
  exact (evaluates_iff expr).2 (List.all_eq_true.1 (List.all_eq_true.1 hreads body hmem) _ hexpr)

/-- A bound class is read, but not checked. -/
theorem bound_class_not_checked :
    (compileWith compileTemplate .base "<p :class=\"a + b\"></p>").result.errors = [] ∧
      ∃ source ∈ (compileWith compileTemplate .base
        "<p :class=\"a + b\"></p>").result.template.sources,
          ReadsIn source "a + b" ∧ ¬ Evaluates "a + b" := by
  have hread : .read "a + b" ∈ (generateCode .base (treeOf "<p :class=\"a + b\"></p>")).1.body := by
    decide +kernel
  have hbalanced := balanced_generated (treeOf "<p :class=\"a + b\"></p>") _ List.mem_cons_self
  have hparse : (Expr.parse "a + b").toOption.isSome = false := by decide +kernel
  refine ⟨by decide +kernel, _, List.mem_cons_self, ?_, ?_⟩
  · exact (readsIn_function (.inl rfl) hbalanced.worded "a + b").2 hread
  · simp [evaluates_iff, hparse]

end ViewTree.Template
