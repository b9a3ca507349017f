import ViewTree.Proofs.Template.Emission
import ViewTree.Template.Compiler
/-!
# The stages do not look at the receiver

Parsing, marking and generating give their diagnostics back, and leave it to the compiler who
receives them: under settings with another receiver a template becomes the same tree, the same code
and the same diagnostics (`compileTemplate_withReceiver`).
-/

namespace ViewTree.Template

/-- The settings with a custom receiver of diagnostics, or without one. -/
def Settings.withReceiver (s : Settings) (custom : Bool) : Settings :=
  { s with customReceiver := custom }

section

variable (s : Settings) (custom : Bool)

/-! ## Parsing -/

theorem readAttributes_withReceiver (inPre : Bool) (seen : List String)
    (attrs : List Markup.Attribute) :
    Builder.readAttributes (s.withReceiver custom) inPre seen attrs =
      Builder.readAttributes s inPre seen attrs := by
  induction attrs generalizing seen with
  | nil => rfl
  | cons a rest ih =>
    rw [Builder.readAttributes, Builder.readAttributes, ih]
    rfl

theorem step_withReceiver (template : String) (b : Builder) (event : Markup.Event) :
    Builder.step (s.withReceiver custom) template b event = Builder.step s template b event := by
  cases event with
  | start tag attrs unary span =>
    simp only [Builder.step, Builder.onStart, readAttributes_withReceiver]
    rfl
  | _ => rfl

theorem parse_withReceiver (template : String) :
    parse (s.withReceiver custom) template = parse s template := by
  have hstep : Builder.step (s.withReceiver custom) template = Builder.step s template := by
    funext b event
    exact step_withReceiver s custom template b event
  have hdialect : (s.withReceiver custom).dialect = s.dialect := rfl
  unfold parse parseWith
  rw [hstep, hdialect]

/-! ## Marking -/

theorem markStatic_withReceiver (n : Node) : ∀ inLoop,
    Node.markStatic (s.withReceiver custom) inLoop n = Node.markStatic s inLoop n := by
  induction n using Node.induct with
  | text t => exact fun _ => rfl
  | interpolation expr => exact fun _ => rfl
  | comment t => exact fun _ => rfl
  | element e ih =>
    intro inLoop
    have hchildren : e.children.map (Node.markStatic (s.withReceiver custom)
        (inLoop || e.hasDirective "for")) =
          e.children.map (Node.markStatic s (inLoop || e.hasDirective "for")) :=
      List.map_congr_left fun n hn => ih n hn _
    cases e
    simp only [Node.markStatic, markStaticAll_eq_map]
    rw [hchildren]
    rfl

theorem optimize_withReceiver (roots : List Node) :
    optimize (s.withReceiver custom) roots = optimize s roots := by
  unfold optimize
  exact List.map_congr_left fun n _ => by rw [markStatic_withReceiver]

/-! ## Generating -/

theorem mapM_congr {α β : Type} {f g : α → Generator β} {xs : List α} (h : ∀ x ∈ xs, f x = g x) :
    xs.mapM f = xs.mapM g := by
  induction xs with
  | nil => rfl
  | cons x rest ih =>
    rw [List.mapM_cons, List.mapM_cons, h x List.mem_cons_self,
      ih fun y hy => h y (List.mem_cons_of_mem x hy)]

theorem cluster_withReceiver {c : Cluster}
    (h : ∀ n ∈ c.nodes, ∀ inChain,
      nodeCode (s.withReceiver custom) inChain n = nodeCode s inChain n) :
    c.code (s.withReceiver custom) = c.code s := by
  cases c with
  | alone n => exact h n List.mem_cons_self false
  | chain head branches =>
    have hbranches : (head :: branches).mapM (guardedCode (s.withReceiver custom)) =
        (head :: branches).mapM (guardedCode s) := by
      refine mapM_congr fun e he => ?_
      unfold guardedCode
      rw [h (.element e) (List.mem_map_of_mem he)]
    simp only [Cluster.code, hbranches]

theorem nodesCode_withReceiver {nodes : List Node}
    (h : ∀ n ∈ nodes, ∀ inChain,
      nodeCode (s.withReceiver custom) inChain n = nodeCode s inChain n) :
    nodesCode (s.withReceiver custom) none nodes = nodesCode s none nodes := by
  rw [nodesCode_clusters, nodesCode_clusters]
  refine mapM_congr fun c hc => cluster_withReceiver s custom fun n hn => ?_
  exact h n (mem_of_mem_cluster hc hn)

theorem nodeCode_withReceiver (n : Node) : ∀ inChain,
    nodeCode (s.withReceiver custom) inChain n = nodeCode s inChain n := by
  induction n using Node.induct with
  | text t => exact fun _ => rfl
  | interpolation expr => exact fun _ => rfl
  | comment t => exact fun _ => rfl
  | element e ih =>
    intro inChain
    rw [nodeCode_element, nodeCode_element, nodesCode_withReceiver s custom ih]
    rfl

theorem generateCode_withReceiver (roots : List Node) :
    generateCode (s.withReceiver custom) roots = generateCode s roots := by
  unfold generateCode
  rw [nodesCode_withReceiver s custom fun n _ => nodeCode_withReceiver s custom n]

end

/-- Compiling gives the same whoever receives the diagnostics. -/
theorem compileTemplate_withReceiver (s : Settings) (custom : Bool) (template : String) :
    compileTemplate (s.withReceiver custom) template = compileTemplate s template := by
  unfold compileTemplate
  simp only [parse_withReceiver, optimize_withReceiver, generateCode_withReceiver]

end ViewTree.Template
