import ViewTree.Proofs.Template.Emission
import ViewTree.Proofs.Template.Phrases
import ViewTree.Template.Defaults
/-!
# Generated source is well formed

Whatever stands in a template, the source that is generated from it can be read: it ends outside of
literals, no literal runs over a line, and brackets are nested. The parts of an element are
balanced one by one, in the order of the code, and so is everything that a run of the generator
gives (`nodeCode_balanced`).
-/

namespace ViewTree.Template

namespace Code

theorem balanced_commas {codes : List Code} (h : ∀ code ∈ codes, Balanced code) :
    Balanced (commas codes) := by
  induction codes with
  | nil => exact leads_nil
  | cons code rest ih =>
    have hcode : Balanced code := h code List.mem_cons_self
    cases rest with
    | nil => exact hcode
    | cons next rest =>
      have hrest := ih fun c hc => h c (List.mem_cons_of_mem code hc)
      exact hcode.append (.cons (by decide) hrest)

theorem balanced_call {name : String} (h : ⟨name ++ "(", [], [')']⟩ ∈ phrases) {args : List Code}
    (hargs : ∀ arg ∈ args, Balanced arg) : Balanced (call name args) :=
  (Leads.cons h ((balanced_commas hargs).frame [')'])).append (leads_phrase (by decide))

/-- A call with one argument. -/
theorem balanced_call_one {name : String} (h : ⟨name ++ "(", [], [')']⟩ ∈ phrases) {arg : Code}
    (harg : Balanced arg) : Balanced (call name [arg]) :=
  balanced_call h (by simpa using harg)

theorem balanced_list {items : List Code} (h : ∀ item ∈ items, Balanced item) :
    Balanced (list items) :=
  (Leads.cons (by decide) ((balanced_commas h).frame [']'])).append (leads_phrase (by decide))

theorem balanced_owned (s : String) : Balanced (owned s) :=
  (balanced_literal s).append (leads_phrase (by decide))

theorem balanced_binding (expr : String) : Balanced (binding expr) :=
  balanced_read _

theorem balanced_optional {code : Option Code} (h : ∀ c ∈ code, Balanced c) :
    Balanced (optional code) := by
  cases code with
  | none => exact leads_phrase (by decide)
  | some c => exact balanced_call_one (by decide) (h c rfl)

end Code

open Code

/-! ## The data bag -/

theorem balanced_runtimeDirective (a : Attribute) : Balanced (runtimeDirective a) := by
  have hvalue : Balanced (optional (a.value.map binding)) :=
    balanced_optional (by simp [balanced_binding])
  have howned (o : Option String) : Balanced (optional (o.map owned)) :=
    balanced_optional (by simp [balanced_owned])
  have hmodifiers : Balanced (list (a.modifiers.map owned)) :=
    balanced_list (by simp [balanced_owned])
  have hfield {text : String} (h : ⟨text, [], []⟩ ∈ phrases) {code : Code} (hcode : Balanced code) :
      Leads ['\x7d', ')'] ['\x7d', ')'] (.fixed text :: code) :=
    (Leads.cons h hcode).frame ['\x7d', ')']
  exact (((((Leads.cons (by decide) ((balanced_owned a.name).frame ['\x7d', ')'])).append
    (hfield (by decide) hvalue)).append
    (hfield (by decide) (howned a.value))).append
    (hfield (by decide) (howned a.arg))).append
    (hfield (by decide) hmodifiers)).append
    (leads_phrase (by decide))

theorem balanced_namedSetter {method : String} (h : ⟨"." ++ method ++ "(", [], [')']⟩ ∈ phrases)
    {arg : Code → Code} (harg : ∀ s, Balanced (arg [.literal s])) (a : Option Attribute) :
    Balanced (namedSetter method arg a) := by
  cases a with
  | none => exact leads_nil
  | some a => exact balanced_call_one h (harg _)

theorem balanced_keyCode (e : Element) : Balanced (keyCode e) := by
  unfold keyCode
  split
  · exact balanced_call_one (by decide) (balanced_binding _)
  · exact balanced_namedSetter (by decide)
      (fun s => balanced_call_one (by decide) (balanced_literal s)) _

theorem balanced_displayDirective {property : String}
    (h : ⟨".dom_prop(\"" ++ property ++ "\", Value::from(vm.to_display(&", [], [')', ')', ')']⟩ ∈
      phrases) (e : Element) (a : Attribute) : Balanced (displayDirective property e a).data :=
  (Leads.cons h ((balanced_binding _).frame _)).append (leads_phrase (by decide))

theorem balanced_directiveCode (e : Element) (a : Attribute) :
    Balanced (directiveCode .base e a) := by
  unfold directiveCode
  split
  · split
    · rename_i rule hrule
      have hdata : Balanced (rule e a).data := by
        rcases get?_base_directives hrule with ⟨_, rfl⟩ | ⟨_, rfl⟩ | ⟨_, rfl⟩
        · exact balanced_displayDirective (by decide) e a
        · exact balanced_displayDirective (by decide) e a
        · exact leads_nil
      refine hdata.append ?_
      split
      · exact balanced_runtimeDirective a
      · exact leads_nil
    · exact balanced_runtimeDirective a
  · exact leads_nil

theorem balanced_attributeCode (e : Element) (a : Attribute) :
    Balanced (attributeCode .base e a) := by
  have hsetter {method : String} (h : ⟨"." ++ method ++ "(", [], [')']⟩ ∈ phrases) {value : Code}
      (hvalue : Balanced value) : Balanced (setter method [[.literal a.name], value]) :=
    balanced_call h (by simp [balanced_literal, hvalue])
  unfold attributeCode
  cases a.kind with
  | plain =>
    dsimp only
    split
    · exact leads_nil
    · exact hsetter (by decide) (balanced_literal _)
  | bind =>
    dsimp only
    split
    · exact leads_nil
    · split
      · exact hsetter (by decide) (balanced_binding _)
      · exact hsetter (by decide) (balanced_binding _)
  | on =>
    dsimp only
    split
    · exact hsetter (by decide) (balanced_listener _)
    · exact hsetter (by decide) (balanced_listener _)
  | directive => exact leads_nil

theorem balanced_extraCode {e : Element} {key method : String}
    (h : ⟨"." ++ method ++ "(", [], [')']⟩ ∈ phrases) {arg : String → Code}
    (harg : ∀ v, Balanced (arg v)) : Balanced (extraCode e key method arg) := by
  unfold extraCode
  split
  · exact (Leads.cons h ((harg _).frame [')'])).append (leads_phrase (by decide))
  · exact leads_nil

theorem balanced_flatMap {α : Type} {f : α → Code} {xs : List α} (h : ∀ x ∈ xs, Balanced (f x)) :
    Balanced (xs.flatMap f) := by
  induction xs with
  | nil => exact leads_nil
  | cons x xs ih =>
    exact (h x List.mem_cons_self).append (ih fun y hy => h y (List.mem_cons_of_mem x hy))

theorem balanced_extension (e : Element) {x : Extension} (hx : x ∈ Settings.base.extensions) :
    Balanced (x.data e) := by
  have hbase : x = classExtension ∨ x = styleExtension := by
    simpa [Settings.base] using hx
  rcases hbase with rfl | rfl
  · exact (balanced_extraCode (by decide) balanced_literal).append
      (balanced_extraCode (by decide) balanced_binding)
  · exact (balanced_extraCode (by decide) balanced_literal).append
      (balanced_extraCode (by decide) balanced_binding)

theorem balanced_dataCode (e : Element) : Balanced (dataCode .base e) :=
  (((((Leads.cons (by decide) (balanced_keyCode e)).append
    (balanced_namedSetter (by decide) balanced_literal _)).append
    (balanced_namedSetter (by decide) balanced_literal _)).append
    (balanced_flatMap fun a _ => balanced_directiveCode e a)).append
    (balanced_flatMap fun _ hx => balanced_extension e hx)).append
    (balanced_flatMap fun a _ => balanced_attributeCode e a)

/-! ## Elements -/

theorem balanced_tagCode (e : Element) : Balanced (tagCode e) := by
  unfold tagCode
  split
  · split
    · exact balanced_call_one (by decide) (balanced_binding _)
    · exact balanced_literal _
    · exact balanced_literal _
  · exact balanced_literal _

theorem balanced_normalizationCode (children : List Node) :
    Balanced (normalizationCode children) := by
  unfold normalizationCode
  split
  · exact leads_phrase (by decide)
  · exact leads_phrase (by decide)

theorem balanced_elementCode (e : Element) {codes : List Code}
    (h : ∀ code ∈ codes, Balanced code) : Balanced (elementCode .base e codes) := by
  have hlist := balanced_list h
  unfold elementCode
  split
  · exact balanced_call_one (by decide) hlist
  · split
    · exact balanced_call_one (by decide)
        (balanced_call (by decide) (by simp [balanced_literal, hlist]))
    · refine balanced_call_one (by decide) (balanced_call (by decide) ?_)
      simp [balanced_tagCode, balanced_dataCode, hlist, balanced_normalizationCode]

theorem balanced_emptyChild : Balanced emptyChild :=
  leads_phrase (by decide)

theorem balanced_ifCode (condition : String) {body : Code} (h : Balanced body) :
    Balanced (ifCode condition body) :=
  ((Leads.cons (by decide) ((balanced_binding condition).frame [')'])).append
    (.cons (by decide) (h.frame ['\x7d']))).append (leads_phrase (by decide))

theorem balanced_elseCode {body : Code} (h : Balanced body) : Balanced (elseCode body) :=
  (Leads.cons (by decide) (h.frame ['\x7d'])).append (leads_phrase (by decide))

theorem balanced_guardCode (e : Element) {body : Code} (h : Balanced body) :
    Balanced (guardCode e body) := by
  unfold guardCode
  split
  · exact (balanced_ifCode _ h).append (balanced_elseCode balanced_emptyChild)
  · exact h

theorem balanced_choiceCode {branches : List (Option String × Code)}
    (h : ∀ b ∈ branches, Balanced b.2) : Balanced (choiceCode branches) := by
  cases branches with
  | nil => exact leads_nil
  | cons first further =>
    refine Leads.append ?_ (balanced_flatMap fun b hb => ?_)
    · have hfirst := h first List.mem_cons_self
      obtain ⟨_ | condition, body⟩ := first
      · exact balanced_elseCode hfirst
      · exact balanced_ifCode condition hfirst
    · have hbody := h b (List.mem_cons_of_mem first hb)
      obtain ⟨_ | condition, body⟩ := b
      · exact balanced_elseCode hbody
      · exact .cons (by decide) (balanced_ifCode condition hbody)

theorem balanced_loopCode (l : LoopExpr) {body : Code} (h : Balanced body) :
    Balanced (loopCode l body) := by
  have hscope (name : String) {value : String} (hvalue : ⟨value, [], []⟩ ∈ phrases) :
      Balanced (scopeCode name value) :=
    balanced_call (by decide) (by simp [balanced_literal, leads_phrase hvalue])
  let names := ", |item, " ++ (if l.key.isSome then "key" else "_key") ++ ", " ++
    (if l.index.isSome then "index" else "_index") ++ "| \x7b let scope = scope"
  have hnames : ⟨names, [], ['\x7d']⟩ ∈ phrases := by
    unfold names
    cases l.key.isSome <;> cases l.index.isSome <;> decide
  have hitem : Balanced (scopeCode l.item "item") := hscope l.item (by decide)
  let inside := ['\x7d', ')', ')']
  have hloop {key index : Code} (hkey : Balanced key) (hindex : Balanced index) :
      Balanced (.fixed "Child::List(vm.render_list(&" :: Code.binding l.source ++
        .fixed names :: scopeCode l.item "item" ++ key ++ index ++ .fixed "; " :: body ++
          [.fixed " \x7d))"]) :=
    (((((Leads.cons (by decide) ((balanced_binding l.source).frame [')', ')'])).append
      ((Leads.cons hnames (hitem.frame ['\x7d'])).frame [')', ')'])).append
        (hkey.frame inside)).append (hindex.frame inside)).append
          (Leads.frame (.cons (by decide) h) inside)).append (leads_phrase (by decide))
  refine hloop ?_ ?_
  · split
    · exact hscope _ (by decide)
    · exact leads_nil
  · split
    · exact hscope _ (by decide)
    · exact leads_nil

/-! ## Runs of the generator -/

/-- The result of a run and all bodies that it adds are balanced. -/
def AllBalanced (codes bodies : List Code) : Prop :=
  (∀ code ∈ codes, Balanced code) ∧ ∀ body ∈ bodies, Balanced body

theorem AllBalanced.cons {code : Code} {codes bodies more : List Code}
    (h : AllBalanced [code] bodies) (hs : AllBalanced codes more) :
    AllBalanced (code :: codes) (bodies ++ more) := by
  refine ⟨?_, ?_⟩
  · exact List.forall_mem_cons.2 ⟨h.1 code List.mem_cons_self, hs.1⟩
  · exact List.forall_mem_append.2 ⟨h.2, hs.2⟩

/-- The siblings of a list are balanced if each of them is. -/
theorem nodesCode_balanced (nodes : List Node)
    (h : ∀ n ∈ nodes, ∀ inChain, Emits (nodeCode .base inChain n)
      fun _ code bodies _ => AllBalanced [code] bodies) :
    Emits (nodesCode .base none nodes) fun _ codes bodies _ => AllBalanced codes bodies := by
  rw [nodesCode_clusters]
  refine emits_mapM (R := fun _ _ code bodies _ => AllBalanced [code] bodies)
    (S := fun _ _ codes bodies _ => AllBalanced codes bodies)
    (forall_cluster (fun n hn => h n hn false) fun head branches hmem => ?_)
    (fun _ => ⟨by simp, by simp⟩) (fun _ _ _ _ _ _ _ _ _ hcode hcodes => hcode.cons hcodes)
  refine emits_chain (R := fun _ _ code bodies _ => AllBalanced [code] bodies)
    (L := fun _ _ codes bodies _ => AllBalanced (codes.map Prod.snd) bodies)
    (fun e he => h _ (hmem e he) true) (fun _ => ⟨by simp, by simp⟩)
    (fun _ _ _ _ _ _ _ _ _ hcode hcodes => hcode.cons hcodes) ?_
  intro _ codes bodies _ hcodes
  refine ⟨?_, hcodes.2⟩
  rw [List.forall_mem_singleton]
  refine balanced_choiceCode (List.forall_mem_append.2 ⟨List.forall_mem_map.1 hcodes.1, ?_⟩)
  exact forall_fallback balanced_emptyChild head branches

/-- The induction is on the tree: the code of an element is put around the codes of its children. -/
theorem nodeCode_balanced (n : Node) : ∀ inChain, Emits (nodeCode .base inChain n)
    fun _ code bodies _ => AllBalanced [code] bodies := by
  induction n using Node.induct with
  | text t =>
    intro inChain
    refine emits_pure fun _ => ⟨?_, by simp⟩
    rw [List.forall_mem_singleton]
    exact balanced_call_one (by decide) (balanced_call_one (by decide) (balanced_literal t))
  | interpolation expr =>
    intro inChain
    refine emits_pure fun _ => ⟨?_, by simp⟩
    rw [List.forall_mem_singleton]
    refine balanced_call_one (by decide) (balanced_call_one (by decide) ?_)
    exact (Leads.cons (by decide) ((balanced_binding expr).frame [')'])).append
      (leads_phrase (by decide))
  | comment t =>
    intro inChain
    refine emits_pure fun _ => ⟨?_, by simp⟩
    rw [List.forall_mem_singleton]
    exact balanced_call_one (by decide) (balanced_call_one (by decide) (balanced_owned t))
  | element e ih =>
    intro inChain
    refine emits_element (nodesCode_balanced _ ih) ?_ ?_ ?_ ?_
    · rintro _ codes bodies _ ⟨hcodes, hbodies⟩
      have helement := balanced_elementCode e hcodes
      refine ⟨?_, hbodies⟩
      rw [List.forall_mem_singleton, wrapCode]
      split
      · exact helement
      · exact balanced_guardCode e helement
    · exact fun _ _ _ _ => ⟨by simpa using balanced_emptyChild, by simp⟩
    · rintro a l _ _ _ code bodies _ ⟨hcode, hbodies⟩
      exact ⟨by simpa using balanced_loopCode l (hcode code (by simp)), hbodies⟩
    · rintro _ _ code bodies _ ⟨hcode, hbodies⟩
      refine ⟨by simpa using balanced_hoisted _, ?_⟩
      exact List.forall_mem_append.2 ⟨hbodies, hcode⟩

/-! ## Sources -/

/-- The source can be read: it ends outside of literals, its literals are on one line and without
tabs, and its brackets are nested. -/
def WellFormed (source : String) : Prop :=
  ∃ ts, Token.ofText? source = some ts ∧
    (∀ raw, .quoted raw ∈ ts → ∀ c ∈ raw, c ≠ '\n' ∧ c ≠ '\r' ∧ c ≠ '\t') ∧
    Token.nest [] ts = some []

theorem wellFormed_function {name : String} (hname : name.toList.all Token.isNameChar)
    {body : Code} (h : Balanced body) : WellFormed (Code.text (Code.function name body)) := by
  have hclosed : Leads [')', '\x7d'] [] (body ++ [.fixed ")\n\x7d"]) :=
    (h.frame [')', '\x7d']).append (leads_phrase (by decide))
  refine ⟨_, ofText?_function hname h.worded, ?_, ?_⟩
  · intro raw hraw
    have hmarks : ∀ t ∈ functionTokens name, ∃ c, t = .mark c := by
      simp only [functionTokens, Token.marks, List.mem_append, List.mem_map]
      rintro t ((⟨c, _, rfl⟩ | ⟨c, _, rfl⟩) | ⟨c, _, rfl⟩) <;> exact ⟨c, rfl⟩
    rcases List.mem_append.1 hraw with hraw | hraw
    · obtain ⟨c, hc⟩ := hmarks _ hraw
      cases hc
    · obtain ⟨p, hp, hraw⟩ := List.mem_flatMap.1 hraw
      have hclean := (hclosed.worded p hp).isClean _ hraw
      simpa [Token.isClean, and_assoc] using hclean
  · rw [Token.nest_append, nest_functionTokens hname]
    exact hclosed.brackets

/-- The names of generated functions. -/
def IsFunctionName (name : String) : Prop :=
  name = "render" ∨ ∃ i : Nat, name = s!"static_render_{i}"

theorem IsFunctionName.chars {name : String} (h : IsFunctionName name) :
    name.toList.all Token.isNameChar := by
  rcases h with rfl | ⟨i, rfl⟩
  · decide
  · have hindex : (toString i).toList.all Token.isNameChar := by
      rw [List.all_eq_true]
      intro c hc
      simp [Token.isNameChar, Char.isAlphanum, Piece.isDigit_of_mem_toString hc]
    have hname : (s!"static_render_{i}" : String) = "static_render_" ++ toString i := rfl
    rw [hname, String.toList_append, List.all_append, hindex]
    decide

/-- The sources of hoisted functions are functions around the hoisted bodies. -/
theorem hoisted_cases {g : Generated} {source : String} (h : source ∈ g.staticRenderFns) :
    ∃ name body, IsFunctionName name ∧ body ∈ g.hoisted ∧
      source = Code.text (Code.function name body) := by
  obtain ⟨i, hi, rfl⟩ := List.mem_mapIdx.1 h
  exact ⟨_, _, .inr ⟨i, rfl⟩, List.getElem_mem hi, rfl⟩

/-- The sources of generated code are functions around its bodies. -/
theorem source_cases {g : Generated} {source : String}
    (h : source ∈ g.render :: g.staticRenderFns) :
    ∃ name body, IsFunctionName name ∧ body ∈ g.body :: g.hoisted ∧
      source = Code.text (Code.function name body) := by
  rcases List.mem_cons.1 h with rfl | h
  · exact ⟨"render", g.body, .inl rfl, List.mem_cons_self, rfl⟩
  · obtain ⟨name, body, hname, hbody, hsource⟩ := hoisted_cases h
    exact ⟨name, body, hname, List.mem_cons_of_mem _ hbody, hsource⟩

theorem balanced_generated (roots : List Node) :
    ∀ body ∈ (generateCode .base roots).1.body :: (generateCode .base roots).1.hoisted,
      Balanced body := by
  obtain ⟨codes, bodies, ds, hrun, hcodes, hbodies⟩ :=
    nodesCode_balanced roots (fun n _ => nodeCode_balanced n) ⟨[], []⟩
  have hplaceholder : Balanced placeholderCode := by
    have hdata : Balanced [.fixed "VNodeData::new()"] := leads_phrase (by decide)
    have hnone : Balanced (list []) := balanced_list (by simp)
    refine balanced_call_one (by decide) (balanced_call (by decide) ?_)
    simp [balanced_literal, hdata, hnone, balanced_normalizationCode]
  unfold generateCode
  rw [hrun]
  refine List.forall_mem_cons.2 ⟨?_, by simpa using hbodies⟩
  cases codes with
  | nil => exact hplaceholder
  | cons code codes => exact hcodes code List.mem_cons_self

/-- However the nodes of a template are chosen, the sources that are generated from them are well
formed, and a literal stands for the text that it is made from. -/
theorem wellFormed_generated (roots : List Node) :
    (∀ source ∈ (generateCode .base roots).1.render :: (generateCode .base roots).1.staticRenderFns,
      WellFormed source) ∧
    ∀ s, ∃ raw, Token.ofText? (literal s) = some [.quoted raw] ∧
      Token.unescape raw = some s.toList := by
  refine ⟨?_, fun s => ⟨_, Token.scan_literal s, Token.unescape_escape s⟩⟩
  intro source hsource
  obtain ⟨name, body, hname, hbody, rfl⟩ := source_cases hsource
  exact wellFormed_function hname.chars (balanced_generated roots body hbody)

end ViewTree.Template
