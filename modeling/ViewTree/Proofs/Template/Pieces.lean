import ViewTree.Proofs.Template.Grouping
import ViewTree.Template.Defaults
/-!
# Pieces of generated code

What the generator reads is told by properties of pieces that all fixed text and all literals have.
Code has such a property throughout if what it reads has it; there is one lemma for each part of an
element, down to its attributes.
-/

namespace ViewTree.Template

/-- A property of pieces that fixed text and literals have, whatever they say. -/
structure Harmless (Q : Piece → Prop) : Prop where
  fixed : ∀ text, Q (.fixed text)
  literal : ∀ s, Q (.literal s)

/-- Every piece of the code has the property. -/
def Code.Only (Q : Piece → Prop) (code : Code) : Prop :=
  ∀ p ∈ code, Q p

section

variable {Q : Piece → Prop} (hQ : Harmless Q)

@[simp] theorem only_nil : Code.Only Q [] :=
  List.forall_mem_nil Q

theorem only_singleton {p : Piece} : Code.Only Q [p] ↔ Q p :=
  List.forall_mem_singleton

@[simp] theorem only_append {a b : Code} : Code.Only Q (a ++ b) ↔ Code.Only Q a ∧ Code.Only Q b :=
  List.forall_mem_append

theorem only_flatMap {α : Type} {f : α → Code} {xs : List α} :
    Code.Only Q (xs.flatMap f) ↔ ∀ x ∈ xs, Code.Only Q (f x) := by
  simp only [Code.Only, List.forall_mem_flatMap]

theorem only_binding {expr : String} :
    Code.Only Q (Code.binding expr) ↔ Q (.read (Text.trim expr)) :=
  only_singleton

include hQ

theorem only_fixed {text : String} {code : Code} :
    Code.Only Q (.fixed text :: code) ↔ Code.Only Q code := by
  simp [Code.Only, hQ.fixed]

theorem only_literal (s : String) : Code.Only Q [.literal s] :=
  only_singleton.2 (hQ.literal s)

theorem only_commas {codes : List Code} :
    Code.Only Q (Code.commas codes) ↔ ∀ code ∈ codes, Code.Only Q code := by
  induction codes with
  | nil => simp [Code.commas]
  | cons code rest ih =>
    cases rest with
    | nil => simp [Code.commas]
    | cons next rest =>
      rw [Code.commas, only_append, only_fixed hQ, ih, List.forall_mem_cons (l := next :: rest)]
      exact List.cons_ne_nil _ _

theorem only_call {name : String} {args : List Code} :
    Code.Only Q (Code.call name args) ↔ ∀ arg ∈ args, Code.Only Q arg := by
  rw [Code.call, List.cons_append, only_fixed hQ, only_append, only_fixed hQ, only_commas hQ]
  exact and_iff_left only_nil

theorem only_list {items : List Code} :
    Code.Only Q (Code.list items) ↔ ∀ item ∈ items, Code.Only Q item := by
  rw [Code.list, List.cons_append, only_fixed hQ, only_append, only_fixed hQ, only_commas hQ]
  exact and_iff_left only_nil

theorem only_owned (s : String) : Code.Only Q (Code.owned s) := by
  simp [Code.Only, Code.owned, hQ.fixed, hQ.literal]

theorem only_optional {code : Option Code} :
    Code.Only Q (Code.optional code) ↔ ∀ c ∈ code, Code.Only Q c := by
  cases code with
  | none => simp [Code.Only, Code.optional, hQ.fixed]
  | some c =>
    rw [Code.optional, only_call hQ]
    simp

/-! ## The data bag -/

theorem only_runtimeDirective (a : Attribute) :
    Code.Only Q (runtimeDirective a) ↔ ∀ v ∈ a.value, Q (.read (Text.trim v)) := by
  have howned (o : Option String) : Code.Only Q (Code.optional (o.map Code.owned)) := by
    rw [only_optional hQ]
    simp [only_owned hQ]
  have hmodifiers : Code.Only Q (Code.list (a.modifiers.map Code.owned)) := by
    rw [only_list hQ]
    simp [only_owned hQ]
  have hvalue : Code.Only Q (Code.optional (a.value.map Code.binding)) ↔
      ∀ v ∈ a.value, Q (.read (Text.trim v)) := by
    rw [only_optional hQ]
    cases a.value <;> simp [only_binding]
  simp only [runtimeDirective, List.cons_append, only_append, only_fixed hQ, only_owned hQ, howned,
    hmodifiers, hvalue, only_nil, and_true, true_and]

theorem only_namedSetter {method : String} {arg : Code → Code}
    (harg : ∀ s, Code.Only Q (arg [.literal s])) (a : Option Attribute) :
    Code.Only Q (namedSetter method arg a) := by
  cases a with
  | none => exact only_nil
  | some a =>
    rw [namedSetter, setter, only_call hQ, List.forall_mem_singleton]
    exact harg a.valueText

theorem only_keyCode (e : Element) :
    Code.Only Q (keyCode e) ↔ ∀ a ∈ e.binding? "key", Q (.read (Text.trim a.valueText)) := by
  unfold keyCode
  cases e.binding? "key" with
  | some a =>
    dsimp only
    rw [setter, only_call hQ]
    simp [only_binding]
  | none =>
    refine iff_of_true (only_namedSetter hQ (fun s => ?_) _) (by simp)
    rw [only_call hQ]
    simpa using only_literal hQ s

theorem only_attributeCode (s : Settings) (e : Element) (a : Attribute) :
    Code.Only Q (attributeCode s e a) ↔
      (a.kind = .bind → isOwnPlace e a.name = false → Q (.read (Text.trim a.valueText))) ∧
        (a.kind = .on → Q (.listener a.valueText)) := by
  have hsetter (method : String) (value : Code) :
      Code.Only Q (setter method [[.literal a.name], value]) ↔ Code.Only Q value := by
    rw [setter, only_call hQ]
    simpa using fun _ => only_literal hQ a.name
  unfold attributeCode
  cases a.kind with
  | plain =>
    dsimp only
    split
    · simp
    · rw [hsetter]
      simpa using only_literal hQ _
  | bind =>
    dsimp only
    split
    · simp_all
    · rename_i hplace
      rw [hsetter, only_binding]
      simp [Bool.eq_false_iff.2 hplace]
  | on => simp [hsetter, only_singleton]
  | directive => simp

/-- The data bag reads what its parts read. -/
theorem only_dataCode (s : Settings) (e : Element) :
    Code.Only Q (dataCode s e) ↔
      (∀ a ∈ e.binding? "key", Q (.read (Text.trim a.valueText))) ∧
      (∀ a ∈ e.attrs, Code.Only Q (directiveCode s e a)) ∧
      (∀ x ∈ s.extensions, Code.Only Q (x.data e)) ∧
      ∀ a ∈ e.attrs, Code.Only Q (attributeCode s e a) := by
  have hnamed (method : String) (a : Option Attribute) : Code.Only Q (namedSetter method id a) :=
    only_namedSetter hQ (only_literal hQ) a
  simp only [dataCode, List.cons_append, only_fixed hQ, only_append, only_keyCode hQ, hnamed,
    only_flatMap, and_true, and_assoc]

/-! ## Elements -/

theorem only_tagCode (e : Element) :
    Code.Only Q (tagCode e) ↔
      (e.tag = "component" → ∀ a ∈ e.binding? "is", Q (.read (Text.trim a.valueText))) := by
  have hliteral := only_literal hQ
  unfold tagCode
  split
  · rename_i hcomponent
    rw [beq_iff_eq] at hcomponent
    rw [imp_iff_right hcomponent]
    cases e.binding? "is" with
    | some a =>
      rw [only_call hQ]
      simp [only_binding]
    | none => cases e.plainAttr? "is" <;> simp [hliteral]
  · rename_i hcomponent
    rw [beq_iff_eq] at hcomponent
    simp [hcomponent, hliteral]

/-- The code of an element reads what its children read. The tag and the data bag are only there if
the element is neither a template nor a slot. -/
theorem only_elementCode (s : Settings) (e : Element) (codes : List Code) :
    Code.Only Q (elementCode s e codes) ↔
      (e.tag ≠ "template" ∧ e.tag ≠ "slot" → Code.Only Q (tagCode e) ∧ Code.Only Q (dataCode s e)) ∧
        ∀ code ∈ codes, Code.Only Q code := by
  have hlist : Code.Only Q (Code.list codes) ↔ ∀ code ∈ codes, Code.Only Q code := only_list hQ
  have hnormalization : Code.Only Q (normalizationCode e.children) := by
    rw [normalizationCode, only_fixed hQ]
    exact only_nil
  unfold elementCode
  split
  · rename_i htemplate
    rw [only_call hQ, List.forall_mem_singleton, hlist]
    simp_all
  · split
    · rename_i hslot
      rw [only_call hQ, List.forall_mem_singleton, only_call hQ]
      simp_all [only_literal hQ]
    · rw [only_call hQ, List.forall_mem_singleton, only_call hQ]
      simp_all [and_assoc]

theorem only_emptyChild : Code.Only Q emptyChild := by
  simp [Code.Only, emptyChild, hQ.fixed]

theorem only_ifCode {condition : String} {body : Code} :
    Code.Only Q (ifCode condition body) ↔ Q (.read (Text.trim condition)) ∧ Code.Only Q body := by
  simp only [ifCode, List.cons_append, only_fixed hQ, only_append, only_binding, only_nil, and_true]

theorem only_elseCode {body : Code} : Code.Only Q (elseCode body) ↔ Code.Only Q body := by
  simp only [elseCode, List.cons_append, only_fixed hQ, only_append, only_nil, and_true]

theorem only_guardCode {e : Element} {body : Code} :
    Code.Only Q (guardCode e body) ↔
      (∀ a ∈ e.directive? "if", Q (.read (Text.trim a.valueText))) ∧ Code.Only Q body := by
  unfold guardCode
  cases e.directive? "if" with
  | some a =>
    simp [only_append, only_ifCode hQ, only_elseCode hQ, only_emptyChild hQ]
  | none => simp

theorem only_loopCode {l : LoopExpr} {body : Code} :
    Code.Only Q (loopCode l body) ↔ Q (.read (Text.trim l.source)) ∧ Code.Only Q body := by
  have hscope (name value : String) : Code.Only Q (scopeCode name value) := by
    rw [scopeCode, setter, only_call hQ]
    simp [Code.Only, hQ.fixed, hQ.literal]
  obtain ⟨source, item, key, index⟩ := l
  cases key <;> cases index <;>
    simp only [loopCode, List.cons_append, only_fixed hQ, only_append, only_binding, hscope,
      only_nil, and_true]

/-- A choice reads its conditions and what its branches read. -/
theorem only_choiceCode {branches : List (Option String × Code)} :
    Code.Only Q (choiceCode branches) ↔
      ∀ b ∈ branches, (∀ condition ∈ b.1, Q (.read (Text.trim condition))) ∧ Code.Only Q b.2 := by
  have hfirst (b : Option String × Code) : Code.Only Q (branchCode b) ↔
      (∀ condition ∈ b.1, Q (.read (Text.trim condition))) ∧ Code.Only Q b.2 := by
    obtain ⟨_ | condition, body⟩ := b
    · simp [branchCode, only_elseCode hQ]
    · simp [branchCode, only_ifCode hQ]
  have hfurther (b : Option String × Code) : Code.Only Q (furtherCode b) ↔
      (∀ condition ∈ b.1, Q (.read (Text.trim condition))) ∧ Code.Only Q b.2 := by
    obtain ⟨_ | condition, body⟩ := b
    · simp [furtherCode, only_elseCode hQ]
    · simp [furtherCode, only_fixed hQ, only_ifCode hQ]
  cases branches with
  | nil => simp [choiceCode]
  | cons first further =>
    rw [choiceCode, only_append, hfirst, only_flatMap, List.forall_mem_cons]
    simp only [hfurther]

/-! ## The web platform -/

/-- The expression that a directive reads where it is attached to a node. The displays of the
platform read theirs even if it is missing. -/
def Attribute.read? (a : Attribute) : Option String :=
  if a.name = "text" ∨ a.name = "html" then some a.valueText
  else if a.name = "cloak" then none
  else a.value

theorem only_displayDirective (property : String) (e : Element) (a : Attribute) :
    Code.Only Q (displayDirective property e a).data ↔ Q (.read (Text.trim a.valueText)) := by
  simp only [displayDirective, List.cons_append, only_fixed hQ, only_append, only_binding, only_nil,
    and_true]

theorem only_directiveCode_base (e : Element) (a : Attribute) :
    Code.Only Q (directiveCode .base e a) ↔
      (a.kind = .directive → structuralDirectives.contains a.name = false →
        ∀ v ∈ a.read?, Q (.read (Text.trim v))) := by
  have hruntime := only_runtimeDirective hQ a
  unfold directiveCode Attribute.read?
  split
  · rename_i hdirective
    simp only [Bool.and_eq_true, beq_iff_eq, Bool.not_eq_true'] at hdirective
    rw [imp_iff_right hdirective.1, imp_iff_right hdirective.2]
    cases hrule : Settings.base.directives.get? a.name with
    | some rule =>
      rcases get?_base_directives hrule with ⟨hname, rfl⟩ | ⟨hname, rfl⟩ | ⟨hname, rfl⟩
      · rw [if_pos (.inl hname)]
        simpa [displayDirective] using only_displayDirective hQ "textContent" e a
      · rw [if_pos (.inr hname)]
        simpa [displayDirective] using only_displayDirective hQ "innerHTML" e a
      · simp [hname, cloakDirective]
    | none =>
      obtain ⟨htext, hhtml, hcloak⟩ := get?_base_directives_eq_none hrule
      simpa [htext, hhtml, hcloak] using hruntime
  · rename_i hdirective
    refine iff_of_true only_nil fun hkind hname => absurd ?_ hdirective
    simp only [hkind, hname, beq_self_eq_true, Bool.not_false, Bool.and_self]

theorem only_extraCode {e : Element} {key method : String} {arg : String → Code} :
    Code.Only Q (extraCode e key method arg) ↔ ∀ v ∈ e.extras.get? key, Code.Only Q (arg v) := by
  unfold extraCode
  cases e.extras.get? key with
  | some v => simp [only_fixed hQ, only_append, only_nil]
  | none => simp

theorem only_extension_base (e : Element) :
    (∀ x ∈ Settings.base.extensions, Code.Only Q (x.data e)) ↔
      (∀ v ∈ e.extras.get? "classBinding", Q (.read (Text.trim v))) ∧
        ∀ v ∈ e.extras.get? "styleBinding", Q (.read (Text.trim v)) := by
  simp [Settings.base, classExtension, styleExtension, only_append, only_extraCode hQ,
    only_literal hQ, only_binding]

end

end ViewTree.Template
