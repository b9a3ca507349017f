import Mathlib.Data.List.Chain
import ViewTree.Template.Builder
import ViewTree.Template.Defaults
/-!
# Branches stand behind conditions

In every tree that the builder makes, a further branch of a condition stands directly behind an
element that has a condition, and the roots behind the first are all such branches. Attaching an
element keeps this for its siblings (`linked_attach`), a step of the builder for everything that is
built so far (`tidy_step`), and so it holds of every parsed template.
-/

namespace ViewTree.Template

namespace Node

/-- The node is an element with a directive. -/
def has (n : Node) (name : String) : Bool :=
  n.element?.any (·.hasDirective name)

/-- The node is a further branch of a condition. -/
def isBranch (n : Node) : Bool :=
  n.has "else-if" || n.has "else"

/-- The node is a condition that a further branch can join. -/
def isCondition (n : Node) : Bool :=
  n.has "if" || n.has "else-if"

@[simp] theorem has_element (e : Element) (name : String) :
    (element e).has name = e.hasDirective name :=
  rfl

@[simp] theorem isBranch_element (e : Element) : (element e).isBranch = e.isBranch :=
  rfl

theorem has_of_element?_none {n : Node} (h : n.element? = none) (name : String) :
    n.has name = false := by
  simp [has, h]

theorem isBranch_of_element?_none {n : Node} (h : n.element? = none) : n.isBranch = false := by
  simp [isBranch, has_of_element?_none h]

end Node

/-- A property of siblings holds of the roots and of the children of every element. -/
inductive Everywhere (P : List Node → Prop) : List Node → Prop
  | intro {siblings : List Node} (here : P siblings)
      (inside : ∀ e, .element e ∈ siblings → Everywhere P e.children) : Everywhere P siblings

/-- Every further branch among siblings stands directly behind a condition. -/
structure Linked (siblings : List Node) : Prop where
  first : ∀ n ∈ siblings.head?, n.isBranch = false
  next : siblings.IsChain fun n m => m.isBranch → n.isCondition

namespace Everywhere

variable {P : List Node → Prop} {siblings : List Node}

theorem here (h : Everywhere P siblings) : P siblings := by
  cases h with
  | intro here _ => exact here

theorem inside (h : Everywhere P siblings) {e : Element} (he : .element e ∈ siblings) :
    Everywhere P e.children := by
  cases h with
  | intro _ inside => exact inside e he

end Everywhere

/-! ## Siblings -/

theorem linked_nil : Linked [] :=
  ⟨by simp, .nil⟩

theorem Linked.of_isPrefix {kept siblings : List Node} (h : Linked siblings)
    (hkept : kept <+: siblings) : Linked kept := by
  refine ⟨?_, h.next.prefix hkept⟩
  intro n hn
  obtain ⟨rest, rfl⟩ := hkept
  refine h.first n ?_
  cases kept with
  | nil => cases hn
  | cons k kept => exact hn

/-- A node can be put behind its siblings if it is no further branch or can join the last. -/
theorem Linked.concat {siblings : List Node} (h : Linked siblings) {n : Node}
    (hn : n.isBranch → ∃ m ∈ siblings.getLast?, m.isCondition) : Linked (siblings ++ [n]) := by
  refine ⟨?_, ?_⟩
  · cases siblings with
    | nil =>
      rintro m ⟨⟩
      rw [← Bool.not_eq_true]
      intro hbranch
      obtain ⟨m, hm, _⟩ := hn hbranch
      cases hm
    | cons m siblings => exact h.first
  · refine h.next.append (.singleton n) ?_
    rintro m hm k ⟨⟩ hbranch
    obtain ⟨last, hlast, hcondition⟩ := hn hbranch
    cases Option.mem_unique hm hlast
    exact hcondition

/-- Nodes that are no elements can be put anywhere. -/
theorem Linked.append {siblings added : List Node} (h : Linked siblings)
    (hadded : ∀ n ∈ added, n.element? = none) : Linked (siblings ++ added) := by
  induction added generalizing siblings with
  | nil => simpa using h
  | cons n added ih =>
    rw [List.append_cons]
    refine ih (h.concat ?_) fun m hm => hadded m (List.mem_cons_of_mem n hm)
    intro hbranch
    rw [Node.isBranch_of_element?_none (hadded n List.mem_cons_self)] at hbranch
    cases hbranch

theorem everywhere_nil : Everywhere Linked [] :=
  .intro linked_nil (by simp)

theorem Everywhere.of_isPrefix {kept siblings : List Node} (h : Everywhere Linked siblings)
    (hkept : kept <+: siblings) : Everywhere Linked kept :=
  .intro (h.here.of_isPrefix hkept) fun _ he => h.inside (hkept.subset he)

theorem Everywhere.append {siblings added : List Node} (h : Everywhere Linked siblings)
    (hadded : ∀ n ∈ added, n.element? = none) : Everywhere Linked (siblings ++ added) := by
  refine .intro (h.here.append hadded) ?_
  intro e he
  rcases List.mem_append.1 he with he | he
  · exact h.inside he
  · cases hadded _ he

theorem Everywhere.concat {siblings : List Node} (h : Everywhere Linked siblings) {e : Element}
    (he : Everywhere Linked e.children)
    (hlast : e.isBranch → ∃ m ∈ siblings.getLast?, m.isCondition) :
    Everywhere Linked (siblings ++ [.element e]) := by
  refine .intro (h.here.concat hlast) ?_
  intro d hd
  rcases List.mem_append.1 hd with hd | hd
  · exact h.inside hd
  · cases List.mem_singleton.1 hd
    exact he

namespace Builder

theorem dropToElement_isSuffix (ns : List Node) : (dropToElement ns).2 <:+ ns := by
  induction ns with
  | nil => exact List.suffix_rfl
  | cons n ns ih =>
    cases n with
    | element e => exact List.suffix_rfl
    | text t => exact ih.trans (List.suffix_cons _ _)
    | interpolation t => exact ih.trans (List.suffix_cons _ _)
    | comment t => exact ih.trans (List.suffix_cons _ _)

theorem canJoin_eq (kept : List Node) : canJoin kept = kept.head?.any Node.isCondition := by
  rcases kept with _ | ⟨_ | _ | _ | _, _⟩ <;> rfl

/-- An element is put behind what is kept of its siblings, a branch only behind a condition, or
it is left out. -/
theorem attach_cases (siblings : List Node) (e : Element) :
    ∃ kept, kept <+: siblings ∧
      ((attach siblings e).2 = kept ∨ (attach siblings e).2 = kept ++ [.element e] ∧
        (e.isBranch → ∃ m ∈ kept.getLast?, m.isCondition)) := by
  have hkept : (dropToElement siblings.reverse).2.reverse <+: siblings := by
    have hsuffix := dropToElement_isSuffix siblings.reverse
    rwa [← List.reverse_prefix, List.reverse_reverse] at hsuffix
  by_cases hbranch : e.isBranch
  · refine ⟨_, hkept, ?_⟩
    by_cases hjoin : canJoin (dropToElement siblings.reverse).2
    · refine .inr ⟨by simp [attach, hbranch, hjoin], fun _ => ?_⟩
      rw [canJoin_eq, Option.any_eq_true] at hjoin
      simpa [List.getLast?_reverse] using hjoin
    · exact .inl (by simp [attach, hbranch, hjoin])
  · refine ⟨siblings, List.prefix_rfl, .inr ⟨by simp [attach, hbranch], ?_⟩⟩
    exact fun h => absurd h hbranch

theorem linked_attach {siblings : List Node} (h : Everywhere Linked siblings) {e : Element}
    (he : Everywhere Linked e.children) : Everywhere Linked (attach siblings e).2 := by
  obtain ⟨kept, hkept, hattach | ⟨hattach, hjoin⟩⟩ := attach_cases siblings e
  · rw [hattach]
    exact h.of_isPrefix hkept
  · rw [hattach]
    exact (h.of_isPrefix hkept).concat he hjoin

/-- Behind the first of the siblings come only branches, and so it stays. -/
theorem attach_further {siblings : List Node} (h : ∀ n ∈ siblings.tail, n.isBranch) {e : Element}
    (he : siblings = [] ∨ e.isBranch) : ∀ n ∈ (attach siblings e).2.tail, n.isBranch := by
  obtain ⟨kept, ⟨rest, rfl⟩, hattach | ⟨hattach, _⟩⟩ := attach_cases siblings e
  · rw [hattach]
    cases kept with
    | nil => simp
    | cons k kept => exact fun n hn => h n (List.mem_append_left rest hn)
  · rw [hattach]
    cases kept with
    | nil => simp
    | cons k kept =>
      intro n hn
      rcases List.mem_append.1 hn with hn | hn
      · exact h n (List.mem_append_left rest hn)
      · rw [List.mem_singleton.1 hn]
        rcases he with he | he
        · cases he
        · exact he

end Builder

/-! ## Extensions -/

/-- What an extension takes out of an element is neither a child nor a directive. -/
def Extension.KeepsShape (x : Extension) : Prop :=
  ∀ e, (x.transform e).children = e.children ∧
    ∀ name, (x.transform e).hasDirective name = e.hasDirective name

/-- All extensions keep children and directives. -/
def Settings.KeepShape (s : Settings) : Prop :=
  ∀ x ∈ s.extensions, x.KeepsShape

theorem find?_eraseP {α : Type} {p q : α → Bool} (h : ∀ a, p a → q a = false) (as : List α) :
    (as.eraseP p).find? q = as.find? q := by
  induction as with
  | nil => rfl
  | cons a as ih =>
    by_cases hp : p a
    · simp [hp, h a hp]
    · simp [hp, List.find?_cons, ih]

theorem lift_keepsShape (kind : AttrKind) (hkind : kind ≠ .directive) (name key : String)
    (f : String → String) (e : Element) :
    (lift kind name key f e).children = e.children ∧
      ∀ directive, (lift kind name key f e).hasDirective directive = e.hasDirective directive := by
  unfold lift ElementOf.takeAttr?
  cases e.attr? kind name with
  | none => exact ⟨rfl, fun _ => rfl⟩
  | some a =>
    refine ⟨rfl, fun directive => ?_⟩
    simp only [Option.map_some, ElementOf.hasDirective, ElementOf.directive?, ElementOf.attr?]
    rw [find?_eraseP]
    intro b hb
    have hkind' : b.kind = kind := by
      simp only [Attribute.isNamed, Bool.and_eq_true, beq_iff_eq] at hb
      exact hb.1
    simp [Attribute.isNamed, hkind', hkind]

theorem base_keepShape : Settings.base.KeepShape := by
  have htwice (plain binding key key' : String) (f g : String → String) (e : Element) :
      (lift .bind binding key' g (lift .plain plain key f e)).children = e.children ∧
        ∀ name, (lift .bind binding key' g (lift .plain plain key f e)).hasDirective name =
          e.hasDirective name := by
    obtain ⟨hchildren, hdirectives⟩ :=
      lift_keepsShape .plain (by decide) plain key f e
    obtain ⟨hchildren', hdirectives'⟩ :=
      lift_keepsShape .bind (by decide) binding key' g (lift .plain plain key f e)
    exact ⟨hchildren'.trans hchildren, fun name => (hdirectives' name).trans (hdirectives name)⟩
  intro x hx e
  rcases List.mem_pair.1 hx with rfl | rfl
  · exact htwice _ _ _ _ _ _ e
  · exact htwice _ _ _ _ _ _ e

theorem foldl_keepsShape {xs : List Extension} (hxs : ∀ x ∈ xs, x.KeepsShape) (e : Element) :
    (xs.foldl (fun e x => x.transform e) e).children = e.children ∧
      ∀ name, (xs.foldl (fun e x => x.transform e) e).hasDirective name = e.hasDirective name := by
  induction xs generalizing e with
  | nil => exact ⟨rfl, fun _ => rfl⟩
  | cons x xs ih =>
    obtain ⟨hchildren, hdirectives⟩ := hxs x List.mem_cons_self e
    obtain ⟨hchildren', hdirectives'⟩ :=
      ih (fun y hy => hxs y (List.mem_cons_of_mem x hy)) (x.transform e)
    exact ⟨hchildren'.trans hchildren, fun name => (hdirectives' name).trans (hdirectives name)⟩

namespace Builder

theorem dropTrailingSpace_isPrefix (children : List Node) :
    dropTrailingSpace children <+: children := by
  unfold dropTrailingSpace
  split
  · exact List.dropLast_prefix children
  · exact List.prefix_rfl

theorem interpolate_element? (opening closing : List Char) (fuel : Nat) (cs : List Char) :
    ∀ n ∈ interpolate opening closing fuel cs, n.element? = none := by
  have htext (cs : List Char) : ∀ n ∈ textNode cs, n.element? = none := by
    intro n hn
    unfold textNode at hn
    split at hn
    · cases hn
    · cases List.mem_singleton.1 hn
      rfl
  induction fuel generalizing cs with
  | zero => exact htext cs
  | succ fuel ih =>
    unfold interpolate
    split
    · intro n hn
      rcases List.mem_append.1 hn with hn | hn
      · exact htext _ n hn
      · rcases List.mem_cons.1 hn with rfl | hn
        · rfl
        · exact ih _ n hn
    · exact htext cs

theorem textNodes_element? (s : Settings) (inPre : Bool) (children : List Node) (text : String) :
    ∀ n ∈ textNodes s inPre children text, n.element? = none := by
  unfold textNodes
  dsimp only
  split
  · rename_i parts hparts
    have hsplit : splitInterpolations text s.delimiterPair.1 s.delimiterPair.2 = some parts := by
      split at hparts
      · cases hparts
      · exact hparts
    unfold splitInterpolations at hsplit
    simp only [Option.ite_none_left_eq_some, Option.ite_none_right_eq_some] at hsplit
    obtain ⟨_, _, hparts⟩ := hsplit
    cases hparts
    exact interpolate_element? _ _ _ _
  · split
    · simp
    · simp [Node.element?]

variable {s : Settings}

/-- A closed element has the directives that it had when it was opened, and its children are the
same but for a space. -/
theorem finish_keepsShape (hs : s.KeepShape) (preDepth : Nat) (e : Element) (stop : Nat) :
    (finish s preDepth e stop).children <+: e.children ∧
      ∀ name, (finish s preDepth e stop).hasDirective name = e.hasDirective name := by
  obtain ⟨hchildren, hdirectives⟩ := foldl_keepsShape hs
    { e with
      children := if preDepth = 0 then dropTrailingSpace e.children else e.children
      span := e.span.map fun span => ⟨span.start, stop⟩ }
  refine ⟨?_, hdirectives⟩
  unfold finish
  rw [hchildren]
  dsimp only
  split
  · exact dropTrailingSpace_isPrefix e.children
  · exact List.prefix_rfl

/-- What is built so far is linked. Behind the first root come only branches, and an element that
is open outside of all others will be one of them unless it is the first or dropped. -/
structure Tidy (b : Builder) : Prop where
  roots : Everywhere Linked b.roots
  opened : ∀ o ∈ b.stack, Everywhere Linked o.element.children
  further : ∀ n ∈ b.roots.tail, n.isBranch
  outermost : ∀ o ∈ b.stack.getLast?, o.dropped ∨ b.roots = [] ∨ o.element.isBranch

/-- Reports change nothing that is built. -/
@[simp] theorem reportAll_built (b : Builder) (es : List TemplateError) :
    (b.reportAll es).roots = b.roots ∧ (b.reportAll es).stack = b.stack := by
  induction es generalizing b with
  | nil => exact ⟨rfl, rfl⟩
  | cons e es ih => exact ih (b.report e)

theorem Tidy.of_eq {b b' : Builder} (h : b.Tidy) (hroots : b'.roots = b.roots)
    (hstack : b'.stack = b.stack) : b'.Tidy := by
  obtain ⟨roots, opened, further, outermost⟩ := h
  exact ⟨hroots ▸ roots, hstack ▸ opened, hroots ▸ further, hroots ▸ hstack ▸ outermost⟩

theorem Tidy.reportAll {b : Builder} (h : b.Tidy) (es : List TemplateError) :
    (b.reportAll es).Tidy :=
  h.of_eq (reportAll_built b es).1 (reportAll_built b es).2

/-- The innermost open element may get other children. -/
theorem Tidy.setChildren {b : Builder} (h : b.Tidy) {o : OpenNode} {rest : List OpenNode}
    (hstack : b.stack = o :: rest) {children : List Node} (hchildren : Everywhere Linked children) :
    Tidy { b with stack := { o with element := { o.element with children } } :: rest } := by
  obtain ⟨roots, opened, further, outermost⟩ := h
  rw [hstack] at opened outermost
  refine ⟨roots, ?_, further, ?_⟩
  · intro p hp
    rcases List.mem_cons.1 hp with rfl | hp
    · exact hchildren
    · exact opened p (List.mem_cons_of_mem o hp)
  · intro p hp
    cases rest with
    | nil =>
      cases hp
      exact outermost o rfl
    | cons q rest => exact outermost p hp

/-- The element goes where further roots may. -/
def MayBeRoot (b : Builder) (e : Element) : Prop :=
  b.roots = [] ∨ e.isBranch

theorem tidy_place {b : Builder} (h : b.Tidy) {e : Element} (he : Everywhere Linked e.children)
    (hroot : b.stack = [] → b.MayBeRoot e) : (b.place e).Tidy := by
  unfold place
  cases hstack : b.stack with
  | nil =>
    have hfurther := attach_further h.further (hroot hstack)
    refine Tidy.reportAll ⟨linked_attach h.roots he, ?_, hfurther, ?_⟩ _
    · rintro p ⟨⟩
    · rintro p ⟨⟩
  | cons o rest =>
    have ho := h.opened o (hstack ▸ List.mem_cons_self)
    exact (h.setChildren hstack (linked_attach ho he)).reportAll _

theorem tidy_close (hs : s.KeepShape) {b : Builder} (h : b.Tidy) {o : OpenNode}
    (ho : Everywhere Linked o.element.children)
    (hroot : b.stack = [] → o.dropped ∨ b.MayBeRoot o.element) (stop : Nat) :
    (close s b o stop).Tidy := by
  obtain ⟨hchildren, hdirectives⟩ := finish_keepsShape hs b.preDepth o.element stop
  unfold close
  dsimp only
  split
  · exact h.of_eq rfl rfl
  · rename_i hkept
    refine tidy_place ?_ (ho.of_isPrefix hchildren) ?_
    · exact h.of_eq rfl rfl
    intro hstack
    rcases hroot hstack with hdropped | hfirst | hbranch
    · exact absurd hdropped hkept
    · exact .inl hfirst
    · refine .inr ?_
      rw [ElementOf.isBranch, hdirectives, hdirectives]
      exact hbranch

/-- An element that is not dropped may be a root. -/
theorem checkRoot_spec (b : Builder) (e : Element) :
    (b.checkRoot e).1.roots = b.roots ∧ (b.checkRoot e).1.stack = b.stack ∧
      ((b.checkRoot e).2 ∨ b.MayBeRoot e) := by
  unfold checkRoot
  split
  · rename_i h
    obtain ⟨hroots, hstack⟩ := reportAll_built b (rootErrors e)
    refine ⟨hroots, hstack, .inr ?_⟩
    simpa [MayBeRoot] using h
  · split
    · exact ⟨rfl, rfl, .inl rfl⟩
    · exact ⟨rfl, rfl, .inl rfl⟩

/-- An element that begins, without children so far, is opened or closed at once. -/
theorem tidy_open (hs : s.KeepShape) {b : Builder} (h : b.Tidy) {o : OpenNode}
    (ho : o.element.children = [])
    (hroot : b.stack = [] → o.dropped ∨ b.MayBeRoot o.element) (unary : Bool) (stop : Nat) :
    (if unary then close s b o stop else { b with stack := o :: b.stack }).Tidy := by
  have hchildren : Everywhere Linked o.element.children := ho ▸ everywhere_nil
  split
  · exact tidy_close hs h hchildren hroot stop
  · refine ⟨h.roots, ?_, h.further, ?_⟩
    · intro p hp
      rcases List.mem_cons.1 hp with rfl | hp
      · exact hchildren
      · exact h.opened p hp
    · intro p hp
      cases hstack : b.stack with
      | nil =>
        rw [hstack] at hp
        cases hp
        exact hroot hstack
      | cons q rest =>
        rw [hstack] at hp
        exact h.outermost p (hstack ▸ hp)

theorem tidy_onStart (hs : s.KeepShape) {b : Builder} (h : b.Tidy) (tag : String)
    (attrs : List Markup.Attribute) (unary : Bool) (span : Markup.Span) :
    (onStart s b tag attrs unary span).Tidy := by
  unfold onStart
  extract_lets ns opensPre inPre
  split
  rename_i attributes errors hattributes
  extract_lets e told forbidden warned deeper
  have hread : Tidy { b with inPre := inPre } := h.of_eq rfl rfl
  have htold : told.Tidy := hread.reportAll errors
  have hwarned : warned.Tidy := by
    unfold warned
    split
    · exact htold.of_eq rfl rfl
    · exact htold
  have hdeeper : deeper.Tidy := hwarned.of_eq rfl rfl
  split
  rename_i begun dropped hbegun
  -- An element inside another needs no place among the roots.
  have hspec : begun.roots = deeper.roots ∧ begun.stack = deeper.stack ∧
      (begun.stack = [] → dropped ∨ begun.MayBeRoot e) := by
    split at hbegun
    · obtain ⟨hroots, hstack, hroot⟩ := checkRoot_spec deeper e
      rw [hbegun] at hroots hstack hroot
      refine ⟨hroots, hstack, fun _ => ?_⟩
      rwa [MayBeRoot, hroots]
    · rename_i hinside
      cases hbegun
      refine ⟨rfl, rfl, fun hstack => .inl ?_⟩
      simpa [hstack] using hinside
  obtain ⟨hroots, hstack, hroot⟩ := hspec
  exact tidy_open hs (hdeeper.of_eq hroots hstack) rfl hroot unary span.stop

theorem tidy_onStop (hs : s.KeepShape) {b : Builder} (h : b.Tidy) (stop : Nat) :
    (onStop s b stop).Tidy := by
  unfold onStop
  split
  · exact h
  · rename_i o rest hstack
    have hrest : Tidy { b with stack := rest } := by
      refine ⟨h.roots, ?_, h.further, ?_⟩
      · exact fun p hp => h.opened p (hstack ▸ List.mem_cons_of_mem o hp)
      · intro p hp
        refine h.outermost p ?_
        rw [hstack]
        cases rest with
        | nil => cases hp
        | cons q rest => exact hp
    refine tidy_close hs hrest (h.opened o (hstack ▸ List.mem_cons_self)) ?_ stop
    rintro rfl
    exact h.outermost o (by rw [hstack]; rfl)

theorem tidy_onText {b : Builder} (h : b.Tidy) (template text : String) :
    (onText s template b text).Tidy := by
  unfold onText
  split
  · unfold outerText
    split
    · exact h.of_eq rfl rfl
    · split
      · exact h
      · exact h.of_eq rfl rfl
  · rename_i o rest hstack
    split
    · exact h
    · exact h.setChildren hstack ((h.opened o (hstack ▸ List.mem_cons_self)).append
        (textNodes_element? s _ _ _))

theorem tidy_onComment {b : Builder} (h : b.Tidy) (text : String) : (b.onComment text).Tidy := by
  unfold onComment
  split
  · exact h
  · rename_i o rest hstack
    refine h.setChildren hstack ((h.opened o (hstack ▸ List.mem_cons_self)).append ?_)
    simp [Node.element?]

/-- No event unties what is built. -/
theorem tidy_step (hs : s.KeepShape) {b : Builder} (h : b.Tidy) (template : String)
    (event : Markup.Event) : (step s template b event).Tidy := by
  cases event with
  | start tag attrs unary span => exact tidy_onStart hs h tag attrs unary span
  | stop tag span => exact tidy_onStop hs h span.stop
  | text t span => exact tidy_onText h template t
  | comment t span => exact tidy_onComment h t
  | warning w => exact h.of_eq rfl rfl

theorem tidy_start : start.Tidy :=
  ⟨everywhere_nil, by rintro o ⟨⟩, by rintro n ⟨⟩, by rintro o ⟨⟩⟩

theorem tidy_run (hs : s.KeepShape) (template : String) (events : List Markup.Event)
    {b : Builder} (h : b.Tidy) : (events.foldl (step s template) b).Tidy := by
  induction events generalizing b with
  | nil => exact h
  | cons event events ih => exact ih (tidy_step hs h template event)

end Builder

/-- The roots of a template are those that are built when all of its events are read. -/
theorem parse_roots (s : Settings) (template : String) :
    (parse s template).1 =
      ((Markup.tokenize s.dialect template).foldl (Builder.step s template) .start).roots := by
  unfold parse parseWith
  dsimp only
  split <;> rfl

/-- In every parsed template, branches stand behind conditions, and only branches stand behind the
first root. -/
theorem parse_linked {s : Settings} (hs : s.KeepShape) (template : String) :
    Everywhere Linked (parse s template).1 ∧
      ∀ n ∈ (parse s template).1.tail, n.isBranch := by
  have htidy := Builder.tidy_run hs template (Markup.tokenize s.dialect template)
    Builder.tidy_start
  rw [parse_roots]
  exact ⟨htidy.roots, htidy.further⟩

end ViewTree.Template
