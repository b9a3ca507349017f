import ViewTree.Proofs.Template.Siblings
/-!
# Opening an element

A start tag gives the builder an open element, with its attributes as they are read there, and tells
whether it is to be dropped (`Builder.exists_begins`). What is open and built besides that stays as
it is.
-/

namespace ViewTree.Template

/-- A start tag. -/
structure OpenTag where
  tag : String
  attrs : List Markup.Attribute

namespace Builder

/-! ## Reports -/

/-- The builder is the same but for what it has told. -/
structure OnlyTells (b b' : Builder) : Prop where
  stack : b'.stack = b.stack
  roots : b'.roots = b.roots
  inPre : b'.inPre = b.inPre
  preDepth : b'.preDepth = b.preDepth
  reports : b.reports ⊆ b'.reports

theorem OnlyTells.refl (b : Builder) : OnlyTells b b :=
  ⟨rfl, rfl, rfl, rfl, List.Subset.refl _⟩

theorem OnlyTells.trans {b b' b'' : Builder} (h : OnlyTells b b') (h' : OnlyTells b' b'') :
    OnlyTells b b'' :=
  ⟨h'.stack.trans h.stack, h'.roots.trans h.roots, h'.inPre.trans h.inPre,
    h'.preDepth.trans h.preDepth, List.Subset.trans h.reports h'.reports⟩

theorem onlyTells_report (b : Builder) (e : TemplateError) : OnlyTells b (b.report e) :=
  ⟨rfl, rfl, rfl, rfl, List.subset_cons_self _ _⟩

theorem onlyTells_reportAll (b : Builder) (es : List TemplateError) :
    OnlyTells b (b.reportAll es) := by
  induction es generalizing b with
  | nil => exact .refl b
  | cons e es ih => exact (onlyTells_report b e).trans (ih (b.report e))

theorem reportAll_reports (b : Builder) (es : List TemplateError) :
    (b.reportAll es).reports = es.reverse ++ b.reports := by
  induction es generalizing b with
  | nil => rfl
  | cons e es ih =>
    rw [reportAll, List.foldl_cons, ← reportAll, ih, List.reverse_cons, List.append_assoc]
    rfl

/-! ## Start tags -/

theorem checkRoot_eq (b : Builder) (e : Element) :
    OnlyTells b (b.checkRoot e).1 ∧ (b.checkRoot e).2 = (!b.roots.isEmpty && !e.isBranch) := by
  unfold checkRoot
  cases b.roots.isEmpty
  · cases e.isBranch
    · cases b.toldMultipleRoots
      · exact ⟨⟨rfl, rfl, rfl, rfl, List.subset_cons_self _ _⟩, rfl⟩
      · exact ⟨.refl b, rfl⟩
    · exact ⟨onlyTells_reportAll b _, rfl⟩
  · exact ⟨onlyTells_reportAll b _, rfl⟩

/-- Only an element outside of all others, and without side effects, is checked as a root. -/
theorem checked_spec (b : Builder) (e : Element) :
    let checked := if b.stack.isEmpty && !isForbidden e then b.checkRoot e else (b, isForbidden e)
    OnlyTells b checked.1 ∧
      checked.2 = (isForbidden e || b.stack.isEmpty && !b.roots.isEmpty && !e.isBranch) := by
  cases b.stack.isEmpty
  · simpa using OnlyTells.refl b
  · cases isForbidden e
    · simpa using checkRoot_eq b e
    · simpa using OnlyTells.refl b

/-- The builder and the open element that a start tag gives. -/
structure Begins (s : Settings) (t : OpenTag) (unary : Bool) (span : Markup.Span)
    (b begun : Builder) (o : OpenNode) : Prop where
  stack : begun.stack = b.stack
  roots : begun.roots = b.roots
  inPre : begun.inPre = (b.inPre || t.attrs.any (·.name == "v-pre"))
  preDepth : begun.preDepth = if s.isPreTag t.tag then b.preDepth + 1 else b.preDepth
  reports : b.reports ⊆ begun.reports
  element : o.element =
    { Element.new t.tag with
      attrs := (readAttributes s begun.inPre [] t.attrs).1
      selfClosing := unary
      ns := (b.stack.head?.bind (·.element.ns)) <|> s.tagNamespace t.tag
      span := if s.sourceRange then some span else none }
  opensPre : o.opensPre = (!b.inPre && t.attrs.any (·.name == "v-pre"))
  dropped : o.dropped = (isForbidden o.element ||
    b.stack.isEmpty && !b.roots.isEmpty && !o.element.isBranch)

/-- A start tag opens the element that it stands for, or closes it at once. -/
theorem exists_begins (s : Settings) (b : Builder) (t : OpenTag) (unary : Bool)
    (span : Markup.Span) :
    ∃ begun o, Begins s t unary span b begun o ∧
      onStart s b t.tag t.attrs unary span =
        if unary then close s begun o span.stop else { begun with stack := o :: begun.stack } := by
  unfold onStart
  extract_lets ns opensPre inPre
  split
  rename_i attributes errors hattributes
  extract_lets e told forbidden warned deeper
  split
  rename_i begun dropped hbegun
  have hinPre : inPre = (b.inPre || t.attrs.any (·.name == "v-pre")) := by
    unfold inPre opensPre
    cases b.inPre <;> rfl
  have hwarned : OnlyTells { b with inPre := inPre } warned := by
    refine (onlyTells_reportAll _ errors).trans ?_
    unfold warned
    split
    · exact onlyTells_report told _
    · exact .refl told
  obtain ⟨hchecked, hdropped⟩ := checked_spec deeper e
  rw [hbegun] at hchecked hdropped
  have hstack : deeper.stack = b.stack := hwarned.stack
  have hroots : deeper.roots = b.roots := hwarned.roots
  have hbegunPre : begun.inPre = inPre := hchecked.inPre.trans hwarned.inPre
  have hdepth : deeper.preDepth = if s.isPreTag t.tag then b.preDepth + 1 else b.preDepth := by
    unfold deeper
    rw [hwarned.preDepth]
  rw [hstack, hroots] at hdropped
  refine ⟨begun, ⟨e, dropped, opensPre⟩, ⟨hchecked.stack.trans hstack, hchecked.roots.trans hroots,
    hbegunPre.trans hinPre, hchecked.preDepth.trans hdepth,
    List.Subset.trans hwarned.reports hchecked.reports, ?_, rfl, hdropped⟩, rfl⟩
  rw [hbegunPre, hattributes]

end Builder

end ViewTree.Template
