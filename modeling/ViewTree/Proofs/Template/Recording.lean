import ViewTree.Proofs.Template.Records
import ViewTree.Proofs.Template.Spans
/-!
# The builder follows the record

Between two tags the builder has as siblings what stands of the entries recorded there, and it has
reported what was swept away (`Builder.Follows`). Every piece keeps that (`Builder.follows_run`, by
induction on the content). So the roots of a template are what stands of its record, and the
children of each element are what is left of the entries inside it (`records_recordOf`).
-/

namespace ViewTree.Template

/-- The texts that a further branch has swept away are reported, unless they are blank. -/
def Reported (reports : List TemplateError) (es : List Entry) : Prop :=
  ∀ front t parts behind, es = front ++ .text t parts :: behind → sweeps behind →
    ∀ part ∈ parts, ∀ error ∈ part.node.inTheWay?, error ∈ reports

theorem Reported.mono {reports reports' : List TemplateError} (hsub : reports ⊆ reports')
    {es : List Entry} (h : Reported reports es) : Reported reports' es :=
  fun front t parts behind hsplit hsweeps part hpart error herror =>
    hsub (h front t parts behind hsplit hsweeps part hpart error herror)

theorem throughout_reported_nil (reports : List TemplateError) (p : Path) :
    Throughout (fun _ => Reported reports) p [] :=
  .intro (fun front t parts behind hsplit => by simp at hsplit) (by simp)

/-- What stands of the entries behind some stands at the end. -/
theorem nodes_suffix (front behind : List Entry) : nodes behind <:+ nodes (front ++ behind) := by
  induction front with
  | nil => exact List.suffix_rfl
  | cons e front ih =>
    cases e with
    | text t parts => exact ih.trans (List.suffix_append _ _)
    | comment t => exact ih.trans (List.suffix_append _ _)
    | element t made fate inside => exact ih.trans (List.suffix_append _ _)

/-- Nodes at the end that are no elements are behind the last element. -/
theorem mem_behindElement_of_suffix {siblings ns : List Node} (hsuffix : ns <:+ siblings)
    (hns : ∀ n ∈ ns, n.element? = none) : ∀ n ∈ ns, n ∈ behindElement siblings := by
  obtain ⟨front, rfl⟩ := hsuffix
  intro n hn
  rw [behindElement, List.rtakeWhile, List.reverse_append, List.takeWhile_append_of_pos]
  · simp [hn]
  · simpa using hns

/-- Behind one more entry, the texts that it sweeps away are those behind the last element. -/
theorem Reported.concat {reports : List TemplateError} {es : List Entry} {x : Entry}
    (h : Reported reports es) (hx : sweeps [x] → ∀ n ∈ behindElement (nodes es),
      ∀ error ∈ n.inTheWay?, error ∈ reports) : Reported reports (es ++ [x]) := by
  intro front t parts behind hsplit hsweeps
  rcases concat_split hsplit with ⟨-, -, rfl⟩ | ⟨behind, rfl, rfl⟩
  · cases hsweeps
  · cases hbehind : sweeps behind with
    | true => exact h front t parts behind rfl hbehind
    | false =>
      have hsweepsx : sweeps [x] = true := by
        by_contra hnot
        rw [sweeps_concat (Bool.eq_false_iff.2 hnot), hbehind] at hsweeps
        cases hsweeps
      have hnone : ∀ n ∈ nodes behind, n.element? = none := by
        intro n hn
        by_contra hsome
        rw [sweeps_concat_of_mem hn (Option.isSome_iff_ne_none.2 hsome), hbehind] at hsweeps
        cases hsweeps
      have hstands : nodes (.text t parts :: behind) = parts.map Part.node ++ nodes behind := by
        rw [nodes, hbehind]
        rfl
      intro part hpart
      refine hx hsweepsx part.node (mem_behindElement_of_suffix
        (nodes_suffix front (.text t parts :: behind)) ?_ part.node ?_)
      · rw [hstands]
        exact List.forall_mem_append.2 ⟨parts_element? parts, hnone⟩
      · rw [hstands]
        exact List.mem_append_left _ (List.mem_map_of_mem hpart)

namespace Builder

/-! ## Where the builder stands -/

/-- The builder stands inside the elements of the path. -/
structure StandsAt (s : Settings) (p : Path) (b : Builder) : Prop where
  tags : b.openTags = p.map OpenTag.tag
  ns : b.stack.head?.bind (·.element.ns) = p.ns s
  inPre : b.inPre = p.isRaw
  preDepth : b.preDepth = p.preDepth s

section

variable {s : Settings} {p : Path} {b b' : Builder}

theorem ns_eq_of_around (h : b'.around = b.around) :
    b'.stack.head?.bind (·.element.ns) = b.stack.head?.bind (·.element.ns) := by
  have hns (b : Builder) :
      b.stack.head?.bind (·.element.ns) = b.around.1.head?.bind (·.element.ns) := by
    unfold around
    cases b.stack <;> rfl
  rw [hns, hns, h]

theorem StandsAt.of_around (hb : b.StandsAt s p) (h : b'.around = b.around)
    (hinPre : b'.inPre = b.inPre) (hdepth : b'.preDepth = b.preDepth) : b'.StandsAt s p :=
  ⟨(openTags_eq_of_around h).trans hb.tags, (ns_eq_of_around h).trans hb.ns,
    hinPre.trans hb.inPre, hdepth.trans hb.preDepth⟩

theorem StandsAt.isEmpty (hb : b.StandsAt s p) : b.stack.isEmpty = p.isEmpty := by
  have htags := congrArg List.isEmpty hb.tags
  simpa [openTags] using htags

/-- Inside the elements of the path, the element is that of the start tag there. -/
theorem Begins.here {t : OpenTag} {unary : Bool} {span : Markup.Span} {begun : Builder}
    {o : OpenNode} (h : Begins s t unary span b begun o) (hb : b.StandsAt s p) :
    begun.inPre = Path.isRaw (t :: p) ∧ begun.preDepth = Path.preDepth s (t :: p) ∧
      o.element = t.element s p unary span ∧
      o.dropped = (isForbidden (t.element s p unary span) ||
        p.isEmpty && !b.siblings.isEmpty && !(t.element s p unary span).isBranch) := by
  have hinPre : begun.inPre = Path.isRaw (t :: p) := by
    rw [h.inPre, hb.inPre, Path.isRaw, Path.isRaw, List.any_cons, Bool.or_comm]
  have helement : o.element = t.element s p unary span := by
    rw [h.element, hinPre, hb.ns]
    rfl
  have hroots : (p.isEmpty && !b.siblings.isEmpty) = (p.isEmpty && !b.roots.isEmpty) := by
    rw [← hb.isEmpty, siblings]
    cases b.stack <;> rfl
  refine ⟨hinPre, ?_, helement, ?_⟩
  · rw [h.preDepth, hb.preDepth, Path.preDepth_cons]
  · rw [hroots, ← hb.isEmpty, ← helement]
    exact h.dropped

/-! ## Following the record -/

/-- Inside the elements of the path, the builder has the entries as they stand there. -/
structure Follows (s : Settings) (p : Path) (there : List Entry) (b : Builder) : Prop where
  stands : b.StandsAt s p
  siblings : b.siblings = nodes there
  reported : Throughout (fun _ => Reported b.reports) p there

/-- The builder goes on at the same place, and takes no report back. -/
structure GoesOn (b b' : Builder) : Prop where
  around : b'.around = b.around
  reports : b.reports ⊆ b'.reports

theorem GoesOn.refl (b : Builder) : GoesOn b b :=
  ⟨rfl, List.Subset.refl _⟩

theorem GoesOn.trans {b'' : Builder} (h : GoesOn b b') (h' : GoesOn b' b'') : GoesOn b b'' :=
  ⟨h'.around.trans h.around, List.Subset.trans h.reports h'.reports⟩

variable {there : List Entry}

theorem Follows.concat (h : Follows s p there b) (hgoes : GoesOn b b') (hinPre : b'.inPre = b.inPre)
    (hdepth : b'.preDepth = b.preDepth) {x : Entry} (hsiblings : b'.siblings = nodes (there ++ [x]))
    (hswept : sweeps [x] → ∀ n ∈ behindElement (nodes there),
      ∀ error ∈ n.inTheWay?, error ∈ b'.reports)
    (hinside : ∀ t made fate inner, .element t made fate inner = x →
      Throughout (fun _ => Reported b'.reports) (t :: p) inner) :
    Follows s p (there ++ [x]) b' := by
  have hthere := h.reported.imp fun hreported => hreported.mono hgoes.reports
  refine ⟨h.stands.of_around hgoes.around hinPre hdepth, hsiblings, ?_⟩
  refine .intro (hthere.here.concat hswept) fun t made fate inner hmem => ?_
  rcases List.mem_append.1 hmem with hmem | hmem
  · exact hthere.inside hmem
  · exact hinside t made fate inner (List.mem_singleton.1 hmem)

theorem onText_keeps (s : Settings) (b : Builder) (template text : String) :
    (onText s template b text).preDepth = b.preDepth ∧
      b.reports ⊆ (onText s template b text).reports := by
  unfold onText
  split
  · unfold outerText
    split
    · exact ⟨rfl, List.subset_cons_self _ _⟩
    · split
      · exact ⟨rfl, List.Subset.refl _⟩
      · exact ⟨rfl, List.subset_cons_self _ _⟩
  · split
    · exact ⟨rfl, List.Subset.refl _⟩
    · exact ⟨rfl, List.Subset.refl _⟩

/-- A text goes behind the siblings in its parts. -/
theorem siblings_onText (hb : b.StandsAt s p) (template text : String) :
    (onText s template b text).siblings =
      b.siblings ++ (textParts s p b.siblings text).map Part.node := by
  have hempty := hb.isEmpty
  unfold onText
  split
  · rename_i hstack
    cases p with
    | cons t outer => simp [hstack] at hempty
    | nil =>
      have hparts : textParts s [] b.siblings text = [] := rfl
      rw [hparts, List.map_nil, List.append_nil]
      unfold outerText
      split
      · rfl
      · split
        · rfl
        · rfl
  · rename_i o outer hstack
    cases p with
    | nil => simp [hstack] at hempty
    | cons t p =>
      have htag : o.element.tag = t.tag := by
        have htags := hb.tags
        rw [openTags, hstack, List.map_cons, List.map_cons] at htags
        exact (List.cons.inj htags).1
      have hsiblings : b.siblings = o.element.children := by
        rw [siblings, hstack]
      have hshown : Path.shown? s o.element.children text (t :: p) =
          shownText? b.preDepth o.element text := by
        unfold Path.shown? shownText?
        rw [htag, hb.preDepth]
        rfl
      rw [hsiblings, textParts, hshown]
      split
      · rename_i hnone
        rw [hnone]
        exact hsiblings.trans (List.append_nil _).symm
      · rename_i shown hsome
        rw [hsome]
        dsimp only
        rw [← hb.inPre, shownParts_node]
        rfl

theorem follows_onText (h : Follows s p there b) (template text : String) :
    Follows s p (there ++ [.text text (textParts s p (nodes there) text)])
        (onText s template b text) ∧
      GoesOn b (onText s template b text) := by
  obtain ⟨hcontinues, -⟩ := aside_onText (s := s) b template text
  obtain ⟨hdepth, hreports⟩ := onText_keeps s b template text
  have hgoes : GoesOn b (onText s template b text) := ⟨hcontinues.around, hreports⟩
  refine ⟨h.concat hgoes hcontinues.inPre hdepth ?_ (by rintro ⟨⟩) (by rintro _ _ _ _ ⟨⟩), hgoes⟩
  rw [siblings_onText h.stands, h.siblings, nodes_concat rfl]
  exact congrArg _ (List.append_nil _).symm

theorem follows_onComment (h : Follows s p there b) (text : String) :
    Follows s p (if p.isEmpty then there else there ++ [.comment text]) (b.onComment text) ∧
      GoesOn b (b.onComment text) := by
  have hempty := h.stands.isEmpty
  cases hstack : b.stack with
  | nil =>
    have hcomment : b.onComment text = b := by
      unfold onComment
      rw [hstack]
    rw [hcomment, ← hempty, hstack]
    exact ⟨h, .refl b⟩
  | cons o outer =>
    have hcomment : b.onComment text =
        { b with stack := o.withChildren (o.element.children ++ [.comment text]) :: outer } := by
      unfold onComment
      rw [hstack]
      rfl
    have hgoes : GoesOn b (b.onComment text) := by
      rw [hcomment]
      exact ⟨(Continues.withChildren hstack _).around, List.Subset.refl _⟩
    have hsiblings : (b.onComment text).siblings = b.siblings ++ [.comment text] := by
      rw [hcomment, siblings, siblings, hstack]
      rfl
    rw [← hempty, hstack, List.isEmpty_cons, if_neg Bool.false_ne_true]
    refine ⟨h.concat hgoes (by rw [hcomment]) (by rw [hcomment]) ?_ (by rintro ⟨⟩)
      (by rintro _ _ _ _ ⟨⟩), hgoes⟩
    rw [hsiblings, h.siblings, nodes_concat rfl]
    rfl

theorem follows_report (h : Follows s p there b) (error : TemplateError) :
    Follows s p there (b.report error) ∧ GoesOn b (b.report error) := by
  have hgoes : GoesOn b (b.report error) := ⟨rfl, List.subset_cons_self _ _⟩
  exact ⟨⟨h.stands.of_around rfl rfl rfl, h.siblings,
    h.reported.imp fun hreported => hreported.mono hgoes.reports⟩, hgoes⟩

theorem place_spec (b : Builder) (e : Element) :
    (b.place e).preDepth = b.preDepth ∧
      (b.place e).reports = (attach b.siblings e).1.reverse ++ b.reports := by
  unfold place
  cases hstack : b.stack with
  | nil =>
    dsimp only
    rw [(onlyTells_reportAll _ _).preDepth, reportAll_reports, siblings, hstack]
    exact ⟨rfl, rfl⟩
  | cons o outer =>
    dsimp only
    rw [(onlyTells_reportAll _ _).preDepth, reportAll_reports, siblings, hstack]
    exact ⟨rfl, rfl⟩

/-- What a branch takes away is reported. -/
theorem swept_reported {e : Element} (he : e.isBranch) :
    ∀ n ∈ behindElement b.siblings, ∀ error ∈ n.inTheWay?, error ∈ (b.place e).reports := by
  intro n hn error herror
  have hmem : error ∈ (behindElement b.siblings).reverse.filterMap Node.inTheWay? :=
    List.mem_filterMap.2 ⟨n, List.mem_reverse.2 hn, herror⟩
  rw [(place_spec b e).2, attach_branch _ he]
  refine List.mem_append_left _ (List.mem_reverse.2 ?_)
  split
  · exact hmem
  · exact List.mem_append_left _ hmem

/-- An element that was open with its children ends as an entry behind its siblings. -/
theorem follows_close (hs : s.KeepShape) (h : Follows s p there b) {t : OpenTag} {unary : Bool}
    {span : Markup.Span} {begun : Builder} {o : OpenNode}
    (hbegins : Begins s t unary span b begun o) {c : Builder} (hstack : c.stack = b.stack)
    (hroots : c.roots = b.roots) (hinPre : c.inPre = begun.inPre)
    (hdepth : c.preDepth = begun.preDepth) (hreports : begun.reports ⊆ c.reports)
    {inside : List Entry}
    (hinside : Throughout (fun _ => Reported c.reports) (t :: p) inside) (stop : Nat) :
    let b' := close s c (o.withChildren (nodes inside)) stop
    Follows s p (there ++ [closedEntry s p (nodes there) t unary span stop inside]) b' ∧
      GoesOn b b' := by
  intro b'
  obtain ⟨-, hbegun, helement, hdropped⟩ := hbegins.here h.stands
  let e := finish s c.preDepth (o.withChildren (nodes inside)).element stop
  let c' : Builder :=
    { c with
      preDepth := if s.isPreTag o.element.tag then c.preDepth - 1 else c.preDepth
      inPre := c.inPre && !o.opensPre }
  have hb' : b' = if o.dropped then c' else c'.place e := rfl
  have hclosed : closedEntry s p (nodes there) t unary span stop inside =
      .element t e (fateOf p (nodes there) (t.element s p unary span)) inside := by
    unfold e OpenNode.withChildren
    rw [hdepth, hbegun, helement]
    rfl
  have haround : c'.around = b.around := around_eq_of_built hstack hroots
  have hsiblings : c'.siblings = nodes there :=
    (siblings_eq_of_built hstack hroots).trans h.siblings
  have hinPre' : c'.inPre = b.inPre := by
    unfold c'
    dsimp only
    rw [hinPre, hbegins.inPre, hbegins.opensPre]
    cases b.inPre <;> cases t.attrs.any (·.name == "v-pre") <;> rfl
  have hdepth' : c'.preDepth = b.preDepth := by
    unfold c'
    dsimp only
    rw [hdepth, hbegun, helement, h.stands.preDepth, Path.preDepth_cons, OpenTag.element_tag]
    split
    · exact Nat.add_sub_cancel _ 1
    · rfl
  have hbranch : (t.element s p unary span).isBranch = e.isBranch := by
    have hdirectives := (finish_keepsShape hs c.preDepth (o.withChildren (nodes inside)).element
      stop).2
    rw [← helement, ElementOf.isBranch, ElementOf.isBranch, hdirectives, hdirectives]
    rfl
  rw [h.siblings] at hdropped
  rw [hclosed, hb', fateOf, ← hdropped, hbranch]
  have hkeep : GoesOn b c' := ⟨haround, List.Subset.trans hbegins.reports hreports⟩
  cases o.dropped with
  | true =>
    refine ⟨h.concat hkeep hinPre' hdepth' ?_ (by rintro ⟨⟩) ?_, hkeep⟩
    · rw [nodes_concat rfl]
      exact hsiblings.trans (List.append_nil _).symm
    · rintro _ _ _ _ ⟨⟩
      exact hinside
  | false =>
    obtain ⟨hdepth'', hreports'⟩ := place_spec c' e
    have hcontinues := continues_place c' e
    have hgoes : GoesOn c' (c'.place e) :=
      ⟨hcontinues.around, hreports' ▸ List.subset_append_right _ _⟩
    refine ⟨h.concat (hkeep.trans hgoes) (hcontinues.inPre.trans hinPre')
      (hdepth''.trans hdepth') ?_ ?_ ?_, hkeep.trans hgoes⟩
    · rw [siblings_place, hsiblings]
      exact attach_nodes t e inside
    · -- Only a branch sweeps.
      intro hsweeps
      rw [← hsiblings]
      apply swept_reported
      simp only [Bool.false_eq_true, if_false] at hsweeps
      split at hsweeps
      · rename_i hstray
        exact (Bool.and_eq_true_iff.1 hstray).1
      · exact hsweeps
    · rintro _ _ _ _ ⟨⟩
      exact hinside.imp fun hreported => hreported.mono hgoes.reports

/-- What is read of a content is its record, by induction on the content. -/
theorem follows_run (hs : s.KeepShape) (template : String) (c : Markup.Content)
    (h : Follows s p there b) :
    let b' := c.events.foldl (step s template) b
    Follows s p (record s p there c) b' ∧ GoesOn b b' := by
  induction c generalizing p there b with
  | nil => exact ⟨h, .refl b⟩
  | text t span behind ih =>
    obtain ⟨hfirst, hgoes⟩ := follows_onText h template t
    exact (ih hfirst).imp_right hgoes.trans
  | comment t span behind ih =>
    obtain ⟨hfirst, hgoes⟩ := follows_onComment h t
    exact (ih hfirst).imp_right hgoes.trans
  | warning w behind ih =>
    obtain ⟨hfirst, hgoes⟩ := follows_report h (.markup w)
    exact (ih hfirst).imp_right hgoes.trans
  | unary tag attrs span behind ih =>
    obtain ⟨begun, o, hbegins, hstep⟩ := exists_begins s b ⟨tag, attrs⟩ true span
    have ho : o.withChildren (nodes []) = o := by
      have hempty : o.element.children = [] := congrArg ElementOf.children hbegins.element
      rw [OpenNode.withChildren, nodes, ← hempty]
    have hclose := follows_close hs h hbegins (c := begun) hbegins.stack hbegins.roots rfl rfl
      (List.Subset.refl _) (throughout_reported_nil _ _) span.stop
    rw [ho] at hclose
    have hrun : step s template b (.start tag attrs true span) = close s begun o span.stop := hstep
    rw [Markup.Content.events, List.foldl_cons, hrun]
    obtain ⟨hfirst, hgoes⟩ := hclose
    exact (ih hfirst).imp_right hgoes.trans
  | paired tag attrs span inside stopTag stop behind ihinside ih =>
    obtain ⟨begun, o, hbegins, hstep⟩ := exists_begins s b ⟨tag, attrs⟩ false span
    -- What is inside is read on top of the open element and becomes its children.
    let opened : Builder := { begun with stack := o :: begun.stack }
    obtain ⟨hinPre, hdepth, helement, -⟩ := hbegins.here h.stands
    have hopened : Follows s (⟨tag, attrs⟩ :: p) [] opened := by
      refine ⟨⟨?_, ?_, hinPre, hdepth⟩, ?_, ?_⟩
      · rw [List.map_cons, ← h.stands.tags, openTags, openTags, List.map_cons, hbegins.element,
          hbegins.stack]
        rfl
      · exact congrArg ElementOf.ns helement
      · exact congrArg ElementOf.children hbegins.element
      · exact throughout_reported_nil _ _
    obtain ⟨hread, hgoes⟩ := ihinside hopened
    generalize hrest : inside.events.foldl (step s template) opened = read at hread hgoes
    obtain ⟨children, hstack, hroots⟩ := exists_children_of_around hgoes.around (o := o) rfl
    have hchildren : children = nodes (record s (⟨tag, attrs⟩ :: p) [] inside) := by
      rw [← hread.siblings, siblings, hstack]
      rfl
    -- The end tag takes it off the stack, where everything is as it was before the start tag.
    have hclose := follows_close hs h hbegins (c := { read with stack := begun.stack })
      hbegins.stack (hroots.trans hbegins.roots) (hread.stands.inPre.trans hinPre.symm)
      (hread.stands.preDepth.trans hdepth.symm) hgoes.reports hread.reported stop.stop
    have hrun : (Markup.Content.paired tag attrs span inside stopTag stop behind).events.foldl
        (step s template) b = behind.events.foldl (step s template)
          (close s { read with stack := begun.stack } (o.withChildren children) stop.stop) := by
      have hbegun : step s template b (.start tag attrs false span) = opened := hstep
      have hstopped : step s template read (.stop stopTag stop) =
          close s { read with stack := begun.stack } (o.withChildren children) stop.stop := by
        rw [step, onStop, hstack]
      rw [Markup.Content.events, List.foldl_cons, hbegun, List.foldl_append, List.foldl_cons, hrest,
        hstopped]
    rw [hrun, hchildren]
    obtain ⟨hfirst, hgoes'⟩ := hclose
    exact (ih hfirst).imp_right hgoes'.trans

end

end Builder

/-! ## Templates -/

/-- The record of a template. -/
def recordOf (s : Settings) (template : String) : List Entry :=
  record s [] [] (Markup.content (Markup.tokenize s.dialect template))

/-- It is the record of the content whose events are read. -/
theorem recordOf_eq {s : Settings} {template : String} {c : Markup.Content}
    (h : Markup.tokenize s.dialect template = c.events) :
    recordOf s template = record s [] [] c := by
  rw [recordOf, h, Markup.content_events]

/-- Each element has the tag of its start tag, and its children are what is left of the entries
inside. -/
def AllClosed (s : Settings) (p : Path) (es : List Entry) : Prop :=
  ∀ t made fate inside, .element t made fate inside ∈ es →
    made.tag = t.tag ∧ made.children = nodesLeft (Path.trims s (t :: p)) inside

/-- The record is that of the template: it has all texts that are read, the roots are what stands of
it, the children of each element are what is left of the entries inside, and what is swept away is
reported. -/
structure Records (s : Settings) (template : String) (es : List Entry) : Prop where
  texts : textsOf es = (Markup.tokenize s.dialect template).filterMap Markup.Event.text?
  roots : (parse s template).1 = nodes es
  closed : Throughout (AllClosed s) [] es
  reported : Throughout (fun _ => Reported (parseWith s template).2) [] es

theorem finish_children {s : Settings} (hs : s.OnlyTrims) (p : Path) (e : Element)
    (inside : List Entry) (stop : Nat) :
    (Builder.finish s (p.preDepth s) { e with children := nodes inside } stop).tag = e.tag ∧
      (Builder.finish s (p.preDepth s) { e with children := nodes inside } stop).children =
        nodesLeft (p.trims s) inside := by
  unfold Builder.finish
  obtain ⟨htag, hchildren, -, -⟩ := trims_foldl hs
    { e with
      children := if p.preDepth s = 0 then Builder.dropTrailingSpace (nodes inside)
        else nodes inside
      span := e.span.map fun span => ⟨span.start, stop⟩ }
  refine ⟨htag, hchildren.trans ?_⟩
  rw [Path.trims]
  split
  · rename_i hzero
    rw [hzero]
    exact (nodesLeft_true inside).symm
  · rename_i hpos
    rw [beq_eq_false_iff_ne.2 hpos]
    exact (nodesLeft_false inside).symm

theorem allClosed_record {s : Settings} (hs : s.OnlyTrims) (p : Path) (c : Markup.Content) :
    AllClosed s p (record s p [] c) := by
  intro t made fate inside hmem
  obtain ⟨front, behind, hsplit⟩ := List.append_of_mem hmem
  obtain ⟨unary, span, stop, hmade⟩ := record_made s p c front _ behind hsplit
  cases hmade
  exact finish_children hs (t :: p) (t.element s p unary span) inside stop

/-- The tree of a template and its errors are those of its record. -/
theorem records_recordOf {s : Settings} (hs : s.extensions = Settings.base.extensions)
    (template : String) : Records s template (recordOf s template) := by
  have hshape : s.KeepShape := by
    rw [Settings.KeepShape, hs]
    exact base_keepShape
  have htrims : s.OnlyTrims := by
    rw [Settings.OnlyTrims, hs]
    exact base_onlyTrims
  have hevents := (Markup.tokenize_wellNested s.dialect template).1.events_content
  have hstart : Builder.Follows s [] [] .start :=
    ⟨⟨rfl, rfl, rfl, rfl⟩, rfl, throughout_reported_nil _ _⟩
  obtain ⟨hfollows, hgoes⟩ := Builder.follows_run hshape template
    (Markup.content (Markup.tokenize s.dialect template)) hstart
  rw [hevents] at hfollows hgoes
  refine ⟨?_, ?_, throughout_record (allClosed_record htrims) [] _,
    hfollows.reported.imp fun h => ?_⟩
  · rw [recordOf, textsOf_record, Markup.Content.texts_eq, hevents]
    rfl
  · rw [parse_roots, recordOf, ← hfollows.siblings, Builder.siblings,
      Builder.stack_eq_nil_of_around hgoes.around rfl]
  · refine h.mono fun error herror => ?_
    unfold parseWith
    dsimp only
    split
    · exact List.mem_reverse.2 (List.mem_cons_of_mem _ herror)
    · exact List.mem_reverse.2 herror

end ViewTree.Template
