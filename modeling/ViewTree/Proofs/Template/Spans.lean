import ViewTree.Proofs.Markup.Flow
import ViewTree.Proofs.Template.Pruning
/-!
# The places of elements

Where places are kept, an element begins where its start tag does and ends where the event that
closed it does. The builder is followed along the hedge that the events spell, with the offsets at
which the tags follow one another (`row_of_spells`); what it builds is a row of elements inside
which there are rows again (`Row`). So every element lies inside the one around it. Siblings stand
one behind the other, except that an element which the start tag of the next one closes ends
with that start tag (`parse_spans`).
-/

namespace ViewTree.Template

/-! ## Extensions -/

/-- The element without some of its attributes; what was taken out may be in its extras. -/
structure Trims (e d : Element) : Prop where
  tag : d.tag = e.tag
  children : d.children = e.children
  span : d.span = e.span
  attrs : d.attrs ⊆ e.attrs

theorem Trims.refl (e : Element) : Trims e e :=
  ⟨rfl, rfl, rfl, List.Subset.refl _⟩

theorem Trims.trans {e d c : Element} (h : Trims e d) (h' : Trims d c) : Trims e c :=
  ⟨h'.tag.trans h.tag, h'.children.trans h.children, h'.span.trans h.span,
    List.Subset.trans h'.attrs h.attrs⟩

/-- Extensions do nothing to elements but take attributes out of them. -/
def Settings.OnlyTrims (s : Settings) : Prop :=
  ∀ x ∈ s.extensions, ∀ e, Trims e (x.transform e)

theorem trims_lift (kind : AttrKind) (name key : String) (f : String → String) (e : Element) :
    Trims e (lift kind name key f e) := by
  unfold lift ElementOf.takeAttr?
  cases e.attr? kind name with
  | none => exact .refl e
  | some a => exact ⟨rfl, rfl, rfl, List.eraseP_subset⟩

theorem base_onlyTrims : Settings.base.OnlyTrims := by
  intro x hx e
  rcases List.mem_pair.1 hx with rfl | rfl
  · exact (trims_lift _ _ _ _ e).trans (trims_lift _ _ _ _ _)
  · exact (trims_lift _ _ _ _ e).trans (trims_lift _ _ _ _ _)

theorem trims_foldl {xs : List Extension} (hxs : ∀ x ∈ xs, ∀ e, Trims e (x.transform e))
    (e : Element) : Trims e (xs.foldl (fun e x => x.transform e) e) := by
  induction xs generalizing e with
  | nil => exact .refl e
  | cons x xs ih =>
    obtain ⟨hx, hxs⟩ := List.forall_mem_cons.1 hxs
    exact (hx e).trans (ih hxs _)

/-! ## What an element stems from -/

/-- One of the events is a start tag of the element at the place, and the attributes of the element
are among those of the start tag, each at the place of its own. -/
def StemsFrom (events : List Markup.Event) (e : Element) (place : Markup.Span) : Prop :=
  ∃ attrs unary, .start e.tag attrs unary place ∈ events ∧
    ∀ a ∈ e.attrs, ∃ m ∈ attrs, a.rawName = m.name ∧ a.span = some m.span

theorem Attribute.classify_spec (rawName value : String) (span : Option Markup.Span) :
    (classify rawName value span).rawName = rawName ∧
      (classify rawName value span).span = span := by
  unfold classify
  split
  · split
    · exact ⟨rfl, rfl⟩
    · exact ⟨rfl, rfl⟩
  · exact ⟨rfl, rfl⟩

namespace Builder

section

variable {s : Settings}

theorem readAttribute_spec (hs : s.sourceRange) (inPre : Bool) (m : Markup.Attribute) :
    (readAttribute s inPre m).1.rawName = m.name ∧
      (readAttribute s inPre m).1.span = some m.span := by
  unfold readAttribute
  rw [if_pos hs]
  dsimp only
  split
  · exact ⟨rfl, rfl⟩
  · split
    · exact Attribute.classify_spec m.name m.value _
    · exact Attribute.classify_spec m.name m.value _

theorem readAttributes_spec (hs : s.sourceRange) (inPre : Bool) (seen : List String)
    (attrs : List Markup.Attribute) :
    ∀ a ∈ (readAttributes s inPre seen attrs).1,
      ∃ m ∈ attrs, a.rawName = m.name ∧ a.span = some m.span := by
  induction attrs generalizing seen with
  | nil => exact List.forall_mem_nil _
  | cons m attrs ih =>
    refine List.forall_mem_cons.2
      ⟨⟨m, List.mem_cons_self, readAttribute_spec hs inPre m⟩, ?_⟩
    intro a ha
    obtain ⟨m', hmem, ha⟩ := ih (m.name :: seen) a ha
    exact ⟨m', List.mem_cons_of_mem m hmem, ha⟩

end

end Builder

/-! ## Rows of elements -/

theorem Node.mem_elements {ns : List Node} {e : Element} : e ∈ elements ns ↔ element e ∈ ns := by
  rw [elements, List.mem_filterMap]
  constructor
  · rintro ⟨n, hn, he⟩
    cases n with
    | element d =>
      cases he
      exact hn
    | _ => cases he
  · exact fun he => ⟨element e, he, rfl⟩

/-- Elements side by side, and rows of elements inside each of them, in the course of which the
offset of the last start tag goes from `n` to `n'` and that of the last tag from `k` to `k'`. An
element may be left out with the row inside it. -/
inductive Row (events : List Markup.Event) : Nat → Nat → List Element → Nat → Nat → Prop
  | done (n k : Nat) : Row events n k [] n k
  | refused {n k m l n' k' stop : Nat} {place : Markup.Span} {left es : List Element}
      (hplace : place.Begins n k) (inside : Row events place.stop place.stop left m l)
      (hstop : l ≤ stop) (behind : Row events m stop es n' k') : Row events n k es n' k'
  | kept {n k m l n' k' stop : Nat} {place : Markup.Span} {e : Element} {es : List Element}
      (hplace : place.Begins n k) (hstems : StemsFrom events e place)
      (hspan : e.span = some ⟨place.start, stop⟩)
      (inside : Row events place.stop place.stop (Node.elements e.children) m l)
      (hstop : l ≤ stop) (behind : Row events m stop es n' k') : Row events n k (e :: es) n' k'

/-- The first element lies inside the second. -/
def Within (c e : Element) : Prop :=
  ∃ p q, c.span = some p ∧ e.span = some q ∧ q.start ≤ p.start ∧ p.stop ≤ q.stop

/-- The first element ends before the second begins. -/
def Before (d e : Element) : Prop :=
  ∃ p q, d.span = some p ∧ e.span = some q ∧ p.stop ≤ q.start

/-- The first element ends where the start tag of the second ends. -/
def EndsAtStartOf (events : List Markup.Event) (d e : Element) : Prop :=
  ∃ p q place, d.span = some p ∧ e.span = some q ∧ StemsFrom events e place ∧
    q.start = place.start ∧ place.start < place.stop ∧ p.stop = place.stop

namespace Row

variable {events : List Markup.Event} {n k n' k' : Nat} {es : List Element}

theorem le (h : Row events n k es n' k') : n ≤ n' ∧ k ≤ k' := by
  induction h with
  | done => exact ⟨Nat.le_refl _, Nat.le_refl _⟩
  | refused hplace _ hstop _ hinside hbehind =>
    obtain ⟨hstart, hforward, hend⟩ := hplace
    omega
  | kept hplace _ _ _ hstop _ hinside hbehind =>
    obtain ⟨hstart, hforward, hend⟩ := hplace
    omega

/-- Elements have places in the range of their row that are not empty. -/
theorem bounds (h : Row events n k es n' k') :
    ∀ e ∈ es, ∃ p, e.span = some p ∧ n ≤ p.start ∧ p.start < p.stop ∧ p.stop ≤ k' := by
  induction h with
  | done => exact List.forall_mem_nil _
  | refused hplace inside _ _ _ ih =>
    intro e he
    obtain ⟨p, hp, hstart, hrest⟩ := ih e he
    have hinside := inside.le
    obtain ⟨hbegin, hforward, -⟩ := hplace
    exact ⟨p, hp, by omega, hrest⟩
  | kept hplace _ hspan inside hstop behind _ ih =>
    have hinside := inside.le
    have hbehind := behind.le
    obtain ⟨hbegin, hforward, -⟩ := hplace
    refine List.forall_mem_cons.2 ⟨⟨_, hspan, hbegin, ?_, hbehind.2⟩, fun e he => ?_⟩
    · dsimp only
      omega
    · obtain ⟨p, hp, hstart, hrest⟩ := ih e he
      exact ⟨p, hp, by omega, hrest⟩

theorem within (h : Row events n k es n' k') :
    ∀ e ∈ es, ∀ c ∈ Node.elements e.children, Within c e := by
  induction h with
  | done => exact List.forall_mem_nil _
  | refused _ _ _ _ _ ih => exact ih
  | kept hplace _ hspan inside hstop _ _ ih =>
    refine List.forall_mem_cons.2 ⟨fun c hc => ?_, ih⟩
    obtain ⟨p, hp, hstart, -, hend⟩ := inside.bounds c hc
    exact ⟨p, _, hp, hspan, (Nat.le_of_lt hplace.forward).trans hstart, hend.trans hstop⟩

theorem forward (h : Row events n k es n' k') :
    ∀ e ∈ es, ∃ p, e.span = some p ∧ p.start < p.stop := by
  intro e he
  obtain ⟨p, hp, -, hforward, -⟩ := h.bounds e he
  exact ⟨p, hp, hforward⟩

/-- What has ended when the row begins has ended before its first element does, or it ends where
the start tag of that element does. -/
theorem first (h : Row events n k es n' k') {d : Element} {p : Markup.Span}
    (hd : d.span = some p) (hended : p.stop ≤ n ∨ p.stop = k) :
    ∀ e ∈ es.head?, Before d e ∨ EndsAtStartOf events d e := by
  induction h with
  | done => exact fun e he => by cases he
  | refused hplace inside hstop _ _ ih =>
    apply ih
    have hinside := inside.le
    have hended' := hplace.ended hended
    have hforward := hplace.forward
    omega
  | kept hplace hstems hspan =>
    rintro e ⟨⟩
    rcases hplace.ended hended with hbefore | hend
    · exact .inl ⟨p, _, hd, hspan, hbefore⟩
    · exact .inr ⟨p, _, _, hd, hspan, hstems, rfl, hplace.forward, hend⟩

/-- An element ends before the next one begins, or with the start tag of the next one. -/
theorem neighbours (h : Row events n k es n' k') :
    es.IsChain fun d e => Before d e ∨ EndsAtStartOf events d e := by
  induction h with
  | done => exact .nil
  | refused _ _ _ _ _ ih => exact ih
  | kept _ _ hspan _ _ behind _ ih =>
    exact List.isChain_cons.2 ⟨behind.first hspan (.inr rfl), ih⟩

theorem stems (h : Row events n k es n' k') :
    ∀ e ∈ es, ∃ place stop, StemsFrom events e place ∧ e.span = some ⟨place.start, stop⟩ := by
  induction h with
  | done => exact List.forall_mem_nil _
  | refused _ _ _ _ _ ih => exact ih
  | kept _ hstems hspan _ _ _ _ ih => exact List.forall_mem_cons.2 ⟨⟨_, _, hstems, hspan⟩, ih⟩

/-- What holds of every row holds inside of all elements of a row. -/
theorem inside_everywhere {P : List Element → Prop}
    (hP : ∀ {n k es n' k'}, Row events n k es n' k' → P es) (h : Row events n k es n' k') :
    ∀ e ∈ es, Everywhere (fun siblings => P (Node.elements siblings)) e.children := by
  induction h with
  | done => exact List.forall_mem_nil _
  | refused _ _ _ _ _ ih => exact ih
  | kept _ _ _ inside _ _ ihinside ihbehind =>
    refine List.forall_mem_cons.2 ⟨.intro (hP inside) fun e he => ?_, ihbehind⟩
    exact ihinside e (Node.mem_elements.2 he)

/-- What holds of every row holds everywhere in a tree whose roots are a row. -/
theorem everywhere {P : List Element → Prop}
    (hP : ∀ {n k es n' k'}, Row events n k es n' k' → P es) {roots : List Node}
    (h : Row events n k (Node.elements roots) n' k') :
    Everywhere (fun siblings => P (Node.elements siblings)) roots :=
  .intro (hP h) fun e he => h.inside_everywhere hP e (Node.mem_elements.2 he)

end Row

theorem Everywhere.imp {P Q R : List Node → Prop} {siblings : List Node}
    (hPQ : Everywhere R siblings) (h : ∀ {ns}, R ns → P ns → Q ns)
    (hP : Everywhere P siblings) : Everywhere Q siblings := by
  induction hPQ with
  | intro here _ ih => exact .intro (h here hP.here) fun e he => ih e he (hP.inside he)

/-! ## Siblings one behind the other -/

theorem Before.not_endsAtStartOf {events : List Markup.Event} {d e : Element} (h : Before d e) :
    ¬ EndsAtStartOf events d e := by
  obtain ⟨p, q, hp, hq, hbefore⟩ := h
  rintro ⟨p', q', place, hp', hq', -, hstart, hforward, hend⟩
  cases hp.symm.trans hp'
  cases hq.symm.trans hq'
  omega

theorem pairwise_before {es : List Element}
    (hes : ∀ e ∈ es, ∃ p, e.span = some p ∧ p.start < p.stop) (h : es.IsChain Before) :
    es.Pairwise Before := by
  -- Being before is transitive only where the element in between is not empty.
  let Follows (d e : Element) : Prop := Before d e ∧ ∃ p, e.span = some p ∧ p.start < p.stop
  have htrans : Trans Follows Follows Follows := by
    constructor
    rintro d e f ⟨⟨p, q, hp, hq, hpq⟩, q', hq', hforward⟩ ⟨⟨q'', r, hq'', hr, hqr⟩, hf⟩
    cases hq.symm.trans hq'
    cases hq.symm.trans hq''
    exact ⟨⟨p, r, hp, hr, by omega⟩, hf⟩
  have hchain : es.IsChain Follows := h.imp_of_mem_imp fun d e _ he hbefore => ⟨hbefore, hes e he⟩
  exact hchain.pairwise.imp And.left

/-- Siblings stand one behind the other unless the start tag of one ends the one in front of it. -/
theorem Row.pairwise_iff {events : List Markup.Event} {n k n' k' : Nat} {es : List Element}
    (h : Row events n k es n' k') :
    es.Pairwise Before ↔ es.IsChain fun d e => ¬ EndsAtStartOf events d e := by
  constructor
  · exact fun hpairwise => hpairwise.isChain.imp fun d e hbefore => hbefore.not_endsAtStartOf
  · intro hchain
    have hneighbours := List.isChain_iff_getElem.1 h.neighbours
    have hends := List.isChain_iff_getElem.1 hchain
    apply pairwise_before h.forward
    exact List.isChain_iff_getElem.2 fun i hi => (hneighbours i hi).resolve_right (hends i hi)

/-! ## Building rows -/

namespace Builder

section

variable {s : Settings}

theorem around_close (c : Builder) (o : OpenNode) (stop : Nat) :
    (close s c o stop).around = c.around := by
  unfold close
  extract_lets e c'
  have hc' : c'.around = c.around := around_eq_of_built rfl rfl
  split
  · exact hc'
  · exact (continues_place c' e).around.trans hc'

/-- What is closed goes behind its siblings or is left out. -/
theorem elements_close (c : Builder) (o : OpenNode) (stop : Nat) :
    Node.elements (close s c o stop).siblings = Node.elements c.siblings ∨
      Node.elements (close s c o stop).siblings =
        Node.elements c.siblings ++ [finish s c.preDepth o.element stop] := by
  unfold close
  extract_lets e c'
  have hc' : c'.siblings = c.siblings := siblings_eq_of_built rfl rfl
  split
  · exact .inl (congrArg _ hc')
  · rw [siblings_place, elements_attach, hc']
    split
    · exact .inl rfl
    · exact .inr rfl

theorem finish_trims (hs : s.OnlyTrims) (preDepth : Nat) (e : Element) (stop : Nat) :
    (finish s preDepth e stop).tag = e.tag ∧
      Node.elements (finish s preDepth e stop).children = Node.elements e.children ∧
      (finish s preDepth e stop).span = e.span.map (fun span => ⟨span.start, stop⟩) ∧
      (finish s preDepth e stop).attrs ⊆ e.attrs := by
  unfold finish
  obtain ⟨htag, hchildren, hspan, hattrs⟩ := trims_foldl hs
    { e with
      children := if preDepth = 0 then dropTrailingSpace e.children else e.children
      span := e.span.map fun span => ⟨span.start, stop⟩ }
  refine ⟨htag, ?_, hspan, hattrs⟩
  rw [hchildren]
  dsimp only
  split
  · exact elements_dropTrailingSpace e.children
  · rfl

variable {events : List Markup.Event} {n k m l stop : Nat} {place : Markup.Span}

theorem Opens.stemsFrom (hrange : s.sourceRange) {b begun : Builder} {tag : String}
    {attrs : List Markup.Attribute} {unary : Bool} {o : OpenNode} (h : Opens s b tag attrs begun o)
    (hattrs : o.element.attrs = (readAttributes s begun.inPre [] attrs).1)
    (hmem : .start tag attrs unary place ∈ events) : StemsFrom events o.element place := by
  have htag : o.element.tag = tag := h.element.tag
  refine ⟨attrs, unary, htag ▸ hmem, ?_⟩
  rw [hattrs]
  exact readAttributes_spec hrange begun.inPre [] attrs

/-- An element that is closed comes in front of the row behind it, if it is not left out. -/
theorem row_close (hs : s.OnlyTrims) (c : Builder) {o : OpenNode} (hplace : place.Begins n k)
    (hstems : StemsFrom events o.element place) (hspan : o.element.span = some place)
    (inside : Row events place.stop place.stop (Node.elements o.element.children) m l)
    (hstop : l ≤ stop) :
    ∃ closed, Node.elements (close s c o stop).siblings = Node.elements c.siblings ++ closed ∧
      ∀ {es n' k'}, Row events m stop es n' k' → Row events n k (closed ++ es) n' k' := by
  obtain ⟨htag, hchildren, hspan', hattrs⟩ := finish_trims hs c.preDepth o.element stop
  rcases elements_close (s := s) c o stop with hleft | hkept
  · exact ⟨[], by rw [hleft, List.append_nil], .refused hplace inside hstop⟩
  · refine ⟨_, hkept, .kept hplace ?_ ?_ (hchildren ▸ inside) hstop⟩
    · obtain ⟨attrs, unary, hmem, hfrom⟩ := hstems
      exact ⟨attrs, unary, htag ▸ hmem, fun a ha => hfrom a (hattrs ha)⟩
    · rw [hspan', hspan]
      rfl

/-- Events that spell a hedge make a row on top of whatever is open, by induction on the
spelling. -/
theorem row_of_spells (hs : s.OnlyTrims) (hrange : s.sourceRange) (template : String)
    {es rest : List Markup.Event} {h : Markup.Hedge} (hspells : Markup.Spells es h)
    (hmem : es ⊆ events) (hflows : Markup.Flows n k (es ++ rest)) (b : Builder) :
    ∃ added n' k', Row events n k added n' k' ∧ Markup.Flows n' k' rest ∧
      (es.foldl (step s template) b).around = b.around ∧
      Node.elements (es.foldl (step s template) b).siblings =
        Node.elements b.siblings ++ added := by
  induction hspells generalizing n k b rest with
  | nil => exact ⟨[], n, k, .done n k, hflows, rfl, (List.append_nil _).symm⟩
  | aside he _ ih =>
    obtain ⟨hcontinues, helements⟩ := aside_step (s := s) b template he
    obtain ⟨added, n', k', hrow, hrest, haround, hadded⟩ :=
      ih (List.subset_of_cons_subset hmem) ((Markup.flows_cons_of_not_isTag he).1 hflows) _
    exact ⟨added, n', k', hrow, hrest, haround.trans hcontinues.around,
      hadded.trans (by rw [helements])⟩
  | @unary es behind tag attrs span _ ih =>
    obtain ⟨begun, o, hopens, hattrs, hspan, hstep⟩ := exists_opened s b tag attrs true span
    rw [if_pos hrange] at hspan
    obtain ⟨hstart, hes⟩ := List.cons_subset.1 hmem
    obtain ⟨hplace, hbehind⟩ := hflows
    have inside : Row events span.stop span.stop (Node.elements o.element.children)
        span.stop span.stop := by
      rw [hopens.empty]
      exact .done _ _
    obtain ⟨closed, hclosed, hrow⟩ := row_close hs begun hplace
      (hopens.stemsFrom hrange hattrs hstart) hspan inside (Nat.le_refl _)
    obtain ⟨added, n', k', hadded, hrest, haround, hsiblings⟩ :=
      ih hes hbehind (close s begun o span.stop)
    have hrun : (.start tag attrs true span :: es).foldl (step s template) b =
        es.foldl (step s template) (close s begun o span.stop) := by
      rw [List.foldl_cons, step, hstep]
      rfl
    rw [hrun]
    refine ⟨closed ++ added, n', k', hrow hadded, hrest, ?_, ?_⟩
    · rw [haround, around_close]
      exact around_eq_of_built hopens.stack hopens.roots
    · rw [hsiblings, hclosed, siblings_eq_of_built hopens.stack hopens.roots, List.append_assoc]
  | @paired es fs inside behind tag attrs span span' _ _ ihinside ihbehind =>
    obtain ⟨begun, o, hopens, hattrs, hspan, hstep⟩ := exists_opened s b tag attrs false span
    rw [if_pos hrange] at hspan
    obtain ⟨hstart, hmem⟩ := List.cons_subset.1 hmem
    obtain ⟨hes, hfs⟩ := List.append_subset.1 hmem
    rw [List.cons_append, List.append_assoc] at hflows
    obtain ⟨hplace, hflows⟩ := hflows
    -- What is inside is read on top of the open element and becomes its children.
    let opened : Builder := { begun with stack := o :: begun.stack }
    obtain ⟨children, m, l, hinside, hstop, haround, hsiblings⟩ := ihinside hes hflows opened
    obtain ⟨hstop, hflows⟩ := hstop
    generalize hread : es.foldl (step s template) opened = read at haround hsiblings
    obtain ⟨nodes, hstack, hroots⟩ := exists_children_of_around haround (o := o) rfl
    have hnodes : Node.elements nodes = children := by
      have hnodes : read.siblings = nodes := by
        rw [siblings, hstack]
        rfl
      have hempty : opened.siblings = [] := hopens.empty
      rwa [hnodes, hempty] at hsiblings
    -- The end tag takes it off the stack, where everything is as it was before the start tag.
    let c : Builder := { read with stack := begun.stack }
    have hbuilt : c.stack = b.stack ∧ c.roots = b.roots :=
      ⟨hopens.stack, hroots.trans hopens.roots⟩
    obtain ⟨closed, hclosed, hrow⟩ := row_close hs c (o := o.withChildren nodes) hplace
      (hopens.stemsFrom hrange hattrs hstart) hspan (hnodes ▸ hinside) hstop
    obtain ⟨added, n', k', hadded, hrest, haround', hsiblings'⟩ :=
      ihbehind (List.subset_of_cons_subset hfs) hflows
        (close s c (o.withChildren nodes) span'.stop)
    have hrun : (.start tag attrs false span :: (es ++ .stop tag span' :: fs)).foldl
        (step s template) b =
          fs.foldl (step s template) (close s c (o.withChildren nodes) span'.stop) := by
      have hopened : step s template b (.start tag attrs false span) = opened := hstep
      have hstopped : step s template read (.stop tag span') =
          close s c (o.withChildren nodes) span'.stop := by
        rw [step, onStop, hstack]
      rw [List.foldl_cons, hopened, List.foldl_append, List.foldl_cons, hread, hstopped]
    rw [hrun]
    refine ⟨closed ++ added, n', k', hrow hadded, hrest, ?_, ?_⟩
    · rw [haround', around_close]
      exact around_eq_of_built hbuilt.1 hbuilt.2
    · rw [hsiblings', hclosed, siblings_eq_of_built hbuilt.1 hbuilt.2, List.append_assoc]

end

end Builder

/-! ## Templates -/

/-- The roots of a parsed template are a row. -/
theorem parse_row {s : Settings} (hs : s.OnlyTrims) (hrange : s.sourceRange) (template : String) :
    ∃ n k, Row (Markup.tokenize s.dialect template) 0 0
      (Node.elements (parse s template).1) n k := by
  have hnested : Markup.WellNested (Markup.tokenize s.dialect template) :=
    (Markup.tokenize_wellNested s.dialect template).1
  have hflows := Markup.tokenize_flows s.dialect template
  rw [← List.append_nil (Markup.tokenize s.dialect template)] at hflows
  obtain ⟨added, n, k, hrow, -, haround, hsiblings⟩ :=
    Builder.row_of_spells hs hrange template (Markup.spells_hedge hnested)
      (List.Subset.refl _) hflows .start
  have hstack := Builder.stack_eq_nil_of_around haround rfl
  rw [Builder.siblings, hstack] at hsiblings
  rw [parse_roots]
  refine ⟨n, k, ?_⟩
  have hroots : Node.elements _ = added := hsiblings
  exact hroots ▸ hrow

/-- The places of the elements follow the tree: every element lies inside the one around it, and
siblings stand one behind the other. -/
structure FollowsTree (roots : List Node) : Prop where
  within : Everywhere (fun siblings => ∀ e ∈ Node.elements siblings,
    ∀ c ∈ Node.elements e.children, Within c e) roots
  before : Everywhere (fun siblings => (Node.elements siblings).Pairwise Before) roots

/-- The settings for the web platform, where places are kept. -/
def Settings.placed : Settings :=
  { Settings.base with sourceRange := true }

/-- Where places are kept, all elements of a template have one that is not empty, and lie inside the
elements around them. An element that does not end before the next one begins ends with the start
tag of that one; so the places follow the tree exactly if there is no such element. -/
theorem parse_spans (template : String) :
    Everywhere (fun siblings => ∀ e ∈ Node.elements siblings,
        ∃ p, e.span = some p ∧ p.start < p.stop) (parse .placed template).1 ∧
      Everywhere (fun siblings => ∀ e ∈ Node.elements siblings,
        ∀ c ∈ Node.elements e.children, Within c e) (parse .placed template).1 ∧
      Everywhere (fun siblings => (Node.elements siblings).IsChain fun d e =>
        Before d e ∨ EndsAtStartOf (Markup.tokenize Settings.placed.dialect template) d e)
        (parse .placed template).1 ∧
      (FollowsTree (parse .placed template).1 ↔
        Everywhere (fun siblings => (Node.elements siblings).IsChain fun d e =>
          ¬ EndsAtStartOf (Markup.tokenize Settings.placed.dialect template) d e)
          (parse .placed template).1) := by
  obtain ⟨n, k, hrow⟩ := parse_row (s := .placed) base_onlyTrims rfl template
  have hwithin := hrow.everywhere Row.within
  have hiff := hrow.everywhere Row.pairwise_iff
  refine ⟨hrow.everywhere Row.forward, hwithin, hrow.everywhere Row.neighbours, ?_, ?_⟩
  · exact fun hfollows => hiff.imp (fun h => h.1) hfollows.before
  · exact fun hends => ⟨hwithin, hiff.imp (fun h => h.2) hends⟩

/-- The first paragraph ends behind the start tag of the second one, which closes it. -/
theorem not_followsTree_paragraphs :
    ¬ FollowsTree (parse .placed "<div><p>a<p>b</p></div>").1 := by
  intro hfollows
  have hspans : (Node.elements (parse .placed "<div><p>a<p>b</p></div>").1).map
      (fun e => (Node.elements e.children).map (·.span)) = [[some ⟨5, 12⟩, some ⟨9, 17⟩]] := by
    decide +kernel
  obtain ⟨e, es, hroots, hinside, -⟩ := List.map_eq_cons_iff.1 hspans
  obtain ⟨d, ds, hchildren, hd, hds⟩ := List.map_eq_cons_iff.1 hinside
  obtain ⟨d', ds', rfl, hd', -⟩ := List.map_eq_cons_iff.1 hds
  have he : .element e ∈ (parse .placed "<div><p>a<p>b</p></div>").1 :=
    Node.mem_elements.1 (by simp [hroots])
  have hbefore := (hfollows.before.inside he).here
  rw [hchildren] at hbefore
  obtain ⟨p, q, hp, hq, hle⟩ := (List.pairwise_cons.1 hbefore).1 d' List.mem_cons_self
  cases hd.symm.trans hp
  cases hd'.symm.trans hq
  exact absurd hle (by decide)

end ViewTree.Template
