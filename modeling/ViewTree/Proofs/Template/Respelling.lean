import ViewTree.Proofs.Template.Spelling
import ViewTree.Proofs.Template.Verbatim
/-!
# Templates in another spelling

Two streams of events are respelt if they differ only in how attributes are spelt, and in where
these stand, outside of what is taken as it stands. The builder goes through both alike
(`Builder.alike_run`), so the trees are the same but for the spelling, and the code is the same
(`respelt_sameTree`).
-/

namespace ViewTree.Template

/-- An attribute and the same in another spelling, wherever they stand. Where everything is taken as
it stands, the name is the same. -/
structure SameAttribute (raw : Bool) (m m' : Markup.Attribute) : Prop where
  name : SameSpelling m.name m'.name
  asItStands : raw → m.name = m'.name
  value : m.value = m'.value

/-- A stream of events and the same with attributes in another spelling, inside of the start tags
that are open. -/
inductive Respelt : Path → List Markup.Event → List Markup.Event → Prop
  | nil {p : Path} : Respelt p [] []
  | start {p : Path} {tag : String} {attrs attrs' : List Markup.Attribute} {unary : Bool}
      {span : Markup.Span} {events events' : List Markup.Event}
      (hattrs : List.Forall₂ (SameAttribute (Path.isRaw (⟨tag, attrs⟩ :: p))) attrs attrs')
      (behind : Respelt (if unary then p else ⟨tag, attrs⟩ :: p) events events') :
      Respelt p (.start tag attrs unary span :: events) (.start tag attrs' unary span :: events')
  | stop {p : Path} {tag : String} {span : Markup.Span} {events events' : List Markup.Event}
      (behind : Respelt p.tail events events') :
      Respelt p (.stop tag span :: events) (.stop tag span :: events')
  | aside {p : Path} {event : Markup.Event} {events events' : List Markup.Event}
      (haside : event.isTag = false) (behind : Respelt p events events') :
      Respelt p (event :: events) (event :: events')

/-! ## Attributes -/

theorem SameSpelling.isPre_eq {name name' : String} (h : SameSpelling name name') :
    (name == "v-pre") = (name' == "v-pre") := by
  have hne {front rest : String} (h : ∀ cs, front.toList ++ cs ≠ "v-pre".toList) :
      (front ++ rest == "v-pre") = false := by
    refine beq_eq_false_iff_ne.2 fun heq => h rest.toList ?_
    rw [← String.toList_append, heq]
  cases h with
  | same name => rfl
  | bind name =>
    rw [hne (by simp), hne (by simp)]
  | on name =>
    rw [hne (by simp), hne (by simp)]
  | slot name =>
    rw [hne (by simp), hne (by simp)]

theorem SameAttribute.unspelt_eq {raw : Bool} {m m' : Markup.Attribute}
    (h : SameAttribute raw m m') (s : Settings) :
    (readAs s raw m).unspelt = (readAs s raw m').unspelt := by
  unfold readAs
  dsimp only
  rw [h.value]
  cases raw with
  | true =>
    rw [h.asItStands rfl]
    rfl
  | false => exact classify_sameSpelling h.name m'.value _ _

theorem SameAttribute.isPre_any {raw : Bool} {attrs attrs' : List Markup.Attribute}
    (h : List.Forall₂ (SameAttribute raw) attrs attrs') :
    attrs.any (·.name == "v-pre") = attrs'.any (·.name == "v-pre") := by
  induction h with
  | nil => rfl
  | cons hm _ ih => rw [List.any_cons, List.any_cons, hm.name.isPre_eq, ih]

theorem SameAttribute.read_eq {raw : Bool} {attrs attrs' : List Markup.Attribute}
    (h : List.Forall₂ (SameAttribute raw) attrs attrs') (s : Settings) :
    (Builder.readAttributes s raw [] attrs).1.map Attribute.unspelt =
      (Builder.readAttributes s raw [] attrs').1.map Attribute.unspelt := by
  rw [readAttributes_eq, readAttributes_eq]
  induction h with
  | nil => rfl
  | cons hm _ ih =>
    rw [List.map_cons, List.map_cons, List.map_cons, List.map_cons, ih, hm.unspelt_eq]

/-! ## Siblings -/

section

variable (siblings : List Node) (e : Element)

theorem unspelt_of_not_element {n : Node} (h : n.element? = none) : n.unspelt = n := by
  cases n with
  | element e => cases h
  | text t => rfl
  | interpolation expr => rfl
  | comment t => rfl

theorem isSpace_unspelt (n : Node) : n.unspelt.isSpace = n.isSpace := by
  cases n with
  | element e => rw [unspelt_element]; rfl
  | text t => rfl
  | interpolation expr => rfl
  | comment t => rfl

theorem endInSpace_unspelt : endInSpace (siblings.map Node.unspelt) = endInSpace siblings := by
  rw [endInSpace, List.getLast?_map, Option.any_map, endInSpace]
  simp only [isSpace_unspelt]

theorem dropTrailingSpace_unspelt :
    Builder.dropTrailingSpace (siblings.map Node.unspelt) =
      (Builder.dropTrailingSpace siblings).map Node.unspelt := by
  rw [dropTrailingSpace_eq, dropTrailingSpace_eq, endInSpace_unspelt]
  split
  · exact List.map_dropLast.symm
  · rfl

theorem textNodes_unspelt (s : Settings) (raw : Bool) (shown : String) :
    Builder.textNodes s raw (siblings.map Node.unspelt) shown =
      (Builder.textNodes s raw siblings shown).map Node.unspelt := by
  have hnodes : (Builder.textNodes s raw siblings shown).map Node.unspelt =
      Builder.textNodes s raw siblings shown := by
    refine (List.map_congr_left fun n hn => ?_).trans (List.map_id _)
    exact unspelt_of_not_element (Builder.textNodes_element? s raw siblings shown n hn)
  rw [hnodes, textNodes_eq, textNodes_eq, isMerged, endInSpace_unspelt, isMerged]

theorem dropToElement_unspelt :
    (Builder.dropToElement (siblings.map Node.unspelt)).2 =
      (Builder.dropToElement siblings).2.map Node.unspelt := by
  induction siblings with
  | nil => rfl
  | cons n siblings ih =>
    cases n with
    | element e =>
      rw [List.map_cons, unspelt_element]
      exact congrArg (· :: _) (unspelt_element e).symm
    | text t => exact ih
    | interpolation expr => exact ih
    | comment t => exact ih

theorem canJoin_unspelt :
    Builder.canJoin (siblings.map Node.unspelt) = Builder.canJoin siblings := by
  cases siblings with
  | nil => rfl
  | cons n siblings =>
    cases n with
    | element e =>
      rw [List.map_cons, unspelt_element, Builder.canJoin, hasDirective_unspelt,
        hasDirective_unspelt]
      rfl
    | text t => rfl
    | interpolation expr => rfl
    | comment t => rfl

theorem attach_unspelt :
    (Builder.attach (siblings.map Node.unspelt) e.unspelt).2 =
      (Builder.attach siblings e).2.map Node.unspelt := by
  have hkept := dropToElement_unspelt siblings.reverse
  have hjoin := canJoin_unspelt (Builder.dropToElement siblings.reverse).2
  rw [List.map_reverse] at hkept
  rw [← hkept] at hjoin
  unfold Builder.attach
  rw [isBranch_unspelt]
  dsimp only
  rw [hkept] at hjoin ⊢
  rw [hjoin]
  split
  · split
    · simp [unspelt_element]
    · simp
  · simp [unspelt_element]

theorem isForbidden_unspelt : Builder.isForbidden e.unspelt = Builder.isForbidden e := by
  unfold Builder.isForbidden
  rw [plainAttr?_unspelt]
  cases e.plainAttr? "type" with
  | none => rfl
  | some a => rfl

theorem lift_unspelt (kind : AttrKind) (name key : String) (f : String → String) :
    lift kind name key f e.unspelt = (lift kind name key f e).unspelt := by
  unfold lift ElementOf.takeAttr?
  rw [attr?_unspelt]
  cases e.attr? kind name with
  | none => rfl
  | some a =>
    have hattrs : e.unspelt.attrs.eraseP (·.isNamed kind name) =
        (e.attrs.eraseP (·.isNamed kind name)).map Attribute.unspelt :=
      List.eraseP_map ..
    simp only [Option.map_some, hattrs]
    rfl

theorem finish_unspelt {s : Settings} (hs : s.extensions = Settings.base.extensions)
    (preDepth stop : Nat) :
    Builder.finish s preDepth e.unspelt stop = (Builder.finish s preDepth e stop).unspelt := by
  have hchildren : (if preDepth = 0 then Builder.dropTrailingSpace e.unspelt.children
        else e.unspelt.children) =
      (if preDepth = 0 then Builder.dropTrailingSpace e.children else e.children).map
        Node.unspelt := by
    split
    · exact dropTrailingSpace_unspelt e.children
    · rfl
  have htrimmed : { e.unspelt with
        children := (if preDepth = 0 then Builder.dropTrailingSpace e.children
          else e.children).map Node.unspelt
        span := e.unspelt.span.map fun span => ⟨span.start, stop⟩ } =
      ({ e with
        children := if preDepth = 0 then Builder.dropTrailingSpace e.children else e.children
        span := e.span.map fun span => ⟨span.start, stop⟩ } : Element).unspelt :=
    rfl
  unfold Builder.finish
  dsimp only
  rw [hs, hchildren, htrimmed]
  simp only [Settings.base, List.foldl_cons, List.foldl_nil, classExtension, styleExtension,
    lift_unspelt]

end

/-! ## The builder -/

/-- Which of the start tags are the outermost ones to take everything as it stands. -/
def Path.opensPre : Path → List Bool
  | [] => []
  | t :: outer => (!isRaw outer && t.attrs.any (·.name == "v-pre")) :: opensPre outer

/-- The open element without the spelling of its attributes. -/
def OpenNode.unspelt (o : OpenNode) : OpenNode :=
  { o with element := o.element.unspelt }

namespace Builder

/-- The builders are the same but for how attributes are spelt and what they have told. -/
structure Alike (b b' : Builder) : Prop where
  stack : b.stack.map OpenNode.unspelt = b'.stack.map OpenNode.unspelt
  roots : b.roots.map Node.unspelt = b'.roots.map Node.unspelt
  preDepth : b.preDepth = b'.preDepth
  inPre : b.inPre = b'.inPre

/-- The builder knows whether everything is to be taken as it stands inside the open start tags. -/
structure Knows (p : Path) (b : Builder) : Prop where
  opensPre : b.stack.map (·.opensPre) = p.opensPre
  inPre : b.inPre = p.isRaw

variable {s : Settings} {b b' c c' : Builder} {p : Path}

theorem alike_refl (b : Builder) : Alike b b :=
  ⟨rfl, rfl, rfl, rfl⟩

theorem Alike.tells (h : Alike b b') (hc : OnlyTells b c) (hc' : OnlyTells b' c') : Alike c c' :=
  ⟨by rw [hc.stack, hc'.stack, h.stack], by rw [hc.roots, hc'.roots, h.roots],
    by rw [hc.preDepth, hc'.preDepth, h.preDepth], by rw [hc.inPre, hc'.inPre, h.inPre]⟩

/-- Both builders are outside of all elements, or inside of alike ones. -/
theorem Alike.stack_cases (h : Alike b b') :
    b.stack = [] ∧ b'.stack = [] ∨
      ∃ o outer o' outer', b.stack = o :: outer ∧ b'.stack = o' :: outer' ∧
        o.unspelt = o'.unspelt ∧ outer.map OpenNode.unspelt = outer'.map OpenNode.unspelt := by
  have hstack := h.stack
  cases hb : b.stack with
  | nil =>
    rw [hb, List.map_nil, eq_comm, List.map_eq_nil_iff] at hstack
    exact .inl ⟨rfl, hstack⟩
  | cons o outer =>
    rw [hb, List.map_cons, eq_comm, List.map_eq_cons_iff] at hstack
    obtain ⟨o', outer', hb', ho, houter⟩ := hstack
    exact .inr ⟨o, outer, o', outer', rfl, hb', ho.symm, houter.symm⟩

theorem alike_withChildren (h : Alike b b') {o o' : OpenNode} {outer outer' : List OpenNode}
    (ho : o.unspelt = o'.unspelt)
    (houter : outer.map OpenNode.unspelt = outer'.map OpenNode.unspelt)
    {children children' : List Node}
    (hchildren : children.map Node.unspelt = children'.map Node.unspelt) :
    Alike { b with stack := o.withChildren children :: outer }
      { b' with stack := o'.withChildren children' :: outer' } := by
  refine ⟨?_, h.roots, h.preDepth, h.inPre⟩
  have hwith (o : OpenNode) (children : List Node) : (o.withChildren children).unspelt =
      o.unspelt.withChildren (children.map Node.unspelt) := rfl
  rw [List.map_cons, List.map_cons, hwith, hwith, ho, hchildren, houter]

theorem children_of_unspelt {o o' : OpenNode} (h : o.unspelt = o'.unspelt) :
    o.element.children.map Node.unspelt = o'.element.children.map Node.unspelt :=
  congrArg (fun o => o.element.children) h

theorem place_outside (hstack : b.stack = []) (e : Element) :
    OnlyTells { b with roots := (attach b.roots e).2 } (b.place e) := by
  unfold place
  rw [hstack]
  exact onlyTells_reportAll _ _

theorem place_inside {o : OpenNode} {outer : List OpenNode} (hstack : b.stack = o :: outer)
    (e : Element) :
    OnlyTells { b with stack := o.withChildren (attach o.element.children e).2 :: outer }
      (b.place e) := by
  unfold place
  rw [hstack]
  exact onlyTells_reportAll _ _

theorem alike_place (h : Alike b b') {e e' : Element} (he : e.unspelt = e'.unspelt) :
    Alike (b.place e) (b'.place e') := by
  have hattach {siblings siblings' : List Node}
      (hsiblings : siblings.map Node.unspelt = siblings'.map Node.unspelt) :
      (attach siblings e).2.map Node.unspelt = (attach siblings' e').2.map Node.unspelt := by
    rw [← attach_unspelt, ← attach_unspelt, hsiblings, he]
  obtain ⟨hb, hb'⟩ | ⟨o, outer, o', outer', hb, hb', ho, houter⟩ := h.stack_cases
  · have hroots : Alike { b with roots := (attach b.roots e).2 }
        { b' with roots := (attach b'.roots e').2 } :=
      ⟨h.stack, hattach h.roots, h.preDepth, h.inPre⟩
    exact hroots.tells (place_outside hb e) (place_outside hb' e')
  · have hchildren := alike_withChildren h ho houter (hattach (children_of_unspelt ho))
    exact hchildren.tells (place_inside hb e) (place_inside hb' e')

theorem alike_close (hs : s.extensions = Settings.base.extensions) (h : Alike b b')
    {o o' : OpenNode} (ho : o.unspelt = o'.unspelt) (stop : Nat) :
    Alike (close s b o stop) (close s b' o' stop) := by
  obtain ⟨helement, hdropped, hopens⟩ := OpenNode.mk.inj ho
  have htag : o.element.tag = o'.element.tag := congrArg (fun o => o.element.tag) ho
  have hfinish : (finish s b.preDepth o.element stop).unspelt =
      (finish s b'.preDepth o'.element stop).unspelt := by
    rw [← finish_unspelt _ hs, ← finish_unspelt _ hs, helement, h.preDepth]
  have hleft : Alike
      { b with
        preDepth := if s.isPreTag o.element.tag then b.preDepth - 1 else b.preDepth
        inPre := b.inPre && !o.opensPre }
      { b' with
        preDepth := if s.isPreTag o'.element.tag then b'.preDepth - 1 else b'.preDepth
        inPre := b'.inPre && !o'.opensPre } :=
    ⟨h.stack, h.roots, by rw [htag, h.preDepth], by rw [h.inPre, hopens]⟩
  unfold close
  dsimp only
  rw [hdropped]
  split
  · exact hleft
  · exact alike_place hleft hfinish

/-- Alike start tags open alike elements. -/
theorem alike_begins (h : Alike b b') {tag : String} {attrs attrs' : List Markup.Attribute}
    (hattrs : List.Forall₂ (SameAttribute (b.inPre || attrs.any (·.name == "v-pre"))) attrs attrs')
    {unary : Bool} {span : Markup.Span} {begun begun' : Builder} {o o' : OpenNode}
    (hbegins : Begins s ⟨tag, attrs⟩ unary span b begun o)
    (hbegins' : Begins s ⟨tag, attrs'⟩ unary span b' begun' o') :
    Alike begun begun' ∧ o.unspelt = o'.unspelt := by
  have hpre := SameAttribute.isPre_any hattrs
  have hinPre : begun.inPre = begun'.inPre := by
    rw [hbegins.inPre, hbegins'.inPre, h.inPre, hpre]
  have hread : (readAttributes s begun.inPre [] attrs).1.map Attribute.unspelt =
      (readAttributes s begun'.inPre [] attrs').1.map Attribute.unspelt := by
    rw [← hinPre, hbegins.inPre]
    exact SameAttribute.read_eq hattrs s
  have hns : b.stack.head?.bind (·.element.ns) = b'.stack.head?.bind (·.element.ns) := by
    obtain ⟨hb, hb'⟩ | ⟨o, outer, o', outer', hb, hb', ho, -⟩ := h.stack_cases
    · rw [hb, hb']
    · rw [hb, hb']
      exact congrArg (fun o => o.element.ns) ho
  have helement : o.element.unspelt = o'.element.unspelt := by
    rw [hbegins.element, hbegins'.element, hns]
    unfold ElementOf.unspelt
    dsimp only
    rw [hread]
  have hstack : b.stack.isEmpty = b'.stack.isEmpty := by
    rw [← List.isEmpty_map, h.stack, List.isEmpty_map]
  have hroots : b.roots.isEmpty = b'.roots.isEmpty := by
    rw [← List.isEmpty_map, h.roots, List.isEmpty_map]
  have hdropped : o.dropped = o'.dropped := by
    rw [hbegins.dropped, hbegins'.dropped, hstack, hroots, ← isForbidden_unspelt o.element,
      ← isBranch_unspelt o.element, helement, isForbidden_unspelt, isBranch_unspelt]
  have hopens : o.opensPre = o'.opensPre := by
    rw [hbegins.opensPre, hbegins'.opensPre, h.inPre, hpre]
  refine ⟨⟨?_, ?_, ?_, hinPre⟩, ?_⟩
  · rw [hbegins.stack, hbegins'.stack, h.stack]
  · rw [hbegins.roots, hbegins'.roots, h.roots]
  · rw [hbegins.preDepth, hbegins'.preDepth, h.preDepth]
  · unfold OpenNode.unspelt
    rw [helement, hdropped, hopens]

/-- Alike builders go on alike with a start tag in another spelling. -/
theorem alike_onStart (hs : s.extensions = Settings.base.extensions) (h : Alike b b') (tag : String)
    {attrs attrs' : List Markup.Attribute}
    (hattrs : List.Forall₂ (SameAttribute (b.inPre || attrs.any (·.name == "v-pre"))) attrs attrs')
    (unary : Bool) (span : Markup.Span) :
    Alike (onStart s b tag attrs unary span) (onStart s b' tag attrs' unary span) := by
  obtain ⟨begun, o, hbegins, hstep⟩ := exists_begins s b ⟨tag, attrs⟩ unary span
  obtain ⟨begun', o', hbegins', hstep'⟩ := exists_begins s b' ⟨tag, attrs'⟩ unary span
  obtain ⟨hbegun, ho⟩ := alike_begins h hattrs hbegins hbegins'
  rw [hstep, hstep']
  split
  · exact alike_close hs hbegun ho span.stop
  · refine ⟨?_, hbegun.roots, hbegun.preDepth, hbegun.inPre⟩
    rw [List.map_cons, List.map_cons, ho, hbegun.stack]

theorem alike_onStop (hs : s.extensions = Settings.base.extensions) (h : Alike b b') (stop : Nat) :
    Alike (onStop s b stop) (onStop s b' stop) := by
  unfold onStop
  obtain ⟨hb, hb'⟩ | ⟨o, outer, o', outer', hb, hb', ho, houter⟩ := h.stack_cases
  · rw [hb, hb']
    exact h
  · rw [hb, hb']
    have hleft : Alike { b with stack := outer } { b' with stack := outer' } :=
      ⟨houter, h.roots, h.preDepth, h.inPre⟩
    exact alike_close hs hleft ho stop

/-- What is added behind the children of the innermost open elements keeps the builders alike. -/
theorem alike_added (h : Alike b b') {o o' : OpenNode} {outer outer' : List OpenNode}
    (ho : o.unspelt = o'.unspelt)
    (houter : outer.map OpenNode.unspelt = outer'.map OpenNode.unspelt)
    {added added' : List Node} (hadded : added.map Node.unspelt = added'.map Node.unspelt) :
    Alike { b with stack := o.withChildren (o.element.children ++ added) :: outer }
      { b' with stack := o'.withChildren (o'.element.children ++ added') :: outer' } := by
  refine alike_withChildren h ho houter ?_
  rw [List.map_append, List.map_append, children_of_unspelt ho, hadded]

theorem shownText?_congr {o o' : OpenNode} (ho : o.unspelt = o'.unspelt) (preDepth : Nat)
    (text : String) :
    shownText? preDepth o.element text = shownText? preDepth o'.element text := by
  have htag : o.element.tag = o'.element.tag := congrArg (fun o => o.element.tag) ho
  have hempty : o.element.children.isEmpty = o'.element.children.isEmpty := by
    rw [← List.isEmpty_map, children_of_unspelt ho, List.isEmpty_map]
  unfold shownText?
  rw [htag, hempty]

theorem alike_onText (h : Alike b b') (template template' text : String) :
    Alike (onText s template b text) (onText s template' b' text) := by
  have houter (template : String) (b : Builder) : OnlyTells b (outerText template b text) := by
    unfold outerText
    split
    · exact ⟨rfl, rfl, rfl, rfl, List.subset_cons_self _ _⟩
    · split
      · exact .refl b
      · exact onlyTells_report b _
  unfold onText
  obtain ⟨hb, hb'⟩ | ⟨o, outer, o', outer', hb, hb', ho, houter⟩ := h.stack_cases
  · rw [hb, hb']
    exact h.tells (houter template b) (houter template' b')
  · have hnodes (shown : String) :
        (textNodes s b.inPre o.element.children shown).map Node.unspelt =
          (textNodes s b'.inPre o'.element.children shown).map Node.unspelt := by
      rw [← textNodes_unspelt, ← textNodes_unspelt, children_of_unspelt ho, h.inPre]
    have hshown : shownText? b'.preDepth o'.element text =
        shownText? b.preDepth o.element text := by
      rw [h.preDepth, shownText?_congr ho]
    rw [hb, hb']
    dsimp only
    rw [hshown]
    split
    · exact h
    · exact alike_added h ho houter (hnodes _)

theorem alike_onComment (h : Alike b b') (text : String) :
    Alike (b.onComment text) (b'.onComment text) := by
  unfold onComment
  obtain ⟨hb, hb'⟩ | ⟨o, outer, o', outer', hb, hb', ho, houter⟩ := h.stack_cases
  · rw [hb, hb']
    exact h
  · rw [hb, hb']
    exact alike_added h ho houter rfl

theorem alike_aside (h : Alike b b') (template template' : String) {event : Markup.Event}
    (haside : event.isTag = false) :
    Alike (step s template b event) (step s template' b' event) := by
  cases event with
  | start tag attrs unary span => cases haside
  | stop tag span => cases haside
  | text t span => exact alike_onText h template template' t
  | comment t span => exact alike_onComment h t
  | warning w => exact h.tells (onlyTells_report b _) (onlyTells_report b' _)

/-! ## What is taken as it stands -/

theorem knows_start : Knows [] start :=
  ⟨rfl, rfl⟩

/-- What goes on at the same place takes things as they stand there. -/
theorem Knows.continues (h : Knows p b) (hc : Continues b c) : Knows p c := by
  refine ⟨?_, hc.inPre.trans h.inPre⟩
  rw [← h.opensPre]
  cases hstack : b.stack with
  | nil => rw [stack_eq_nil_of_around hc.around hstack]
  | cons o outer =>
    obtain ⟨children, hc', -⟩ := exists_children_of_around hc.around hstack
    rw [hc']
    rfl

theorem Knows.begins (h : Knows p b) {t : OpenTag} {unary : Bool} {span : Markup.Span}
    {begun : Builder} {o : OpenNode} (hbegins : Begins s t unary span b begun o) :
    Knows (t :: p) { begun with stack := o :: begun.stack } := by
  constructor
  · rw [List.map_cons, hbegins.stack, h.opensPre, hbegins.opensPre, h.inPre]
    rfl
  · rw [hbegins.inPre, h.inPre, Bool.or_comm]
    rfl

theorem Knows.close {t : OpenTag} {o : OpenNode}
    (h : Knows (t :: p) { b with stack := o :: b.stack }) (stop : Nat) :
    Knows p (close s b o stop) := by
  obtain ⟨hopens, houter⟩ := List.cons.inj h.opensPre
  have hopens : o.opensPre = (!Path.isRaw p && t.attrs.any (·.name == "v-pre")) := hopens
  have hinPre : (b.inPre && !o.opensPre) = p.isRaw := by
    have hraw : b.inPre = (t.attrs.any (·.name == "v-pre") || p.isRaw) := h.inPre
    rw [hraw, hopens]
    cases Path.isRaw p
    · cases t.attrs.any (·.name == "v-pre") <;> rfl
    · cases t.attrs.any (·.name == "v-pre") <;> rfl
  have hleft : Knows p { b with
      preDepth := if s.isPreTag o.element.tag then b.preDepth - 1 else b.preDepth
      inPre := b.inPre && !o.opensPre } :=
    ⟨houter, hinPre⟩
  unfold Builder.close
  dsimp only
  split
  · exact hleft
  · exact hleft.continues (continues_place _ _)

theorem Knows.onStart (h : Knows p b) (tag : String) (attrs : List Markup.Attribute) (unary : Bool)
    (span : Markup.Span) :
    Knows (if unary then p else ⟨tag, attrs⟩ :: p) (onStart s b tag attrs unary span) := by
  obtain ⟨begun, o, hbegins, hstep⟩ := exists_begins s b ⟨tag, attrs⟩ unary span
  have hopened := h.begins hbegins
  rw [hstep]
  cases unary with
  | true => exact hopened.close span.stop
  | false => exact hopened

theorem Knows.onStop (h : Knows p b) (stop : Nat) : Knows p.tail (onStop s b stop) := by
  unfold Builder.onStop
  have hopens := h.opensPre
  cases p with
  | nil =>
    rw [List.map_eq_nil_iff.1 hopens]
    exact h
  | cons t outer =>
    obtain ⟨o, rest, hb, -, -⟩ := List.map_eq_cons_iff.1 hopens
    rw [hb]
    refine Knows.close (t := t) ?_ stop
    rw [← hb]
    exact h

/-! ## A run -/

/-- Builders that are alike stay so, whatever they read in different spellings. -/
theorem alike_run (hs : s.extensions = Settings.base.extensions) (template template' : String)
    {events events' : List Markup.Event} (hevents : Respelt p events events') (h : Alike b b')
    (hb : Knows p b) :
    Alike (events.foldl (step s template) b) (events'.foldl (step s template') b') := by
  induction hevents generalizing b b' with
  | nil => exact h
  | @start p tag attrs attrs' unary span events events' hattrs _ ih =>
    have hraw : Path.isRaw (⟨tag, attrs⟩ :: p) = (b.inPre || attrs.any (·.name == "v-pre")) := by
      rw [hb.inPre, Bool.or_comm]
      rfl
    rw [hraw] at hattrs
    exact ih (alike_onStart hs h tag hattrs unary span) (hb.onStart tag attrs unary span)
  | @stop p tag span events events' _ ih =>
    exact ih (alike_onStop hs h span.stop) (hb.onStop span.stop)
  | aside haside _ ih =>
    exact ih (alike_aside h template template' haside)
      (hb.continues (aside_step _ template haside).1)

end Builder

/-- Whatever a template's events are, in another spelling they give the same tree, but for the names
of attributes as they are written and their places; and the same functions are generated for the
platform, of the tree as it is built and of the tree with its static parts marked. -/
theorem respelt_sameTree {s : Settings} (hs : s.extensions = Settings.base.extensions)
    (template template' : String) {events events' : List Markup.Event}
    (h : Respelt [] events events') :
    let roots := (events.foldl (Builder.step s template) .start).roots
    let roots' := (events'.foldl (Builder.step s template') .start).roots
    roots.map Node.unspelt = roots'.map Node.unspelt ∧
      ∀ prepare ∈ [id, optimize s],
        (generateCode .base (prepare roots)).1.render =
            (generateCode .base (prepare roots')).1.render ∧
          (generateCode .base (prepare roots)).1.staticRenderFns =
            (generateCode .base (prepare roots')).1.staticRenderFns := by
  intro roots roots'
  have hroots : roots.map Node.unspelt = roots'.map Node.unspelt :=
    (Builder.alike_run hs template template' h (Builder.alike_refl _) Builder.knows_start).roots
  have hcode {nodes nodes' : List Node}
      (hnodes : nodes.map Node.unspelt = nodes'.map Node.unspelt) :
      generateCode .base nodes = generateCode .base nodes' := by
    rw [← generateCode_unspelt nodes, hnodes, generateCode_unspelt]
  refine ⟨hroots, fun prepare hprepare => ?_⟩
  have hprepared : generateCode .base (prepare roots) = generateCode .base (prepare roots') := by
    rcases List.mem_pair.1 hprepare with rfl | rfl
    · exact hcode hroots
    · refine hcode ?_
      rw [← optimize_unspelt, ← optimize_unspelt, hroots]
  rw [hprepared]
  exact ⟨rfl, rfl⟩

/-- A modifier, a colon in the name of an event and a slot without a name, each in both spellings;
the binding inside of what is taken as it stands is a plain attribute. -/
theorem respelt_sameTree_paragraph :
    let events := fun bind on slot : String =>
      [.start "p" [⟨bind, "x", ⟨3, 9⟩⟩, ⟨on, "y", ⟨10, 16⟩⟩, ⟨slot, "", ⟨17, 18⟩⟩] false ⟨0, 19⟩,
        .start "b" [⟨"v-pre", "", ⟨22, 27⟩⟩, ⟨":e", "f", ⟨28, 32⟩⟩] true ⟨19, 35⟩,
        Markup.Event.stop "p" ⟨35, 39⟩]
    let short := events ":a.b" "@c:d" "#"
    let long := events "v-bind:a.b" "v-on:c:d" "v-slot:"
    let roots := (short.foldl (Builder.step .base "") .start).roots
    let roots' := (long.foldl (Builder.step .base "") .start).roots
    (Settings.base.extensions = Settings.base.extensions ∧ Respelt [] short long) ∧
      roots.map Node.unspelt = roots'.map Node.unspelt ∧
      ∃ e, roots' = [.element e] ∧
        e.attrs.map (fun a => (a.kind, a.name, a.arg, a.modifiers)) =
          [(.bind, "a", none, ["b"]), (.on, "c:d", none, []),
            (.directive, "slot", some "", [])] := by
  intro events short long roots roots'
  have hrespelt : Respelt [] short long := by
    refine .start (.cons ?_ (.cons ?_ (.cons ?_ .nil))) (.start ?_ (.stop .nil))
    · exact ⟨.bind "a.b", by decide, rfl⟩
    · exact ⟨.on "c:d", by decide, rfl⟩
    · exact ⟨.slot "", by decide, rfl⟩
    · exact .cons ⟨.same _, fun _ => rfl, rfl⟩ (.cons ⟨.same _, fun _ => rfl, rfl⟩ .nil)
  exact ⟨⟨rfl, hrespelt⟩, (respelt_sameTree rfl "" "" hrespelt).1, _, rfl, by decide +kernel⟩

end ViewTree.Template
