import ViewTree.Proofs.Template.KeptTexts
/-!
# Preformatted text

The builder counts the open elements in which all blanks count, whatever events it has read
(`Builder.countsPre_run`). So the end of an element inside a preformatted one takes no space away,
and the texts there are kept in the order in which they were read, those of scripts, styles and left
out elements aside. They are all of what was read unless a space is merged into the one in front of
it or a further branch sweeps blanks away silently (`parse_preformatted`).
-/

namespace ViewTree.Template

/-! ## The count of open elements -/

namespace Builder

variable {s : Settings} {b : Builder}

theorem preDepth_close (s : Settings) (b : Builder) (o : OpenNode) (stop : Nat) :
    (close s b o stop).preDepth =
      if s.isPreTag o.element.tag then b.preDepth - 1 else b.preDepth := by
  unfold close
  dsimp only
  split
  · rfl
  · exact (place_spec _ _).1

/-- The builder counts the open elements in which all blanks count. -/
def CountsPre (s : Settings) (b : Builder) : Prop :=
  b.preDepth = b.openTags.countP s.isPreTag

theorem countsPre_step (h : b.CountsPre s) (template : String) (event : Markup.Event) :
    (step s template b event).CountsPre s := by
  have haside (hevent : event.isTag = false)
      (hdepth : (step s template b event).preDepth = b.preDepth) :
      (step s template b event).CountsPre s := by
    rw [CountsPre, openTags_eq_of_around (aside_step b template hevent).1.around, hdepth]
    exact h
  cases event with
  | start tag attrs unary span =>
    obtain ⟨begun, o, hbegins, hstep⟩ := exists_begins s b ⟨tag, attrs⟩ unary span
    have htag : o.element.tag = tag := congrArg ElementOf.tag hbegins.element
    have htags : begun.openTags = b.openTags := congrArg (List.map _) hbegins.stack
    have hrun : step s template b (.start tag attrs unary span) = _ := hstep
    rw [hrun]
    cases unary with
    | true =>
      rw [if_pos rfl, CountsPre, openTags_close, preDepth_close, hbegins.preDepth, htag, htags, ← h]
      split
      · exact Nat.add_sub_cancel _ 1
      · rfl
    | false =>
      have hopened : ({ begun with stack := o :: begun.stack } : Builder).openTags =
          tag :: b.openTags := by
        rw [← htag, ← htags]
        rfl
      rw [if_neg Bool.false_ne_true, CountsPre, hopened, List.countP_cons, ← h]
      refine hbegins.preDepth.trans ?_
      split
      · rfl
      · rfl
  | stop tag span =>
    rw [step, onStop]
    split
    · exact h
    · rename_i o outer hstack
      have hopen : b.openTags = o.element.tag :: outer.map (·.element.tag) := by
        rw [openTags, hstack, List.map_cons]
      rw [CountsPre, openTags_close, preDepth_close, openTags]
      rw [CountsPre, hopen, List.countP_cons] at h
      dsimp only
      rw [h]
      split
      · exact Nat.add_sub_cancel _ 1
      · rfl
  | text t span => exact haside rfl (onText_keeps s b template t).1
  | comment t span =>
    refine haside rfl ?_
    rw [step, onComment]
    split
    · rfl
    · rfl
  | warning w => exact haside rfl rfl

/-- Whatever is read, it is counted how many elements are open in which all blanks count. -/
theorem countsPre_run (s : Settings) (template : String) (events : List Markup.Event) :
    (events.foldl (step s template) .start).CountsPre s := by
  have hrun {b : Builder} (h : b.CountsPre s) : (events.foldl (step s template) b).CountsPre s := by
    induction events generalizing b with
    | nil => exact h
    | cons event events ih => exact ih (countsPre_step h template event)
  exact hrun rfl

end Builder

/-! ## Texts at any depth -/

mutual

/-- The parts of texts that stand of an entry, where `swept` tells that a text would not stand. What
is inside scripts, styles and left out elements is passed over. -/
def Entry.standing (swept : Bool) : Entry → List Part
  | .text _ parts => if swept then [] else parts
  | .comment _ => []
  | .element t _ fate inside =>
    if fate = .kept && !t.holdsCode then standingIn inside else []

/-- The parts of texts that stand of the entries in order. -/
def standingIn : List Entry → List Part
  | [] => []
  | e :: behind => e.standing (sweeps behind) ++ standingIn behind

end

mutual

/-- The texts of an entry that no further branch reports. What is inside scripts, styles and left
out elements is passed over. -/
def Entry.untold (behind : List Entry) : Entry → List String
  | .text t parts => if isTold parts behind then [] else [t]
  | .comment _ => []
  | .element t _ fate inside =>
    if fate = .kept && !t.holdsCode then untoldIn inside else []

/-- The texts of the entries in order that no further branch reports. -/
def untoldIn : List Entry → List String
  | [] => []
  | e :: behind => e.untold behind ++ untoldIn behind

end

namespace Node

mutual

/-- The texts and expressions of a node in document order, without those of scripts and styles. -/
def leaves : Node → List Node
  | element ⟨tag, _, children, _, _, _, _, _, _⟩ =>
    if tag == "script" || tag == "style" then [] else leavesAll children
  | comment _ => []
  | n => [n]

/-- The texts and expressions of several nodes in document order. -/
def leavesAll : List Node → List Node
  | [] => []
  | n :: ns => leaves n ++ leavesAll ns

end

theorem leaves_element (e : Element) :
    (element e).leaves =
      if e.tag == "script" || e.tag == "style" then [] else leavesAll e.children := by
  rw [leaves]

theorem leavesAll_append (ns ms : List Node) :
    leavesAll (ns ++ ms) = leavesAll ns ++ leavesAll ms := by
  induction ns with
  | nil => rfl
  | cons n ns ih => rw [List.cons_append, leavesAll, leavesAll, ih, List.append_assoc]

theorem leavesAll_parts (parts : List Part) :
    leavesAll (parts.map Part.node) = parts.map Part.node := by
  induction parts with
  | nil => rfl
  | cons part parts ih =>
    have hleaf : part.node.leaves = [part.node] := by
      cases part <;> rfl
    rw [List.map_cons, leavesAll, hleaf, ih]
    rfl

end Node

/-- All texts among the entries, and at any depth inside those of their elements that are kept and
no scripts or styles, satisfy the property with what is in front of them and behind them. -/
inductive EachText (P : List Entry → String → List Part → List Entry → Prop) : List Entry → Prop
  | intro {es : List Entry}
      (here : ∀ front text parts behind, es = front ++ .text text parts :: behind →
        P front text parts behind)
      (inside : ∀ t made inner, .element t made .kept inner ∈ es → t.holdsCode = false →
        EachText P inner) : EachText P es

namespace EachText

variable {P Q : List Entry → String → List Part → List Entry → Prop} {es : List Entry}

theorem imp (hPQ : EachText (fun front text parts behind =>
    P front text parts behind → Q front text parts behind) es) (hP : EachText P es) :
    EachText Q es := by
  induction hPQ with
  | intro here _ ih =>
    cases hP with
    | intro hereP insideP =>
      refine .intro (fun front text parts behind hsplit => ?_) fun t made inner hmem hcode => ?_
      · exact here front text parts behind hsplit (hereP front text parts behind hsplit)
      · exact ih t made inner hmem hcode (insideP t made inner hmem hcode)

theorem mono (hPQ : ∀ {front text parts behind}, P front text parts behind →
    Q front text parts behind) (hP : EachText P es) : EachText Q es := by
  induction hP with
  | intro here _ ih =>
    refine .intro (fun front text parts behind hsplit => ?_) ih
    exact hPQ (here front text parts behind hsplit)

theorem congr (hPQ : EachText (fun front text parts behind =>
    (P front text parts behind ↔ Q front text parts behind)) es) :
    EachText P es ↔ EachText Q es :=
  ⟨(hPQ.mono Iff.mp).imp, (hPQ.mono Iff.mpr).imp⟩

/-- Where nothing is asked of what is in front, the first entry is on its own. -/
theorem cons_iff {R : String → List Part → List Entry → Prop} {e : Entry} {behind : List Entry} :
    EachText (fun _ => R) (e :: behind) ↔
      (∀ text parts, e = .text text parts → R text parts behind) ∧
        (∀ t made inner, e = .element t made .kept inner → t.holdsCode = false →
          EachText (fun _ => R) inner) ∧
        EachText (fun _ => R) behind := by
  constructor
  · rintro ⟨here, inside⟩
    refine ⟨fun text parts he => ?_, fun t made inner he => ?_, .intro ?_ ?_⟩
    · exact here [] text parts behind (by rw [he]; rfl)
    · exact inside t made inner (he ▸ List.mem_cons_self)
    · intro front text parts after hsplit
      exact here (e :: front) text parts after (by rw [hsplit]; rfl)
    · exact fun t made inner hmem => inside t made inner (List.mem_cons_of_mem e hmem)
  · rintro ⟨hhere, hinside, ⟨here, inside⟩⟩
    refine .intro (fun front text parts after hsplit => ?_) fun t made inner hmem => ?_
    · rcases List.cons_eq_append_iff.1 hsplit with ⟨-, hfirst⟩ | ⟨front, -, hrest⟩
      · obtain ⟨he, rfl⟩ := List.cons.inj hfirst
        exact hhere text parts he.symm
      · exact here front text parts after hrest
    · rcases List.mem_cons.1 hmem with he | hmem
      · exact hinside t made inner he.symm
      · exact inside t made inner hmem

end EachText

/-! ## What is written of the texts -/

section

variable {s : Settings} {p : Path} {es : List Entry}

/-- The list is part of another one, and it is all of that exactly if the property holds. -/
def IsPartOf (as bs : List Char) (P : Prop) : Prop :=
  as.Sublist bs ∧ (as = bs ↔ P)

theorem IsPartOf.append {as bs cs ds : List Char} {P Q : Prop} (hab : IsPartOf as bs P)
    (hcd : IsPartOf cs ds Q) : IsPartOf (as ++ cs) (bs ++ ds) (P ∧ Q) := by
  refine ⟨hab.1.append hcd.1, fun h => ?_, ?_⟩
  · have hlength := congrArg List.length h
    rw [List.length_append, List.length_append] at hlength
    have hle := hab.1.length_le
    have hle' := hcd.1.length_le
    obtain ⟨has, hcs⟩ := List.append_inj h (by omega)
    exact ⟨hab.2.1 has, hcd.2.1 hcs⟩
  · rintro ⟨hP, hQ⟩
    rw [hab.2.2 hP, hcd.2.2 hQ]

theorem IsPartOf.congr {as bs : List Char} {P Q : Prop} (h : IsPartOf as bs P) (hPQ : P ↔ Q) :
    IsPartOf as bs Q :=
  ⟨h.1, h.2.trans hPQ⟩

theorem isPartOf_nil {P : Prop} (hP : P) : IsPartOf [] [] P :=
  ⟨List.Sublist.refl _, iff_of_true rfl hP⟩

/-- What is left of one text is part of it, if its parts are. A text that is reported has nothing
left. -/
theorem isPartOf_text {text : String} {parts : List Part} (behind : List Entry)
    (h : (parts.flatMap (Part.written s)).Sublist (decodeText text).toList) :
    IsPartOf (((Entry.text text parts).standing (sweeps behind)).flatMap (Part.written s))
      (((Entry.text text parts).untold behind).flatMap fun text => (decodeText text).toList)
      (isTold parts behind = false → IsWhole s false text parts behind) := by
  rw [Entry.standing, Entry.untold, IsWhole, left_false]
  cases htold : isTold parts behind with
  | true =>
    rw [isTold, Bool.and_eq_true] at htold
    rw [htold.1]
    exact isPartOf_nil (by simp)
  | false =>
    simp only [Bool.false_eq_true, if_false, List.flatMap_singleton, forall_const]
    refine ⟨?_, Iff.rfl⟩
    split
    · exact List.nil_sublist _
    · exact h

/-- What is written of the texts that stand is part of the texts that are not reported, and it is
all of them exactly if each of them is left whole. -/
theorem isPartOf_standingIn (h : EachText (fun _ text parts _ =>
      (parts.flatMap (Part.written s)).Sublist (decodeText text).toList) es) :
    IsPartOf ((standingIn es).flatMap (Part.written s))
      ((untoldIn es).flatMap fun text => (decodeText text).toList)
      (EachText (fun _ text parts behind => isTold parts behind = false →
        IsWhole s false text parts behind) es) := by
  induction h with
  | @intro es here inside ih =>
    induction es with
    | nil => exact isPartOf_nil (.intro (by simp) (by simp))
    | cons e behind ihbehind =>
      obtain ⟨hhere, -, ⟨hhere', hinside'⟩⟩ := EachText.cons_iff.1 (.intro here inside)
      have hrest := ihbehind hhere' hinside'
        fun t made inner hmem => ih t made inner (List.mem_cons_of_mem e hmem)
      rw [standingIn, untoldIn, List.flatMap_append, List.flatMap_append, EachText.cons_iff]
      cases e with
      | text text parts =>
        have hall := (isPartOf_text behind (hhere text parts rfl)).append hrest
        simpa using hall
      | comment text =>
        have hall := (isPartOf_nil trivial).append hrest
        simpa [Entry.standing, Entry.untold] using hall
      | element t made fate inner =>
        have hinner : IsPartOf
            (((Entry.element t made fate inner).standing (sweeps behind)).flatMap (Part.written s))
            (((Entry.element t made fate inner).untold behind).flatMap
              fun text => (decodeText text).toList)
            (fate = .kept → t.holdsCode = false → EachText (fun _ text parts behind =>
              isTold parts behind = false → IsWhole s false text parts behind) inner) := by
          rw [Entry.standing, Entry.untold]
          by_cases hkept : fate = .kept ∧ t.holdsCode = false
          · obtain ⟨rfl, hcode⟩ := hkept
            have hclaim := ih t made inner List.mem_cons_self hcode
            simpa [hcode] using hclaim
          · have hskip : (fate = .kept && !t.holdsCode) = false := by
              simpa using hkept
            rw [hskip]
            exact isPartOf_nil fun hfate hcode => absurd ⟨hfate, hcode⟩ hkept
        refine (hinner.append hrest).congr ⟨?_, ?_⟩
        · rintro ⟨hfirst, hrest⟩
          refine ⟨by simp, ?_, hrest⟩
          rintro _ _ _ ⟨⟩
          exact hfirst rfl
        · rintro ⟨-, hfirst, hrest⟩
          refine ⟨?_, hrest⟩
          rintro rfl
          exact hfirst t made inner rfl

/-- Inside a preformatted element, the texts in which something is lost are those merged into a
space in front of them and those swept away silently. -/
theorem eachText_isWhole_iff (h : Throughout (AllMade s) p es) (hdecodes : p.decodes)
    (hpre : 0 < p.preDepth s) :
    EachText (fun _ text parts _ =>
        (parts.flatMap (Part.written s)).Sublist (decodeText text).toList) es ∧
      EachText (fun front text parts behind => (isTold parts behind = false →
          IsWhole s false text parts behind) ↔
        (isTold parts behind = false → isMerged (nodes front) (decodeText text) = false ∧
          (sweeps behind → text = ""))) es := by
  induction h with
  | @intro p es here _ ih =>
    have hwritten {front : List Entry} {text : String} {parts : List Part} {behind : List Entry}
        (hsplit : es = front ++ .text text parts :: behind) :=
      (here front _ behind hsplit).written hdecodes (.inl hpre)
    have hinside {t : OpenTag} {made : Element} {inner : List Entry}
        (hmem : .element t made .kept inner ∈ es) (hcode : t.holdsCode = false) :=
      ih t made .kept inner hmem (by simp [Path.decodes, hcode])
        (Nat.lt_of_lt_of_le hpre (p.preDepth_le_cons s t))
    refine ⟨.intro (fun front text parts behind hsplit => ?_)
      fun t made inner hmem hcode => (hinside hmem hcode).1,
      .intro (fun front text parts behind hsplit => ?_)
      fun t made inner hmem hcode => (hinside hmem hcode).2⟩
    · rw [hwritten hsplit]
      split
      · exact List.nil_sublist _
      · exact List.Sublist.refl _
    · rw [isWhole_iff (hwritten hsplit)]
      simp [isTrimmed, decodeText_eq_empty_iff]

/-- The texts and expressions of a preformatted element are those that stand of the entries
inside. -/
theorem leavesAll_nodes (h : Throughout (AllClosed s) p es) (hpre : 0 < p.preDepth s) :
    Node.leavesAll (nodes es) = (standingIn es).map Part.node := by
  induction h with
  | @intro p es here inside ih =>
    induction es with
    | nil => rfl
    | cons e behind ihbehind =>
      have hrest := ihbehind
        (fun t made fate inner hmem => here t made fate inner (List.mem_cons_of_mem e hmem))
        (fun t made fate inner hmem => inside t made fate inner (List.mem_cons_of_mem e hmem))
        (fun t made fate inner hmem => ih t made fate inner (List.mem_cons_of_mem e hmem))
      rw [standingIn, List.map_append, ← hrest]
      cases e with
      | text text parts =>
        rw [nodes, Node.leavesAll_append, Entry.standing]
        split
        · rfl
        · rw [Node.leavesAll_parts]
      | comment text =>
        rw [nodes, Node.leavesAll_append]
        split
        · rfl
        · rfl
      | element t made fate inner =>
        have hdepth : 0 < Path.preDepth s (t :: p) :=
          Nat.lt_of_lt_of_le hpre (Path.preDepth_le_cons s t p)
        have hinner := ih t made fate inner List.mem_cons_self hdepth
        obtain ⟨htag, hclosed⟩ := here t made fate inner List.mem_cons_self
        have hall : made.children = nodes inner := by
          rw [hclosed, Path.trims, beq_eq_false_iff_ne.2 hdepth.ne', nodesLeft_false]
        have hown : Node.leavesAll (if fate = .kept then [.element made] else []) =
            if fate = .kept && !t.holdsCode then Node.leavesAll (nodes inner) else [] := by
          cases fate with
          | kept =>
            rw [if_pos rfl, Node.leavesAll, Node.leavesAll, List.append_nil, Node.leaves_element,
              htag, hall]
            cases hcode : t.holdsCode with
            | true => exact if_pos hcode
            | false => exact if_neg (Bool.eq_false_iff.1 hcode)
          | stray => rfl
          | dropped => rfl
        rw [nodes, Node.leavesAll_append, hown, Entry.standing, hinner]
        split
        · rfl
        · rfl

end

/-! ## Templates -/

/-- Whatever is read, the builder counts how many preformatted elements are open. In every template,
the texts and expressions of a preformatted element, at any depth but outside of scripts and styles,
are the parts that stand of the texts read inside it; and they are written as those texts, reported
ones aside, exactly if none of these is a space behind a space or is swept away silently. -/
theorem parse_preformatted (template : String) :
    (∀ events : List Markup.Event,
        (events.foldl (Builder.step .base template) .start).CountsPre .base) ∧
      Records .base template (recordOf .base template) ∧
      Throughout (fun _ es => ∀ t made fate inside, .element t made fate inside ∈ es →
        Settings.base.isPreTag t.tag →
          Node.leavesAll made.children = (standingIn inside).map Part.node ∧
          ((standingIn inside).flatMap (Part.written .base) =
              (untoldIn inside).flatMap (fun text => (decodeText text).toList) ↔
            EachText (fun front text parts behind => isTold parts behind = false →
              isMerged (nodes front) (decodeText text) = false ∧
                (sweeps behind → text = "")) inside))
        [] (recordOf .base template) := by
  refine ⟨Builder.countsPre_run .base template, records_recordOf rfl template,
    throughout_record (fun p c => ?_) [] _⟩
  intro t made fate inside hmem htag
  have hpre : 0 < Path.preDepth .base (t :: p) := by
    rw [Path.preDepth_cons, if_pos htag]
    exact Nat.succ_pos _
  have hdecodes : Path.decodes (t :: p) := by
    have hname : t.tag = "pre" := beq_iff_eq.1 htag
    simp [Path.decodes, OpenTag.holdsCode, hname]
  have hmade := (throughout_record (record_made .base) p c).inside hmem
  have hclosed := throughout_record (allClosed_record base_onlyTrims) p c
  obtain ⟨hparts, hwhole⟩ := eachText_isWhole_iff hmade hdecodes hpre
  constructor
  · rw [(hclosed.here t made fate inside hmem).2, Path.trims, beq_eq_false_iff_ne.2 hpre.ne',
      nodesLeft_false]
    exact leavesAll_nodes (hclosed.inside hmem) hpre
  · exact (isPartOf_standingIn hparts).2.trans (EachText.congr hwhole)

/-- The two spaces around a comment that is not kept are one. -/
theorem not_written_spaces :
    ¬ ∀ template, Throughout (fun p es => ∀ t made inside, .element t made .kept inside ∈ es →
      Settings.base.isPreTag t.tag → Path.isRaw (t :: p) = false →
        (standingIn inside).flatMap (Part.written .base) =
          (untoldIn inside).flatMap (fun text => (decodeText text).toList))
      [] (recordOf .base template) := by
  intro hwritten
  let inside : Markup.Content := .text " " ⟨5, 6⟩ (.text " " ⟨13, 14⟩ .nil)
  have hrecord : recordOf .base "<pre> <!----> </pre>" =
      record .base [] [] (.paired "pre" [] ⟨0, 5⟩ inside "pre" ⟨14, 20⟩ .nil) :=
    recordOf_eq (by decide +kernel)
  have hpre := hwritten "<pre> <!----> </pre>"
  rw [hrecord] at hpre
  have hspaces := hpre.here _ _ _ List.mem_cons_self rfl rfl
  revert hspaces
  decide +kernel

end ViewTree.Template
