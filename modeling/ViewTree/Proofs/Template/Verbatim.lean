import ViewTree.Proofs.Template.Recording
/-!
# What is taken as it stands

Inside an element that says so, and in its own start tag, all attributes are plain and no text is
split into expressions. Everywhere else attributes are classified and texts are split, whatever such
elements come before (`parse_verbatim`): an entry depends on the start tags that are open around it
and on what is in front of it there, and on nothing that has been closed before.
-/

namespace ViewTree.Template

/-- How an attribute is read: as it stands, or by its kind. -/
def readAs (s : Settings) (raw : Bool) (m : Markup.Attribute) : Attribute :=
  let span := if s.sourceRange then some m.span else none
  if raw then .ofPlain m.name m.value span else .classify m.name m.value span

/-- The attributes without those that the extensions of the platform take out: of each of these
kinds and names the first one. -/
def unlifted (attrs : List Attribute) : List Attribute :=
  [(AttrKind.plain, "class"), (.bind, "class"), (.plain, "style"), (.bind, "style")].foldl
    (fun attrs named => attrs.eraseP (·.isNamed named.1 named.2)) attrs

/-- A node that is an expression. -/
def Node.isInterpolation : Node → Bool
  | .interpolation _ => true
  | _ => false

/-! ## Attributes -/

theorem readAttributes_eq (s : Settings) (raw : Bool) (seen : List String)
    (attrs : List Markup.Attribute) :
    (Builder.readAttributes s raw seen attrs).1 = attrs.map (readAs s raw) := by
  have hone (m : Markup.Attribute) : (Builder.readAttribute s raw m).1 = readAs s raw m := by
    unfold Builder.readAttribute readAs
    generalize (if s.sourceRange then some m.span else none) = span
    cases raw with
    | true => rfl
    | false =>
      dsimp only
      rw [if_neg Bool.false_ne_true, if_neg Bool.false_ne_true]
      split
      · rfl
      · rfl
  induction attrs generalizing seen with
  | nil => rfl
  | cons m attrs ih => exact congr (congrArg List.cons (hone m)) (ih (m.name :: seen))

theorem lift_attrs (kind : AttrKind) (name key : String) (f : String → String) (e : Element) :
    (lift kind name key f e).attrs = e.attrs.eraseP (·.isNamed kind name) := by
  unfold lift ElementOf.takeAttr?
  cases hfound : e.attr? kind name with
  | some a => rfl
  | none =>
    rw [ElementOf.attr?, List.find?_eq_none] at hfound
    exact (List.eraseP_of_forall_not hfound).symm

/-- Where the extensions are those of the platform, an element loses those attributes that they take
out. -/
theorem finish_attrs {s : Settings} (hs : s.extensions = Settings.base.extensions)
    (preDepth : Nat) (e : Element) (stop : Nat) :
    (Builder.finish s preDepth e stop).attrs = unlifted e.attrs := by
  unfold Builder.finish
  rw [hs]
  simp [Settings.base, classExtension, styleExtension, lift_attrs, unlifted]

/-- The attributes of an element in a record are those of its start tag. -/
theorem attrs_record {s : Settings} (hs : s.extensions = Settings.base.extensions) (p : Path)
    (c : Markup.Content) {t : OpenTag} {made : Element} {fate : Fate} {inside : List Entry}
    (hmem : .element t made fate inside ∈ record s p [] c) :
    made.attrs = unlifted (t.attrs.map (readAs s (Path.isRaw (t :: p)))) := by
  obtain ⟨front, behind, hsplit⟩ := List.append_of_mem hmem
  obtain ⟨unary, span, stop, hmade⟩ := record_made s p c front _ behind hsplit
  cases hmade
  rw [finish_attrs hs, ← readAttributes_eq s _ []]
  rfl

theorem unlifted_subset (attrs : List Attribute) : unlifted attrs ⊆ attrs := by
  have h (named : AttrKind × String) (attrs : List Attribute) :
      attrs.eraseP (·.isNamed named.1 named.2) ⊆ attrs := List.eraseP_subset
  exact List.Subset.trans (h _ _) (List.Subset.trans (h _ _) (List.Subset.trans (h _ _) (h _ _)))

/-! ## Texts -/

theorem splitInterpolations_space (opening closing : String) :
    splitInterpolations " " opening closing = none := by
  unfold splitInterpolations
  dsimp only
  split
  · rfl
  · rename_i hempty
    simp only [Bool.or_eq_true, List.isEmpty_iff, not_or] at hempty
    refine if_neg fun hsome => ?_
    obtain ⟨⟨before, inner, after⟩, hfound⟩ := Option.isSome_iff_exists.1 hsome
    have hlength := congrArg List.length (interpolation?_eq_some hfound)
    have hopening := List.length_pos_iff.2 hempty.1
    have hclosing := List.length_pos_iff.2 hempty.2
    have hspace : " ".toList.length = 1 := rfl
    simp only [List.length_append] at hlength
    omega

/-- Where texts are split, one that is not blank becomes what it is split into. -/
theorem Made.split {s : Settings} {t : OpenTag} {outer : Path} {siblings : List Node}
    {text : String} {parts : List Part} (h : Made s (t :: outer) siblings (.text text parts))
    (hraw : Path.isRaw (t :: outer) = false) (hblank : Text.allBlank text = false) :
    parts.map Part.node =
      (splitInterpolations (t.shows text) s.delimiterPair.1 s.delimiterPair.2).getD
        (if isMerged siblings (t.shows text) then [] else [.text (t.shows text)]) := by
  have hparts : parts = shownParts s false siblings (t.shows text) := by
    rw [h, textParts, Path.shown?_cons (.inr hblank), hraw]
  rw [hparts, shownParts_node, textNodes_eq, Bool.false_or]
  split
  · rename_i hspace
    rw [beq_iff_eq.1 hspace, splitInterpolations_space]
  · rfl

/-- Where everything is taken as it stands, no part of a text is an expression. -/
theorem Made.raw {s : Settings} {p : Path} {siblings : List Node} {text : String}
    {parts : List Part} (h : Made s p siblings (.text text parts)) (hraw : p.isRaw) :
    ∀ part ∈ parts, part.node.isInterpolation = false := by
  rw [h, textParts, hraw]
  split
  · unfold shownParts
    dsimp only
    rw [if_neg (by simp)]
    split
    · exact List.forall_mem_nil _
    · exact List.forall_mem_singleton.2 rfl
  · exact List.forall_mem_nil _

/-! ## Elements -/

/-- Where everything is taken as it stands, there is no expression at any depth. -/
theorem noInterpolation {s : Settings} {p : Path} {es : List Entry}
    (hclosed : Throughout (AllClosed s) p es) (hmade : Throughout (AllMade s) p es)
    (hraw : p.isRaw) (trims : Bool) :
    Everywhere (fun siblings => ∀ n ∈ siblings, n.isInterpolation = false)
      (nodesLeft trims es) := by
  induction hclosed generalizing trims with
  | @intro p es here _ ih =>
    refine .intro (fun n hn => ?_) fun e he => ?_
    · obtain ⟨x, hx, hn⟩ := exists_of_mem_nodesLeft hn
      cases x with
      | text text parts =>
        obtain ⟨front, behind, hsplit⟩ := List.append_of_mem hx
        obtain ⟨part, hpart, rfl⟩ := List.mem_map.1 hn
        exact (hmade.here front _ behind hsplit).raw hraw part hpart
      | comment text =>
        rw [List.mem_singleton.1 hn]
        rfl
      | element t made fate inside =>
        obtain ⟨-, hn⟩ := List.mem_ite_nil_right.1 hn
        rw [List.mem_singleton.1 hn]
        rfl
    · obtain ⟨x, hx, he⟩ := exists_of_mem_nodesLeft he
      cases x with
      | text text parts =>
        obtain ⟨part, -, hnode⟩ := List.mem_map.1 he
        cases part <;> cases hnode
      | comment text => cases List.mem_singleton.1 he
      | element t made fate inside =>
        obtain ⟨-, he⟩ := List.mem_ite_nil_right.1 he
        cases List.mem_singleton.1 he
        rw [(here t e fate inside hx).2]
        refine ih t e fate inside hx (hmade.inside hx) ?_ _
        rw [Path.isRaw, List.any_cons, ← Path.isRaw, hraw, Bool.or_true]

/-- In every template, an element that has everything taken as it stands, or is inside of one, has
only plain attributes with the names as they are written, and no expression is inside it. All other
elements have their attributes classified, and the texts inside them that are not blank are split,
whatever else is there. -/
theorem parse_verbatim {s : Settings} (hs : s.extensions = Settings.base.extensions)
    (template : String) :
    Records s template (recordOf s template) ∧
      Throughout (fun p es =>
        (∀ t made fate inside, .element t made fate inside ∈ es →
          made.attrs = unlifted (t.attrs.map (readAs s (Path.isRaw (t :: p)))) ∧
          (Path.isRaw (t :: p) →
            (∀ a ∈ made.attrs, a.kind = .plain ∧
              ∃ m ∈ t.attrs, a.name = m.name ∧ a.rawName = m.name) ∧
            Everywhere (fun siblings => ∀ n ∈ siblings, n.isInterpolation = false)
              made.children)) ∧
        ∀ t outer, p = t :: outer → p.isRaw = false →
          ∀ front text parts behind, es = front ++ .text text parts :: behind →
            Text.allBlank text = false →
              parts.map Part.node =
                (splitInterpolations (t.shows text) s.delimiterPair.1 s.delimiterPair.2).getD
                  (if isMerged (nodes front) (t.shows text) then [] else [.text (t.shows text)]))
        [] (recordOf s template) := by
  have htrims : s.OnlyTrims := by
    rw [Settings.OnlyTrims, hs]
    exact base_onlyTrims
  refine ⟨records_recordOf hs template, throughout_record (fun p c => ⟨?_, ?_⟩) [] _⟩
  · intro t made fate inside hmem
    have hattrs := attrs_record hs p c hmem
    refine ⟨hattrs, fun hraw => ⟨fun a ha => ?_, ?_⟩⟩
    · rw [hattrs, hraw] at ha
      obtain ⟨m, hm, rfl⟩ := List.mem_map.1 (unlifted_subset _ ha)
      exact ⟨rfl, m, hm, rfl, rfl⟩
    · have hclosed := throughout_record (allClosed_record htrims) p c
      rw [(hclosed.here t made fate inside hmem).2]
      exact noInterpolation (hclosed.inside hmem)
        ((throughout_record (record_made s) p c).inside hmem) hraw _
  · rintro t outer rfl hraw front text parts behind hsplit hblank
    exact (record_made s _ c front _ behind hsplit).split hraw hblank

/-- The binding and the braces of a paragraph are taken as they stand. -/
theorem parse_verbatim_paragraph :
    Settings.base.extensions = Settings.base.extensions ∧
      ∃ made, (parse .base "<p v-pre :a=b>\x7b\x7b c \x7d\x7d</p>").1 = [.element made] ∧
        made.attrs.map (fun a => (a.kind, a.name)) = [(.plain, "v-pre"), (.plain, ":a")] ∧
        Everywhere (fun siblings => ∀ n ∈ siblings, n.isInterpolation = false) made.children := by
  let t : OpenTag := ⟨"p", [⟨"v-pre", "", ⟨3, 8⟩⟩, ⟨":a", "b", ⟨9, 13⟩⟩]⟩
  let inside : Markup.Content := .text "\x7b\x7b c \x7d\x7d" ⟨14, 21⟩ .nil
  have hrecord : recordOf .base "<p v-pre :a=b>\x7b\x7b c \x7d\x7d</p>" =
      record .base [] [] (.paired t.tag t.attrs ⟨0, 14⟩ inside "p" ⟨21, 25⟩ .nil) :=
    recordOf_eq (by decide +kernel)
  obtain ⟨hrecords, hverbatim⟩ :=
    parse_verbatim (s := .base) rfl "<p v-pre :a=b>\x7b\x7b c \x7d\x7d</p>"
  have hroots := hrecords.roots
  rw [hrecord] at hroots hverbatim
  obtain ⟨hattrs, hraw⟩ := hverbatim.here.1 _ _ _ _ List.mem_cons_self
  refine ⟨rfl, _, hroots, ?_, (hraw (by decide)).2⟩
  rw [hattrs]
  decide +kernel

end ViewTree.Template
