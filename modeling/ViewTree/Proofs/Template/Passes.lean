import Mathlib.Data.List.Nodup
import ViewTree.Proofs.Template.Attributes
import ViewTree.Template.Builder
/-!
# What becomes of all attributes

The data of an element is generated in passes: its key, its reference and its slot, directives,
what extensions took, and the rest. No two passes take the same attribute (`disjoint_passes`), and
the calls that are read from the source are those of the attributes that some pass takes
(`dataCode_calls`, `dataCalls_perm`). No pass takes a bound reference or a bound slot
(`keepsAll_iff`).
-/

namespace ViewTree.Template

/-! ## Passes -/

/-- The attributes that directives are generated for. -/
def Attribute.isAttached (a : Attribute) : Bool :=
  a.kind == .directive && !structuralDirectives.contains a.name && a.name != "cloak"

/-- The attributes that have no place of their own in the data. -/
def Attribute.isOrdinary (e : Element) (a : Attribute) : Bool :=
  match a.kind with
  | .plain => !isOwnPlace e a.name
  | .bind => !isOwnPlace e a.name
  | .on => true
  | .directive => false

/-- The attributes that are generated in front of those with no place of their own, pass by
pass. -/
def passes : List (Attribute → Bool) :=
  [Attribute.isNamed .bind "key", Attribute.isNamed .plain "key", Attribute.isNamed .plain "ref",
    Attribute.isNamed .plain "slot", Attribute.isAttached]

section

variable (e : Element)

theorem tokens_directiveCode (a : Attribute) :
    Code.tokens (directiveCode .base e a) =
      if a.isAttached then (a.call e).written else [] := by
  have hdisplay (property : String) :
      Code.tokens ((displayDirective property e a).data ++
        if (displayDirective property e a).needsRuntime then runtimeDirective a else []) =
      Code.tokens (displayDirective property e a).data :=
    congrArg Code.tokens (List.append_nil _)
  unfold directiveCode Attribute.isAttached
  cases hattached : a.kind == .directive && !structuralDirectives.contains a.name with
  | false => rfl
  | true =>
    have hkind : a.kind = .directive := by
      simpa using (Bool.and_eq_true_iff.1 hattached).1
    rw [if_pos rfl, Bool.true_and]
    cases hrule : Settings.base.directives.get? a.name with
    | none =>
      obtain ⟨htext, hhtml, hcloak⟩ := get?_base_directives_eq_none hrule
      have hcall : a.call e = directiveCall a := by
        simp only [Attribute.call, hkind, if_neg htext, if_neg hhtml]
      rw [hcall, if_pos (bne_iff_ne.2 hcloak)]
      exact tokens_runtimeDirective a
    | some rule =>
      dsimp only
      obtain ⟨hname, rfl⟩ | ⟨hname, rfl⟩ | ⟨hname, rfl⟩ := get?_base_directives hrule
      · have hcall : a.call e = displayCall "textContent" a := by
          simp only [Attribute.call, hkind, if_pos hname]
        rw [hdisplay, hcall, hname, if_pos (by decide)]
        exact tokens_displayDirective e a (by simp)
      · have hcall : a.call e = displayCall "innerHTML" a := by
          simp [Attribute.call, hkind, hname]
        rw [hdisplay, hcall, hname, if_pos (by decide)]
        exact tokens_displayDirective e a (by simp)
      · rw [hname]
        rfl

theorem isOwnPlace_iff (name : String) :
    isOwnPlace e name ↔
      name = "key" ∨ name = "ref" ∨ name = "slot" ∨ e.tag = "component" ∧ name = "is" := by
  simp [isOwnPlace, or_assoc]

theorem tokens_attributeCode (a : Attribute) :
    Code.tokens (attributeCode .base e a) =
      if a.isOrdinary e then (a.call e).written else [] := by
  have hplace (h : isOwnPlace e a.name = false) :
      a.name ≠ "key" ∧ a.name ≠ "ref" ∧ a.name ≠ "slot" := by
    rw [← Bool.not_eq_true, isOwnPlace_iff] at h
    exact ⟨fun hn => h (.inl hn), fun hn => h (.inr (.inl hn)),
      fun hn => h (.inr (.inr (.inl hn)))⟩
  unfold attributeCode Attribute.isOrdinary Attribute.call
  cases a.kind with
  | plain =>
    dsimp only
    cases hown : isOwnPlace e a.name with
    | true => rfl
    | false =>
      obtain ⟨hkey, href, hslot⟩ := hplace hown
      rw [if_neg hkey, if_neg href, if_neg hslot]
      exact tokens_setter (by decide) _
  | bind =>
    dsimp only
    cases hown : isOwnPlace e a.name with
    | true => rfl
    | false =>
      rw [if_neg (hplace hown).1]
      refine tokens_setter ?_ _
      split
      · decide
      · decide
  | on =>
    refine tokens_setter ?_ _
    split
    · decide
    · decide
  | directive => rfl

theorem tokens_namedSetter {method : String} (hmethod : method.toList.all Token.isNameChar)
    (arg : Code → Code) {p : Attribute → Bool} {attrs : List Attribute}
    (hcall : ∀ a, p a → a.call e = .of method [arg [.literal a.valueText]])  :
    Code.tokens (namedSetter method arg (attrs.find? p)) =
      (attrs.find? p).toList.flatMap fun a => (a.call e).written := by
  cases hfound : attrs.find? p with
  | none => rfl
  | some a =>
    rw [Option.toList_some, List.flatMap_singleton, hcall a (List.find?_some hfound)]
    exact tokens_setter hmethod _

/-- Of attributes with different names, only the first one of a name has it. -/
theorem filter_eq_find? {attrs : List Attribute} (hnames : (attrs.map (·.name)).Nodup)
    {p : Attribute → Bool} {name : String} (hp : ∀ a, p a → a.name = name) :
    attrs.filter p = (attrs.find? p).toList := by
  induction attrs with
  | nil => rfl
  | cons a attrs ih =>
    rw [List.map_cons, List.nodup_cons] at hnames
    rw [List.filter_cons, List.find?_cons]
    cases ha : p a with
    | false => exact ih hnames.2
    | true =>
      have hrest : attrs.filter p = [] := by
        refine List.filter_eq_nil_iff.2 fun b hb hpb => hnames.1 ?_
        rw [hp a ha, ← hp b hpb]
        exact List.mem_map_of_mem hb
      rw [if_pos rfl, hrest]
      rfl

theorem isNamed_iff (kind : AttrKind) (name : String) (a : Attribute) :
    a.isNamed kind name ↔ a.kind = kind ∧ a.name = name := by
  rw [Attribute.isNamed, Bool.and_eq_true_iff, beq_iff_eq, beq_iff_eq]

theorem tokens_keyCode (hnames : (e.attrs.map (·.name)).Nodup) :
    Code.tokens (keyCode e) =
      ((e.attrs.filter (Attribute.isNamed .bind "key")) ++
        (e.attrs.filter (Attribute.isNamed .plain "key"))).flatMap fun a => (a.call e).written := by
  have hkey (kind : AttrKind) : e.attrs.filter (Attribute.isNamed kind "key") =
      (e.attr? kind "key").toList :=
    filter_eq_find? hnames fun a ha => ((isNamed_iff kind "key" a).1 ha).2
  rw [hkey, hkey]
  unfold keyCode
  cases hbound : e.binding? "key" with
  | some a =>
    have hbound : e.attr? .bind "key" = some a := hbound
    obtain ⟨hkind, hname⟩ := (isNamed_iff _ _ a).1 (List.find?_some hbound)
    have hplain : e.attr? .plain "key" = none := by
      refine List.find?_eq_none.2 fun b hb hbnamed => ?_
      obtain ⟨hbkind, hbname⟩ := (isNamed_iff _ _ b).1 hbnamed
      have hab : a = b := List.inj_on_of_nodup_map hnames (List.mem_of_find?_eq_some hbound) hb
        (hname.trans hbname.symm)
      rw [hab, hbkind] at hkind
      cases hkind
    have hcall : a.call e = .of "key" [Code.binding a.valueText] := by
      simp [Attribute.call, hkind, hname]
    rw [hbound, hplain]
    simp only [Option.toList_some, Option.toList_none, List.append_nil, List.flatMap_singleton,
      hcall]
    exact tokens_setter (by decide) _
  | none =>
    have hbound : e.attr? .bind "key" = none := hbound
    rw [hbound]
    refine tokens_namedSetter e (by decide) _ fun a ha => ?_
    obtain ⟨hkind, hname⟩ := (isNamed_iff _ _ a).1 ha
    simp [Attribute.call, hkind, hname]

/-- The code for a name that has a place of its own is the call of the attribute of that name. -/
theorem tokens_ownPlace (hnames : (e.attrs.map (·.name)).Nodup) (name : String) {method : String}
    (hmethod : method.toList.all Token.isNameChar)
    (hcall : ∀ a : Attribute, a.kind = .plain → a.name = name →
      a.call e = .of method [[.literal a.valueText]]) :
    Code.tokens (namedSetter method id (e.plainAttr? name)) =
      (e.attrs.filter (Attribute.isNamed .plain name)).flatMap fun a => (a.call e).written := by
  rw [filter_eq_find? hnames fun a ha => ((isNamed_iff .plain name a).1 ha).2]
  refine tokens_namedSetter e hmethod _ fun a ha => ?_
  obtain ⟨hkind, hname⟩ := (isNamed_iff _ _ a).1 ha
  exact hcall a hkind hname

theorem flatMap_filter_eq {f g : Attribute → List Token} {p : Attribute → Bool}
    (h : ∀ a, f a = if p a then g a else []) (attrs : List Attribute) :
    attrs.flatMap f = (attrs.filter p).flatMap g := by
  induction attrs with
  | nil => rfl
  | cons a attrs ih =>
    rw [List.flatMap_cons, ih, h, List.filter_cons]
    split
    · rw [List.flatMap_cons]
    · rfl

theorem tokens_flatMap {f : Attribute → Code} {p : Attribute → Bool}
    (h : ∀ a, Code.tokens (f a) = if p a then (a.call e).written else []) :
    Code.tokens (e.attrs.flatMap f) =
      (e.attrs.filter p).flatMap fun a => (a.call e).written := by
  rw [Code.tokens, List.flatMap_assoc]
  exact flatMap_filter_eq h e.attrs

theorem tokens_extraCode {key method : String} (hmethod : method.toList.all Token.isNameChar)
    (arg : String → Code) :
    Code.tokens (extraCode e key method arg) =
      (extraCalls e key method arg).flatMap BagCall.written := by
  unfold extraCode extraCalls
  cases e.extras.get? key with
  | none => rfl
  | some v =>
    rw [List.flatMap_singleton]
    exact tokens_call hmethod (arg v)

theorem tokens_extensions :
    Code.tokens (Settings.base.extensions.flatMap (·.data e)) =
      (extensionCalls e).flatMap BagCall.written := by
  have hcode : Settings.base.extensions.flatMap (·.data e) =
      extraCode e "staticClass" "static_class" (fun v => [.literal v]) ++
        extraCode e "classBinding" "class" Code.binding ++
        (extraCode e "staticStyle" "static_style" (fun v => [.literal v]) ++
          extraCode e "styleBinding" "style" Code.binding) := by
    simp [Settings.base, classExtension, styleExtension]
  rw [hcode, Code.tokens_append, Code.tokens_append, Code.tokens_append,
    tokens_extraCode e (by decide), tokens_extraCode e (by decide), tokens_extraCode e (by decide),
    tokens_extraCode e (by decide)]
  simp only [extensionCalls, List.flatMap_append, List.append_assoc]

theorem fits_extensionCalls : ∀ c ∈ extensionCalls e, c.Fits := by
  have hextra {key method : String} (hmethod : method.toList.all Token.isNameChar)
      {arg : String → Code} (harg : ∀ v, Code.Balanced (arg v)) :
      ∀ c ∈ extraCalls e key method arg, c.Fits := by
    unfold extraCalls
    cases e.extras.get? key with
    | none => exact List.forall_mem_nil _
    | some v =>
      exact List.forall_mem_singleton.2
        (BagCall.fits_of hmethod (List.forall_mem_singleton.2 (harg v)))
  simp only [extensionCalls, List.forall_mem_append]
  exact ⟨⟨⟨hextra (by decide) Code.balanced_literal, hextra (by decide) Code.balanced_binding⟩,
    hextra (by decide) Code.balanced_literal⟩, hextra (by decide) Code.balanced_binding⟩

/-- The attributes that a pass takes, those with no place of their own aside, pass by pass. -/
def placed : List Attribute :=
  passes.flatMap fun p => e.attrs.filter p

/-- The calls on the data bag of an element, in the order in which they are generated. -/
def dataCalls : List BagCall :=
  (placed e).map (·.call e) ++ extensionCalls e ++
    (e.attrs.filter (·.isOrdinary e)).map (·.call e)

theorem tokens_dataCode (hnames : (e.attrs.map (·.name)).Nodup) :
    Code.tokens (dataCode .base e) = newBag ++ (dataCalls e).flatMap BagCall.written := by
  have hnew : (Piece.fixed "VNodeData::new()").tokens = newBag := tokens_fixed (by decide)
  have href : Code.tokens (namedSetter "reference" id (e.plainAttr? "ref")) = _ :=
    tokens_ownPlace e hnames "ref" (by decide)
      fun a hkind hname => by simp [Attribute.call, hkind, hname]
  have hslot : Code.tokens (namedSetter "slot" id (e.plainAttr? "slot")) = _ :=
    tokens_ownPlace e hnames "slot" (by decide)
      fun a hkind hname => by simp [Attribute.call, hkind, hname]
  rw [dataCode, Code.tokens_append, Code.tokens_append, Code.tokens_append, Code.tokens_append,
    Code.tokens_append, Code.tokens_cons, hnew, tokens_keyCode e hnames, href, hslot,
    tokens_flatMap e (tokens_directiveCode e), tokens_extensions,
    tokens_flatMap e (tokens_attributeCode e)]
  simp only [dataCalls, placed, passes, List.flatMap_append, List.flatMap_map, List.flatMap_cons,
    List.flatMap_nil, List.append_nil, List.append_assoc]

end

/-! ## Every attribute -/

/-- Attributes that are taken in passes of which no two take the same one are those that some pass
takes. -/
theorem filters_perm {ps : List (Attribute → Bool)}
    (hps : ps.Pairwise fun p q => ∀ a, p a → q a = false) (attrs : List Attribute) :
    (ps.flatMap fun p => attrs.filter p).Perm (attrs.filter fun a => ps.any (· a)) := by
  induction ps with
  | nil => simp
  | cons p ps ih =>
    rw [List.pairwise_cons] at hps
    have hfirst : (attrs.filter fun a => (p :: ps).any (· a)).filter p = attrs.filter p := by
      rw [List.filter_filter]
      refine List.filter_congr fun a _ => ?_
      rw [List.any_cons]
      cases p a <;> rfl
    have hbehind : ((attrs.filter fun a => (p :: ps).any (· a)).filter fun a => !p a) =
        attrs.filter fun a => ps.any (· a) := by
      rw [List.filter_filter]
      refine List.filter_congr fun a _ => ?_
      rw [List.any_cons]
      cases hp : p a with
      | false => rfl
      | true =>
        have hnone : ps.any (· a) = false :=
          List.any_eq_false.2 fun q hq => Bool.eq_false_iff.1 (hps.1 q hq a hp)
        rw [hnone]
        rfl
    have hsplit := List.filter_append_perm p (attrs.filter fun a => (p :: ps).any (· a))
    rw [hfirst, hbehind] at hsplit
    exact ((ih hps.2).append_left _).trans hsplit

section

variable (e : Element)

theorem isAttached_iff (a : Attribute) :
    a.isAttached ↔
      a.kind = .directive ∧ ¬ structuralDirectives.contains a.name ∧ a.name ≠ "cloak" := by
  rw [Attribute.isAttached, Bool.and_eq_true_iff, Bool.and_eq_true_iff, beq_iff_eq, bne_iff_ne,
    Bool.not_eq_true', Bool.not_eq_true, and_assoc]

theorem isOrdinary_iff (a : Attribute) :
    a.isOrdinary e ↔
      a.kind = .on ∨ (a.kind = .plain ∨ a.kind = .bind) ∧ ¬ isOwnPlace e a.name := by
  unfold Attribute.isOrdinary
  cases a.kind <;> simp

theorem hasCall_iff (a : Attribute) :
    a.hasCall e ↔
      a.kind = .on ∨ (a.kind = .plain ∨ a.kind = .bind) ∧ ¬ (e.tag = "component" ∧ a.name = "is") ∨
        a.isAttached := by
  rw [isAttached_iff, not_and_or]
  unfold Attribute.hasCall
  cases a.kind <;> simp

theorem isLost_iff (a : Attribute) :
    a.isLost ↔ a.kind = .bind ∧ (a.name = "ref" ∨ a.name = "slot") := by
  rw [Attribute.isLost, Bool.and_eq_true_iff, Bool.or_eq_true_iff, beq_iff_eq, beq_iff_eq,
    beq_iff_eq]

/-- No two passes take the same attribute. -/
theorem disjoint_passes :
    (passes ++ [Attribute.isOrdinary e]).Pairwise fun p q => ∀ a, p a → q a = false := by
  simp only [passes, List.cons_append, List.nil_append, List.pairwise_cons, List.mem_cons,
    List.not_mem_nil, or_false, forall_eq_or_imp, forall_eq, ← Bool.not_eq_true, isNamed_iff,
    isAttached_iff, isOrdinary_iff, isOwnPlace_iff]
  refine ⟨⟨?_, ?_, ?_, ?_, ?_⟩, ⟨?_, ?_, ?_, ?_⟩, ⟨?_, ?_, ?_⟩, ⟨?_, ?_⟩, ?_, ?_⟩
  all_goals grind

/-- The passes take the attributes that are to have a call, but for bound references and slots. -/
theorem any_passes (a : Attribute) :
    (passes ++ [Attribute.isOrdinary e]).any (· a) = (a.hasCall e && !a.isLost) := by
  rw [Bool.eq_iff_iff]
  simp only [passes, List.cons_append, List.nil_append, List.any_cons, List.any_nil,
    Bool.or_eq_true, Bool.and_eq_true, Bool.not_eq_true', ← Bool.not_eq_true, isNamed_iff,
    isAttached_iff, isOrdinary_iff, isOwnPlace_iff, isLost_iff, hasCall_iff]
  cases a.kind with
  | plain => grind
  | bind => grind
  | on => grind
  | directive => grind

theorem dataCalls_perm :
    (dataCalls e).Perm
      ((e.attrs.filter fun a => a.hasCall e && !a.isLost).map (·.call e) ++ extensionCalls e) := by
  have htaken : (placed e ++ e.attrs.filter (·.isOrdinary e)).Perm
      (e.attrs.filter fun a => a.hasCall e && !a.isLost) := by
    have hpasses := filters_perm (disjoint_passes e) e.attrs
    simp only [any_passes, List.flatMap_append, List.flatMap_singleton] at hpasses
    exact hpasses
  have hordinary : (extensionCalls e ++ (e.attrs.filter (·.isOrdinary e)).map (·.call e)).Perm
      ((e.attrs.filter (·.isOrdinary e)).map (·.call e) ++ extensionCalls e) :=
    List.perm_append_comm
  have hall := htaken.map (·.call e)
  rw [List.map_append] at hall
  rw [dataCalls, List.append_assoc]
  refine (hordinary.append_left _).trans ?_
  rw [← List.append_assoc]
  exact hall.append_right _

/-- The calls on the data bag of an element with differently named attributes are those of its
attributes, one of each that is to have one and is no bound reference or slot, and those of what the
extensions took. -/
theorem dataCode_calls (hnames : (e.attrs.map (·.name)).Nodup) :
    bagCalls? (dataCode .base e).text = some (dataCalls e) ∧
      partCalls? (Code.text (Settings.base.extensions.flatMap (·.data e))) =
        some (extensionCalls e) := by
  have hcalls : ∀ c ∈ dataCalls e, c.Fits := by
    simp only [dataCalls, List.forall_mem_append, List.forall_mem_map]
    exact ⟨⟨fun a _ => a.fits_call e, fits_extensionCalls e⟩, fun a _ => a.fits_call e⟩
  have hextensions : Code.Balanced (Settings.base.extensions.flatMap (·.data e)) :=
    balanced_flatMap fun _ hx => balanced_extension e hx
  exact ⟨bagCalls?_eq (balanced_dataCode e).worded hcalls (tokens_dataCode e hnames),
    partCalls?_eq hextensions.worded (fits_extensionCalls e) (tokens_extensions e)⟩

theorem hasCall_of_isLost {a : Attribute} (h : a.isLost) : a.hasCall e := by
  obtain ⟨hkind, hname⟩ := (isLost_iff a).1 h
  refine (hasCall_iff e a).2 (.inr (.inl ⟨.inr hkind, ?_⟩))
  rintro ⟨-, his⟩
  simp [his] at hname

/-- As many attributes are taken as are to have a call only if none of them is lost. -/
theorem not_isLost_of_length (h : (e.attrs.filter fun a => a.hasCall e && !a.isLost).length =
    (e.attrs.filter (·.hasCall e)).length) : ∀ a ∈ e.attrs, a.isLost = false := by
  have hfilter : (e.attrs.filter fun a => a.hasCall e && !a.isLost) =
      (e.attrs.filter (·.hasCall e)).filter fun a => !a.isLost := by
    rw [List.filter_filter]
    exact List.filter_congr fun a _ => Bool.and_comm _ _
  rw [hfilter, List.length_filter_eq_length_iff] at h
  intro a ha
  by_contra hlost
  rw [Bool.not_eq_false] at hlost
  have hkept := h a (List.mem_filter.2 ⟨ha, hasCall_of_isLost e hlost⟩)
  rw [hlost] at hkept
  cases hkept

/-- The tag of a dynamic component is what its `is` says. -/
theorem tagCode_is (hnames : (e.attrs.map (·.name)).Nodup) (htag : e.tag = "component")
    {a : Attribute} (ha : a ∈ e.attrs) (hname : a.name = "is") :
    (a.kind = .plain → tagCode e = [.literal a.valueText]) ∧
      (a.kind = .bind → tagCode e = Code.call "TagRef::Dynamic" [Code.binding a.valueText]) := by
  have honly {kind : AttrKind} {b : Attribute} (hb : e.attr? kind "is" = some b) :
      a = b ∧ b.kind = kind := by
    obtain ⟨hkind, hbname⟩ := (isNamed_iff _ _ b).1 (List.find?_some hb)
    exact ⟨List.inj_on_of_nodup_map hnames ha (List.mem_of_find?_eq_some hb)
      (hname.trans hbname.symm), hkind⟩
  have hsome {kind : AttrKind} (hkind : a.kind = kind) : e.attr? kind "is" = some a := by
    cases hfound : e.attr? kind "is" with
    | some b => rw [(honly hfound).1]
    | none => exact absurd ((isNamed_iff _ _ a).2 ⟨hkind, hname⟩) (List.find?_eq_none.1 hfound a ha)
  have hother {kind : AttrKind} (hkind : a.kind ≠ kind) : e.attr? kind "is" = none := by
    cases hfound : e.attr? kind "is" with
    | none => rfl
    | some b =>
      obtain ⟨rfl, hb⟩ := honly hfound
      exact absurd hb hkind
  unfold tagCode
  rw [if_pos (beq_iff_eq.2 htag)]
  constructor
  · intro hkind
    have hbound : e.binding? "is" = none := hother (by rw [hkind]; decide)
    have hplain : e.plainAttr? "is" = some a := hsome hkind
    rw [hbound, hplain]
  · intro hkind
    have hbound : e.binding? "is" = some a := hsome hkind
    rw [hbound]

/-- Every attribute that is to have a call in the data of the element has one of its own, which
carries its name or its value, and the only other calls are those of what the extensions took. -/
def KeepsAll : Prop :=
  ∃ calls others, bagCalls? (dataCode .base e).text = some calls ∧
    partCalls? (Code.text (Settings.base.extensions.flatMap (·.data e))) = some others ∧
    ∃ own : List (Attribute × BagCall), own.map Prod.fst = e.attrs.filter (·.hasCall e) ∧
      (∀ p ∈ own, p.1.CarriedBy p.2) ∧ calls.Perm (own.map Prod.snd ++ others)

/-- The source that is generated for the data of an element whose attributes have different names
consists of the calls of those attributes that are to have one, but for bound references and bound
slots, and of what the extensions took. So every attribute is kept unless there is a bound reference
or a bound slot; and what names the tag of a dynamic component becomes its tag. -/
theorem keepsAll_iff (hnames : (e.attrs.map (·.name)).Nodup) :
    (∃ calls others, bagCalls? (dataCode .base e).text = some calls ∧
      partCalls? (Code.text (Settings.base.extensions.flatMap (·.data e))) = some others ∧
      calls.Perm
        ((e.attrs.filter fun a => a.hasCall e && !a.isLost).map (·.call e) ++ others)) ∧
    (KeepsAll e ↔ ∀ a ∈ e.attrs, a.kind = .bind → a.name ≠ "ref" ∧ a.name ≠ "slot") ∧
      ∀ a ∈ e.attrs, e.tag = "component" → a.name = "is" →
        (a.kind = .plain → tagCode e = [.literal a.valueText]) ∧
        (a.kind = .bind → tagCode e = Code.call "TagRef::Dynamic" [Code.binding a.valueText]) := by
  obtain ⟨hcalls, hothers⟩ := dataCode_calls e hnames
  have hperm := dataCalls_perm e
  refine ⟨⟨_, _, hcalls, hothers, hperm⟩, ⟨?_, fun hkept => ?_⟩, fun a ha htag hname =>
    tagCode_is e hnames htag ha hname⟩
  · rintro ⟨calls', others', hcalls', hothers', own, hown, -, hperm'⟩
    cases hcalls.symm.trans hcalls'
    cases hothers.symm.trans hothers'
    have hlength : own.length = (e.attrs.filter (·.hasCall e)).length := by
      rw [← hown, List.length_map]
    have hcounts := (hperm.symm.trans hperm').length_eq
    simp only [List.length_append, List.length_map, hlength, Nat.add_right_cancel_iff] at hcounts
    intro a ha hkind
    have hlost := not_isLost_of_length e hcounts a ha
    rw [← Bool.not_eq_true, isLost_iff, not_and, not_or] at hlost
    exact hlost hkind
  · have hlost : ∀ a ∈ e.attrs, (a.hasCall e && !a.isLost) = a.hasCall e := by
      intro a ha
      have hnot : a.isLost = false := by
        rw [← Bool.not_eq_true, isLost_iff, not_and, not_or]
        exact hkept a ha
      rw [hnot, Bool.not_false, Bool.and_true]
    rw [List.filter_congr hlost] at hperm
    refine ⟨_, _, hcalls, hothers, (e.attrs.filter (·.hasCall e)).map fun a => (a, a.call e), ?_,
      ?_, ?_⟩
    · rw [List.map_map]
      exact List.map_id _
    · exact List.forall_mem_map.2 fun a _ => a.carriedBy_call e
    · rw [List.map_map]
      exact hperm

end

/-- An input with a key, a property, a binding, a listener and two directives. -/
theorem keepsAll_input :
    let e : Element :=
      { Element.new "input" with
        attrs := [.classify "type" "text" none, .classify ":value" "v" none,
          .classify ":title" "t" none, .classify "@input.native" "f" none, .classify "key" "k" none,
          .classify "v-text" "x" none, .classify "v-focus:now.once" "y" none] }
    (e.attrs.map (·.name)).Nodup ∧ KeepsAll e := by
  intro e
  have hnames : (e.attrs.map (·.name)).Nodup := by decide
  exact ⟨hnames, (keepsAll_iff e hnames).2.1.2 (by decide)⟩

/-- The only attribute of the paragraph is lost: no call is made. -/
theorem boundReference_not_kept :
    ∃ e, .element e ∈ (parse .base "<p :ref=\"r\"></p>").1 ∧ (e.attrs.map (·.name)).Nodup ∧
      ¬ KeepsAll e := by
  have hroot : (parse .base "<p :ref=\"r\"></p>").1.any fun n => n.element?.any fun e =>
      e.attrs.map (·.name) == ["ref"] && (e.attrs.filter (·.hasCall e)).length == 1 &&
        bagCalls? (dataCode .base e).text == some [] := by
    decide +kernel
  obtain ⟨n, hn, hany⟩ := List.any_eq_true.1 hroot
  obtain ⟨e, he, hfound⟩ := (Option.any_eq_true _ _).1 hany
  rw [eq_element he] at hn
  simp only [Bool.and_eq_true, beq_iff_eq] at hfound
  obtain ⟨⟨hnames, hone⟩, hnone⟩ := hfound
  refine ⟨e, hn, ?_, ?_⟩
  · rw [hnames]
    exact List.nodup_singleton _
  · rintro ⟨calls, others, hcalls, -, own, hown, -, hperm⟩
    cases hnone.symm.trans hcalls
    have hown' : own.length = 0 := by
      have hlength := hperm.length_eq
      simp only [List.length_nil, List.length_append, List.length_map] at hlength
      omega
    rw [← hown, List.length_map, hown'] at hone
    cases hone

end ViewTree.Template
