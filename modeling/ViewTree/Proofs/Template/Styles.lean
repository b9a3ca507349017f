import ViewTree.Proofs.Text.Separated
import ViewTree.Template.Attribute
import ViewTree.Template.Defaults
/-!
# Declarations of a style

A style is cut at every semicolon, and what is between two of them counts as a declaration of its
own. So the declarations of a style are kept, whatever blanks and idle semicolons there are, exactly
if each of them consists of declarations between its semicolons (`staticStyle_kept_iff`). One
without semicolons always does. What is kept is not changed by normalizing it again.
-/

namespace ViewTree.Template

open Text (Blank Trimmed trimChars)

/-- A declaration of a style, without blanks around the property and the value. -/
structure Declaration where
  property : List Char
  value : List Char
  named : property ≠ []
  noColon : ':' ∉ property
  noSemicolon : ';' ∉ property
  property_trimmed : Trimmed property
  value_trimmed : Trimmed value

namespace Declaration

/-- The declaration as it is written without blanks. -/
def text (d : Declaration) : List Char :=
  d.property ++ ':' :: d.value

/-- The piece writes the declaration, with blanks around the property and the value. -/
def WrittenAs (d : Declaration) (piece : List Char) : Prop :=
  ∃ b₁ b₂ b₃ b₄, Blank b₁ ∧ Blank b₂ ∧ Blank b₃ ∧ Blank b₄ ∧
    piece = b₁ ++ (d.property ++ b₂) ++ ':' :: (b₃ ++ (d.value ++ b₄))

/-- What is written between the semicolons of the declaration are declarations again. -/
def Whole (d : Declaration) : Prop :=
  ∀ piece ∈ d.text.splitOn ';', ∃ d' : Declaration, piece = d'.text

end Declaration

/-- Pieces of a style that write the declarations, where a piece may be nothing but blanks. -/
inductive Declares : List (List Char) → List Declaration → Prop
  | nil : Declares [] []
  | idle {bs : List Char} {pieces : List (List Char)} {ds : List Declaration} (hbs : Blank bs)
      (h : Declares pieces ds) : Declares (bs :: pieces) ds
  | declaration {piece : List Char} {d : Declaration} {pieces : List (List Char)}
      {ds : List Declaration} (hd : d.WrittenAs piece) (h : Declares pieces ds) :
      Declares (piece :: pieces) (d :: ds)

/-- The style writes the declarations, with semicolons between its pieces. -/
def WritesStyle (ds : List Declaration) (style : String) : Prop :=
  ∃ pieces, Declares pieces ds ∧ style.toList = [';'].intercalate pieces

/-- The declarations with semicolons between them and without any blanks. -/
def joined (ds : List Declaration) : String :=
  String.ofList ([';'].intercalate (ds.map Declaration.text))

/-- The declarations that a style is cut into. -/
def declarations (cs : List Char) : List String :=
  (cs.splitOn ';').filterMap styleDeclaration?

theorem normalizeStyle_eq (style : String) :
    normalizeStyle style = ";".intercalate (declarations style.toList) := by
  rw [normalizeStyle, Text.splitOnChar_eq_splitOn, declarations]

/-! ## One declaration -/

section

variable {cs property value : List Char}

theorem styleDeclaration?_colon (h : ':' ∉ property) (value : List Char) :
    styleDeclaration? (property ++ ':' :: value) =
      if (trimChars property).isEmpty then none
      else some (String.ofList (trimChars property ++ ':' :: trimChars value)) := by
  have hsplit : Text.splitAt? [':'] (property ++ ':' :: value) = some (property, value) :=
    Text.splitAt?_char.2 ⟨rfl, h⟩
  simp only [styleDeclaration?, hsplit, Option.bind_eq_bind, Option.bind_some]

theorem styleDeclaration?_of_notMem (h : ':' ∉ cs) : styleDeclaration? cs = none := by
  cases hsplit : Text.splitAt? [':'] cs with
  | none => simp only [styleDeclaration?, hsplit, Option.bind_eq_bind, Option.bind_none]
  | some p =>
    have hcs : cs = p.1 ++ ':' :: p.2 := (Text.splitAt?_char.1 hsplit).1
    exact absurd (by simp [hcs]) h

/-- A declaration is what is left of a piece without its idle blanks. -/
theorem styleDeclaration?_eq_some_iff {s : String} :
    styleDeclaration? cs = some s ↔ ∃ property value, cs = property ++ ':' :: value ∧
      ':' ∉ property ∧ trimChars property ≠ [] ∧
        s.toList = trimChars property ++ ':' :: trimChars value := by
  constructor
  · intro h
    by_cases hcolon : ':' ∈ cs
    · obtain ⟨property, value, rfl, hproperty⟩ := List.eq_append_cons_of_mem hcolon
      rw [styleDeclaration?_colon hproperty] at h
      split at h
      · cases h
      · rename_i hne
        cases h
        exact ⟨property, value, rfl, hproperty, by simpa using hne, String.toList_ofList⟩
    · rw [styleDeclaration?_of_notMem hcolon] at h
      cases h
  · rintro ⟨property, value, rfl, hproperty, hne, hs⟩
    rw [styleDeclaration?_colon hproperty, if_neg (by simpa using hne), ← hs, String.ofList_toList]

theorem styleDeclaration?_text (d : Declaration) :
    styleDeclaration? d.text = some (String.ofList d.text) := by
  refine styleDeclaration?_eq_some_iff.2 ⟨d.property, d.value, rfl, d.noColon, ?_, ?_⟩
  · rw [d.property_trimmed]
    exact d.named
  · rw [String.toList_ofList, d.property_trimmed, d.value_trimmed, Declaration.text]

/-- A declaration that is found between semicolons is one. -/
theorem exists_text_of_styleDeclaration? {s : String} (hcs : ';' ∉ cs)
    (h : styleDeclaration? cs = some s) : ∃ d : Declaration, s.toList = d.text ∧ ';' ∉ d.text := by
  obtain ⟨property, value, rfl, hproperty, hne, hs⟩ := styleDeclaration?_eq_some_iff.1 h
  rw [List.mem_append, List.mem_cons, not_or, not_or] at hcs
  have hnoColon : ':' ∉ trimChars property :=
    fun hmem => hproperty ((Text.trimChars_sublist property).subset hmem)
  have hnoSemicolon : ';' ∉ trimChars property :=
    fun hmem => hcs.1 ((Text.trimChars_sublist property).subset hmem)
  have hvalue : ';' ∉ trimChars value :=
    fun hmem => hcs.2.2 ((Text.trimChars_sublist value).subset hmem)
  refine ⟨⟨trimChars property, trimChars value, hne, hnoColon, hnoSemicolon,
    Text.trimmed_trimChars property, Text.trimmed_trimChars value⟩, hs, ?_⟩
  simp only [Declaration.text, List.mem_append, List.mem_cons, not_or]
  exact ⟨hnoSemicolon, hcs.2.1, hvalue⟩

end

/-! ## All declarations -/

section

variable {cs bs : List Char}

theorem declarations_semicolon (a b : List Char) :
    declarations (a ++ ';' :: b) = declarations a ++ declarations b := by
  rw [declarations, List.splitOn_append_cons_self, List.filterMap_append, ← declarations,
    ← declarations]

theorem declarations_of_notMem (h : ';' ∉ cs) :
    declarations cs = (styleDeclaration? cs).toList := by
  rw [declarations, List.splitOn_eq_singleton h]
  cases hcs : styleDeclaration? cs <;> simp [hcs]

theorem declarations_intercalate (pieces : List (List Char)) :
    declarations ([';'].intercalate pieces) = pieces.flatMap declarations := by
  cases pieces with
  | nil => rfl
  | cons piece pieces =>
    rw [declarations, Text.splitOn_intercalate_flatMap (List.cons_ne_nil piece pieces),
      List.filterMap_flatMap]
    rfl

theorem declarations_blank (hbs : Blank bs) : declarations bs = [] := by
  rw [declarations_of_notMem (hbs.notMem (by decide)),
    styleDeclaration?_of_notMem (hbs.notMem (by decide))]
  rfl

theorem styleDeclaration?_append_blank (hbs : Blank bs) (cs : List Char) :
    styleDeclaration? (cs ++ bs) = styleDeclaration? cs := by
  by_cases hcolon : ':' ∈ cs
  · obtain ⟨property, value, rfl, hproperty⟩ := List.eq_append_cons_of_mem hcolon
    have htrim : trimChars (value ++ bs) = trimChars value :=
      Text.trimChars_padded (List.forall_mem_nil _ : Blank []) hbs
    rw [List.append_assoc, List.cons_append, styleDeclaration?_colon hproperty,
      styleDeclaration?_colon hproperty, htrim]
  · have hbehind : ':' ∉ cs ++ bs := by
      rw [List.mem_append, not_or]
      exact ⟨hcolon, hbs.notMem (by decide)⟩
    rw [styleDeclaration?_of_notMem hcolon, styleDeclaration?_of_notMem hbehind]

/-- Blanks at the end of a style are idle. The induction moves the characters of the last piece to
the front of it, since only a whole piece is read. -/
theorem declarations_append_blank (hbs : Blank bs) (cs : List Char) :
    declarations (cs ++ bs) = declarations cs := by
  have hsemicolon : ';' ∉ bs := hbs.notMem (by decide)
  suffices h : ∀ front, ';' ∉ front →
      declarations (front ++ (cs ++ bs)) = declarations (front ++ cs) from
    h [] List.not_mem_nil
  induction cs with
  | nil =>
    intro front hfront
    have hbehind : ';' ∉ front ++ bs := by simp [hfront, hsemicolon]
    rw [List.nil_append, List.append_nil, declarations_of_notMem hfront,
      declarations_of_notMem hbehind, styleDeclaration?_append_blank hbs]
  | cons c cs ih =>
    intro front hfront
    by_cases hc : c = ';'
    · subst hc
      rw [List.cons_append, declarations_semicolon, declarations_semicolon]
      exact congrArg (declarations front ++ ·) (ih [] List.not_mem_nil)
    · have hlonger : ';' ∉ front ++ [c] := by simp [hfront, Ne.symm hc]
      have h := ih (front ++ [c]) hlonger
      rwa [List.append_assoc, List.append_assoc] at h

/-- Blanks around the property and in front of the value are idle. -/
theorem declarations_colon {b₁ b₂ b₃ property : List Char} (h₁ : Blank b₁) (h₂ : Blank b₂)
    (h₃ : Blank b₃) (hcolon : ':' ∉ property) (hsemicolon : ';' ∉ property) (value : List Char) :
    declarations (b₁ ++ (property ++ b₂) ++ ':' :: (b₃ ++ value)) =
      declarations (property ++ ':' :: value) := by
  have hfront : ':' ∉ b₁ ++ (property ++ b₂) := by
    simp [hcolon, h₁.notMem (c := ':') (by decide), h₂.notMem (c := ':') (by decide)]
  have hone (value : List Char) (hvalue : ';' ∉ value) :
      declarations (b₁ ++ (property ++ b₂) ++ ':' :: (b₃ ++ value)) =
        declarations (property ++ ':' :: value) := by
    have hpadded : ';' ∉ b₁ ++ (property ++ b₂) ++ ':' :: (b₃ ++ value) := by
      simp [hsemicolon, hvalue, h₁.notMem (c := ';') (by decide),
        h₂.notMem (c := ';') (by decide), h₃.notMem (c := ';') (by decide)]
    have hplain : ';' ∉ property ++ ':' :: value := by simp [hsemicolon, hvalue]
    have htrim : trimChars (b₃ ++ value) = trimChars value := by
      have h : trimChars (b₃ ++ (value ++ [])) = trimChars value :=
        Text.trimChars_padded h₃ (List.forall_mem_nil _)
      rwa [List.append_nil] at h
    rw [declarations_of_notMem hpadded, declarations_of_notMem hplain,
      styleDeclaration?_colon hfront, styleDeclaration?_colon hcolon,
      Text.trimChars_padded h₁ h₂, htrim]
  by_cases hvalue : ';' ∈ value
  · -- Only the piece up to the first semicolon has the colon in it.
    obtain ⟨first, rest, rfl, hfirst⟩ := List.eq_append_cons_of_mem hvalue
    have h := hone first hfirst
    rw [← List.append_assoc b₃, ← List.cons_append, ← List.append_assoc, declarations_semicolon, h,
      ← declarations_semicolon, List.append_assoc, List.cons_append]
  · exact hone value hvalue

theorem declarations_writtenAs {d : Declaration} {piece : List Char} (h : d.WrittenAs piece) :
    declarations piece = declarations d.text := by
  obtain ⟨b₁, b₂, b₃, b₄, h₁, h₂, h₃, h₄, rfl⟩ := h
  rw [declarations_colon h₁ h₂ h₃ d.noColon d.noSemicolon, ← List.cons_append, ← List.append_assoc,
    declarations_append_blank h₄, Declaration.text]

/-- The blanks and the idle pieces of a style do not matter. -/
theorem declarations_declares {pieces : List (List Char)} {ds : List Declaration}
    (h : Declares pieces ds) :
    pieces.flatMap declarations = ds.flatMap fun d => declarations d.text := by
  induction h with
  | nil => rfl
  | idle hbs h ih => rw [List.flatMap_cons, declarations_blank hbs, ih, List.nil_append]
  | declaration hd h ih =>
    rw [List.flatMap_cons, List.flatMap_cons, declarations_writtenAs hd, ih]

theorem Declaration.writtenAs_text (d : Declaration) : d.WrittenAs d.text := by
  have hnone : Blank [] := List.forall_mem_nil _
  exact ⟨[], [], [], [], hnone, hnone, hnone, hnone, by simp [text]⟩

theorem declares_texts (ds : List Declaration) : Declares (ds.map Declaration.text) ds := by
  induction ds with
  | nil => exact .nil
  | cons d ds ih => exact .declaration d.writtenAs_text ih

theorem writesStyle_joined (ds : List Declaration) : WritesStyle ds (joined ds) :=
  ⟨ds.map Declaration.text, declares_texts ds, String.toList_ofList⟩

/-- Styles that write the same declarations are normalized to the same. -/
theorem normalizeStyle_writes {ds : List Declaration} {style style' : String}
    (h : WritesStyle ds style) (h' : WritesStyle ds style') :
    normalizeStyle style = normalizeStyle style' := by
  obtain ⟨pieces, hpieces, hstyle⟩ := h
  obtain ⟨pieces', hpieces', hstyle'⟩ := h'
  rw [normalizeStyle_eq, normalizeStyle_eq, hstyle, hstyle', declarations_intercalate,
    declarations_intercalate, declarations_declares hpieces, declarations_declares hpieces']

end

/-! ## Normal styles -/

/-- The style consists of declarations between semicolons. -/
def IsNormal (style : String) : Prop :=
  ∀ piece ∈ style.toList.splitOn ';', ∃ d : Declaration, piece = d.text

theorem declarations_of_isNormal {style : String} (h : IsNormal style) :
    declarations style.toList = (style.toList.splitOn ';').map String.ofList := by
  rw [declarations, ← List.filterMap_eq_map]
  refine List.filterMap_congr fun piece hpiece => ?_
  obtain ⟨d, rfl⟩ := h piece hpiece
  exact styleDeclaration?_text d

theorem normalizeStyle_of_isNormal {style : String} (h : IsNormal style) :
    normalizeStyle style = style := by
  have hpieces : ((style.toList.splitOn ';').map String.ofList).map String.toList =
      style.toList.splitOn ';' := by
    simp [Function.comp_def]
  rw [← String.toList_inj, normalizeStyle_eq, declarations_of_isNormal h,
    String.toList_intercalate, hpieces]
  exact List.intercalate_splitOn ';'

/-- What a style is normalized to is nothing, or it is normal. -/
theorem isNormal_normalizeStyle (style : String) :
    normalizeStyle style = "" ∨ IsNormal (normalizeStyle style) := by
  have hfound : ∀ s ∈ declarations style.toList,
      ∃ d : Declaration, s.toList = d.text ∧ ';' ∉ d.text := by
    intro s hs
    obtain ⟨piece, hpiece, hdeclaration⟩ := List.mem_filterMap.1 hs
    exact exists_text_of_styleDeclaration? (Text.notMem_of_mem_splitOn hpiece) hdeclaration
  rw [normalizeStyle_eq]
  by_cases hnone : declarations style.toList = []
  · rw [hnone]
    exact .inl rfl
  · refine .inr fun piece hpiece => ?_
    have hsplit : (";".intercalate (declarations style.toList)).toList.splitOn ';' =
        (declarations style.toList).map String.toList := by
      rw [String.toList_intercalate]
      refine List.splitOn_intercalate ';' ?_ (by simpa using hnone)
      intro cs hcs
      obtain ⟨s, hs, rfl⟩ := List.mem_map.1 hcs
      obtain ⟨d, hd, hsemicolon⟩ := hfound s hs
      rwa [hd]
    rw [hsplit] at hpiece
    obtain ⟨s, hs, rfl⟩ := List.mem_map.1 hpiece
    obtain ⟨d, hd, -⟩ := hfound s hs
    exact ⟨d, hd⟩

theorem normalizeStyle_eq_self_iff {style : String} :
    normalizeStyle style = style ↔ style = "" ∨ IsNormal style := by
  constructor
  · intro h
    have hnormal := isNormal_normalizeStyle style
    rwa [h] at hnormal
  · rintro (rfl | h)
    · rfl
    · exact normalizeStyle_of_isNormal h

/-- Normalizing a style twice is normalizing it once. -/
theorem normalizeStyle_normalizeStyle (style : String) :
    normalizeStyle (normalizeStyle style) = normalizeStyle style :=
  normalizeStyle_eq_self_iff.2 (isNormal_normalizeStyle style)

/-- Joined declarations are normal if there are declarations between their own semicolons too. -/
theorem joined_normal_iff (ds : List Declaration) :
    (joined ds = "" ∨ IsNormal (joined ds)) ↔ ∀ d ∈ ds, d.Whole := by
  cases ds with
  | nil => simp [joined]
  | cons d ds =>
    have hcolon : ':' ∈ (joined (d :: ds)).toList := by
      cases ds <;> simp [joined, List.intercalate, Declaration.text]
    have hne : joined (d :: ds) ≠ "" := by
      intro hempty
      simp [hempty] at hcolon
    have hsplit : (joined (d :: ds)).toList.splitOn ';' =
        (d :: ds).flatMap fun d => d.text.splitOn ';' := by
      rw [joined, String.toList_ofList, Text.splitOn_intercalate_flatMap (by simp),
        List.flatMap_map]
    rw [or_iff_right hne, IsNormal, hsplit]
    exact List.forall_mem_flatMap

/-- Whether a declaration is whole can be read off by cutting it. -/
theorem Declaration.whole_iff (d : Declaration) :
    d.Whole ↔ ∀ piece ∈ d.text.splitOn ';',
      styleDeclaration? piece = some (String.ofList piece) := by
  constructor
  · intro h piece hpiece
    obtain ⟨d', rfl⟩ := h piece hpiece
    exact styleDeclaration?_text d'
  · intro h piece hpiece
    obtain ⟨d', hd', -⟩ :=
      exists_text_of_styleDeclaration? (Text.notMem_of_mem_splitOn hpiece) (h piece hpiece)
    exact ⟨d', String.toList_ofList.symm.trans hd'⟩

instance (d : Declaration) : Decidable d.Whole :=
  decidable_of_iff _ d.whole_iff.symm

theorem Declaration.whole_of_notMem {d : Declaration} (h : ';' ∉ d.value) : d.Whole := by
  have hsemicolon : ';' ∉ d.text := by
    simp [Declaration.text, d.noSemicolon, h]
  intro piece hpiece
  rw [List.splitOn_eq_singleton hsemicolon, List.mem_singleton] at hpiece
  exact ⟨d, hpiece⟩

/-! ## The style of an element -/

theorem get?_staticStyle {e : Element} {a : Attribute} (h : e.plainAttr? "style" = some a) :
    (styleExtension.transform e).extras.get? "staticStyle" = some (normalizeStyle a.valueText) := by
  have hplain : (lift .plain "style" "staticStyle" normalizeStyle e).extras.get? "staticStyle" =
      some (normalizeStyle a.valueText) := by
    rw [ElementOf.plainAttr?] at h
    simp [lift, ElementOf.takeAttr?, h]
  generalize hlifted : lift .plain "style" "staticStyle" normalizeStyle e = lifted at hplain
  have hbound : (lift .bind "style" "styleBinding" Text.trim lifted).extras.get? "staticStyle" =
      lifted.extras.get? "staticStyle" := by
    unfold lift ElementOf.takeAttr?
    cases lifted.attr? .bind "style" with
    | none => rfl
    | some b => simp
  subst hlifted
  exact hbound.trans hplain

/-- The entry for a static style is its declarations, in order and with nothing but semicolons
between them, if and only if each of them is made of declarations between its semicolons. So it is
when no value has a semicolon. Normalizing the entry again changes nothing. -/
theorem staticStyle_kept_iff {e : Element} {a : Attribute} {ds : List Declaration}
    (hstyle : e.plainAttr? "style" = some a) (hds : WritesStyle ds a.valueText) :
    ∃ entry, (styleExtension.transform e).extras.get? "staticStyle" = some entry ∧
      (entry = joined ds ↔ ∀ d ∈ ds, d.Whole) ∧
      ((∀ d ∈ ds, ';' ∉ d.value) → entry = joined ds) ∧
      normalizeStyle entry = entry := by
  have hkept : normalizeStyle a.valueText = joined ds ↔ ∀ d ∈ ds, d.Whole := by
    rw [normalizeStyle_writes hds (writesStyle_joined ds), normalizeStyle_eq_self_iff,
      joined_normal_iff]
  refine ⟨normalizeStyle a.valueText, get?_staticStyle hstyle, hkept, fun hplain => ?_,
    normalizeStyle_normalizeStyle a.valueText⟩
  exact hkept.2 fun d hd => Declaration.whole_of_notMem (hplain d hd)

/-- An element with a static style and nothing else. -/
def Element.styled (style : String) : Element :=
  { Element.new "p" with attrs := [.ofPlain "style" style none] }

/-- A color. -/
def redColor : Declaration where
  property := "color".toList
  value := "red".toList
  named := by decide
  noColon := by decide
  noSemicolon := by decide
  property_trimmed := by decide
  value_trimmed := by decide

/-- A filter with a semicolon in it. -/
def nestedFilter : Declaration where
  property := "filter".toList
  value := "url(a;b:c)".toList
  named := by decide
  noColon := by decide
  noSemicolon := by decide
  property_trimmed := by decide
  value_trimmed := by decide

/-- Blanks and idle semicolons do not matter, and neither does a semicolon between two texts that
are declarations. -/
theorem staticStyle_kept_nested :
    WritesStyle [redColor, nestedFilter] " color : red ; ;filter: url(a;b:c) ; " ∧
      ∃ entry,
        (styleExtension.transform
          (.styled " color : red ; ;filter: url(a;b:c) ; ")).extras.get? "staticStyle" =
            some entry ∧
        entry = "color:red;filter:url(a;b:c)" ∧ normalizeStyle entry = entry := by
  have hcolor : redColor.WrittenAs " color : red ".toList :=
    ⟨[' '], [' '], [' '], [' '], by decide, by decide, by decide, by decide, by decide⟩
  have hfilter : nestedFilter.WrittenAs "filter: url(a;b:c) ".toList :=
    ⟨[], [], [' '], [' '], by decide, by decide, by decide, by decide, by decide⟩
  have hwrites : WritesStyle [redColor, nestedFilter] " color : red ; ;filter: url(a;b:c) ; " :=
    ⟨[_, [' '], _, [' ']], .declaration hcolor (.idle (by decide)
      (.declaration hfilter (.idle (by decide) .nil))), by decide⟩
  obtain ⟨entry, hentry, hkept, -, hnormal⟩ := staticStyle_kept_iff
    (e := .styled " color : red ; ;filter: url(a;b:c) ; ") rfl hwrites
  exact ⟨hwrites, entry, hentry, hkept.2 (by decide), hnormal⟩

/-- An image with a semicolon in it. -/
def dataImage : Declaration where
  property := "background".toList
  value := "url(data:image/png;base64,AA)".toList
  named := by decide
  noColon := by decide
  noSemicolon := by decide
  property_trimmed := by decide
  value_trimmed := by decide

/-- Every parenthesis is matched, and semicolons are only inside of parentheses; `depth` is the
number of those that are open. -/
def enclosed : Nat → List Char → Bool
  | depth, [] => depth == 0
  | depth, '(' :: cs => enclosed (depth + 1) cs
  | 0, ')' :: _ => false
  | depth + 1, ')' :: cs => enclosed depth cs
  | depth, ';' :: cs => depth != 0 && enclosed depth cs
  | depth, _ :: cs => enclosed depth cs

/-- A data address is cut off at the semicolon in it. -/
theorem staticStyle_cutOff :
    enclosed 0 dataImage.value ∧ WritesStyle [dataImage] (joined [dataImage]) ∧
      joined [dataImage] = "background:url(data:image/png;base64,AA)" ∧
      (styleExtension.transform (.styled (joined [dataImage]))).extras.get? "staticStyle" =
        some "background:url(data:image/png" := by
  refine ⟨by decide, writesStyle_joined _, by decide, ?_⟩
  rw [get?_staticStyle (a := .ofPlain "style" (joined [dataImage]) none) rfl]
  decide

end ViewTree.Template
