import ViewTree.Proofs.Markup.Scanning
/-!
# What scanners leave

Whatever a scanner finds at the front of a text, it leaves the end of that text.
-/

namespace ViewTree.Markup

variable {cs rest : List Char}

/-! ## Tags -/

theorem dropBlank_suffix (cs : List Char) : Text.dropBlank cs <:+ cs :=
  List.dropWhile_suffix _

theorem localName?_suffix {name : List Char} (h : localName? cs = some (name, rest)) :
    rest <:+ cs := by
  cases cs with
  | nil => cases h
  | cons c cs =>
    simp only [localName?, Option.ite_none_right_eq_some, Option.some.injEq, Prod.mk.injEq] at h
    obtain ⟨-, -, rfl⟩ := h
    exact (List.dropWhile_suffix _).trans (List.suffix_cons c cs)

theorem tagName?_suffix {name : List Char} (h : tagName? cs = some (name, rest)) :
    rest <:+ cs := by
  unfold tagName? at h
  split at h
  · cases h
  · rename_i space behind hspace
    have hbehind := localName?_suffix hspace
    split at h
    · rename_i local' rest' hlocal
      cases h
      exact (localName?_suffix hlocal).trans ((List.suffix_cons ':' behind).trans hbehind)
    · cases h
      exact hbehind
  · rename_i hname
    cases h
    exact localName?_suffix hname

theorem afterAngle?_suffix (h : afterAngle? cs = some rest) : rest <:+ cs := by
  unfold afterAngle? at h
  split at h
  · cases h
  · rename_i c behind hbehind
    cases h
    exact (List.suffix_cons c rest).trans (hbehind ▸ List.dropWhile_suffix _)

theorem endTag?_suffix {tag : String} (h : endTag? cs = some (tag, rest)) : rest <:+ cs := by
  unfold endTag? at h
  split at h
  · simp only [Option.bind_eq_bind, Option.bind_eq_some_iff, Prod.exists] at h
    obtain ⟨name, behind, hname, after, hafter, heq⟩ := h
    cases heq
    have hbehind := (afterAngle?_suffix hafter).trans (tagName?_suffix hname)
    exact hbehind.trans ((List.suffix_cons _ _).trans (List.suffix_cons _ _))
  · cases h

theorem startTagOpen?_suffix {name : List Char} (h : startTagOpen? cs = some (name, rest)) :
    rest <:+ cs := by
  unfold startTagOpen? at h
  split at h
  · exact (tagName?_suffix h).trans (List.suffix_cons _ _)
  · cases h

theorem startTagClose?_suffix {slash : Bool} (h : startTagClose? cs = some (slash, rest)) :
    rest <:+ cs := by
  have hblank := dropBlank_suffix cs
  unfold startTagClose? at h
  split at h
  · rename_i behind hcs
    cases h
    rw [hcs] at hblank
    exact (List.suffix_append ['/', '>'] rest).trans hblank
  · rename_i behind hcs
    cases h
    rw [hcs] at hblank
    exact (List.suffix_cons '>' rest).trans hblank
  · cases h

/-! ## Attributes -/

theorem quotedValue?_suffix {quote : Char} {value : List Char}
    (h : quotedValue? quote cs = some (value, rest)) : rest <:+ cs := by
  unfold quotedValue? at h
  split at h
  · cases h
  · rename_i hspan
    cases h
    obtain ⟨-, rfl⟩ := Prod.mk.inj hspan
    exact (List.dropWhile_suffix _).trans (List.dropWhile_suffix _)

theorem attrValue?_suffix {value : List Char} (h : attrValue? cs = some (value, rest)) :
    rest <:+ cs := by
  cases cs with
  | nil => cases h
  | cons c cs =>
    rw [attrValue?] at h
    split at h
    · exact (quotedValue?_suffix h).trans (List.suffix_cons c cs)
    · split at h
      · cases h
      · rename_i hspan
        cases h
        obtain ⟨-, rfl⟩ := Prod.mk.inj hspan
        exact List.dropWhile_suffix _

theorem attrTail_suffix (cs : List Char) : (attrTail cs).2 <:+ cs := by
  unfold attrTail
  split
  · rename_i behind hcs
    cases hvalue : attrValue? (Text.dropBlank behind) with
    | none => exact List.suffix_refl cs
    | some found =>
      have hbehind : behind <:+ cs :=
        (List.suffix_cons '=' behind).trans (hcs ▸ dropBlank_suffix cs)
      exact (attrValue?_suffix hvalue).trans ((dropBlank_suffix behind).trans hbehind)
  · exact List.suffix_refl cs

/-- An attribute begins with a character of its name, which no blank is. -/
theorem attribute?_suffix {name value : List Char}
    (h : attribute? cs = some (name, value, rest)) :
    ∃ c behind, cs = c :: behind ∧ isAttrNameChar c ∧ rest <:+ behind := by
  unfold attribute? at h
  split at h
  · cases h
  · rename_i name' after hempty hspan
    simp only [Option.some.injEq, Prod.mk.injEq] at h
    obtain ⟨rfl, rfl, rfl⟩ := h
    obtain ⟨htake, hdrop⟩ := Prod.mk.inj hspan
    cases cs with
    | nil => exact absurd htake.symm hempty
    | cons c behind =>
      have hc : isAttrNameChar c := by
        cases hc : isAttrNameChar c with
        | true => rfl
        | false =>
          rw [List.takeWhile_cons_of_neg (by simp [hc])] at htake
          exact absurd htake.symm hempty
      rw [List.dropWhile_cons_of_pos hc] at hdrop
      refine ⟨c, behind, rfl, hc, (attrTail_suffix after).trans ?_⟩
      rw [← hdrop]
      exact List.dropWhile_suffix _

/-- What an attribute takes: the blanks in front of it, and itself. -/
theorem attribute?_extent {name value : List Char}
    (h : attribute? (Text.dropBlank cs) = some (name, value, rest)) :
    ∃ full, full ≠ [] ∧ cs = full ++ rest ∧
      Text.dropBlank cs = Text.dropBlank full ++ rest := by
  obtain ⟨c, behind, hcs, hc, more, rfl⟩ := attribute?_suffix h
  have hblank : ∀ b ∈ cs.takeWhile Text.isBlank, Text.isBlank b :=
    List.all_eq_true.1 List.all_takeWhile
  have hdrop : Text.dropBlank (cs.takeWhile Text.isBlank ++ c :: more) = c :: more := by
    rw [Text.dropBlank, List.dropWhile_append_of_pos hblank]
    exact dropBlank_of_not_blank ((isAttrNameChar_iff c).1 hc).1
  refine ⟨cs.takeWhile Text.isBlank ++ c :: more, by simp, ?_, ?_⟩
  · rw [List.append_assoc, List.cons_append, ← hcs, Text.dropBlank,
      List.takeWhile_append_dropWhile]
  · rw [hdrop, hcs, List.cons_append]

theorem readAttributes_suffix {total fuel : Nat} {attrs : List Attribute} {slash : Bool}
    (h : readAttributes total fuel cs = some (attrs, slash, rest)) : rest <:+ cs := by
  induction fuel generalizing cs attrs with
  | zero => cases h
  | succ fuel ih =>
    rw [readAttributes] at h
    split at h
    · rename_i hclose
      cases h
      exact startTagClose?_suffix hclose
    · simp only [Option.bind_eq_bind, Option.bind_eq_some_iff, Prod.exists] at h
      obtain ⟨name, value, behind, hattr, more, slash', rest', hmore, heq⟩ := h
      cases heq
      obtain ⟨full, -, hcs, -⟩ := attribute?_extent hattr
      exact (ih hmore).trans ⟨full, hcs.symm⟩

/-! ## Everything else -/

theorem stripStartNoCase?_suffix {head : List Char}
    (h : Text.stripStartNoCase? head cs = some rest) : rest <:+ cs := by
  induction head generalizing cs with
  | nil =>
    cases h
    exact List.suffix_refl _
  | cons x head ih =>
    cases cs with
    | nil => cases h
    | cons c cs =>
      rw [Text.stripStartNoCase?, Option.ite_none_right_eq_some] at h
      exact (ih h.2).trans (List.suffix_cons c cs)

theorem doctype?_suffix (h : doctype? cs = some rest) : rest <:+ cs := by
  simp only [doctype?, Option.bind_eq_bind, Option.bind_eq_some_iff] at h
  obtain ⟨behind, hstrip, hrest⟩ := h
  split at hrest
  · cases hrest
  · exact (afterAngle?_suffix hrest).trans (stripStartNoCase?_suffix hstrip)

theorem comment?_suffix {text : List Char} (h : comment? cs = some (text, rest)) :
    rest <:+ cs := by
  unfold comment? at h
  split at h
  · rename_i body
    have hbody : body <:+ '<' :: '!' :: '-' :: '-' :: body :=
      List.suffix_append ['<', '!', '-', '-'] body
    split at h
    · cases h
      exact (List.suffix_cons _ _).trans hbody
    · cases h
      exact (List.suffix_append ['-', '>'] rest).trans hbody
    · rw [Text.eq_of_splitAt? h] at hbody ⊢
      exact (List.suffix_append _ rest).trans hbody
  · cases h

theorem conditional?_suffix (h : conditional? cs = some rest) : rest <:+ cs := by
  rw [conditional?, Option.ite_none_right_eq_some] at h
  obtain ⟨⟨before, behind⟩, hsplit, rfl⟩ := Option.map_eq_some_iff.1 h.2
  rw [Text.eq_of_splitAt? hsplit]
  exact List.suffix_append _ behind

theorem rawEnd?_suffix {tag : List Char} (h : rawEnd? tag cs = some rest) : rest <:+ cs := by
  have hletters : ∀ (ls cs behind : List Char), rawEnd?.stripLetters? ls cs = some behind →
      behind <:+ cs := by
    intro ls
    induction ls with
    | nil =>
      rintro cs _ ⟨⟩
      exact List.suffix_refl cs
    | cons l ls ih =>
      intro cs behind hstrip
      cases cs with
      | nil => cases hstrip
      | cons c cs =>
        rw [rawEnd?.stripLetters?, Option.ite_none_right_eq_some] at hstrip
        exact (ih cs behind hstrip.2).trans (List.suffix_cons c cs)
  unfold rawEnd? at h
  split at h
  · obtain ⟨behind, hstrip, hrest⟩ := Option.bind_eq_some_iff.1 h
    have hbehind := (afterAngle?_suffix hrest).trans (hletters _ _ _ hstrip)
    exact hbehind.trans ((List.suffix_cons _ _).trans (List.suffix_cons _ _))
  · cases h

/-- The content stands in front of the end tag, and the end tag in front of the rest. -/
theorem rawText?_suffix {tag content fromEnd : List Char}
    (h : rawText? tag cs = some (content, fromEnd, rest)) :
    cs = content ++ fromEnd ∧ rest <:+ fromEnd := by
  induction cs generalizing content with
  | nil => cases h
  | cons c cs ih =>
    unfold rawText? at h
    split at h
    · rename_i hend
      cases h
      exact ⟨rfl, rawEnd?_suffix hend⟩
    · obtain ⟨⟨content', found⟩, hfound, heq⟩ := Option.map_eq_some_iff.1 h
      cases heq
      obtain ⟨rfl, hrest⟩ := ih hfound
      exact ⟨rfl, hrest⟩

theorem dropFirstNewline_suffix (tag : String) (cs : List Char) :
    dropFirstNewline tag cs <:+ cs := by
  unfold dropFirstNewline
  split
  · split
    · exact List.suffix_cons _ _
    · exact List.suffix_refl _
  · exact List.suffix_refl _

/-- A run of text and what it leaves are the whole text. -/
theorem textRun_append_rest (cs : List Char) : (textRun cs).1 ++ (textRun cs).2 = cs := by
  induction cs with
  | nil => rfl
  | cons c cs ih =>
    rw [textRun]
    split
    · rw [List.cons_append, ih]
    · rfl

end ViewTree.Markup
