import ViewTree.Proofs.Markup.Contents
import ViewTree.Proofs.Template.Entries
/-!
# The record of a template

The content of a template is recorded piece by piece, and entries are only ever put behind those in
front. So each entry is made of what is read, of the start tags that are open, and of the nodes that
stand of the entries in front of it (`record_made`). What holds of the entries of every content
holds of the entries inside each of them as well (`throughout_record`).
-/

namespace ViewTree.Template

/-! ## Open elements -/

/-- The element is a script or a style, whose texts are not decoded. -/
def OpenTag.holdsCode (t : OpenTag) : Bool :=
  t.tag == "script" || t.tag == "style"

/-- What the element shows of a text that is not blank. -/
def OpenTag.shows (t : OpenTag) (text : String) : String :=
  if t.holdsCode then text else decodeText text

/-- The start tags whose elements are open, innermost first. -/
abbrev Path := List OpenTag

namespace Path

/-- One of the start tags has the attribute to take everything as it stands. -/
def isRaw (p : Path) : Bool :=
  p.any fun t => t.attrs.any (·.name == "v-pre")

/-- The number of open elements in which all blanks count. -/
def preDepth (s : Settings) (p : Path) : Nat :=
  p.countP fun t => s.isPreTag t.tag

/-- Whether the end of the innermost element takes away a single space in front of it. -/
def trims (s : Settings) (p : Path) : Bool :=
  p.preDepth s == 0

/-- The namespace of the innermost element, which it has from the outermost one that has any. -/
def ns (s : Settings) : Path → Option String
  | [] => none
  | t :: outer => ns s outer <|> s.tagNamespace t.tag

theorem preDepth_cons (s : Settings) (t : OpenTag) (p : Path) :
    preDepth s (t :: p) = if s.isPreTag t.tag then p.preDepth s + 1 else p.preDepth s := by
  rw [preDepth, preDepth, List.countP_cons]
  split
  · rfl
  · rfl

theorem preDepth_le_cons (s : Settings) (t : OpenTag) (p : Path) :
    p.preDepth s ≤ preDepth s (t :: p) := by
  rw [preDepth_cons]
  split
  · exact Nat.le_succ _
  · exact Nat.le_refl _

end Path

/-- The element of a start tag, without anything inside so far. -/
def OpenTag.element (s : Settings) (t : OpenTag) (outer : Path) (unary : Bool)
    (span : Markup.Span) : Element :=
  { Element.new t.tag with
    attrs := (Builder.readAttributes s (Path.isRaw (t :: outer)) [] t.attrs).1
    selfClosing := unary
    ns := Path.ns s (t :: outer)
    span := if s.sourceRange then some span else none }

theorem OpenTag.element_tag (s : Settings) (t : OpenTag) (outer : Path) (unary : Bool)
    (span : Markup.Span) : (t.element s outer unary span).tag = t.tag :=
  rfl

/-! ## Pieces -/

/-- What is shown of a text behind its siblings; outside of all elements, nothing. -/
def Path.shown? (s : Settings) (siblings : List Node) (text : String) : Path → Option String
  | [] => none
  | t :: outer =>
    Builder.shownText? (Path.preDepth s (t :: outer))
      { Element.new t.tag with children := siblings } text

/-- A text that is not blank is shown, and so is any where all blanks count. -/
theorem Path.shown?_cons {s : Settings} {text : String} {t : OpenTag} {outer : Path}
    (h : 0 < Path.preDepth s (t :: outer) ∨ Text.allBlank text = false) (siblings : List Node) :
    Path.shown? s siblings text (t :: outer) = some (t.shows text) := by
  have hshown : (decide (Path.preDepth s (t :: outer) > 0) || !Text.allBlank text) = true := by
    simpa using h
  exact if_pos hshown

/-- The parts of a text behind its siblings. -/
def textParts (s : Settings) (p : Path) (siblings : List Node) (text : String) : List Part :=
  match p.shown? s siblings text with
  | some shown => shownParts s p.isRaw siblings shown
  | none => []

/-- The fate of an element behind its siblings. -/
def fateOf (outer : Path) (siblings : List Node) (e : Element) : Fate :=
  if Builder.isForbidden e || (outer.isEmpty && !siblings.isEmpty && !e.isBranch) then .dropped
  else if e.isBranch && Builder.front siblings != some true then .stray
  else .kept

/-- The entry of an element behind its siblings, with the entries of what is inside. -/
def closedEntry (s : Settings) (outer : Path) (siblings : List Node) (t : OpenTag) (unary : Bool)
    (span : Markup.Span) (stop : Nat) (inside : List Entry) : Entry :=
  let opened := t.element s outer unary span
  .element t
    (Builder.finish s (Path.preDepth s (t :: outer)) { opened with children := nodes inside } stop)
    (fateOf outer siblings opened) inside

/-- The entries of a content behind those that are there. -/
def record (s : Settings) (p : Path) (there : List Entry) : Markup.Content → List Entry
  | .nil => there
  | .text t _ behind => record s p (there ++ [.text t (textParts s p (nodes there) t)]) behind
  | .comment t _ behind => record s p (if p.isEmpty then there else there ++ [.comment t]) behind
  | .warning _ behind => record s p there behind
  | .unary tag attrs span behind =>
    record s p (there ++ [closedEntry s p (nodes there) ⟨tag, attrs⟩ true span span.stop []]) behind
  | .paired tag attrs span inside _ stop behind =>
    let entries := record s (⟨tag, attrs⟩ :: p) [] inside
    record s p (there ++ [closedEntry s p (nodes there) ⟨tag, attrs⟩ false span stop.stop entries])
      behind

mutual

/-- The texts of an entry in order. -/
def Entry.texts : Entry → List String
  | .text t _ => [t]
  | .comment _ => []
  | .element _ _ _ inside => textsOf inside

/-- The texts of the entries in order. -/
def textsOf : List Entry → List String
  | [] => []
  | e :: behind => e.texts ++ textsOf behind

end

/-! ## How entries are made -/

/-- What an entry is made of, behind its siblings. -/
def Made (s : Settings) (p : Path) (siblings : List Node) : Entry → Prop
  | .text t parts => parts = textParts s p siblings t
  | .comment _ => True
  | .element t made fate inside =>
    ∃ unary span stop,
      .element t made fate inside = closedEntry s p siblings t unary span stop inside

/-- Each of the entries is made behind what stands of those in front of it. -/
def AllMade (s : Settings) (p : Path) (es : List Entry) : Prop :=
  ∀ front x behind, es = front ++ x :: behind → Made s p (nodes front) x

/-- The entries satisfy the property, and so do those inside each element. -/
inductive Throughout (P : Path → List Entry → Prop) : Path → List Entry → Prop
  | intro {p : Path} {es : List Entry} (here : P p es)
      (inside : ∀ t made fate inner, .element t made fate inner ∈ es →
        Throughout P (t :: p) inner) : Throughout P p es

namespace Throughout

variable {P Q : Path → List Entry → Prop} {p : Path} {es : List Entry}

theorem here (h : Throughout P p es) : P p es := by
  cases h with
  | intro here => exact here

theorem inside (h : Throughout P p es) {t : OpenTag} {made : Element} {fate : Fate}
    {inner : List Entry} (hmem : .element t made fate inner ∈ es) :
    Throughout P (t :: p) inner := by
  cases h with
  | intro _ inside => exact inside t made fate inner hmem

theorem imp (hPQ : ∀ {p es}, P p es → Q p es) (h : Throughout P p es) : Throughout Q p es := by
  induction h with
  | intro here _ ih => exact .intro (hPQ here) ih

end Throughout

section

variable {s : Settings} {p : Path} {there : List Entry} {x : Entry}

theorem concat_split {front behind : List Entry} {y : Entry}
    (h : there ++ [x] = front ++ y :: behind) :
    (there = front ∧ x = y ∧ behind = []) ∨
      ∃ behind', behind = behind' ++ [x] ∧ there = front ++ y :: behind' := by
  rcases List.eq_nil_or_concat behind with rfl | ⟨behind', z, rfl⟩
  · obtain ⟨hthere, hx⟩ := List.append_inj' h rfl
    exact .inl ⟨hthere, List.head_eq_of_cons_eq hx, rfl⟩
  · rw [List.concat_eq_append, ← List.cons_append, ← List.append_assoc] at h
    obtain ⟨hthere, hx⟩ := List.append_inj' h rfl
    cases hx
    exact .inr ⟨behind', List.concat_eq_append, hthere⟩

theorem AllMade.concat (h : AllMade s p there) (hx : Made s p (nodes there) x) :
    AllMade s p (there ++ [x]) := by
  intro front y behind hsplit
  rcases concat_split hsplit with ⟨rfl, rfl, -⟩ | ⟨behind', -, hthere⟩
  · exact hx
  · exact h front y behind' hthere

theorem allMade_nil (s : Settings) (p : Path) : AllMade s p [] := by
  intro front x behind hsplit
  simp at hsplit

theorem AllMade.record (h : AllMade s p there) (c : Markup.Content) :
    AllMade s p (record s p there c) := by
  induction c generalizing p there with
  | nil => exact h
  | text t span behind ih => exact ih (h.concat rfl)
  | comment t span behind ih =>
    rw [Template.record]
    split
    · exact ih h
    · exact ih (h.concat trivial)
  | warning w behind ih => exact ih h
  | unary tag attrs span behind ih => exact ih (h.concat ⟨_, _, _, rfl⟩)
  | paired tag attrs span inside stopTag stop behind _ ih => exact ih (h.concat ⟨_, _, _, rfl⟩)

/-- Each entry of a record is made behind what stands of those in front of it. -/
theorem record_made (s : Settings) (p : Path) (c : Markup.Content) :
    AllMade s p (record s p [] c) :=
  (allMade_nil s p).record c

theorem inside_record {P : Path → List Entry → Prop} (hP : ∀ p c, P p (record s p [] c))
    (hthere : ∀ t made fate inner, .element t made fate inner ∈ there →
      Throughout P (t :: p) inner) (c : Markup.Content) :
    ∀ t made fate inner, .element t made fate inner ∈ record s p there c →
      Throughout P (t :: p) inner := by
  have hconcat {p : Path} {there : List Entry}
      (hthere : ∀ t made fate inner, .element t made fate inner ∈ there →
        Throughout P (t :: p) inner) {x : Entry}
      (hx : ∀ t made fate inner, .element t made fate inner = x → Throughout P (t :: p) inner) :
      ∀ t made fate inner, .element t made fate inner ∈ there ++ [x] →
        Throughout P (t :: p) inner := by
    intro t made fate inner hmem
    rcases List.mem_append.1 hmem with hmem | hmem
    · exact hthere t made fate inner hmem
    · exact hx t made fate inner (List.mem_singleton.1 hmem)
  induction c generalizing p there with
  | nil => exact hthere
  | text t span behind ih => exact ih (hconcat hthere (by rintro _ _ _ _ ⟨⟩))
  | comment t span behind ih =>
    rw [record]
    split
    · exact ih hthere
    · exact ih (hconcat hthere (by rintro _ _ _ _ ⟨⟩))
  | warning w behind ih => exact ih hthere
  | unary tag attrs span behind ih =>
    refine ih (hconcat hthere ?_)
    rintro _ _ _ _ ⟨⟩
    exact .intro (hP _ .nil) (by simp)
  | paired tag attrs span inside stopTag stop behind ihinside ih =>
    refine ih (hconcat hthere ?_)
    rintro _ _ _ _ ⟨⟩
    exact .intro (hP _ inside) (ihinside (by simp))

/-- What holds of every record holds throughout a record. -/
theorem throughout_record {P : Path → List Entry → Prop} (hP : ∀ p c, P p (record s p [] c))
    (p : Path) (c : Markup.Content) : Throughout P p (record s p [] c) :=
  .intro (hP p c) (inside_record hP (by simp) c)

theorem textsOf_concat (there : List Entry) (x : Entry) :
    textsOf (there ++ [x]) = textsOf there ++ x.texts := by
  induction there with
  | nil => exact List.append_nil x.texts
  | cons e es ih => rw [List.cons_append, textsOf, textsOf, ih, List.append_assoc]

/-- Every text is recorded, in order. -/
theorem textsOf_record (p : Path) (there : List Entry) (c : Markup.Content) :
    textsOf (record s p there c) = textsOf there ++ c.texts := by
  induction c generalizing p there with
  | nil => exact (List.append_nil _).symm
  | text t span behind ih =>
    rw [record, ih, textsOf_concat, List.append_assoc]
    rfl
  | comment t span behind ih =>
    rw [record, ih]
    split
    · rfl
    · rw [textsOf_concat, List.append_assoc]
      rfl
  | warning w behind ih => exact ih p there
  | unary tag attrs span behind ih =>
    rw [record, ih, textsOf_concat, List.append_assoc]
    rfl
  | paired tag attrs span inside stopTag stop behind ihinside ih =>
    rw [record, ih, textsOf_concat, List.append_assoc, closedEntry, Entry.texts, ihinside]
    rfl

end

end ViewTree.Template
