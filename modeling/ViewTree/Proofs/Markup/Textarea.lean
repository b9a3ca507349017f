import ViewTree.Proofs.Markup.RawText
import ViewTree.Proofs.Markup.RoundTrip
/-!
# The content of a textarea

Of the newlines that a textarea begins with, two are dropped: one behind the start tag and one in
front of the text. A text is reported without the first newline only if no second one follows
(`textarea_dropsOne_iff`).
-/

namespace ViewTree.Markup

/-! ## The end tag behind a text -/

theorem sameLetter_iff {l c : Char} (hl : l ≠ 's') : sameLetter l c ↔ c.toLower = l := by
  rw [sameLetter, beq_false_of_ne hl, Bool.false_and, Bool.or_false, beq_iff_eq, eq_comm]

/-- The letters of an end tag spell the tag in some case. -/
theorem map_toLower_eq {tag letters : List Char} (htag : ∀ l ∈ tag, l ≠ 's')
    (h : List.Forall₂ (fun l c => sameLetter l c) tag letters) :
    letters.map Char.toLower = tag := by
  induction h with
  | nil => rfl
  | cons hsame _ ih =>
    obtain ⟨hl, htag⟩ := List.forall_mem_cons.1 htag
    rw [List.map_cons, (sameLetter_iff hl).1 hsame, ih htag]

theorem RawEnd.isPrefix {tag cs rest : List Char} (htag : ∀ l ∈ tag, l ≠ 's')
    (h : RawEnd tag cs rest) : '<' :: '/' :: tag <+: cs.map Char.toLower := by
  obtain ⟨letters, more, rfl, hsame, -⟩ := h
  rw [List.map_cons, List.map_cons, List.map_append, map_toLower_eq htag hsame]
  exact ⟨_, rfl⟩

/-- A mark that holds its first character only once does not run from a text into the next mark. -/
theorem prefix_of_prefix_append {x : Char} {mark front behind : List Char} (hx : x ∉ mark)
    (hfront : front ≠ []) (h : x :: mark <+: front ++ x :: behind) : x :: mark <+: front := by
  cases front with
  | nil => exact absurd rfl hfront
  | cons y front =>
    obtain ⟨rfl, hmark⟩ := List.cons_prefix_cons.1 h
    refine List.cons_prefix_cons.2 ⟨rfl, ?_⟩
    rcases Nat.lt_or_ge front.length mark.length with hlong | hshort
    · -- The mark would hold the first character of the next one.
      have hnext : front ++ [x] <+: front ++ x :: behind := ⟨behind, by simp⟩
      have hwithin : front ++ [x] <+: mark :=
        List.prefix_of_prefix_length_le hnext hmark (by simpa using Nat.succ_le_of_lt hlong)
      exact absurd (hwithin.subset (List.mem_append_right front (List.mem_singleton_self x))) hx
    · exact List.prefix_of_prefix_length_le hmark ⟨_, rfl⟩ hshort

/-- A text in front of an end tag that it does not hold itself is what the element contains. -/
theorem firstEnd_of_not_infix {tag t : List Char}
    (htag : ∀ l ∈ tag, l ≠ '<' ∧ l ≠ 's' ∧ l.toLower = l)
    (ht : ¬ '<' :: '/' :: tag <:+: t.map Char.toLower) (rest : List Char) :
    FirstEnd tag (t ++ '<' :: '/' :: (tag ++ '>' :: rest)) t
      ('<' :: '/' :: (tag ++ '>' :: rest)) rest where
  split := rfl
  ends := by
    refine ⟨tag, [], rfl, List.forall₂_same.2 fun l hl => ?_, List.not_mem_nil⟩
    obtain ⟨-, hs, hlower⟩ := htag l hl
    exact (sameLetter_iff hs).2 hlower
  first := by
    rintro front behind after rfl hne hend
    have hmark := hend.isPrefix fun l hl => (htag l hl).2.1
    rw [List.map_append, List.map_cons] at hmark
    have hangle : '<' ∉ '/' :: tag := by
      intro hmem
      obtain hslash | hmem := List.mem_cons.1 hmem
      · exact absurd hslash (by decide)
      · exact (htag _ hmem).1 rfl
    have hbehind := prefix_of_prefix_append hangle (by simpa using hne) hmark
    rw [List.map_append] at ht
    exact ht (hbehind.isInfix.trans (List.suffix_append _ _).isInfix)

/-! ## Reading a textarea -/

/-- The text without a newline at its beginning. -/
def dropNewline : List Char → List Char
  | '\n' :: cs => cs
  | cs => cs

theorem dropFirstNewline_textarea (cs : List Char) :
    dropFirstNewline "textarea" cs = dropNewline cs := by
  unfold dropFirstNewline
  split
  · rfl
  · rename_i hcs
    rw [dropNewline.eq_2 cs hcs]

theorem dropNewline_eq_self_iff (cs : List Char) : dropNewline cs = cs ↔ ¬ ['\n'] <+: cs := by
  unfold dropNewline
  split
  · rename_i cs
    have hshorter : cs ≠ '\n' :: cs := fun h => by simpa using congrArg List.length h
    simp [hshorter]
  · rename_i hcs
    refine iff_of_true rfl ?_
    rintro ⟨behind, rfl⟩
    exact hcs behind rfl

/-- Dropping a newline twice is dropping it once, unless the text begins with two. -/
theorem dropNewline_dropNewline_iff (cs : List Char) :
    dropNewline (dropNewline cs) = dropNewline cs ↔ ¬ ['\n', '\n'] <+: cs := by
  rw [dropNewline_eq_self_iff, not_iff_not]
  unfold dropNewline
  split
  · simp [List.cons_prefix_cons]
  · rename_i hcs
    constructor
    · rintro ⟨behind, rfl⟩
      exact absurd rfl (hcs behind)
    · rintro ⟨behind, rfl⟩
      exact absurd rfl (hcs ('\n' :: behind))

/-- The events are those of one textarea with the content as its only text, and with none if it is
empty. -/
def IsTextarea (es : List Event) (content : List Char) : Prop :=
  ∃ span place stop, es =
    .start "textarea" [] false span :: (textOf content place ++ [.stop "textarea" stop])

theorem textOf_inj {text text' : List Char} {place place' : Span} {es es' : List Event}
    {tag tag' : String} {stop stop' : Span}
    (h : textOf text place ++ .stop tag stop :: es =
      textOf text' place' ++ .stop tag' stop' :: es') : text = text' := by
  unfold textOf at h
  split at h
  · rename_i hempty
    split at h
    · rename_i hempty'
      rw [List.isEmpty_iff.1 hempty, List.isEmpty_iff.1 hempty']
    · cases h
  · split at h
    · cases h
    · simp only [List.singleton_append, List.cons.injEq, Event.text.injEq] at h
      exact String.ofList_injective h.1.1

theorem isTextarea_unique {es : List Event} {content content' : List Char}
    (h : IsTextarea es content) : IsTextarea es content' ↔ content' = content := by
  constructor
  · intro h'
    obtain ⟨span, place, stop, rfl⟩ := h
    obtain ⟨span', place', stop', heq⟩ := h'
    exact (textOf_inj (List.cons.inj heq).2).symm
  · rintro rfl
    exact h

theorem closeImplied_none (d : Dialect) (tag : String) (place : Nat) :
    closeImplied d .none tag place = ([], .none) := by
  simp [closeImplied, OpenElements.none]

theorem textarea_letters : ∀ l ∈ "textarea".toList, l ≠ '<' ∧ l ≠ 's' ∧ l.toLower = l := by
  simp

theorem events_none_nil (total : Nat) (d : Dialect) : events total d .none [] = [] := by
  rw [events]
  rfl

/-- A start tag without attributes at the beginning of a text opens its element. -/
theorem step_opening (total : Nat) {d : Dialect} {tag : String} (hd : d.isUnary tag = false)
    (htag : IsTagName tag.toList) (rest : List Char) :
    ∃ span, step total d .none (printOpening tag [] ++ (printClose false ++ rest)) =
      ⟨[.start tag [] false span], .push .none ⟨tag, span⟩, dropFirstNewline tag rest⟩ := by
  have hattrs : ∀ a ∈ ([] : List (String × String)), IsAttrName a.1 := List.forall_mem_nil _
  obtain ⟨found, hstart, hfound⟩ := startTag?_print total htag hattrs false rest
  obtain rfl : found = [] := List.map_eq_nil_iff.1 hfound
  obtain ⟨c, part, hname, hc⟩ := htag.eq_cons
  have hcs : printOpening tag [] ++ (printClose false ++ rest) =
      '<' :: c :: (part ++ (printClose false ++ rest)) := by
    simp [printOpening, hname]
  rw [hcs] at hstart ⊢
  have hmarkup : OpenElements.none.HoldsMarkup := rfl
  rw [step_eq_markupStep total d hmarkup, markupStep_opening total .none hc hstart]
  exact ⟨_, by simp only [openTag, closeImplied_none, hd]; rfl⟩

theorem isTextarea_tokenize {d : Dialect} (hd : d.isUnary "textarea" = false) {t : String}
    (ht : ¬ "</textarea".toList <:+: t.toList.map Char.toLower) :
    IsTextarea (tokenize d ("<textarea>" ++ t ++ "</textarea>"))
      (dropNewline (dropNewline t.toList)) := by
  have htag : IsTagName "textarea".toList := .inl ⟨by decide, List.all_eq_true.1 (by decide)⟩
  have hraw : Platform.isRawText "textarea" := by decide +kernel
  have hlower : Text.asciiLower "textarea" = "textarea" := by decide +kernel
  have hhtml : ("<textarea>" ++ t ++ "</textarea>").toList =
      printOpening "textarea" [] ++ (printClose false ++ (t.toList ++ "</textarea>".toList)) := by
    simp [printOpening, printClose]
  have hend : FirstEnd (Text.asciiLower "textarea").toList (t.toList ++ "</textarea>".toList)
      t.toList "</textarea>".toList [] := by
    rw [hlower]
    exact firstEnd_of_not_infix textarea_letters ht []
  rw [tokenize, hhtml]
  generalize Text.byteLength _ = total
  obtain ⟨span, hstep⟩ := step_opening total hd htag (t.toList ++ "</textarea>".toList)
  have hinside := events_push_of_firstEnd total d (e := ⟨"textarea", span⟩) hraw inStep_none
    (hend.dropFirstNewline "textarea")
  simp only [hlower, dropFirstNewline_textarea] at hinside
  rw [events_onward, hstep]
  · simp only [dropFirstNewline_textarea, hinside, events_none_nil]
    exact ⟨span, _, _, rfl⟩
  · have hshort := (dropFirstNewline_suffix "textarea" (t.toList ++ "</textarea>".toList)).length_le
    have hopening : 0 < (printOpening "textarea" []).length := Nat.succ_pos _
    rw [hstep, List.length_append, List.length_append]
    dsimp only
    omega

/-- Whatever the dialect, as long as it gives textareas an end, a textarea is reported with its text
less two newlines at the beginning. So it has its text less one of them just if the text does not
begin with two. -/
theorem textarea_dropsOne_iff {d : Dialect} (hd : d.isUnary "textarea" = false) {t : String}
    (ht : ¬ "</textarea".toList <:+: t.toList.map Char.toLower) :
    IsTextarea (tokenize d ("<textarea>" ++ t ++ "</textarea>"))
      (dropNewline (dropNewline t.toList)) ∧
    (IsTextarea (tokenize d ("<textarea>" ++ t ++ "</textarea>")) (dropNewline t.toList) ↔
      ¬ ['\n', '\n'] <+: t.toList) := by
  have htwo := isTextarea_tokenize hd ht
  refine ⟨htwo, ?_⟩
  rw [isTextarea_unique htwo, eq_comm, dropNewline_dropNewline_iff]

/-- One newline in front of the text, and two at its end. -/
theorem textarea_dropsOne_lines :
    Dialect.plain.isUnary "textarea" = false ∧
      ¬ "</textarea".toList <:+: "\na\n\n".toList.map Char.toLower ∧
      IsTextarea (tokenize .plain ("<textarea>" ++ "\na\n\n" ++ "</textarea>"))
        ['a', '\n', '\n'] := by
  have hunary : Dialect.plain.isUnary "textarea" = false := rfl
  have hinside : ¬ "</textarea".toList <:+: "\na\n\n".toList.map Char.toLower := by
    decide +kernel
  exact ⟨hunary, hinside, (textarea_dropsOne_iff hunary hinside).2.2 (by decide)⟩

/-- Of two newlines in front of the text none is left. -/
theorem textarea_dropsBoth :
    Dialect.plain.isUnary "textarea" = false ∧
      ¬ "</textarea".toList <:+: "\n\nx".toList.map Char.toLower ∧
      ¬ IsTextarea (tokenize .plain ("<textarea>" ++ "\n\nx" ++ "</textarea>"))
        (dropNewline "\n\nx".toList) := by
  refine ⟨rfl, by decide +kernel, ?_⟩
  have htokens : IsTextarea (tokenize .plain ("<textarea>" ++ "\n\nx" ++ "</textarea>")) ['x'] :=
    ⟨⟨0, 10⟩, ⟨11, 13⟩, ⟨13, 24⟩, by decide +kernel⟩
  rw [isTextarea_unique htokens]
  decide

end ViewTree.Markup
