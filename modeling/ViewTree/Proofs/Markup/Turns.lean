import ViewTree.Proofs.Markup.Advancing
/-!
# What a step of the reader can do

A step finds texts and comments only, drops or repairs a stray end tag, closes elements up to the
one of an end tag, opens an element, or closes a raw text element (`step_turn`). Reading is one step
after the other (`Reads`).
-/

namespace ViewTree.Markup

/-! ## One step -/

/-- A text at its place, unless there is none. -/
def textOf (text : List Char) (place : Span) : List Event :=
  if text.isEmpty then [] else [.text (String.ofList text) place]

theorem isAside_textOf (text : List Char) (place : Span) : ∀ x ∈ textOf text place, x.isAside := by
  unfold textOf
  split
  · exact List.forall_mem_nil _
  · exact List.forall_mem_singleton.2 rfl

section

variable (total : Nat) (d : Dialect)

/-- What a step comes to, by what it meets. -/
inductive Turn (o : OpenElements) (cs : List Char) : Progress → Prop
  | aside {es : List Event} {rest : List Char} (hes : ∀ x ∈ es, x.isAside) :
      Turn o cs ⟨es, o, rest⟩
  | stray {tag : String} {rest : List Char} (hend : endTag? cs = some (tag, rest)) :
      Turn o cs ⟨OpenElements.strayEnd tag (between total cs rest), o, rest⟩
  | ended {tag : String} {rest : List Char} {inside below : List OpenElement} {e : OpenElement}
      (hend : endTag? cs = some (tag, rest)) (hstack : o.stack = inside ++ e :: below)
      (htag : Text.asciiLower e.tag = Text.asciiLower tag) :
      Turn o cs
        ⟨inside.flatMap (OpenElements.implied (between total cs rest)) ++
          [.stop e.tag (between total cs rest)], .ofStack below, rest⟩
  | opened {t : StartTag} (hstart : startTag? total cs = some t) :
      Turn o cs (openTag total d o cs t)
  | rawEnded {content fromEnd rest : List Char} {below : List OpenElement} {e : OpenElement}
      (hraw : Platform.isRawText e.tag) (hstack : o.stack = e :: below)
      (hfound : rawText? (Text.asciiLower e.tag).toList cs = some (content, fromEnd, rest)) :
      Turn o cs
        ⟨textOf (dropFirstNewline (Text.asciiLower e.tag) content) (between total cs fromEnd) ++
          [.stop e.tag (between total fromEnd rest)], .ofStack below, rest⟩
  | rawUnended {below : List OpenElement} {e : OpenElement} (hraw : Platform.isRawText e.tag)
      (hstack : o.stack = e :: below)
      (hfound : rawText? (Text.asciiLower e.tag).toList cs = none) :
      Turn o cs ⟨[.stop e.tag (between total cs cs)], .ofStack below, cs⟩

/-- An end tag is stray, or it closes the nearest element of its tag. -/
theorem close_cases (o : OpenElements) (tag : String) (span : Span) :
    o.close tag span = (OpenElements.strayEnd tag span, o) ∨
      ∃ inside e below, o.stack = inside ++ e :: below ∧
        Text.asciiLower e.tag = Text.asciiLower tag ∧
        o.close tag span =
          (inside.flatMap (OpenElements.implied span) ++ [.stop e.tag span], .ofStack below) := by
  unfold OpenElements.close
  dsimp only
  generalize hd : (fun e : OpenElement => Text.asciiLower e.tag != Text.asciiLower tag) = differs
  split
  · exact .inl rfl
  · rename_i e below hdrop
    have hstack : o.stack = o.stack.takeWhile differs ++ e :: below := by
      rw [← hdrop, List.takeWhile_append_dropWhile]
    have hsame : differs e = false := by
      simpa [hdrop] using List.head_dropWhile_not differs (l := o.stack) (by simp [hdrop])
    rw [← hd] at hsame
    exact .inr ⟨_, e, below, hstack, by simpa using hsame, rfl⟩

/-- The tag of the innermost open element closes just that one. -/
theorem close_top {o : OpenElements} {e : OpenElement} {below : List OpenElement} {tag : String}
    (hstack : o.stack = e :: below) (htag : Text.asciiLower e.tag = Text.asciiLower tag)
    (span : Span) : o.close tag span = ([.stop e.tag span], .ofStack below) := by
  simp [OpenElements.close, hstack, htag]

/-- The innermost open element, by its tag. -/
theorem exists_top {o : OpenElements} {tag : String} (h : o.tags.head? = some tag) :
    ∃ e below, o.stack = e :: below ∧ e.tag = tag := by
  cases hstack : o.stack with
  | nil => simp [OpenElements.tags, hstack] at h
  | cons e below => exact ⟨e, below, rfl, by simpa [OpenElements.tags, hstack] using h⟩

theorem ofStack_stack {o : OpenElements} (ho : o.InStep) : OpenElements.ofStack o.stack = o := by
  obtain ⟨stack, last⟩ := o
  have hlast : last = (stack.map (·.tag)).head? := ho
  simp [OpenElements.ofStack, hlast]

/-- A closing that is made only for the innermost element takes just that one off the stack. -/
theorem close_when {o : OpenElements} (ho : o.InStep) {closes : Bool} {tag : String}
    (h : closes → o.last = some tag) (span : Span) :
    (if closes then o.close tag span else ([], o)) =
      if closes then ([.stop tag span], .ofStack o.stack.tail) else ([], o) := by
  cases closes with
  | false => rfl
  | true =>
    obtain ⟨e, below, hstack, rfl⟩ := exists_top (ho ▸ h rfl)
    rw [if_pos rfl, if_pos rfl, close_top hstack rfl, hstack, List.tail_cons]

/-- The names of raw text elements are in lower case. -/
theorem asciiLower_of_isRawText {tag : String} (h : Platform.isRawText tag) :
    Text.asciiLower (Text.asciiLower tag) = Text.asciiLower tag := by
  have hmem : Text.asciiLower tag ∈ ["script", "style", "textarea"] := by
    simpa [Platform.isRawText] using h
  have hlower : ∀ name ∈ ["script", "style", "textarea"], Text.asciiLower name = name := by
    decide +kernel
  exact hlower _ hmem

/-- Only in a textarea is a newline dropped in front of raw text. -/
theorem dropFirstNewline_of_isRawText {tag : String} (h : Platform.isRawText tag)
    (content : List Char) :
    (if Text.asciiLower tag = "textarea" then dropFirstNewline (Text.asciiLower tag) content
      else content) = dropFirstNewline (Text.asciiLower tag) content := by
  split
  · rfl
  · rename_i harea
    have hpre : Text.asciiLower tag ≠ "pre" := by
      intro hpre
      simp [Platform.isRawText, hpre] at h
    unfold dropFirstNewline
    split
    · simp [hpre, harea]
    · rfl

variable {o : OpenElements} (cs : List Char)

section

variable {cs} {e : OpenElement} {below : List OpenElement} (hraw : Platform.isRawText e.tag)
  (hstack : o.stack = e :: below)
include hraw hstack

theorem rawStep_of_some {content fromEnd rest : List Char}
    (h : rawText? (Text.asciiLower e.tag).toList cs = some (content, fromEnd, rest)) :
    rawStep total o e.tag cs =
      ⟨textOf (dropFirstNewline (Text.asciiLower e.tag) content) (between total cs fromEnd) ++
        [.stop e.tag (between total fromEnd rest)], .ofStack below, rest⟩ := by
  simp only [rawStep, h, dropFirstNewline_of_isRawText hraw,
    close_top hstack (asciiLower_of_isRawText hraw).symm]
  rfl

theorem rawStep_of_none (h : rawText? (Text.asciiLower e.tag).toList cs = none) :
    rawStep total o e.tag cs = ⟨[.stop e.tag (between total cs cs)], .ofStack below, cs⟩ := by
  simp only [rawStep, h, close_top hstack (asciiLower_of_isRawText hraw).symm]

theorem rawStep_turn : Turn total d o cs (rawStep total o e.tag cs) := by
  cases hfound : rawText? (Text.asciiLower e.tag).toList cs with
  | none =>
    rw [rawStep_of_none total hraw hstack hfound]
    exact .rawUnended hraw hstack hfound
  | some found =>
    rw [rawStep_of_some total hraw hstack hfound]
    exact .rawEnded hraw hstack hfound

end

theorem markupStep_turn : Turn total d o cs (markupStep total d o cs) := by
  unfold markupStep
  split
  · refine .aside ?_
    cases d.keepComments
    · exact List.forall_mem_nil _
    · exact List.forall_mem_singleton.2 rfl
  · exact .aside (List.forall_mem_nil _)
  · exact .aside (List.forall_mem_nil _)
  · rename_i tag rest _ _ _ hend
    obtain hstray | ⟨inside, e, below, hstack, htag, hclose⟩ :=
      close_cases o tag (between total cs rest)
    · simp only [hstray]
      exact .stray hend
    · simp only [hclose]
      exact .ended hend hstack htag
  · rename_i hstart
    exact .opened hstart
  · unfold textStep
    split
    · exact .aside (List.forall_mem_nil _)
    · exact .aside (List.forall_mem_singleton.2 rfl)

theorem step_turn (h : o.InStep) : Turn total d o cs (step total d o cs) := by
  unfold step
  split
  · rename_i tag hlast
    obtain ⟨hlast, hraw⟩ := Option.filter_eq_some_iff.1 hlast
    rw [h] at hlast
    obtain ⟨e, below, hstack, rfl⟩ := exists_top hlast
    exact rawStep_turn total d hraw hstack
  · exact markupStep_turn total d cs

end

/-! ## Tags in the text -/

theorem localName?_eq_some {cs name rest : List Char} (h : localName? cs = some (name, rest)) :
    cs = name ++ rest ∧ ∃ c part, name = c :: part ∧ isNameStart c := by
  cases cs with
  | nil => cases h
  | cons c cs =>
    simp only [localName?, Option.ite_none_right_eq_some, Option.some.injEq, Prod.mk.injEq] at h
    obtain ⟨hc, rfl, rfl⟩ := h
    refine ⟨?_, c, _, rfl, hc⟩
    rw [List.cons_append, spanWhile, List.takeWhile_append_dropWhile]

theorem tagName?_eq_some {cs name rest : List Char} (h : tagName? cs = some (name, rest)) :
    cs = name ++ rest ∧ ∃ c part, name = c :: part ∧ isNameStart c := by
  unfold tagName? at h
  split at h
  · cases h
  · rename_i space behind hspace
    obtain ⟨rfl, c, part, rfl, hc⟩ := localName?_eq_some hspace
    split at h
    · rename_i name' rest' hname
      obtain ⟨rfl, -⟩ := localName?_eq_some hname
      cases h
      exact ⟨by simp, c, _, rfl, hc⟩
    · cases h
      exact ⟨rfl, c, part, rfl, hc⟩
  · rename_i hname
    cases h
    exact localName?_eq_some hname

theorem startTag?_eq_some {total : Nat} {cs : List Char} {t : StartTag}
    (h : startTag? total cs = some t) :
    ∃ behind, cs = '<' :: (t.tag.toList ++ behind) ∧ t.rest <:+ behind := by
  simp only [startTag?, Option.bind_eq_bind, Option.bind_eq_some_iff, Prod.exists] at h
  obtain ⟨name, behind, hopen, attrs, slash, rest, hread, heq⟩ := h
  cases heq
  unfold startTagOpen? at hopen
  split at hopen
  · obtain ⟨rfl, -⟩ := tagName?_eq_some hopen
    exact ⟨behind, by rw [String.toList_ofList], readAttributes_suffix hread⟩
  · cases hopen

theorem endTag?_eq_some {cs rest : List Char} {tag : String} (h : endTag? cs = some (tag, rest)) :
    ∃ behind, cs = '<' :: '/' :: (tag.toList ++ behind) ∧ rest <:+ behind ∧
      ∃ c part, tag.toList = c :: part ∧ isNameStart c := by
  unfold endTag? at h
  split at h
  · simp only [Option.bind_eq_bind, Option.bind_eq_some_iff, Prod.exists] at h
    obtain ⟨name, behind, hname, after, hafter, heq⟩ := h
    cases heq
    obtain ⟨rfl, hstart⟩ := tagName?_eq_some hname
    rw [String.toList_ofList]
    exact ⟨behind, rfl, afterAngle?_suffix hafter, hstart⟩
  · cases h

theorem startTag?_length {total : Nat} {cs : List Char} {t : StartTag}
    (h : startTag? total cs = some t) : t.rest.length < cs.length := by
  obtain ⟨behind, rfl, hrest⟩ := startTag?_eq_some h
  have hlength := hrest.length_le
  simp only [List.length_cons, List.length_append]
  omega

theorem endTag?_length {cs rest : List Char} {tag : String} (h : endTag? cs = some (tag, rest)) :
    rest.length < cs.length := by
  obtain ⟨behind, rfl, hrest, -⟩ := endTag?_eq_some h
  have hlength := hrest.length_le
  simp only [List.length_cons, List.length_append]
  omega

/-! ## Steps one after the other -/

section

variable (total : Nat) (d : Dialect)

/-- A step that reads something is followed by the events of the rest. -/
theorem events_onward {o : OpenElements} {cs : List Char}
    (h : (step total d o cs).rest.length < cs.length) :
    events total d o cs = (step total d o cs).events ++
      events total d (step total d o cs).opened (step total d o cs).rest := by
  cases cs with
  | nil => cases h
  | cons c cs =>
    rw [events]
    exact if_pos h

/-- A step that reads nothing is the last one. -/
theorem events_stuck {o : OpenElements} {cs : List Char} (hcs : cs ≠ [])
    (h : ¬ (step total d o cs).rest.length < cs.length) :
    events total d o cs = (step total d o cs).events ++
      tail total (step total d o cs).opened (step total d o cs).rest := by
  cases cs with
  | nil => exact absurd rfl hcs
  | cons c cs =>
    rw [events]
    exact if_neg h

/-- Reading from one place on finds the events and gets to another place, with more of the text to
read at each step. -/
inductive Reads : OpenElements → List Char → List Event → OpenElements → List Char → Prop
  | here (o : OpenElements) (cs : List Char) : Reads o cs [] o cs
  | onward {o o' : OpenElements} {c : Char} {cs cs' : List Char} {es : List Event}
      (hshort : (step total d o (c :: cs)).rest.length < (c :: cs).length)
      (hreads : Reads (step total d o (c :: cs)).opened (step total d o (c :: cs)).rest es o' cs') :
      Reads o (c :: cs) ((step total d o (c :: cs)).events ++ es) o' cs'

variable {total d} {o o' : OpenElements} {cs cs' : List Char} {es : List Event}

theorem Reads.nest_eq (h : Reads total d o cs es o' cs') : nest o.tags es = some o'.tags := by
  induction h with
  | here => rfl
  | onward _ _ ih => exact nest_trans (nest_step total d _ _) ih

theorem Reads.inStep (h : Reads total d o cs es o' cs') (ho : o.InStep) : o'.InStep := by
  induction h with
  | here => exact ho
  | onward _ _ ih => exact ih (inStep_step total d ho _)

theorem Reads.suffix (h : Reads total d o cs es o' cs') : cs' <:+ cs := by
  induction h with
  | here => exact List.suffix_refl _
  | onward _ _ ih => exact ih.trans (step_suffix total d _ _)

end

end ViewTree.Markup
