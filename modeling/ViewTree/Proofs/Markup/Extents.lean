import ViewTree.Proofs.Markup.Comments
import ViewTree.Proofs.Markup.Unclosed
/-!
# Where events stand

The places of start tags, texts and comments follow one another through the text
(`Consecutive`), and what stands at a place is what the event says (`Event.Faithful`). Each scanner
is shown to take a piece of the form that its event promises (`comment?_piece`, `startTag?_piece`),
each step to find at most one such event between its place and the next (`placed_step`), and
the run follows step by step.
-/

namespace ViewTree.Markup

open Text (byteLength slice?)

/-! ## Places -/

/-- The text at a span, if the span is inside of the text and cuts no character. -/
def Span.source? (span : Span) (html : List Char) : Option (List Char) :=
  slice? span.start span.stop html

/-- Spans from one offset to another that are not empty, one behind the other. -/
def Consecutive : Nat → List Span → Nat → Prop
  | n, [], m => n ≤ m
  | n, span :: spans, m => n ≤ span.start ∧ span.start < span.stop ∧ Consecutive span.stop spans m

theorem Consecutive.le {n m : Nat} {spans : List Span} (h : Consecutive n spans m) : n ≤ m := by
  induction spans generalizing n with
  | nil => exact h
  | cons span spans ih =>
    obtain ⟨hstart, hstop, hrest⟩ := h
    have hle := ih hrest
    omega

theorem Consecutive.mono {n n' m m' : Nat} {spans : List Span} (h : Consecutive n spans m)
    (hn : n' ≤ n) (hm : m ≤ m') : Consecutive n' spans m' := by
  induction spans generalizing n n' with
  | nil => exact (hn.trans h).trans hm
  | cons span spans ih =>
    obtain ⟨hstart, hstop, hrest⟩ := h
    exact ⟨hn.trans hstart, hstop, ih hrest (Nat.le_refl _)⟩

theorem Consecutive.append {n m k : Nat} {spans more : List Span} (h : Consecutive n spans m)
    (hmore : Consecutive m more k) : Consecutive n (spans ++ more) k := by
  induction spans generalizing n with
  | nil => exact hmore.mono h (Nat.le_refl _)
  | cons span spans ih =>
    obtain ⟨hstart, hstop, hrest⟩ := h
    exact ⟨hstart, hstop, ih hrest⟩

theorem consecutive_singleton {n m : Nat} (h : n < m) : Consecutive n [⟨n, m⟩] m :=
  ⟨Nat.le_refl n, h, Nat.le_refl m⟩

/-- What stands between the rest of a text and a later rest. -/
theorem source?_between {html cs piece rest : List Char} (h : cs <:+ html)
    (hcs : cs = piece ++ rest) :
    (between (byteLength html) cs rest).source? html = some piece := by
  have hplace := dropBytes?_offset h
  have hstop : offset (byteLength html) rest =
      offset (byteLength html) cs + byteLength piece := by
    rw [offset_of_suffix (hcs ▸ List.suffix_append piece rest) hplace, hcs, taken_append]
  rw [Span.source?, between, hstop]
  apply Text.slice?_of_dropBytes?
  rw [hplace, hcs]

/-! ## What the events promise -/

/-- A start tag in the text: `<` and its name, then its attributes one behind the other, each
beginning with its name, then `>`. -/
structure IsStartTag (html : List Char) (tag : String) (attrs : List Attribute) (span : Span) :
    Prop where
  source : ∃ inside, span.source? html = some ('<' :: (tag.toList ++ (inside ++ ['>'])))
  attrs_consecutive : Consecutive (span.start + 1 + byteLength tag.toList)
    (attrs.map (·.span)) (span.stop - 1)
  attrs_source : ∀ a ∈ attrs, ∃ behind, a.span.source? html = some (a.name.toList ++ behind)

/-- A start tag that repairs an end tag of a break or a paragraph: the end tag stands there. -/
structure IsRepair (html : List Char) (tag : String) (attrs : List Attribute) (span : Span) :
    Prop where
  attrs_eq : attrs = []
  tag_mem : Text.asciiLower tag = "br" ∨ Text.asciiLower tag = "p"
  source : ∃ inside, span.source? html = some ('<' :: '/' :: (tag.toList ++ (inside ++ ['>'])))

namespace Event

/-- The place of a start tag, a text or a comment. -/
def place? : Event → Option Span
  | start _ _ _ span => some span
  | text _ span => some span
  | comment _ span => some span
  | _ => none

/-- What stands at the place of an event is what the event says, where the elements of the given
tags are open. Only a textarea may lack a newline at the beginning of its text. -/
def Faithful (html : List Char) (opened : List String) : Event → Prop
  | start tag attrs _ span => IsStartTag html tag attrs span ∨ IsRepair html tag attrs span
  | text t span =>
    span.source? html = some t.toList ∨
      span.source? html = some ('\n' :: t.toList) ∧
        ∃ area ∈ opened.head?, Text.asciiLower area = "textarea"
  | comment t span =>
    span.source? html = some ("<!--".toList ++ (t.toList ++ "-->".toList)) ∨
      t = "" ∧ (span.source? html = some "<!-->".toList ∨ span.source? html = some "<!--->".toList)
  | _ => True

end Event

/-! ## Pieces of markup -/

/-- A comment is its text between the marks, or one of the two short forms. -/
theorem comment?_piece {cs text rest : List Char} (h : comment? cs = some (text, rest)) :
    ∃ piece, cs = piece ++ rest ∧ 0 < piece.length ∧
      (piece = "<!--".toList ++ (text ++ "-->".toList) ∨
        text = [] ∧ (piece = "<!-->".toList ∨ piece = "<!--->".toList)) := by
  unfold comment? at h
  split at h
  · split at h
    · cases h
      exact ⟨"<!-->".toList, rfl, by decide, .inr ⟨rfl, .inl rfl⟩⟩
    · cases h
      exact ⟨"<!--->".toList, rfl, by decide, .inr ⟨rfl, .inr rfl⟩⟩
    · refine ⟨"<!--".toList ++ (text ++ "-->".toList), ?_, by simp, .inl rfl⟩
      rw [Text.eq_of_splitAt? h]
      simp
  · cases h

theorem endTag?_piece {cs rest : List Char} {tag : String} (h : endTag? cs = some (tag, rest)) :
    ∃ inside, cs = '<' :: '/' :: (tag.toList ++ (inside ++ ['>'])) ++ rest := by
  unfold endTag? at h
  split at h
  · simp only [Option.bind_eq_bind, Option.bind_eq_some_iff, Prod.exists] at h
    obtain ⟨name, behind, hname, after, hafter, heq⟩ := h
    cases heq
    obtain ⟨rfl, -⟩ := tagName?_eq_some hname
    obtain ⟨inside, rfl, -⟩ := afterAngle?_eq_some.1 hafter
    exact ⟨inside, by simp⟩
  · cases h

/-- A start tag ends with `>`, perhaps behind blanks and a slash. -/
theorem startTagClose?_piece {cs rest : List Char} {slash : Bool}
    (h : startTagClose? cs = some (slash, rest)) : ∃ inside, cs = inside ++ '>' :: rest := by
  obtain ⟨blanks, hcs⟩ := dropBlank_suffix cs
  unfold startTagClose? at h
  split at h
  · rename_i hdrop
    cases h
    exact ⟨blanks ++ ['/'], by rw [← hcs, hdrop]; simp⟩
  · rename_i hdrop
    cases h
    exact ⟨blanks, by rw [← hcs, hdrop]⟩
  · cases h

/-- An attribute begins with its name. -/
theorem attribute?_piece {cs name value rest : List Char}
    (h : attribute? cs = some (name, value, rest)) :
    ∃ behind, cs = name ++ behind ++ rest := by
  unfold attribute? at h
  split at h
  · cases h
  · rename_i name' after _ hspan
    simp only [Option.some.injEq, Prod.mk.injEq] at h
    obtain ⟨rfl, -, rfl⟩ := h
    obtain ⟨behind, hbehind⟩ := attrTail_suffix after
    refine ⟨behind, ?_⟩
    obtain ⟨htake, hdrop⟩ := Prod.mk.inj hspan
    rw [List.append_assoc, hbehind, ← htake, ← hdrop, List.takeWhile_append_dropWhile]

section

variable {html cs : List Char}

/-- What is read up to the end of a start tag: attributes one behind the other, each beginning
with its name, and `>`. The induction is on the attributes. -/
theorem readAttributes_piece (hcs : cs <:+ html) {fuel : Nat} {attrs : List Attribute}
    {slash : Bool} {rest : List Char}
    (h : readAttributes (byteLength html) fuel cs = some (attrs, slash, rest)) :
    (∃ inside, cs = inside ++ '>' :: rest) ∧
      Consecutive (offset (byteLength html) cs) (attrs.map (·.span))
        (offset (byteLength html) rest - 1) ∧
      ∀ a ∈ attrs, ∃ behind, a.span.source? html = some (a.name.toList ++ behind) := by
  induction fuel generalizing cs attrs with
  | zero => cases h
  | succ fuel ih =>
    rw [readAttributes] at h
    split at h
    · rename_i hclose
      cases h
      obtain ⟨inside, rfl⟩ := startTagClose?_piece hclose
      refine ⟨⟨inside, rfl⟩, ?_, List.forall_mem_nil _⟩
      have hlength := byteLength_le_of_suffix hcs
      simp only [Text.byteLength_append, Text.byteLength_cons] at hlength
      have hangle : Char.utf8Size '>' = 1 := by decide
      simp only [List.map_nil, Consecutive, offset, Text.byteLength_append, Text.byteLength_cons]
      omega
    · simp only [Option.bind_eq_bind, Option.bind_eq_some_iff, Prod.exists] at h
      obtain ⟨name, value, behind, hattr, more, slash', rest', hmore, heq⟩ := h
      cases heq
      -- The blanks in front are taken with the attribute, but its place is behind them.
      obtain ⟨full, -, hfull, -⟩ := attribute?_extent hattr
      obtain ⟨c, after, hdrop, -, hafter⟩ := attribute?_suffix hattr
      have hblank := dropBlank_suffix cs
      have hshort : behind.length < (Text.dropBlank cs).length := by
        rw [hdrop, List.length_cons]
        exact Nat.lt_succ_of_le hafter.length_le
      have hbehind : behind <:+ Text.dropBlank cs := hdrop ▸ hafter.trans (List.suffix_cons c after)
      obtain ⟨⟨inside, hinside⟩, hspans, hsources⟩ := ih ((hbehind.trans hblank).trans hcs) hmore
      refine ⟨⟨full ++ inside, by rw [hfull, hinside, List.append_assoc]⟩, ⟨?_, ?_, hspans⟩, ?_⟩
      · exact offset_le hblank
      · exact offset_lt hbehind hshort (byteLength_le_of_suffix (hblank.trans hcs))
      · obtain ⟨end', hname⟩ := attribute?_piece hattr
        refine List.forall_mem_cons.2 ⟨⟨end', ?_⟩, hsources⟩
        rw [String.toList_ofList]
        exact source?_between (hblank.trans hcs) hname

theorem startTag?_piece (hcs : cs <:+ html) {t : StartTag}
    (h : startTag? (byteLength html) cs = some t) :
    IsStartTag html t.tag t.attrs (between (byteLength html) cs t.rest) := by
  simp only [startTag?, Option.bind_eq_bind, Option.bind_eq_some_iff, Prod.exists] at h
  obtain ⟨name, behind, hopen, attrs, slash, rest, hread, heq⟩ := h
  cases heq
  unfold startTagOpen? at hopen
  split at hopen
  · obtain ⟨rfl, -⟩ := tagName?_eq_some hopen
    have hbehind : behind <:+ '<' :: (name ++ behind) := List.suffix_append ('<' :: name) behind
    have hname : offset (byteLength html) behind =
        offset (byteLength html) ('<' :: (name ++ behind)) + 1 + byteLength name := by
      have hplace := dropBytes?_offset hcs
      have htaken := taken_append ('<' :: name) behind
      have hangle : Char.utf8Size '<' = 1 := by decide
      rw [List.cons_append, Text.byteLength_cons] at htaken
      rw [offset_of_suffix hbehind hplace, htaken]
      omega
    obtain ⟨⟨inside, hinside⟩, hspans, hsources⟩ := readAttributes_piece (hbehind.trans hcs) hread
    refine ⟨⟨inside, ?_⟩, ?_, hsources⟩
    · apply source?_between hcs
      rw [String.toList_ofList, hinside]
      simp
    · rw [String.toList_ofList]
      exact hname ▸ hspans
  · cases hopen

end

/-- The decoding of its attributes keeps their names and places. -/
theorem IsStartTag.decode {html : List Char} {tag : String} {attrs : List Attribute} {span : Span}
    (h : IsStartTag html tag attrs span) (d : Dialect) :
    IsStartTag html tag (attrs.map (d.decode tag)) span := by
  constructor
  · exact h.source
  · rw [List.map_map]
    exact h.attrs_consecutive
  · intro a ha
    obtain ⟨a, hmem, rfl⟩ := List.mem_map.1 ha
    exact h.attrs_source a hmem

/-! ## Events one behind the other -/

/-- Events between two offsets, one behind the other and each as it says, where the elements of the
given tags are open in front of them. -/
structure Placed (html : List Char) (opened : List String) (n : Nat) (es : List Event) (m : Nat) :
    Prop where
  consecutive : Consecutive n (es.filterMap Event.place?) m
  faithful {before after : List Event} {e : Event} {tags : List String}
    (hsplit : es = before ++ e :: after) (hnest : nest opened before = some tags) :
    e.Faithful html tags

theorem Event.place?_eq_none {e : Event} (hstart : e.startTag? = none) (haside : e.isAside = false) :
    e.place? = none := by
  cases e with
  | start => cases hstart
  | text => cases haside
  | comment => cases haside
  | _ => rfl

theorem place?_implied (span : Span) (stack : List OpenElement) :
    ∀ x ∈ stack.flatMap (OpenElements.implied span), x.place? = none := by
  intro x hx
  exact Event.place?_eq_none (startTag?_implied _ _ x hx) (not_isAside_implied _ _ x hx)

section

variable {html : List Char} {opened : List String} {n m k : Nat} {es fs : List Event}

theorem Event.faithful_of_place? {e : Event} (h : e.place? = none) : e.Faithful html opened := by
  cases e with
  | stop => trivial
  | warning => trivial
  | _ => cases h

/-- Ends and warnings have no place of their own. -/
theorem placed_of_forall (h : ∀ x ∈ es, x.place? = none) (hle : n ≤ m) :
    Placed html opened n es m := by
  have hnone : es.filterMap Event.place? = [] := List.filterMap_eq_nil_iff.2 h
  constructor
  · rw [hnone]
    exact hle
  · intro before after e tags hsplit _
    exact Event.faithful_of_place? (h e (by simp [hsplit]))

theorem placed_nil (hle : n ≤ m) : Placed html opened n [] m :=
  placed_of_forall (List.forall_mem_nil _) hle

theorem Placed.mono (h : Placed html opened n es m) (hle : m ≤ k) : Placed html opened n es k :=
  ⟨h.consecutive.mono (Nat.le_refl n) hle, h.faithful⟩

theorem Placed.append {tags : List String} (h : Placed html opened n es m)
    (hnest : nest opened es = some tags) (hmore : Placed html tags m fs k) :
    Placed html opened n (es ++ fs) k := by
  constructor
  · rw [List.filterMap_append]
    exact h.consecutive.append hmore.consecutive
  · -- The event is in one of the two parts, and the elements open there are those open before it.
    intro before after e tags' hsplit hbefore
    obtain ⟨back, hes, -⟩ | ⟨front, rfl, hfs⟩ := append_eq_append_cons hsplit
    · exact h.faithful hes hbefore
    · rw [nest_append, hnest] at hbefore
      exact hmore.faithful hfs hbefore

end

/-- The text of a raw text element is what stands there, or a textarea lacks a newline. -/
theorem rawText_of_dropFirstNewline {tag : String} (hraw : Platform.isRawText tag)
    (content : List Char) :
    dropFirstNewline (Text.asciiLower tag) content = content ∨
      content = '\n' :: dropFirstNewline (Text.asciiLower tag) content ∧
        Text.asciiLower tag = "textarea" := by
  have hlower := asciiLower_of_isRawText hraw
  have hraw' : Platform.isRawText (Text.asciiLower tag) := by rwa [Platform.isRawText, hlower]
  obtain ⟨newlines, hcontent, hlength, hnewlines, hnone⟩ := dropFirstNewline_eq hraw' content
  rw [hlower] at hnone
  cases newlines with
  | nil => exact .inl hcontent.symm
  | cons c more =>
    obtain rfl : more = [] := by
      rw [List.length_cons] at hlength
      exact List.length_eq_zero_iff.1 (by omega)
    obtain rfl := List.forall_mem_singleton.1 hnewlines
    exact .inr ⟨hcontent, by_contra fun harea => List.cons_ne_nil _ _ (hnone harea)⟩

section

variable {html cs piece rest : List Char} {opened : List String} (hcs : cs <:+ html)
  (hpiece : cs = piece ++ rest)
include hcs hpiece

/-- One event that stands for a piece of the text. -/
theorem placed_piece {e : Event} (hne : piece ≠ [])
    (hplace : e.place? = some (between (byteLength html) cs rest))
    (he : (between (byteLength html) cs rest).source? html = some piece → e.Faithful html opened) :
    Placed html opened (offset (byteLength html) cs) [e] (offset (byteLength html) rest) := by
  constructor
  · have hshort : rest.length < cs.length := by
      have hpos := List.length_pos_iff.2 hne
      rw [hpiece, List.length_append]
      omega
    have hlt := offset_lt (hpiece ▸ List.suffix_append piece rest) hshort
      (byteLength_le_of_suffix hcs)
    rw [List.filterMap_cons_some hplace]
    exact consecutive_singleton hlt
  · intro before after x tags hsplit hnest
    obtain ⟨rfl, heq⟩ | ⟨_, -, hnil⟩ := List.append_eq_cons_iff.1 hsplit.symm
    · cases heq
      cases hnest
      exact he (source?_between hcs hpiece)
    · simp at hnil

/-- A text may be missing where it is empty, and it may lack a newline at its beginning. -/
theorem placed_textOf {text : List Char} (htext : text = piece ∨ piece = '\n' :: text ∧
      ∃ area ∈ opened.head?, Text.asciiLower area = "textarea") :
    Placed html opened (offset (byteLength html) cs)
      (textOf text (between (byteLength html) cs rest)) (offset (byteLength html) rest) := by
  unfold textOf
  split
  · exact placed_nil (offset_le (hpiece ▸ List.suffix_append piece rest))
  · rename_i hempty
    apply placed_piece hcs hpiece
    · rintro rfl
      obtain rfl | ⟨hnewline, -⟩ := htext
      · exact hempty rfl
      · cases hnewline
    · rfl
    · intro hsource
      obtain rfl | ⟨rfl, harea⟩ := htext
      · exact .inl (by rw [hsource, String.toList_ofList])
      · exact .inr ⟨by rw [hsource, String.toList_ofList], harea⟩

end

section

variable {html cs : List Char} (hcs : cs <:+ html) (d : Dialect) {o : OpenElements}
include hcs

/-- What closes elements has no place; a repair stands where the stray end tag does. -/
theorem placed_close {tag : String} {rest : List Char} (h : endTag? cs = some (tag, rest)) :
    Placed html o.tags (offset (byteLength html) cs)
      (o.close tag (between (byteLength html) cs rest)).1 (offset (byteLength html) rest) := by
  obtain ⟨inside, hpiece⟩ := endTag?_piece h
  have hle : offset (byteLength html) cs ≤ offset (byteLength html) rest :=
    offset_le (endTag?_suffix h)
  have hrepair (unary : Bool) (hname : Text.asciiLower tag = "br" ∨ Text.asciiLower tag = "p") :
      Placed html o.tags (offset (byteLength html) cs)
        [.start tag [] unary (between (byteLength html) cs rest)] (offset (byteLength html) rest) :=
    placed_piece hcs hpiece (List.cons_ne_nil _ _) rfl fun hsource =>
      .inr ⟨rfl, hname, inside, hsource⟩
  obtain hstray | ⟨inside, e, below, hstack, -, hclose⟩ :=
    close_cases o tag (between (byteLength html) cs rest)
  · rw [hstray]
    unfold OpenElements.strayEnd
    split
    · rename_i hbr
      exact hrepair true (.inl hbr)
    · split
      · rename_i hp
        exact (hrepair false (.inr hp)).append rfl
          (placed_of_forall (List.forall_mem_singleton.2 rfl) (Nat.le_refl _))
      · exact placed_nil hle
  · rw [hclose]
    apply placed_of_forall _ hle
    intro x hx
    obtain hx | hx := List.mem_append.1 hx
    · exact place?_implied _ _ x hx
    · rw [List.mem_singleton.1 hx]
      rfl

theorem placed_openTag (ho : o.InStep) {t : StartTag}
    (h : startTag? (byteLength html) cs = some t) :
    Placed html o.tags (offset (byteLength html) cs) (openTag (byteLength html) d o cs t).events
      (offset (byteLength html) (openTag (byteLength html) d o cs t).rest) := by
  have hclosed : Placed html o.tags (offset (byteLength html) cs)
      (closeImplied d o t.tag (offset (byteLength html) t.rest)).1 (offset (byteLength html) cs) :=
    placed_of_forall (fun x hx => Event.place?_eq_none (startTag?_closeImplied ho _ _ x hx)
      (not_isAside_closeImplied d o _ _ x hx)) (Nat.le_refl _)
  obtain ⟨piece, hpiece⟩ := startTag?_suffix (byteLength html) cs h
  have hne : piece ≠ [] := by
    rintro rfl
    have hshort := startTag?_length h
    rw [← hpiece, List.nil_append] at hshort
    exact Nat.lt_irrefl _ hshort
  have hclosing := nest_closeImplied d o t.tag (offset (byteLength html) t.rest)
  apply (hclosed.append hclosing (placed_piece hcs hpiece.symm hne rfl _)).mono
  · exact offset_le (dropFirstNewline_suffix t.tag t.rest)
  · exact fun _ => .inl ((startTag?_piece hcs h).decode d)

theorem placed_textStep : Placed html o.tags (offset (byteLength html) cs)
    (textStep (byteLength html) o cs).events
    (offset (byteLength html) (textStep (byteLength html) o cs).rest) := by
  have hrun := textRun_append_rest cs
  unfold textStep
  split
  · rename_i rest heq
    rw [heq] at hrun
    exact placed_nil (offset_le ⟨[], hrun⟩)
  · rename_i text rest hne heq
    rw [heq] at hrun
    apply placed_piece hcs hrun.symm
    · intro hempty
      exact hne hempty
    · rfl
    · intro hsource
      exact .inl (by rw [hsource, String.toList_ofList])

theorem placed_markupStep (ho : o.InStep) : Placed html o.tags (offset (byteLength html) cs)
    (markupStep (byteLength html) d o cs).events
    (offset (byteLength html) (markupStep (byteLength html) d o cs).rest) := by
  unfold markupStep
  split
  · rename_i text rest hcomment
    obtain ⟨piece, hpiece, hpos, hform⟩ := comment?_piece hcomment
    dsimp only
    split
    · apply placed_piece hcs hpiece (List.length_pos_iff.1 hpos) rfl
      intro hsource
      obtain hlong | ⟨rfl, hshort⟩ := hform
      · have htext : (String.ofList text).toList = text := String.toList_ofList
        exact .inl (by rw [hsource, hlong, htext])
      · refine .inr ⟨rfl, ?_⟩
        rw [hsource, Option.some.injEq, Option.some.injEq]
        exact hshort
    · exact placed_nil (offset_le (comment?_suffix hcomment))
  · rename_i hconditional
    exact placed_nil (offset_le (conditional?_suffix hconditional))
  · rename_i hdoctype
    exact placed_nil (offset_le (doctype?_suffix hdoctype))
  · rename_i hend
    exact placed_close hcs hend
  · rename_i hstart
    exact placed_openTag hcs d ho hstart
  · exact placed_textStep hcs

/-- Raw text stands from where the step begins to its end tag. -/
theorem placed_rawStep {e : OpenElement} {below : List OpenElement}
    (hraw : Platform.isRawText e.tag) (hstack : o.stack = e :: below) :
    Placed html o.tags (offset (byteLength html) cs) (rawStep (byteLength html) o e.tag cs).events
      (offset (byteLength html) (rawStep (byteLength html) o e.tag cs).rest) := by
  have hquiet {n m : Nat} (tags : List String) (stop : Span) (hle : n ≤ m) :
      Placed html tags n [.stop e.tag stop] m :=
    placed_of_forall (List.forall_mem_singleton.2 rfl) hle
  cases hfound : rawText? (Text.asciiLower e.tag).toList cs with
  | none =>
    rw [rawStep_of_none _ hraw hstack hfound]
    exact hquiet _ _ (Nat.le_refl _)
  | some found =>
    obtain ⟨content, fromEnd, rest⟩ := found
    rw [rawStep_of_some _ hraw hstack hfound]
    obtain ⟨hpiece, hrest⟩ := rawText?_suffix hfound
    have hopened : o.tags.head? = some e.tag := by rw [OpenElements.tags, hstack]; rfl
    have htext := placed_textOf hcs hpiece ((rawText_of_dropFirstNewline hraw content).imp_right
      fun hlost => ⟨hlost.1, e.tag, hopened, hlost.2⟩)
    exact htext.append (nest_of_isAside (isAside_textOf _ _) _) (hquiet _ _ (offset_le hrest))

theorem placed_step (ho : o.InStep) : Placed html o.tags (offset (byteLength html) cs)
    (step (byteLength html) d o cs).events
    (offset (byteLength html) (step (byteLength html) d o cs).rest) := by
  unfold step
  split
  · rename_i tag hlast
    obtain ⟨hlast, hraw⟩ := Option.filter_eq_some_iff.1 hlast
    rw [ho] at hlast
    obtain ⟨e, below, hstack, rfl⟩ := exists_top hlast
    exact placed_rawStep hcs hraw hstack
  · exact placed_markupStep hcs d ho

theorem placed_tail (hne : cs ≠ []) : Placed html o.tags (offset (byteLength html) cs)
    (tail (byteLength html) o cs) (byteLength html) := by
  have hpiece : cs = cs ++ [] := (List.append_nil cs).symm
  have htext : Placed html o.tags (offset (byteLength html) cs)
      [.text (String.ofList cs) (between (byteLength html) cs [])] (byteLength html) :=
    placed_piece hcs hpiece hne rfl fun hsource =>
      .inl (by rw [hsource, String.toList_ofList])
  have hquiet : ∀ x ∈ (if o.stack.isEmpty then []
      else [.warning (.malformedTail (String.ofList cs) (offset (byteLength html) cs))]) ++
        (o.closeAll (between (byteLength html) [] [])).1, x.place? = none := by
    intro x hx
    obtain hx | hx := List.mem_append.1 hx
    · split at hx
      · cases hx
      · rw [List.mem_singleton.1 hx]
        rfl
    · exact place?_implied _ _ x hx
  exact htext.append (nest_of_isAside (List.forall_mem_singleton.2 rfl) _)
    (placed_of_forall hquiet (Nat.le_refl _))

/-- What is read from a place on stands between it and the end of the text, by induction on the
steps. -/
theorem placed_events (ho : o.InStep) : Placed html o.tags (offset (byteLength html) cs)
    (events (byteLength html) d o cs) (byteLength html) := by
  fun_induction events (byteLength html) d o cs with
  | case1 o => exact placed_of_forall (place?_implied _ _) (Nat.sub_le _ _)
  | case2 o c cs p hshort =>
    rename_i ih
    have hlater := ih ((step_suffix _ d o _).trans hcs) (inStep_step _ d ho _)
    exact (placed_step hcs d ho).append (nest_step _ d o _) hlater
  | case3 o c cs p hstuck =>
    -- Nothing was read, so the rest that is taken as text is not empty.
    have hrest : p.rest <:+ c :: cs := step_suffix _ d o (c :: cs)
    have hall : p.rest = c :: cs := hrest.eq_of_length_le (Nat.le_of_not_lt hstuck)
    have hnext := placed_tail (o := p.opened) (hrest.trans hcs) (by simp [hall])
    exact (placed_step hcs d ho).append (nest_step _ d o _) hnext

end

/-- Whatever the text and the dialect, the start tags, texts and comments that are found stand in
the text one behind the other, and each of them is what stands there. -/
theorem tokenize_faithful (d : Dialect) (html : String) :
    Consecutive 0 ((tokenize d html).filterMap Event.place?) (byteLength html.toList) ∧
      ∀ before e after, tokenize d html = before ++ e :: after →
        ∃ opened, nest [] before = some opened ∧ e.Faithful html.toList opened := by
  have hplaced := placed_events (List.suffix_refl html.toList) d inStep_none
  constructor
  · exact hplaced.consecutive.mono (Nat.zero_le _) (Nat.le_refl _)
  · intro before e after hsplit
    have hnested := nest_events (byteLength html.toList) d .none html.toList
    rw [tokenize] at hsplit
    rw [hsplit, nest_append] at hnested
    obtain ⟨opened, hopened, -⟩ := Option.bind_eq_some_iff.1 hnested
    exact ⟨opened, hopened, hplaced.faithful hsplit hopened⟩

/-- A text of two bytes, an attribute without a value, the short form of a comment, the repair of a
stray end tag, and a textarea whose text has lost a newline on either side of its beginning. -/
theorem tokenize_faithful_textarea :
    tokenize { Dialect.plain with keepComments := true }
        "é<A ü='x' b><!---></p><textarea>\n\nx</textarea>" =
      [.text "é" ⟨0, 2⟩,
        .start "A" [⟨"ü", "x", ⟨5, 11⟩⟩, ⟨"b", "", ⟨12, 13⟩⟩] false ⟨2, 14⟩,
        .comment "" ⟨14, 20⟩, .start "p" [] false ⟨20, 24⟩, .stop "p" ⟨20, 24⟩,
        .start "textarea" [] false ⟨24, 34⟩] ++
      .text "x" ⟨35, 37⟩ ::
        [.stop "textarea" ⟨37, 48⟩, .warning (.unclosed "A" ⟨2, 14⟩), .stop "A" ⟨48, 48⟩] ∧
    (Event.text "x" ⟨35, 37⟩).Faithful "é<A ü='x' b><!---></p><textarea>\n\nx</textarea>".toList
      ["textarea", "A"] := by
  refine (and_iff_left_of_imp fun hevents => ?_).2 (by decide +kernel)
  obtain ⟨opened, hopened, htext⟩ := (tokenize_faithful _ _).2 _ _ _ hevents
  have htags : some ["textarea", "A"] = some opened := hopened
  cases htags
  exact htext

end ViewTree.Markup
