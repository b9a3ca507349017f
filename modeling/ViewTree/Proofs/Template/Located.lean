import ViewTree.Proofs.Expr.Blanks
import ViewTree.Proofs.Markup.Extents
import ViewTree.Proofs.Template.Marking
import ViewTree.Proofs.Template.Spans
import ViewTree.Template.Compiler
/-!
# Where the elements of a template stand in it

The places that are kept of elements and attributes index the text that is parsed
(`parse_located`). The compiler parses a template without the blanks around it, so in the template
that it was given everything stands further on, by the bytes of the blanks in front
(`compile_located`).
-/

namespace ViewTree.Template

open Text (byteLength dropBytes? slice?)

/-- The bytes of the blanks at the beginning of a text. -/
def leadingBytes (text : List Char) : Nat :=
  byteLength (text.takeWhile Text.isBlank)

/-- At the offset of the text there is a start tag, or an end tag of a break or a paragraph, for
which an element may be made up. -/
def TagAt (text : List Char) (n : Nat) (tag : String) : Prop :=
  ∃ behind, dropBytes? n text = some ('<' :: (tag.toList ++ behind)) ∨
    dropBytes? n text = some ('<' :: '/' :: (tag.toList ++ behind)) ∧
      (Text.asciiLower tag = "br" ∨ Text.asciiLower tag = "p")

/-- The place of the element is that of its tag in the text, and the places of its attributes are
those of texts that begin with their names, if all of them are moved on by `shift` bytes. -/
structure LocatedAt (text : List Char) (shift : Nat) (e : Element) : Prop where
  tag : ∃ p, e.span = some p ∧ TagAt text (shift + p.start) e.tag
  attrs : ∀ a ∈ e.attrs, ∃ p behind, a.span = some p ∧
    slice? (shift + p.start) (shift + p.stop) text = some (a.rawName.toList ++ behind)

/-! ## Parsed templates -/

theorem tagAt_of_faithful {text : List Char} {tag : String} {attrs : List Markup.Attribute}
    {place : Markup.Span}
    (h : Markup.IsStartTag text tag attrs place ∨ Markup.IsRepair text tag attrs place) :
    TagAt text place.start tag := by
  rcases h with hstart | hrepair
  · obtain ⟨inside, hsource⟩ := hstart.source
    obtain ⟨rest, hdrop, -⟩ := Text.slice?_eq_some.1 hsource
    refine ⟨inside ++ '>' :: rest, .inl ?_⟩
    rw [hdrop]
    simp
  · obtain ⟨inside, hsource⟩ := hrepair.source
    obtain ⟨rest, hdrop, -⟩ := Text.slice?_eq_some.1 hsource
    refine ⟨inside ++ '>' :: rest, .inr ⟨?_, hrepair.tag_mem⟩⟩
    rw [hdrop]
    simp

/-- What stems from a start tag among the events of a text is where the start tag says. -/
theorem StemsFrom.locatedAt {d : Markup.Dialect} {html : String} {e : Element}
    {place : Markup.Span} {stop : Nat} (h : StemsFrom (Markup.tokenize d html) e place)
    (hspan : e.span = some ⟨place.start, stop⟩) : LocatedAt html.toList 0 e := by
  obtain ⟨attrs, unary, hmem, hattrs⟩ := h
  obtain ⟨before, after, hsplit⟩ := List.append_of_mem hmem
  obtain ⟨opened, -, hfaithful⟩ := (Markup.tokenize_faithful d html).2 _ _ _ hsplit
  constructor
  · have htag : TagAt html.toList place.start e.tag := tagAt_of_faithful hfaithful
    exact ⟨_, hspan, by rwa [Nat.zero_add]⟩
  · intro a ha
    obtain ⟨m, hm, hname, hplace⟩ := hattrs a ha
    rcases hfaithful with hstart | hrepair
    · obtain ⟨behind, hsource⟩ := hstart.attrs_source m hm
      refine ⟨m.span, behind, hplace, ?_⟩
      rw [Nat.zero_add, Nat.zero_add, hname]
      exact hsource
    · rw [hrepair.attrs_eq] at hm
      cases hm

theorem parse_located {s : Settings} (hs : s.OnlyTrims) (hrange : s.sourceRange)
    (template : String) : Each (LocatedAt template.toList 0) (parse s template).1 := by
  obtain ⟨n, k, hrow⟩ := parse_row hs hrange template
  have hstems := hrow.everywhere Row.stems
  have hlocated := hrow.everywhere (P := fun es => ∀ e ∈ es, LocatedAt template.toList 0 e) <| by
    intro n k es n' k' h e he
    obtain ⟨place, stop, hfrom, hspan⟩ := h.stems e he
    exact hfrom.locatedAt hspan
  exact hlocated.imp (fun _ h e he => h e (Node.mem_elements.2 he)) hlocated

/-! ## Marking -/

/-- The second element is what marking static parts may make of the first one by itself. -/
structure Remarks (e d : Element) : Prop where
  tag : d.tag = e.tag
  attrs : d.attrs = e.attrs
  span : d.span = e.span

theorem remarks_rooted (e : Element) : Remarks e e.rooted := by
  unfold ElementOf.rooted
  split
  · exact ⟨rfl, rfl, rfl⟩
  · exact ⟨rfl, rfl, rfl⟩

section

variable {F : Element → Prop} (hF : ∀ {e d}, Remarks e d → F e → F d) {roots : List Node}
include hF

theorem each_markStatic (s : Settings) (h : Each F roots) (inLoop : Bool) :
    Each F (roots.map (Node.markStatic s inLoop)) := by
  induction h generalizing inLoop with
  | intro here _ ih =>
    constructor
    · intro e he
      obtain ⟨d, hd, rfl⟩ := exists_of_mem_markStatic he
      have hmarked : Remarks d (d.marked s inLoop) := ⟨rfl, rfl, rfl⟩
      exact hF hmarked (here d hd)
    · intro e he
      obtain ⟨d, hd, rfl⟩ := exists_of_mem_markStatic he
      exact ih d hd _

theorem each_markRoots (h : Each F roots) : Each F (roots.map Node.markRoots) := by
  induction h with
  | intro here inside ih =>
    constructor
    · intro e he
      obtain ⟨d, hd, rfl⟩ := exists_of_mem_markRoots he
      exact hF (remarks_rooted d) (here d hd)
    · intro e he
      obtain ⟨d, hd, rfl⟩ := exists_of_mem_markRoots he
      unfold ElementOf.rooted
      split
      · exact inside d hd
      · exact ih d hd

/-- Marking static parts leaves alone what is said about tags, attributes and places. -/
theorem each_optimize (s : Settings) (h : Each F roots) : Each F (optimize s roots) := by
  have hmarked := each_markRoots hF (each_markStatic hF s h false)
  rwa [List.map_map] at hmarked

end

theorem LocatedAt.remarks {text : List Char} {shift : Nat} {e d : Element} (hd : Remarks e d)
    (h : LocatedAt text shift e) : LocatedAt text shift d := by
  obtain ⟨htag, hattrs⟩ := h
  constructor
  · rwa [hd.span, hd.tag]
  · rwa [hd.attrs]

/-! ## Blanks around a template -/

section

variable {front text back : List Char} {n : Nat}

theorem dropBytes?_around {rest : List Char} (h : dropBytes? n text = some rest) :
    dropBytes? (byteLength front + n) (front ++ text ++ back) = some (rest ++ back) := by
  obtain ⟨skipped, rfl, rfl⟩ := Text.dropBytes?_eq_some.1 h
  refine Text.dropBytes?_eq_some.2 ⟨front ++ skipped, by simp, Text.byteLength_append _ _⟩

theorem TagAt.around {tag : String} (h : TagAt text n tag) :
    TagAt (front ++ text ++ back) (byteLength front + n) tag := by
  obtain ⟨behind, hstart | ⟨hend, hname⟩⟩ := h
  · exact ⟨behind ++ back, .inl (by rw [dropBytes?_around hstart]; simp)⟩
  · exact ⟨behind ++ back, .inr ⟨by rw [dropBytes?_around hend]; simp, hname⟩⟩

theorem LocatedAt.around {e : Element} (h : LocatedAt text 0 e) :
    LocatedAt (front ++ text ++ back) (byteLength front) e := by
  obtain ⟨⟨p, hp, htag⟩, hattrs⟩ := h
  rw [Nat.zero_add] at htag
  refine ⟨⟨p, hp, htag.around⟩, ?_⟩
  intro a ha
  obtain ⟨p, behind, hp, hsource⟩ := hattrs a ha
  rw [Nat.zero_add, Nat.zero_add] at hsource
  obtain ⟨rest, hdrop, hstop⟩ := Text.slice?_eq_some.1 hsource
  refine ⟨p, behind, hp, Text.slice?_eq_some.2 ⟨rest ++ back, ?_, by omega⟩⟩
  rw [dropBytes?_around hdrop, List.append_assoc]

end

theorem blank_of_mem_takeWhile (text : List Char) : ∀ c ∈ text.takeWhile Text.isBlank,
    Text.isBlank c :=
  List.all_eq_true.1 List.all_takeWhile

/-- Blanks, the text without them, and blanks again are the whole text. -/
theorem exists_trim (template : String) :
    ∃ front back, template.toList = front ++ (Text.trim template).toList ++ back ∧
      byteLength front = leadingBytes template.toList := by
  obtain ⟨back, -, hback⟩ := Text.exists_eq_trimChars_append template.toList
  refine ⟨template.toList.takeWhile Text.isBlank, back, ?_, rfl⟩
  rw [Text.trim, String.toList_ofList, List.append_assoc, ← hback]
  exact List.takeWhile_append_dropWhile.symm

/-- No tag begins among the blanks at the beginning of a text. -/
theorem leadingBytes_le_of_tagAt {text : List Char} {n : Nat} {tag : String}
    (h : TagAt text n tag) : leadingBytes text ≤ n := by
  obtain ⟨rest, hrest⟩ : ∃ rest, dropBytes? n text = some ('<' :: rest) := by
    obtain ⟨behind, hstart | ⟨hend, -⟩⟩ := h
    · exact ⟨_, hstart⟩
    · exact ⟨_, hend⟩
  obtain ⟨skipped, hsplit, rfl⟩ := Text.dropBytes?_eq_some.1 hrest
  have hblank := blank_of_mem_takeWhile text
  have hwhole : text.takeWhile Text.isBlank ++ text.dropWhile Text.isBlank =
      skipped ++ '<' :: rest := List.takeWhile_append_dropWhile.trans hsplit
  unfold leadingBytes
  generalize text.takeWhile Text.isBlank = blanks at hblank hwhole
  -- The tag is behind the blanks, or its `<` would be one of them.
  rcases List.append_eq_append_iff.1 hwhole with ⟨more, rfl, -⟩ | ⟨more, rfl, hmore⟩
  · rw [Text.byteLength_append]
    exact Nat.le_add_right _ _
  · cases more with
    | nil => simp
    | cons c more =>
      obtain ⟨rfl, -⟩ := List.cons.inj hmore
      have hangle : Text.isBlank '<' := hblank '<' (by simp)
      exact absurd hangle (by decide)

theorem LocatedAt.leadingBytes_le {text : List Char} {e : Element} {p : Markup.Span}
    (h : LocatedAt text 0 e) (hp : e.span = some p) : leadingBytes text ≤ p.start := by
  obtain ⟨q, hq, htag⟩ := h.tag
  cases hp.symm.trans hq
  rw [Nat.zero_add] at htag
  exact leadingBytes_le_of_tagAt htag

/-! ## Compiled templates -/

/-- Where places are kept, every element of a compiled template stands in the template as far behind
its place as there are blanks in front, and so do its attributes. An element whose place is among
these blanks does not stand there. So of a template that begins with a root, blanks aside, all
elements stand at their places exactly if there are no blanks in front. -/
theorem compile_located {c : Compiler} (hstage : c.stage = compileTemplate) (o : Option Overrides)
    (hs : (c.settings o).OnlyTrims) (hrange : (c.settings o).sourceRange) (template : String) :
    let ast := (c.compile template o).result.template.ast
    let text := template.toList
    Each (LocatedAt text (leadingBytes text)) ast ∧
      Each (fun e => ∀ p, e.span = some p → p.start < leadingBytes text → ¬ LocatedAt text 0 e)
        ast ∧
      ∀ root p, .element root ∈ ast → root.span = some p → p.start = 0 →
        (Each (LocatedAt text 0) ast ↔ leadingBytes text = 0) := by
  intro ast text
  obtain ⟨front, back, htext, hlead⟩ := exists_trim template
  have hast : ast = optimize (c.settings o) (parse (c.settings o) (Text.trim template)).1 := by
    unfold ast Compiler.compile
    rw [hstage]
    rfl
  have hlocated : Each (LocatedAt text (leadingBytes text)) ast := by
    have hparsed := parse_located hs hrange (Text.trim template)
    rw [hast]
    apply each_optimize LocatedAt.remarks
    apply hparsed.imp _ hparsed
    intro ns h _ e he
    have haround : LocatedAt (front ++ (Text.trim template).toList ++ back) (byteLength front) e :=
      (h e he).around
    rwa [← htext, hlead] at haround
  have hblank (e : Element) (p : Markup.Span) (hp : e.span = some p)
      (hstart : p.start < leadingBytes text) : ¬ LocatedAt text 0 e := fun h =>
    Nat.not_lt_of_le (h.leadingBytes_le hp) hstart
  refine ⟨hlocated, hlocated.imp (fun _ _ e _ => hblank e) hlocated, ?_⟩
  intro root p hroot hp hstart
  constructor
  · intro h
    have hle := (h.here root hroot).leadingBytes_le hp
    omega
  · intro hnone
    rwa [hnone] at hlocated

/-- Places are kept on demand. -/
def keepPlaces : Overrides :=
  { Overrides.none with sourceRange := some true }

theorem exists_root_of_span {roots : List Node} {p : Markup.Span}
    (h : some p ∈ (Node.elements roots).map (·.span)) :
    ∃ root, .element root ∈ roots ∧ root.span = some p := by
  obtain ⟨root, hroot, hp⟩ := List.mem_map.1 h
  exact ⟨root, Node.mem_elements.1 hroot, hp⟩

/-- A template between blanks, one of them of three bytes, with a class that is taken out, the
repair of a stray end tag, and a root that begins it. -/
theorem compile_located_indented :
    let c := Compiler.new .base compileTemplate
    let text := "\u3000\n<div id='é' class=b></p></div> "
    (c.stage = compileTemplate ∧ (c.settings (some keepPlaces)).OnlyTrims ∧
      (c.settings (some keepPlaces)).sourceRange) ∧ leadingBytes text.toList = 4 ∧
    Each (LocatedAt text.toList 4) (c.compile text (some keepPlaces)).result.template.ast ∧
    ¬ Each (LocatedAt text.toList 0) (c.compile text (some keepPlaces)).result.template.ast := by
  intro c text
  have hlead : leadingBytes text.toList = 4 := by decide +kernel
  have hspans : some ⟨0, 31⟩ ∈ (Node.elements
      (c.compile text (some keepPlaces)).result.template.ast).map (·.span) := by
    decide +kernel
  obtain ⟨root, hroot, hp⟩ := exists_root_of_span hspans
  obtain ⟨hlocated, -, hiff⟩ :=
    compile_located (c := c) rfl (some keepPlaces) base_onlyTrims rfl text
  refine ⟨⟨rfl, base_onlyTrims, rfl⟩, hlead, hlead ▸ hlocated, fun h => ?_⟩
  have hnone := (hiff root _ hroot hp rfl).1 h
  rw [hlead] at hnone
  cases hnone

/-- The paragraph begins at the third byte, but its place is the first one. -/
theorem not_located_indented :
    ¬ Each (LocatedAt "  <p id=\"a\"></p>".toList 0)
      ((Compiler.new .base compileTemplate).compile "  <p id=\"a\"></p>"
        (some keepPlaces)).result.template.ast := by
  intro h
  have hspans : some ⟨0, 14⟩ ∈ (Node.elements
      ((Compiler.new .base compileTemplate).compile "  <p id=\"a\"></p>"
        (some keepPlaces)).result.template.ast).map (·.span) := by
    decide +kernel
  obtain ⟨root, hroot, hp⟩ := exists_root_of_span hspans
  have hle := (h.here root hroot).leadingBytes_le hp
  have hlead : leadingBytes "  <p id=\"a\"></p>".toList = 2 := by decide +kernel
  rw [hlead] at hle
  cases hle

end ViewTree.Template
