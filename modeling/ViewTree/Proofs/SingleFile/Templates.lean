import ViewTree.Proofs.SingleFile.Blocks
/-!
# Templates in templates

A template block may hold templates, and is meant to end at its own end tag. `HeldWhole` says that
it does: the file is read, without a warning, and its template is all that was written in it. The
reader ends the block at the first end tag with another block, or the end of the file, behind it.
`heldWhole_iff` says for which contents that is the block's own end tag, whatever stands in the
scripts and styles behind the block.
-/

namespace ViewTree.SingleFile

open Markup (Stops stops_nil stops_cons length_le_flatMap)

/-- Scripts and styles, with blanks between them. -/
structure Tail where
  blanks : Blanks
  blocks : List (WrittenBlock × Blanks)
  no_template : ∀ b ∈ blocks, b.1.kind ≠ .template

/-- Nothing behind the template. -/
def Tail.empty : Tail :=
  ⟨noBlanks, [], fun _ h => absurd h List.not_mem_nil⟩

/-- The characters of scripts and styles. -/
def Tail.print (tail : Tail) : List Char :=
  printBlocks tail.blanks tail.blocks

/-- A file of a template block and scripts and styles. -/
def templateFile (t : String) (tail : Tail) : String :=
  "<template>" ++ t ++ "</template>" ++ String.ofList tail.print

/-- The file is read without a warning, and the template block holds the text. -/
structure HeldWhole (t : String) (tail : Tail) : Prop where
  read : ∃ f, parse? (templateFile t tail) = some f ∧ f.template = some ⟨[], t⟩
  silent : ∀ bs, blocks? (templateFile t tail) = some bs → warnings bs = []

/-- The text holds an end tag of a template with another block's beginning behind it. -/
def EndsEarly (t : List Char) : Prop :=
  ∃ (blanks : Blanks) (kind : BlockKind),
    "</template>".toList ++ (blanks.1 ++ (headOf kind).toList) <:+: t

/-- Template tags are properly nested in the text. -/
inductive Nested : List Char → Prop where
  | plain {t : List Char} (hopening : ¬ "<template".toList <:+: t)
      (hclosing : ¬ "</template".toList <:+: t) : Nested t
  | element {attrs content : List Char} (hattrs : '>' ∉ attrs) (hcontent : Nested content) :
      Nested ("<template".toList ++ attrs ++ ">".toList ++ content ++ "</template>".toList)
  | append {a b : List Char} (ha : Nested a) (hb : Nested b) : Nested (a ++ b)

/-! ## The beginning of the next block -/

theorem headOf_eq_cons (kind : BlockKind) :
    ∃ c cs, (headOf kind).toList = '<' :: c :: cs ∧ '<' ∉ c :: cs ∧ c ≠ '/' := by
  cases kind <;> exact ⟨_, _, rfl, by decide, by decide⟩

theorem atNextBlock_iff (cs : List Char) :
    atNextBlock cs ↔ skipSpace cs = [] ∨ ∃ kind, (headOf kind).toList <+: skipSpace cs := by
  unfold atNextBlock
  split
  · simp [*]
  · rename_i hne
    simp only [List.any_cons, List.any_nil, Bool.or_false, Bool.or_eq_true, Text.startsWith_iff]
    constructor
    · rintro (h | h | h)
      · exact .inr ⟨.template, h⟩
      · exact .inr ⟨.script, h⟩
      · exact .inr ⟨.style, h⟩
    · rintro (h | ⟨kind, h⟩)
      · exact absurd h hne
      · cases kind with
        | template => exact .inl h
        | script => exact .inr (.inl h)
        | style => exact .inr (.inr h)

theorem skipSpace_headOf (blanks : Blanks) (kind : BlockKind) (rest : List Char) :
    skipSpace (blanks.1 ++ ((headOf kind).toList ++ rest)) = (headOf kind).toList ++ rest := by
  refine skipSpace_blanks blanks ?_
  obtain ⟨c, cs, hhead, -⟩ := headOf_eq_cons kind
  rw [hhead]
  exact stops_cons (by decide)

/-- The blanks in front of a text and what is behind them. -/
theorem exists_blanks (cs : List Char) :
    ∃ (blanks : Blanks) (rest : List Char), cs = blanks.1 ++ rest ∧ Stops isSpace rest :=
  ⟨⟨cs.takeWhile isSpace, List.all_eq_true.1 List.all_takeWhile⟩, cs.dropWhile isSpace,
    List.takeWhile_append_dropWhile.symm, Markup.stops_dropWhile isSpace cs⟩

/-- What is behind a block begins with another one, or is blank. -/
theorem atNextBlock_printBlocks (blanks : Blanks) (bs : List (WrittenBlock × Blanks)) :
    atNextBlock (printBlocks blanks bs) := by
  rw [atNextBlock_iff]
  cases bs with
  | nil => exact .inl (skipSpace_blanks blanks (stops_nil _))
  | cons b bs =>
    refine .inr ⟨b.1.kind, ?_⟩
    simp only [printBlocks, List.flatMap_cons, WrittenBlock.print, List.append_assoc]
    rw [skipSpace_headOf]
    exact List.prefix_append _ _

/-! ## The end of the template block -/

theorem templateEnd?_eq_some {cs rest : List Char} :
    templateEnd? cs = some rest ↔ cs = "</template>".toList ++ rest ∧ atNextBlock rest := by
  rw [templateEnd?, Option.filter_eq_some_iff, Text.stripStart?_eq_some]

/-- Behind an end tag in a text that does not end early, no block begins. -/
theorem not_atNextBlock {inner : List Char} (h : ¬ EndsEarly ("</template>".toList ++ inner))
    (rest : List Char) :
    ¬ atNextBlock (inner ++ '<' :: '/' :: rest) := by
  obtain ⟨blanks, text, rfl, hstops⟩ := exists_blanks inner
  have hangle : Stops isSpace (text ++ '<' :: '/' :: rest) := by
    cases text with
    | nil => exact stops_cons (by decide)
    | cons c text => exact hstops
  rw [atNextBlock_iff, List.append_assoc, skipSpace_blanks blanks hangle]
  rintro (hnil | ⟨kind, hhead⟩)
  · simp at hnil
  obtain ⟨c, cs, hcons, hcs, hc⟩ := headOf_eq_cons kind
  rw [hcons] at hhead
  by_cases htext : text = []
  · rw [htext, List.nil_append] at hhead
    obtain ⟨-, hhead⟩ := List.cons_prefix_cons.1 hhead
    exact hc (List.cons_prefix_cons.1 hhead).1
  · obtain ⟨more, rfl⟩ := mark_prefix_of_append hcs htext hhead
    refine h ⟨blanks, kind, ?_⟩
    rw [hcons]
    exact List.IsPrefix.isInfix ⟨more, by simp only [List.append_assoc]⟩

theorem EndsEarly.mono {t t' : List Char} (h : EndsEarly t) (ht : t <:+: t') : EndsEarly t' := by
  obtain ⟨blanks, kind, hinfix⟩ := h
  exact ⟨blanks, kind, hinfix.trans ht⟩

theorem templateEnd?_eq_none {text : List Char} (htext : text ≠ []) (h : ¬ EndsEarly text)
    (rest : List Char) : templateEnd? (text ++ ("</template>".toList ++ rest)) = none := by
  cases hend : templateEnd? (text ++ ("</template>".toList ++ rest)) with
  | none => rfl
  | some more =>
    obtain ⟨hcs, hnext⟩ := templateEnd?_eq_some.1 hend
    have hprefix : '<' :: "/template>".toList <+: text ++ '<' :: ("/template>".toList ++ rest) :=
      ⟨more, hcs.symm⟩
    obtain ⟨inner, rfl⟩ := mark_prefix_of_append (by decide) htext hprefix
    have hmore : more = inner ++ '<' :: '/' :: ("template>".toList ++ rest) := by
      rw [List.append_assoc] at hcs
      exact (List.append_cancel_left hcs).symm
    rw [hmore] at hnext
    exact absurd hnext (not_atNextBlock h _)

/-- A text that does not end early is the body up to the end tag behind it. -/
theorem templateBody?_append {text : List Char} (h : ¬ EndsEarly text) {rest : List Char}
    (hrest : atNextBlock rest) :
    templateBody? (text ++ ("</template>".toList ++ rest)) = some (text, rest) := by
  induction text with
  | nil =>
    have hend : templateEnd? ('<' :: ("/template>".toList ++ rest)) = some rest :=
      templateEnd?_eq_some.2 ⟨rfl, hrest⟩
    show templateBody? ('<' :: ("/template>".toList ++ rest)) = some ([], rest)
    rw [templateBody?, hend]
  | cons x text ih =>
    have hend := templateEnd?_eq_none (List.cons_ne_nil x text) h rest
    have hbehind := ih fun hearly => h (hearly.mono (List.suffix_cons x text).isInfix)
    rw [List.cons_append] at hend ⊢
    rw [templateBody?, hend, hbehind]
    rfl

/-- A text that ends early is not read to its end. -/
theorem EndsEarly.templateBody? {text : List Char} (h : EndsEarly text) (rest : List Char) :
    ∃ body more, templateBody? (text ++ rest) = some (body, more) ∧
      body.length < text.length := by
  induction text with
  | nil =>
    obtain ⟨blanks, kind, hinfix⟩ := h
    have hnil := List.eq_nil_of_infix_nil hinfix
    simp at hnil
  | cons x text ih =>
    cases hend : templateEnd? (x :: (text ++ rest)) with
    | some more =>
      refine ⟨[], more, ?_, Nat.succ_pos _⟩
      rw [List.cons_append, SingleFile.templateBody?, hend]
    | none =>
      obtain ⟨blanks, kind, hinfix⟩ := h
      rcases List.infix_cons_iff.1 hinfix with ⟨behind, hprefix⟩ | hinfix
      · have hfound : templateEnd? (x :: text ++ rest) =
            some (blanks.1 ++ ((headOf kind).toList ++ (behind ++ rest))) := by
          refine templateEnd?_eq_some.2 ⟨?_, ?_⟩
          · rw [← hprefix]
            simp only [List.append_assoc]
          · rw [atNextBlock_iff, skipSpace_headOf]
            exact .inr ⟨kind, List.prefix_append _ _⟩
        rw [List.cons_append, hend] at hfound
        cases hfound
      · obtain ⟨body, more, hbody, hlength⟩ := ih ⟨blanks, kind, hinfix⟩
        refine ⟨x :: body, more, ?_, Nat.succ_lt_succ hlength⟩
        rw [List.cons_append, SingleFile.templateBody?, hend, hbody]
        rfl

/-! ## The file -/

section

variable (t : String) (tail : Tail)

theorem toList_templateFile : (templateFile t tail).toList =
    "<template>".toList ++ (t.toList ++ ("</template>".toList ++ tail.print)) := by
  simp only [templateFile, String.toList_append, String.toList_ofList, List.append_assoc]

variable {t tail}

/-- A file whose template body is read is its template block and the blocks behind it. -/
theorem blocks?_templateFile {body rest : List Char}
    (hbody : templateBody? (t.toList ++ ("</template>".toList ++ tail.print)) =
      some (body, rest)) :
    blocks? (templateFile t tail) =
      (blocksFrom? (templateFile t tail).toList.length rest).map
        ((.template, ⟨[], String.ofList body⟩) :: ·) := by
  have hskip : skipSpace (templateFile t tail).toList = (templateFile t tail).toList := by
    rw [toList_templateFile]
    rfl
  have hblock : block? (templateFile t tail).toList =
      some ((.template, ⟨[], String.ofList body⟩), rest) := by
    have hopening := opening?_print (headOf .template) [] noBlanks
      (t.toList ++ ("</template>".toList ++ tail.print))
    have hsource : (templateFile t tail).toList = (headOf .template).toList ++
        (printAttributes [] noBlanks ++
          (t.toList ++ ("</template>".toList ++ tail.print))) := toList_templateFile t tail
    rw [hsource]
    simp only [block?, blockOf?, hopening, body?, hbody, Option.bind_eq_bind, Option.bind_some,
      List.map_nil]
    rfl
  have hne : (templateFile t tail).toList ≠ [] := by
    rw [toList_templateFile]
    exact List.cons_ne_nil _ _
  refine blocksFrom?_block ?_ ?_ _
  · rwa [hskip]
  · rwa [hskip]

end

theorem template_foldl_add {bs : List (BlockKind × Block)} (h : ∀ b ∈ bs, b.1 ≠ .template) :
    ∀ f : SingleFile, (bs.foldl add f).template = f.template := by
  induction bs with
  | nil => exact fun _ => rfl
  | cons b bs ih =>
    intro f
    rw [List.foldl_cons, ih fun x hx => h x (List.mem_cons_of_mem b hx)]
    obtain ⟨kind, b⟩ := b
    cases kind with
    | template => exact absurd rfl (h _ List.mem_cons_self)
    | script =>
      simp only [add]
      split <;> rfl
    | style => rfl

/-- There is no warning if and only if no template stands behind the first. -/
theorem warnings_template (b : Block) (bs : List (BlockKind × Block)) :
    warnings ((.template, b) :: bs) = [] ↔ ∀ x ∈ bs, x.1 ≠ .template := by
  simp [warnings]

theorem heldWhole_of_not_endsEarly {t : String} (h : ¬ EndsEarly t.toList) (tail : Tail) :
    HeldWhole t tail := by
  have hlength : tail.blocks.length < (templateFile t tail).toList.length := by
    have hblocks := length_le_flatMap (f := fun b : WrittenBlock × Blanks => b.1.print ++ b.2.1)
      (fun b => by
        obtain ⟨cs, hcons⟩ := b.1.print_eq_cons
        simp [hcons]) tail.blocks
    have htag : "<template>".toList.length = 10 := rfl
    simp only [toList_templateFile, Tail.print, printBlocks, List.length_append, htag]
    omega
  have hbodies : ∀ b ∈ tail.blocks, b.1.ReadsBody := fun b hb =>
    b.1.readsBody_of_ne (tail.no_template b hb)
  have hblocks : blocks? (templateFile t tail) =
      some ((.template, ⟨[], t⟩) :: tail.blocks.map (·.1.meant)) := by
    rw [blocks?_templateFile (templateBody?_append h (atNextBlock_printBlocks _ _)), Tail.print,
      blocksFrom?_print tail.blocks hbodies tail.blanks _ hlength, String.ofList_toList]
    rfl
  have hothers : ∀ b ∈ tail.blocks.map (·.1.meant), b.1 ≠ .template := by
    intro b hb
    obtain ⟨written, hwritten, rfl⟩ := List.mem_map.1 hb
    exact tail.no_template written hwritten
  constructor
  case read =>
    refine ⟨_, by rw [parse?, hblocks]; rfl, ?_⟩
    rw [ofBlocks, List.foldl_cons, template_foldl_add hothers]
    rfl
  case silent =>
    intro bs hbs
    obtain rfl := Option.some.inj (hblocks.symm.trans hbs)
    exact (warnings_template _ _).2 hothers

theorem not_heldWhole_of_endsEarly {t : String} (h : EndsEarly t.toList) (tail : Tail) :
    ¬ HeldWhole t tail := by
  rintro ⟨⟨f, hparse, htemplate⟩, hsilent⟩
  obtain ⟨body, rest, hbody, hlength⟩ := h.templateBody? ("</template>".toList ++ tail.print)
  have hblocks := blocks?_templateFile hbody
  cases hmore : blocksFrom? (templateFile t tail).toList.length rest with
  | none =>
    rw [hmore] at hblocks
    rw [parse?, hblocks] at hparse
    cases hparse
  | some bs =>
    rw [hmore] at hblocks
    have hothers := (warnings_template _ _).1 (hsilent _ hblocks)
    rw [parse?, hblocks] at hparse
    obtain rfl := Option.some.inj hparse
    rw [ofBlocks, List.foldl_cons, template_foldl_add hothers] at htemplate
    have hcontent : String.ofList body = t := congrArg Block.content (Option.some.inj htemplate)
    rw [← hcontent, String.toList_ofList] at hlength
    exact absurd hlength (Nat.lt_irrefl _)

/-- A template block is read to its own end tag, without a warning and whatever scripts and styles
stand behind it, if and only if its content holds no end tag of a template with another block's
beginning behind it. -/
theorem heldWhole_iff (t : String) (tail : Tail) : HeldWhole t tail ↔ ¬ EndsEarly t.toList :=
  ⟨fun h hearly => not_heldWhole_of_endsEarly hearly tail h,
    fun h => heldWhole_of_not_endsEarly h tail⟩

/-- A template next to a template ends the block around them. -/
theorem adjacent_templates_not_held :
    Nested "<template>a</template><template>b</template>".toList ∧
      ¬ HeldWhole "<template>a</template><template>b</template>" .empty := by
  constructor
  · have hchild (c : Char) (hopening : ¬ "<template".toList <:+: [c])
        (hclosing : ¬ "</template".toList <:+: [c]) :
        Nested ("<template".toList ++ [] ++ ">".toList ++ [c] ++ "</template>".toList) :=
      .element List.not_mem_nil (.plain hopening hclosing)
    exact .append (hchild 'a' (by decide) (by decide)) (hchild 'b' (by decide) (by decide))
  · refine not_heldWhole_of_endsEarly ⟨noBlanks, .template, ?_⟩ _
    exact ⟨"<template>a".toList, ">b</template>".toList, rfl⟩

end ViewTree.SingleFile
