import Mathlib.Data.List.Induction
import ViewTree.Proofs.SingleFile.Templates
/-!
# Files of written blocks

A file of blocks with blanks around them is read as the component that its blocks make: the last
template, the last script of either sort and all styles in their order, each with the attributes
and the body that were written (`parse?_printBlocks`).
-/

namespace ViewTree.SingleFile

/-! ## Bodies -/

/-- A body without an end tag of a template does not end early, whatever blocks are behind it. -/
theorem readsBody_template {b : WrittenBlock} (hkind : b.kind = .template) : b.ReadsBody := by
  intro blanks bs
  have hclosed := b.closed
  rw [hkind] at hclosed ⊢
  refine templateBody?_append ?_ (atNextBlock_printBlocks blanks bs)
  rintro ⟨behind, kind, hinfix⟩
  exact hclosed (List.IsInfix.trans (List.prefix_append _ _).isInfix hinfix)

theorem WrittenBlock.readsBody (b : WrittenBlock) : b.ReadsBody := by
  by_cases hkind : b.kind = .template
  · exact readsBody_template hkind
  · exact b.readsBody_of_ne hkind

theorem blocks?_printBlocks (blanks : Blanks) (bs : List (WrittenBlock × Blanks)) :
    blocks? (String.ofList (printBlocks blanks bs)) = some (bs.map (·.1.meant)) := by
  have hlength := Markup.length_le_flatMap (f := fun b : WrittenBlock × Blanks => b.1.print ++ b.2.1)
    (fun b => by
      obtain ⟨cs, hcons⟩ := b.1.print_eq_cons
      simp [hcons]) bs
  rw [blocks?, String.toList_ofList]
  refine blocksFrom?_print bs (fun b _ => b.1.readsBody) blanks _ ?_
  simp only [printBlocks, List.length_append]
  omega

/-! ## What the blocks make -/

namespace WrittenBlock

/-- The block that is meant: its attributes, those without a value as flags, and its body. -/
def block (b : WrittenBlock) : Block :=
  ⟨b.attrs.map WrittenAttribute.meant, String.ofList b.body⟩

/-- The block is of a kind. -/
def isOf (kind : BlockKind) (b : WrittenBlock) : Bool :=
  b.kind == kind

/-- The block is a script with an attribute named `setup`. -/
def isSetup (b : WrittenBlock) : Bool :=
  b.isOf .script && b.attrs.any (String.ofList ·.name == "setup")

/-- The block is a script without such an attribute. -/
def isPlainScript (b : WrittenBlock) : Bool :=
  b.isOf .script && !b.attrs.any (String.ofList ·.name == "setup")

theorem hasAttr_setup (b : WrittenBlock) :
    b.block.hasAttr "setup" = b.attrs.any (String.ofList ·.name == "setup") := by
  rw [Bool.eq_iff_iff, Block.hasAttr, Block.attr?, List.find?_isSome, List.any_eq_true]
  simp [block, WrittenAttribute.meant]

end WrittenBlock

/-- The last of the blocks that satisfy `p`. -/
def lastOf (p : WrittenBlock → Bool) (bs : List WrittenBlock) : Option Block :=
  (bs.filter p).getLast?.map WrittenBlock.block

/-- Blocks in their order that satisfy `p`. -/
def allOf (p : WrittenBlock → Bool) (bs : List WrittenBlock) : List Block :=
  (bs.filter p).map WrittenBlock.block

section

variable (p : WrittenBlock → Bool) (bs : List WrittenBlock) (b : WrittenBlock)

theorem lastOf_concat : lastOf p (bs ++ [b]) = if p b then some b.block else lastOf p bs := by
  by_cases hb : p b <;> simp [lastOf, List.filter_append, hb]

theorem allOf_concat : allOf p (bs ++ [b]) = allOf p bs ++ if p b then [b.block] else [] := by
  by_cases hb : p b <;> simp [allOf, List.filter_append, hb]

end

/-- The component that written blocks make. -/
def component (bs : List WrittenBlock) : SingleFile where
  template := lastOf (·.isOf .template) bs
  script := lastOf (·.isPlainScript) bs
  scriptSetup := lastOf (·.isSetup) bs
  styles := allOf (·.isOf .style) bs

/-- Adding a block behind others changes nothing but what it is the last of. -/
theorem component_concat (bs : List WrittenBlock) (b : WrittenBlock) :
    component (bs ++ [b]) = add (component bs) b.meant := by
  have hsetup := b.hasAttr_setup
  have hmeant : b.meant = (b.kind, b.block) := rfl
  rw [hmeant]
  simp only [component, lastOf_concat, allOf_concat, WrittenBlock.isPlainScript,
    WrittenBlock.isSetup, WrittenBlock.isOf, ← hsetup]
  cases b.kind with
  | template => simp [add]
  | script => by_cases h : b.block.hasAttr "setup" <;> simp [add, h]
  | style => simp [add]

theorem ofBlocks_meant (bs : List WrittenBlock) :
    ofBlocks (bs.map WrittenBlock.meant) = component bs := by
  -- A block is added behind all others, so the induction takes blocks off the end.
  induction bs using List.reverseRecOn with
  | nil => rfl
  | append_singleton bs b ih =>
    rw [component_concat, ← ih, ofBlocks, List.map_append, List.foldl_append]
    rfl

/-- A file of written blocks, with blanks before, between and behind them, is read as the
component that the blocks make. -/
theorem parse?_printBlocks (blanks : Blanks) (bs : List (WrittenBlock × Blanks)) :
    parse? (String.ofList (printBlocks blanks bs)) = some (component (bs.map (·.1))) := by
  rw [parse?, blocks?_printBlocks, Option.map_some, ← ofBlocks_meant, List.map_map]
  rfl

/-- A blank. -/
def oneBlank : Blanks :=
  ⟨[' '], by simp [isSpace]⟩

/-- A template with a value in quotes that holds the other quote, and a flag. -/
def flaggedTemplate : WrittenBlock where
  kind := .template
  attrs :=
    [⟨oneBlank, ['n', 'o', 't', 'e'],
        some ⟨noBlanks, oneBlank, '"', "it's".toList, by decide, by decide⟩,
        by decide, ⟨by decide, List.all_eq_true.1 rfl⟩⟩,
      ⟨oneBlank, ['r', 'a', 'w'], none, by decide, ⟨by decide, List.all_eq_true.1 rfl⟩⟩]
  blanks := noBlanks
  body := "<p></p>".toList
  closed := by decide +kernel

/-- A script with the end tag of a template in it. -/
def markupScript : WrittenBlock where
  kind := .script
  attrs := []
  blanks := noBlanks
  body := "t = '</template>'".toList
  closed := by decide +kernel

/-- The end tag in the script ends no template, and the other quote ends no value. -/
theorem parse?_printBlocks_flaggedTemplate :
    let bs := [(flaggedTemplate, oneBlank), (markupScript, noBlanks)]
    printBlocks noBlanks bs = ("<template note= \"it's\" raw><p></p></template> " ++
        "<script>t = '</template>'</script>").toList ∧
      parse? (String.ofList (printBlocks noBlanks bs)) = some
        { template := some ⟨[⟨"note", some "it's"⟩, ⟨"raw", none⟩], "<p></p>"⟩
          script := some ⟨[], "t = '</template>'"⟩
          scriptSetup := none
          styles := [] } := by
  intro bs
  refine ⟨by decide +kernel, ?_⟩
  rw [parse?_printBlocks]
  rfl

end ViewTree.SingleFile
