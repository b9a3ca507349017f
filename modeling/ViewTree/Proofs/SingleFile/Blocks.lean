import ViewTree.Proofs.Markup.Scanning
import ViewTree.SingleFile
/-!
# Written blocks

Attributes and blocks of a file as they may be written: blanks wherever the grammar has them,
values in either quote, bodies without the end tag of their own block. What is written of an
attribute, of a start tag and of a block whose body is read to its end tag is read back as it was
meant (`block?_print`, `blocksFrom?_print`). Scripts and styles are such blocks, whatever is behind
them.
-/

namespace ViewTree.SingleFile

open Markup (Stops stops_nil stops_cons dropWhile_of_stops spanWhile spanWhile_append stripStart?_eq_none
  length_le_flatMap)

/-! ## What is written -/

/-- Blanks between the parts of a file. -/
abbrev Blanks :=
  { cs : List Char // ∀ c ∈ cs, isSpace c }

/-- No blanks. -/
def noBlanks : Blanks :=
  ⟨[], fun _ h => absurd h List.not_mem_nil⟩

/-- The name of an attribute. -/
def IsName : List Char → Prop
  | [] => False
  | c :: part => isNameStart c ∧ ∀ x ∈ part, isNamePart x

/-- An equals sign, perhaps between blanks, and a text in quotes. -/
structure WrittenValue where
  before : Blanks
  behind : Blanks
  quote : Char
  text : List Char
  isQuote : quote = '"' ∨ quote = '\''
  quote_not_mem : quote ∉ text

/-- An attribute behind at least one blank; one without a value is a flag. -/
structure WrittenAttribute where
  gap : Blanks
  name : List Char
  value : Option WrittenValue
  gap_ne : gap.1 ≠ []
  isName : IsName name

/-- The end tag of a kind of blocks. -/
def closingOf : BlockKind → String
  | .template => "</template>"
  | .script => "</script>"
  | .style => "</style>"

/-- A block whose body does not hold its end tag. -/
structure WrittenBlock where
  kind : BlockKind
  attrs : List WrittenAttribute
  blanks : Blanks
  body : List Char
  closed : ¬ (closingOf kind).toList <:+: body

namespace WrittenValue

/-- The characters of a value. -/
def print (v : WrittenValue) : List Char :=
  v.before.1 ++ '=' :: (v.behind.1 ++ v.quote :: (v.text ++ [v.quote]))

end WrittenValue

namespace WrittenAttribute

/-- The characters of an attribute. -/
def print (a : WrittenAttribute) : List Char :=
  a.gap.1 ++ (a.name ++ (a.value.map WrittenValue.print).getD [])

/-- The attribute that is meant. -/
def meant (a : WrittenAttribute) : BlockAttribute :=
  ⟨String.ofList a.name, a.value.map fun v => String.ofList v.text⟩

end WrittenAttribute

/-- Attributes and the end of a start tag. -/
def printAttributes (attrs : List WrittenAttribute) (blanks : Blanks) : List Char :=
  attrs.flatMap WrittenAttribute.print ++ (blanks.1 ++ ['>'])

namespace WrittenBlock

/-- The characters of a block. -/
def print (b : WrittenBlock) : List Char :=
  (headOf b.kind).toList ++ (printAttributes b.attrs b.blanks ++
    (b.body ++ (closingOf b.kind).toList))

/-- The block that is meant. -/
def meant (b : WrittenBlock) : BlockKind × Block :=
  (b.kind, ⟨b.attrs.map WrittenAttribute.meant, String.ofList b.body⟩)

end WrittenBlock

/-- Blocks with blanks before and behind them. -/
def printBlocks (blanks : Blanks) (bs : List (WrittenBlock × Blanks)) : List Char :=
  blanks.1 ++ bs.flatMap fun b => b.1.print ++ b.2.1

/-! ## Blanks and quotes -/

theorem skipSpace_blanks (blanks : Blanks) {rest : List Char} (h : Stops isSpace rest) :
    skipSpace (blanks.1 ++ rest) = rest := by
  rw [skipSpace, List.dropWhile_append_of_pos blanks.2, dropWhile_of_stops h]

theorem quoted?_print {quote : Char} {text : List Char} (hquote : quote = '"' ∨ quote = '\'')
    (htext : quote ∉ text) (rest : List Char) :
    quoted? (quote :: (text ++ quote :: rest)) = some (text, rest) := by
  have hspan : spanWhile (· != quote) (text ++ quote :: rest) = (text, quote :: rest) :=
    spanWhile_append (fun c hc => bne_iff_ne.2 (ne_of_mem_of_not_mem hc htext))
      (stops_cons (bne_self_eq_false quote))
  obtain ⟨htake, hdrop⟩ := Prod.mk.inj hspan
  simp [quoted?, hquote, htake, hdrop]

theorem isSpace_cases {c : Char} (h : isSpace c) : c = ' ' ∨ c = '\t' ∨ c = '\r' ∨ c = '\n' := by
  simpa [isSpace, or_assoc] using h

theorem isSpace_of_isNameStart {c : Char} (h : isNameStart c) : isSpace c = false := by
  rw [← Bool.not_eq_true]
  intro hspace
  rcases isSpace_cases hspace with rfl | rfl | rfl | rfl <;>
    exact absurd h (by decide)

theorem isNamePart_of_isSpace {c : Char} (h : isSpace c) : isNamePart c = false := by
  rcases isSpace_cases h with rfl | rfl | rfl | rfl <;> decide

/-! ## Attributes -/

theorem attributeValue_some (v : WrittenValue) (rest : List Char) :
    attributeValue (v.print ++ rest) = (some (String.ofList v.text), rest) := by
  have hquote : Stops isSpace (v.quote :: (v.text ++ v.quote :: rest)) := by
    refine stops_cons ?_
    rcases v.isQuote with h | h <;> rw [h] <;> decide
  have hprint : v.print ++ rest =
      v.before.1 ++ '=' :: (v.behind.1 ++ v.quote :: (v.text ++ v.quote :: rest)) := by
    simp [WrittenValue.print]
  rw [hprint, attributeValue, skipSpace_blanks _ (stops_cons (by decide))]
  simp only [skipSpace_blanks _ hquote, quoted?_print v.isQuote v.quote_not_mem]

theorem attributeValue_none {cs : List Char} (h : ∀ rest, skipSpace cs ≠ '=' :: rest) :
    attributeValue cs = (none, cs) := by
  unfold attributeValue
  split
  · rename_i rest hrest
    exact absurd hrest (h rest)
  · rfl

/-- A name that stands here is at its end, and no value stands behind it. -/
structure EndsAttribute (cs : List Char) : Prop where
  name : Stops isNamePart cs
  value : ∀ rest, skipSpace cs ≠ '=' :: rest

theorem stops_blanks {blanks : Blanks} {rest : List Char} (h : Stops isNamePart rest) :
    Stops isNamePart (blanks.1 ++ rest) := by
  obtain ⟨cs, hcs⟩ := blanks
  cases cs with
  | nil => exact h
  | cons c cs => exact stops_cons (isNamePart_of_isSpace (hcs c List.mem_cons_self))

theorem IsName.eq_cons {name : List Char} (h : IsName name) :
    ∃ c part, name = c :: part ∧ isNameStart c ∧ ∀ x ∈ part, isNamePart x := by
  cases name with
  | nil => exact h.elim
  | cons c part => exact ⟨c, part, rfl, h.1, h.2⟩

theorem skipSpace_attribute (a : WrittenAttribute) (rest : List Char) :
    skipSpace (a.print ++ rest) = a.name ++ ((a.value.map WrittenValue.print).getD [] ++ rest) := by
  obtain ⟨c, part, hname, hc, -⟩ := a.isName.eq_cons
  rw [WrittenAttribute.print, List.append_assoc, List.append_assoc, hname]
  exact skipSpace_blanks a.gap (stops_cons (isSpace_of_isNameStart hc))

theorem WrittenAttribute.print_eq_cons (a : WrittenAttribute) :
    ∃ c cs, a.print = c :: cs ∧ isSpace c := by
  obtain ⟨c, cs, hgap⟩ := List.exists_cons_of_ne_nil a.gap_ne
  exact ⟨c, _, by rw [print, hgap, List.cons_append], a.gap.2 c (hgap ▸ List.mem_cons_self)⟩

section

variable (blanks : Blanks) (rest : List Char)

theorem printAttributes_nil :
    printAttributes [] blanks ++ rest = blanks.1 ++ '>' :: rest := by
  simp [printAttributes]

theorem printAttributes_cons (a : WrittenAttribute) (attrs : List WrittenAttribute) :
    printAttributes (a :: attrs) blanks ++ rest =
      a.print ++ (printAttributes attrs blanks ++ rest) := by
  simp [printAttributes]

end

theorem endsAttribute_print (attrs : List WrittenAttribute) (blanks : Blanks)
    (rest : List Char) : EndsAttribute (printAttributes attrs blanks ++ rest) := by
  cases attrs with
  | nil =>
    rw [printAttributes_nil]
    refine ⟨stops_blanks (stops_cons (by decide)), fun more hmore => ?_⟩
    rw [skipSpace_blanks _ (stops_cons (by decide))] at hmore
    exact absurd (List.cons.inj hmore).1 (by decide)
  | cons a attrs =>
    rw [printAttributes_cons]
    constructor
    case name =>
      obtain ⟨c, cs, hcons, hc⟩ := a.print_eq_cons
      rw [hcons]
      exact stops_cons (isNamePart_of_isSpace hc)
    case value =>
      intro more hmore
      obtain ⟨c, part, hname, hc, -⟩ := a.isName.eq_cons
      rw [skipSpace_attribute, hname] at hmore
      rw [(List.cons.inj hmore).1] at hc
      exact absurd hc (by decide)

theorem attribute?_print (a : WrittenAttribute) {rest : List Char} (h : EndsAttribute rest) :
    attribute? (skipSpace (a.print ++ rest)) = some (a.meant, rest) := by
  obtain ⟨c, part, hname, hc, hpart⟩ := a.isName.eq_cons
  have hvalue : Stops isNamePart ((a.value.map WrittenValue.print).getD [] ++ rest) ∧
      attributeValue ((a.value.map WrittenValue.print).getD [] ++ rest) =
        (a.value.map fun v => String.ofList v.text, rest) := by
    cases a.value with
    | none => exact ⟨h.name, attributeValue_none h.value⟩
    | some v =>
      refine ⟨?_, attributeValue_some v rest⟩
      simp only [Option.map_some, Option.getD_some, WrittenValue.print, List.append_assoc]
      exact stops_blanks (stops_cons (by decide))
  obtain ⟨htake, hdrop⟩ := Prod.mk.inj (spanWhile_append hpart hvalue.1)
  rw [skipSpace_attribute, hname, List.cons_append, attribute?, if_pos hc]
  simp only [htake, hdrop, hvalue.2, WrittenAttribute.meant, hname]

theorem attributes_print (blanks : Blanks) (rest : List Char) (attrs : List WrittenAttribute) :
    ∀ fuel, attrs.length ≤ fuel →
      attributes fuel (printAttributes attrs blanks ++ rest) =
        (attrs.map WrittenAttribute.meant, blanks.1 ++ '>' :: rest) := by
  induction attrs with
  | nil =>
    intro fuel _
    have hnone : attribute? (skipSpace (blanks.1 ++ '>' :: rest)) = none := by
      rw [skipSpace_blanks _ (stops_cons (by decide))]
      rfl
    rw [printAttributes_nil]
    generalize blanks.1 ++ '>' :: rest = cs at hnone
    cases fuel with
    | zero => rfl
    | succ fuel =>
      cases cs with
      | nil => rfl
      | cons c cs => simp [attributes, hnone]
  | cons a attrs ih =>
    intro fuel hfuel
    obtain ⟨fuel, rfl⟩ := Nat.exists_eq_add_of_lt (Nat.lt_of_lt_of_le (Nat.succ_pos _) hfuel)
    obtain ⟨c, cs, hcons, hc⟩ := a.print_eq_cons
    have hattr := attribute?_print a (endsAttribute_print attrs blanks rest)
    have hmore := ih fuel (by simpa using hfuel)
    rw [printAttributes_cons]
    rw [hcons, List.cons_append] at hattr ⊢
    simp only [Nat.zero_add, attributes, hc, if_true, hattr, hmore, List.map_cons]

/-! ## Start tags -/

theorem opening?_print (head : String) (attrs : List WrittenAttribute) (blanks : Blanks)
    (rest : List Char) :
    opening? head (head.toList ++ (printAttributes attrs blanks ++ rest)) =
      some (attrs.map WrittenAttribute.meant, rest) := by
  have hstrip : Text.stripStart? head.toList
      (head.toList ++ (printAttributes attrs blanks ++ rest)) =
        some (printAttributes attrs blanks ++ rest) := Text.stripStart?_eq_some.2 rfl
  have hfuel : attrs.length ≤ (printAttributes attrs blanks ++ rest).length := by
    have hattrs := length_le_flatMap (f := WrittenAttribute.print) (fun a => by
      obtain ⟨c, cs, hcons, -⟩ := a.print_eq_cons
      simp [hcons]) attrs
    simp only [printAttributes, List.length_append]
    omega
  have hclose : skipSpace (blanks.1 ++ '>' :: rest) = '>' :: rest :=
    skipSpace_blanks _ (stops_cons (by decide))
  simp only [opening?, hstrip, attributes_print blanks rest attrs _ hfuel, hclose,
    Option.bind_eq_bind, Option.bind_some]

/-! ## Bodies -/

theorem prefix_of_append {c : Char} {mark text rest : List Char} (hc : c ∉ mark)
    (h : mark <+: text ++ c :: rest) : mark <+: text := by
  rcases List.prefix_or_prefix_of_prefix h (List.prefix_append text (c :: rest)) with hmark | hmark
  · exact hmark
  · obtain ⟨more, rfl⟩ := hmark
    cases more with
    | nil => simp
    | cons d more =>
      have hd : d :: more <+: c :: rest := (List.prefix_append_right_inj text).1 h
      obtain ⟨rfl, -⟩ := List.cons_prefix_cons.1 hd
      exact absurd (List.mem_append_right text List.mem_cons_self) hc

/-- A mark that begins in a text, and whose first character does not come again in it, ends
before that character behind the text. -/
theorem mark_prefix_of_append {c : Char} {mark text rest : List Char} (hc : c ∉ mark)
    (htext : text ≠ []) (h : c :: mark <+: text ++ c :: rest) : c :: mark <+: text := by
  obtain ⟨x, text, rfl⟩ := List.exists_cons_of_ne_nil htext
  obtain ⟨rfl, hmark⟩ := List.cons_prefix_cons.1 h
  exact List.cons_prefix_cons.2 ⟨rfl, prefix_of_append hc hmark⟩

/-- A mark whose first character does not come again in it is found right behind a text that does
not hold it. -/
theorem splitAt?_append {c : Char} {mark text : List Char} (hc : c ∉ mark)
    (h : ¬ (c :: mark) <:+: text) (rest : List Char) :
    Text.splitAt? (c :: mark) (text ++ (c :: mark ++ rest)) = some (text, rest) := by
  induction text with
  | nil =>
    have hstrip : Text.stripStart? (c :: mark) (c :: (mark ++ rest)) = some rest :=
      Text.stripStart?_eq_some.2 rfl
    simp only [List.nil_append, List.cons_append, Text.splitAt?, hstrip]
  | cons x text ih =>
    have hhere : ¬ c :: mark <+: x :: (text ++ (c :: mark ++ rest)) := fun hprefix =>
      h (mark_prefix_of_append hc (List.cons_ne_nil x text) hprefix).isInfix
    have hbehind := ih fun hmark => h (hmark.trans (List.suffix_cons x text).isInfix)
    rw [List.cons_append, Text.splitAt?, stripStart?_eq_none hhere, hbehind]
    rfl

namespace WrittenBlock

/-- The body is read to the end tag of its block, whatever blocks are behind it. -/
def ReadsBody (b : WrittenBlock) : Prop :=
  ∀ (blanks : Blanks) (bs : List (WrittenBlock × Blanks)),
    body? b.kind (b.body ++ ((closingOf b.kind).toList ++ printBlocks blanks bs)) =
      some (b.body, printBlocks blanks bs)

/-- The first end tag behind the start tag of a script or a style ends it. -/
theorem readsBody_of_ne (b : WrittenBlock) (hkind : b.kind ≠ .template) : b.ReadsBody := by
  intro blanks bs
  have hclosed := b.closed
  cases hb : b.kind with
  | template => exact absurd hb hkind
  | script =>
    rw [hb] at hclosed
    exact splitAt?_append (by decide : '<' ∉ "/script>".toList) hclosed _
  | style =>
    rw [hb] at hclosed
    exact splitAt?_append (by decide : '<' ∉ "/style>".toList) hclosed _

end WrittenBlock

/-! ## Blocks -/

theorem blockOf?_print {b : WrittenBlock} (hb : b.ReadsBody) (blanks : Blanks)
    (bs : List (WrittenBlock × Blanks)) :
    blockOf? b.kind (b.print ++ printBlocks blanks bs) = some (b.meant, printBlocks blanks bs) := by
  have hprint : b.print ++ printBlocks blanks bs =
      (headOf b.kind).toList ++ (printAttributes b.attrs b.blanks ++
        (b.body ++ ((closingOf b.kind).toList ++ printBlocks blanks bs))) := by
    simp only [WrittenBlock.print, List.append_assoc]
  simp only [blockOf?, hprint, opening?_print, hb blanks bs, Option.bind_eq_bind,
    Option.bind_some, WrittenBlock.meant]

theorem blockOf?_eq_none {kind : BlockKind} {cs : List Char}
    (h : Text.stripStart? (headOf kind).toList cs = none) : blockOf? kind cs = none := by
  simp only [blockOf?, opening?, h, Option.bind_eq_bind, Option.bind_none]

theorem blockOf?_print_of_ne (b : WrittenBlock) {kind : BlockKind} (hne : b.kind ≠ kind)
    (rest : List Char) : blockOf? kind (b.print ++ rest) = none := by
  refine blockOf?_eq_none ?_
  rw [WrittenBlock.print]
  cases hb : b.kind <;> cases kind <;> first | exact absurd hb hne | rfl

/-- A block is read as it was meant, and what is behind it is left. -/
theorem block?_print {b : WrittenBlock} (hb : b.ReadsBody) (blanks : Blanks)
    (bs : List (WrittenBlock × Blanks)) :
    block? (b.print ++ printBlocks blanks bs) = some (b.meant, printBlocks blanks bs) := by
  have hread := blockOf?_print hb blanks bs
  have hother {kind : BlockKind} (hne : b.kind ≠ kind) :=
    blockOf?_print_of_ne b hne (printBlocks blanks bs)
  rw [block?]
  cases hkind : b.kind with
  | template =>
    rw [hkind] at hread
    rw [hread]
    rfl
  | script =>
    rw [hkind] at hread
    rw [hother (by simp [hkind]), hread]
    rfl
  | style =>
    rw [hkind] at hread
    rw [hother (by simp [hkind]), hother (by simp [hkind]), hread]
    rfl

/-! ## Files -/

theorem WrittenBlock.print_eq_cons (b : WrittenBlock) : ∃ cs, b.print = '<' :: cs := by
  rw [print]
  cases b.kind <;> exact ⟨_, rfl⟩

theorem blocksFrom?_block {cs rest : List Char} {b : BlockKind × Block} (hne : skipSpace cs ≠ [])
    (hblock : block? (skipSpace cs) = some (b, rest)) (fuel : Nat) :
    blocksFrom? (fuel + 1) cs = (blocksFrom? fuel rest).map (b :: ·) := by
  rw [blocksFrom?]
  split
  · contradiction
  · simp only [hblock, Option.bind_eq_bind, Option.bind_some]
    cases blocksFrom? fuel rest <;> rfl

/-- Blocks with blanks between them are read as they were meant. -/
theorem blocksFrom?_print (bs : List (WrittenBlock × Blanks))
    (hbodies : ∀ b ∈ bs, b.1.ReadsBody) (blanks : Blanks) :
    ∀ fuel, bs.length < fuel →
      blocksFrom? fuel (printBlocks blanks bs) = some (bs.map (·.1.meant)) := by
  induction bs generalizing blanks with
  | nil =>
    intro fuel hfuel
    obtain ⟨fuel, rfl⟩ := Nat.exists_eq_add_of_lt hfuel
    have hskip : skipSpace (printBlocks blanks []) = [] :=
      skipSpace_blanks blanks (stops_nil _)
    simp only [blocksFrom?, hskip, List.map_nil]
  | cons b bs ih =>
    intro fuel hfuel
    obtain ⟨fuel, rfl⟩ := Nat.exists_eq_add_of_lt hfuel
    obtain ⟨cs, hcons⟩ := b.1.print_eq_cons
    have hprint : printBlocks blanks (b :: bs) = blanks.1 ++ (b.1.print ++ printBlocks b.2 bs) := by
      simp only [printBlocks, List.flatMap_cons, List.append_assoc]
    have hskip : skipSpace (printBlocks blanks (b :: bs)) = b.1.print ++ printBlocks b.2 bs := by
      rw [hprint]
      exact skipSpace_blanks blanks (by rw [hcons]; exact stops_cons (by decide))
    have hblock := block?_print (hbodies b List.mem_cons_self) b.2 bs
    have hmore := ih (fun x hx => hbodies x (List.mem_cons_of_mem b hx)) b.2
      ((b :: bs).length + fuel) (by simp only [List.length_cons]; omega)
    rw [← hskip] at hblock
    rw [blocksFrom?_block (by rw [hskip, hcons]; exact List.cons_ne_nil _ _) hblock, hmore]
    rfl

end ViewTree.SingleFile
