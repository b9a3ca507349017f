import ViewTree.Proofs.Markup.Printer
/-!
# Scanners at printed markup

Each scanner, put in front of a printed piece with any text behind it, finds the piece and gives
back the text behind it. `Stops` says what the text behind has to begin with for a run of
characters to end where the printer ended it.
-/

namespace ViewTree.Markup

/-! ## Runs of characters -/

/-- No character that satisfies `p` comes first. -/
def Stops (p : Char → Bool) (rest : List Char) : Prop :=
  ∀ c ∈ rest.head?, p c = false

theorem stops_nil (p : Char → Bool) : Stops p [] :=
  fun _ h => by cases h

theorem stops_cons {p : Char → Bool} {c : Char} {rest : List Char} (h : p c = false) :
    Stops p (c :: rest) := by
  intro x hx
  cases hx
  exact h

theorem stops_append {p : Char → Bool} {cs rest : List Char} (h : Stops p cs)
    (hrest : Stops p rest) : Stops p (cs ++ rest) := by
  cases cs with
  | nil => exact hrest
  | cons c cs => exact h

theorem stops_append_of_ne_nil {p : Char → Bool} {cs : List Char} (hne : cs ≠ [])
    (h : Stops p cs) (rest : List Char) : Stops p (cs ++ rest) := by
  obtain ⟨c, cs, rfl⟩ := List.exists_cons_of_ne_nil hne
  exact h

theorem stops_dropWhile (p : Char → Bool) (cs : List Char) : Stops p (cs.dropWhile p) := by
  intro c hc
  have hhead := List.head?_dropWhile_not p cs
  rw [Option.mem_def.1 hc] at hhead
  exact hhead

theorem dropWhile_of_stops {p : Char → Bool} {rest : List Char} (h : Stops p rest) :
    rest.dropWhile p = rest := by
  cases rest with
  | nil => rfl
  | cons c rest => rw [List.dropWhile_cons_of_neg (by simp [h c rfl])]

theorem spanWhile_append {p : Char → Bool} {run rest : List Char} (hrun : ∀ c ∈ run, p c)
    (hrest : Stops p rest) : spanWhile p (run ++ rest) = (run, rest) := by
  have htake : rest.takeWhile p = [] := by
    cases rest with
    | nil => rfl
    | cons c rest => rw [List.takeWhile_cons_of_neg (by simp [hrest c rfl])]
  rw [spanWhile, List.takeWhile_append_of_pos hrun, List.dropWhile_append_of_pos hrun, htake,
    dropWhile_of_stops hrest, List.append_nil]

/-! ## Names -/

theorem localName?_append {name rest : List Char} (h : IsLocalName name)
    (hrest : Stops isNamePart rest) : localName? (name ++ rest) = some (name, rest) := by
  cases name with
  | nil => exact h.elim
  | cons c part =>
    obtain ⟨hc, hpart⟩ := h
    simp only [List.cons_append, localName?, hc, if_true, spanWhile_append hpart hrest]

/-- What may stand behind a tag's name: a blank, a slash or the end of the tag. -/
def EndsTagName (rest : List Char) : Prop :=
  ∃ c r, rest = c :: r ∧ c ∈ [' ', '/', '>']

theorem EndsTagName.stops {rest : List Char} (h : EndsTagName rest) : Stops isNamePart rest := by
  obtain ⟨c, r, rfl, hc⟩ := h
  have hnot : ∀ x ∈ [' ', '/', '>'], !isNamePart x := List.all_eq_true.1 (by decide)
  exact stops_cons (by simpa using hnot c hc)

theorem tagName?_append {name rest : List Char} (h : IsTagName name) (hrest : EndsTagName rest) :
    tagName? (name ++ rest) = some (name, rest) := by
  rcases h with h | ⟨space, name, hspace, hname, rfl⟩
  · obtain ⟨c, r, rfl, hc⟩ := hrest
    have hcolon : c ≠ ':' := by
      rintro rfl
      revert hc
      decide
    rw [tagName?, localName?_append h (EndsTagName.stops ⟨c, r, rfl, hc⟩)]
    split
    · contradiction
    · simp_all
    · simp_all
  · have hcolon : Stops isNamePart (':' :: (name ++ rest)) := stops_cons (by decide)
    rw [List.append_assoc, List.cons_append, tagName?, localName?_append hspace hcolon]
    simp only [localName?_append hname hrest.stops]

/-- A tag begins with a letter or an underscore. -/
theorem IsTagName.eq_cons {name : List Char} (h : IsTagName name) :
    ∃ c part, name = c :: part ∧ isNameStart c := by
  rcases h with h | ⟨space, _, h, _, rfl⟩
  · cases name with
    | nil => exact h.elim
    | cons c part => exact ⟨c, part, rfl, h.1⟩
  · cases space with
    | nil => exact h.elim
    | cons c part => exact ⟨c, _, rfl, h.1⟩

/-! ## End tags and the opening of start tags -/

theorem afterAngle?_angle (rest : List Char) : afterAngle? ('>' :: rest) = some rest := rfl

theorem endTag?_print {tag : String} (h : IsTagName tag.toList) (rest : List Char) :
    endTag? (printEnd tag ++ rest) = some (tag, rest) := by
  have hname : tagName? (tag.toList ++ '>' :: rest) = some (tag.toList, '>' :: rest) :=
    tagName?_append h ⟨'>', rest, rfl, by decide⟩
  simp [printEnd, endTag?, hname, afterAngle?_angle]

theorem startTagOpen?_print {name rest : List Char} (h : IsTagName name)
    (hrest : EndsTagName rest) : startTagOpen? ('<' :: (name ++ rest)) = some (name, rest) :=
  tagName?_append h hrest

/-! ## Attributes -/

/-- The end of a start tag. -/
def printClose (slash : Bool) : List Char :=
  if slash then ['/', '>'] else ['>']

theorem startTagClose?_printClose (slash : Bool) (rest : List Char) :
    startTagClose? (printClose slash ++ rest) = some (slash, rest) := by
  cases slash <;> rfl

/-- An attribute's name is not blank and closes no tag. -/
theorem IsAttrName.eq_cons {name : String} (h : IsAttrName name) :
    ∃ c part, name.toList = c :: part ∧ isAttrNameChar c := by
  obtain ⟨hne, hall⟩ := h
  cases hname : name.toList with
  | nil => exact absurd hname hne
  | cons c part => exact ⟨c, part, rfl, hall c (by simp [hname])⟩

theorem isAttrNameChar_iff (c : Char) :
    isAttrNameChar c ↔ Text.isBlank c = false ∧ c ∉ ['"', '\'', '<', '>', '/', '='] := by
  simp [isAttrNameChar]

theorem dropBlank_of_not_blank {c : Char} {rest : List Char} (h : Text.isBlank c = false) :
    Text.dropBlank (c :: rest) = c :: rest :=
  dropWhile_of_stops (stops_cons h)

theorem dropBlank_space (rest : List Char) : Text.dropBlank (' ' :: rest) = Text.dropBlank rest :=
  List.dropWhile_cons_of_pos (by decide)

/-- The blank in front of an attribute is skipped. -/
theorem dropBlank_printAttr {a : String × String} (h : IsAttrName a.1) (rest : List Char) :
    Text.dropBlank (printAttr a ++ rest) =
      a.1.toList ++ '=' :: '"' :: (escape a.2.toList ++ '"' :: rest) := by
  obtain ⟨c, part, hname, hc⟩ := h.eq_cons
  have hblank := ((isAttrNameChar_iff c).1 hc).1
  simp only [printAttr, List.cons_append, dropBlank_space, List.append_assoc, hname,
    List.nil_append, dropBlank_of_not_blank hblank]

theorem startTagClose?_printAttr {a : String × String} (h : IsAttrName a.1) (rest : List Char) :
    startTagClose? (printAttr a ++ rest) = none := by
  obtain ⟨c, part, hname, hc⟩ := h.eq_cons
  have hother := ((isAttrNameChar_iff c).1 hc).2
  simp only [List.mem_cons, not_or] at hother
  rw [startTagClose?, dropBlank_printAttr h, hname]
  split <;> simp_all

theorem escapeChar_no_quote (c : Char) : '"' ∉ escapeChar c := by
  unfold escapeChar
  split
  · decide
  · decide
  · decide
  · decide
  · simp_all [eq_comm]

theorem escape_no_quote (value : List Char) : '"' ∉ escape value := by
  intro h
  obtain ⟨c, -, hc⟩ := List.mem_flatMap.1 h
  exact escapeChar_no_quote c hc

/-- A quoted value ends at its own closing quote, since no quote follows that one. -/
theorem attrValue?_print (value : List Char) {rest : List Char} (hrest : Stops (· == '"') rest) :
    attrValue? ('"' :: (escape value ++ '"' :: rest)) = some (escape value, rest) := by
  have hrun : ∀ c ∈ escape value, (c != '"') = true := by
    intro c hc
    simp only [bne_iff_ne, ne_eq]
    rintro rfl
    exact escape_no_quote value hc
  have hspan : spanWhile (· != '"') (escape value ++ '"' :: rest) = (escape value, '"' :: rest) :=
    spanWhile_append hrun (stops_cons (by decide))
  have hskip : ('"' :: rest).dropWhile (· == '"') = rest := by
    rw [List.dropWhile_cons_of_pos (by decide), dropWhile_of_stops hrest]
  simp [attrValue?, quotedValue?, hspan, hskip]

theorem attribute?_print {name : String} (h : IsAttrName name) (value : List Char)
    {rest : List Char} (hrest : Stops (· == '"') rest) :
    attribute? (name.toList ++ '=' :: '"' :: (escape value ++ '"' :: rest)) =
      some (name.toList, escape value, rest) := by
  have hspan : spanWhile isAttrNameChar
      (name.toList ++ '=' :: '"' :: (escape value ++ '"' :: rest)) =
        (name.toList, '=' :: '"' :: (escape value ++ '"' :: rest)) :=
    spanWhile_append h.2 (stops_cons (by decide))
  have htail : attrTail ('=' :: '"' :: (escape value ++ '"' :: rest)) = (escape value, rest) := by
    rw [attrTail, dropBlank_of_not_blank (by decide)]
    simp only [dropBlank_of_not_blank (show Text.isBlank '"' = false by decide),
      attrValue?_print value hrest, Option.getD_some]
  rw [attribute?, hspan]
  split
  · simp_all [h.1]
  · simp_all

/-- Attributes and the end of a start tag hold no quote in front. -/
theorem stops_quote (attrs : List (String × String)) (slash : Bool) (rest : List Char) :
    Stops (· == '"') (attrs.flatMap printAttr ++ (printClose slash ++ rest)) := by
  cases attrs with
  | nil => cases slash <;> exact stops_cons (by decide)
  | cons a attrs => exact stops_cons (by decide)

/-- The name of an attribute and its value as it is written. -/
def Attribute.written (a : Attribute) : String × String :=
  (a.name, a.value)

/-- Attributes as they are read before their values are decoded. -/
def writtenAttrs (attrs : List (String × String)) : List (String × String) :=
  attrs.map fun a => (a.1, String.ofList (escape a.2.toList))

theorem readAttributes_print (total fuel : Nat) (attrs : List (String × String))
    (h : ∀ a ∈ attrs, IsAttrName a.1) (slash : Bool) (rest : List Char)
    (hfuel : attrs.length < fuel) :
    ∃ found, readAttributes total fuel (attrs.flatMap printAttr ++ (printClose slash ++ rest)) =
        some (found, slash, rest) ∧ found.map Attribute.written = writtenAttrs attrs := by
  induction attrs generalizing fuel with
  | nil =>
    obtain ⟨fuel, rfl⟩ := Nat.exists_eq_add_of_lt hfuel
    refine ⟨[], ?_, rfl⟩
    rw [List.flatMap_nil, List.nil_append, readAttributes, startTagClose?_printClose]
  | cons a attrs ih =>
    have ha : IsAttrName a.1 := h a (by simp)
    match fuel, hfuel with
    | fuel + 1, hfuel =>
      obtain ⟨found, hread, hfound⟩ := ih fuel (fun b hb => h b (by simp [hb])) (by simpa using hfuel)
      have hattr := attribute?_print ha a.2.toList (stops_quote attrs slash rest)
      generalize hrest : attrs.flatMap printAttr ++ (printClose slash ++ rest) = behind
        at hread hattr
      let place := between total (a.1.toList ++ '=' :: '"' :: (escape a.2.toList ++ '"' :: behind))
        behind
      refine ⟨⟨a.1, String.ofList (escape a.2.toList), place⟩ :: found, ?_, ?_⟩
      · rw [List.flatMap_cons, List.append_assoc, hrest, readAttributes,
          startTagClose?_printAttr ha, dropBlank_printAttr ha]
        simp only [hattr, hread, Option.bind_eq_bind, Option.bind_some, String.ofList_toList,
          place]
      · rw [List.map_cons, hfound]
        rfl

theorem endsTagName_attrs (attrs : List (String × String)) (slash : Bool) (rest : List Char) :
    EndsTagName (attrs.flatMap printAttr ++ (printClose slash ++ rest)) := by
  cases attrs with
  | nil => cases slash <;> exact ⟨_, _, rfl, by decide⟩
  | cons a attrs => exact ⟨' ', _, rfl, by decide⟩

theorem length_le_flatMap {α β : Type} {f : α → List β} (hf : ∀ a, f a ≠ []) (xs : List α) :
    xs.length ≤ (xs.flatMap f).length := by
  induction xs with
  | nil => exact Nat.le_refl 0
  | cons x xs ih =>
    have hx := List.length_pos_iff.2 (hf x)
    rw [List.flatMap_cons, List.length_append, List.length_cons]
    omega

theorem startTag?_print (total : Nat) {tag : String} (htag : IsTagName tag.toList)
    {attrs : List (String × String)} (hattrs : ∀ a ∈ attrs, IsAttrName a.1) (slash : Bool)
    (rest : List Char) :
    ∃ found, startTag? total (printOpening tag attrs ++ (printClose slash ++ rest)) =
        some ⟨tag, found, slash, rest⟩ ∧ found.map Attribute.written = writtenAttrs attrs := by
  have hopen := startTagOpen?_print htag (endsTagName_attrs attrs slash rest)
  have hlen := length_le_flatMap (f := printAttr) (fun _ => List.cons_ne_nil _ _) attrs
  obtain ⟨found, hread, hfound⟩ := readAttributes_print total
    ((attrs.flatMap printAttr ++ (printClose slash ++ rest)).length + 1) attrs hattrs slash rest
    (by rw [List.length_append]; omega)
  refine ⟨found, ?_, hfound⟩
  rw [printOpening, List.cons_append, List.append_assoc, startTag?, hopen]
  simp only [Option.bind_eq_bind, Option.bind_some, hread, String.ofList_toList]

/-! ## Entities -/

theorem decodeEntities_cons {c : Char} (h : c ≠ '&') (newlines : Bool) (cs : List Char) :
    decodeEntities newlines (c :: cs) = c :: decodeEntities newlines cs := by
  rw [decodeEntities] <;> simp_all

theorem decodeEntities_escapeChar (newlines : Bool) (c : Char) (cs : List Char) :
    decodeEntities newlines (escapeChar c ++ cs) = c :: decodeEntities newlines cs := by
  unfold escapeChar
  split
  · rfl
  · rfl
  · rfl
  · rfl
  · rename_i hamp _ _ _
    exact decodeEntities_cons hamp newlines cs

theorem decodeEntities_escape (newlines : Bool) (value : List Char) :
    decodeEntities newlines (escape value) = value := by
  induction value with
  | nil => rfl
  | cons c value ih =>
    rw [escape, List.flatMap_cons, decodeEntities_escapeChar]
    exact congrArg (c :: ·) ih

/-- Decoding an attribute as it was written gives back what was meant, whatever the dialect says
about newlines. -/
theorem decode_written (d : Dialect) (tag : String) {found : List Attribute}
    {attrs : List (String × String)} (h : found.map Attribute.written = writtenAttrs attrs) :
    (found.map (d.decode tag)).map Attribute.unplaced =
      attrs.map fun a => ⟨a.1, a.2, .nowhere⟩ := by
  induction found generalizing attrs with
  | nil =>
    cases attrs with
    | nil => rfl
    | cons a attrs => simp [writtenAttrs] at h
  | cons f found ih =>
    cases attrs with
    | nil => simp [writtenAttrs] at h
    | cons a attrs =>
      obtain ⟨fname, fvalue, fspan⟩ := f
      simp only [writtenAttrs, List.map_cons, List.cons.injEq, Attribute.written, Prod.mk.injEq]
        at h
      obtain ⟨⟨rfl, rfl⟩, hrest⟩ := h
      have hdecode (newlines : Bool) :
          decodeValue newlines (String.ofList (escape a.2.toList)) = a.2 := by
        rw [decodeValue, String.toList_ofList, decodeEntities_escape, String.ofList_toList]
      simp only [List.map_cons, ih hrest, Dialect.decode, Attribute.unplaced, hdecode]

/-! ## Comments -/

theorem stripStart?_eq_none {head cs : List Char} (h : ¬ head <+: cs) :
    Text.stripStart? head cs = none := by
  cases hs : Text.stripStart? head cs with
  | none => rfl
  | some rest => exact absurd ⟨rest, (Text.stripStart?_eq_some.1 hs).symm⟩ h

/-- A text that does not hold `-->` keeps it from beginning before the end of the text. -/
theorem not_prefix_comment_end {t : List Char} {c : Char}
    (h : ¬ ['-', '-', '>'] <:+: c :: t) (rest : List Char) :
    ¬ ['-', '-', '>'] <+: c :: t ++ (['-', '-', '>'] ++ rest) := by
  intro hp
  match t, h, hp with
  | [], _, hp => simp at hp
  | [x], _, hp => simp at hp
  | x :: y :: t, h, hp =>
    refine h (List.IsPrefix.isInfix ?_)
    simpa using hp

theorem splitAt?_comment_end (t rest : List Char) (h : ¬ ['-', '-', '>'] <:+: t) :
    Text.splitAt? ['-', '-', '>'] (t ++ (['-', '-', '>'] ++ rest)) = some (t, rest) := by
  induction t with
  | nil => rfl
  | cons c t ih =>
    have htail : ¬ ['-', '-', '>'] <:+: t := fun ht => h (ht.trans (List.suffix_cons c t).isInfix)
    have hhead := stripStart?_eq_none (not_prefix_comment_end h rest)
    rw [List.cons_append, Text.splitAt?]
    rw [List.cons_append] at hhead
    rw [hhead, ih htail]
    rfl

theorem comment?_print {t : String} (h : IsCommentText t) (rest : List Char) :
    comment? ('<' :: '!' :: '-' :: '-' :: (t.toList ++ (['-', '-', '>'] ++ rest))) =
      some (t.toList, rest) := by
  obtain ⟨hend, hangle, hdash⟩ := h
  generalize t.toList = cs at hend hangle hdash
  have hsplit := splitAt?_comment_end cs rest hend
  -- A text of at most one character lets the end of the comment show through.
  match cs, hangle, hdash, hsplit with
  | [], _, _, _ => rfl
  | [c], hangle, _, hsplit =>
    simp only [List.cons_append, List.nil_append, comment?] at hsplit ⊢
    split <;> simp_all
  | c :: x :: cs, hangle, hdash, hsplit =>
    simp only [List.cons_append, List.nil_append, comment?] at hsplit ⊢
    split <;> simp_all

/-! ## Markup that is none of a kind -/

theorem isNameStart_ne {c x : Char} (h : isNameStart c) (hx : isNameStart x = false) : c ≠ x := by
  rintro rfl
  simp [h] at hx

theorem comment?_eq_none {c : Char} (h : c ≠ '!') (cs : List Char) :
    comment? ('<' :: c :: cs) = none := by
  unfold comment?
  split <;> simp_all

theorem conditional?_eq_none {c : Char} (h : c ≠ '!') (cs : List Char) :
    conditional? ('<' :: c :: cs) = none := by
  simp [conditional?, Text.startsWith, Text.stripStart?, h.symm]

/-- Only capitals change, and they become letters, which lie behind all punctuation. -/
theorem ne_toLower {c x : Char} (hx : x.val.toNat < 97) (h : c ≠ x) : x ≠ c.toLower := by
  by_cases hupper : c.val ≥ 'A'.val ∧ c.val ≤ 'Z'.val
  · have hlower : c.toLower.val = c.val + ('a'.val - 'A'.val) :=
      congrArg Char.val (dif_pos hupper)
    rintro rfl
    have hlow : 65 ≤ c.val.toNat ∧ c.val.toNat ≤ 90 := hupper
    have hsum : (c.val + ('a'.val - 'A'.val)).toNat = (c.val.toNat + 32) % 2 ^ 32 :=
      UInt32.toNat_add _ _
    rw [hlower] at hx
    omega
  · have hlower : c.toLower = c := dif_neg hupper
    rw [hlower]
    exact h.symm

theorem doctype?_eq_none {cs : List Char}
    (h : ∀ c r, cs = '<' :: c :: r → c ≠ '!') : doctype? cs = none := by
  have hlist : "<!doctype ".toList = '<' :: '!' :: "doctype ".toList := rfl
  have hstrip : Text.stripStartNoCase? "<!doctype ".toList cs = none := by
    rw [hlist]
    match cs, h with
    | [], _ => rfl
    | [x], _ => simp [Text.stripStartNoCase?]
    | x :: c :: r, h =>
      by_cases hx : x = '<'
      · subst hx
        have hc : '!' ≠ c.toLower := ne_toLower (by decide) (h c r rfl)
        simp [Text.stripStartNoCase?, hc]
      · have hlt : '<' ≠ x.toLower := ne_toLower (by decide) hx
        simp [Text.stripStartNoCase?, hlt]
  rw [doctype?, hstrip]
  rfl

end ViewTree.Markup
