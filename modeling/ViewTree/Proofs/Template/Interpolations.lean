import ViewTree.Proofs.Markup.Scanning
import ViewTree.Proofs.Template.Parts
/-!
# Splitting a text at its expressions

A text is split at the delimiters as far as they come in pairs, and never otherwise
(`splitInterpolations_eq_none_iff`). The parts are all of the text, and they are found from the
left: a text goes up to the first opening delimiter behind the part before, and an expression up to
the first closing delimiter (`IsSplit`). There is only one way to split a text like that, whatever
the delimiters have in common with each other and with the text (`splitInterpolations_eq_some_iff`).
-/

namespace ViewTree

namespace Text

/-- No `mark` of the text `a ++ rest` begins in `a`: it neither holds a `mark` nor overlaps one. -/
def LeadsTo (mark a rest : List Char) : Prop :=
  ∀ b c, a ++ rest = b ++ mark ++ c → a.length ≤ b.length

variable {mark cs a b rest : List Char} {c : Char}

theorem leadsTo_nil (mark rest : List Char) : LeadsTo mark [] rest :=
  fun b _ _ => Nat.zero_le b.length

theorem leadsTo_cons : LeadsTo mark (c :: a) rest ↔
    ¬ mark <+: c :: (a ++ rest) ∧ LeadsTo mark a rest := by
  constructor
  · intro h
    refine ⟨fun ⟨d, hd⟩ => ?_, fun b d hbd => ?_⟩
    · exact absurd (h [] d hd.symm) (Nat.not_succ_le_zero _)
    · exact Nat.le_of_succ_le_succ (h (c :: b) d (congrArg (c :: ·) hbd))
  · rintro ⟨hhere, h⟩ b d hbd
    cases b with
    | nil => exact absurd ⟨d, hbd.symm⟩ hhere
    | cons x b => exact Nat.succ_le_succ (h b d (List.tail_eq_of_cons_eq hbd))

/-- What leads to a mark holds none. -/
theorem LeadsTo.not_infix (hmark : mark ≠ []) (h : LeadsTo mark a rest) : ¬ mark <:+: a := by
  rintro ⟨b, d, rfl⟩
  have hle := h b (d ++ rest) (by simp)
  have hpos := List.length_pos_iff.2 hmark
  simp only [List.length_append] at hle
  omega

theorem splitAt?_mark (mark b : List Char) : splitAt? mark (mark ++ b) = some ([], b) := by
  have hstrip : stripStart? mark (mark ++ b) = some b := stripStart?_eq_some.2 rfl
  cases hcs : mark ++ b with
  | nil =>
    rw [hcs] at hstrip
    rw [splitAt?, hstrip]
    rfl
  | cons c cs =>
    rw [hcs] at hstrip
    rw [splitAt?, hstrip]

theorem splitAt?_cons (h : ¬ mark <+: c :: cs) :
    splitAt? mark (c :: cs) = (splitAt? mark cs).map fun p => (c :: p.1, p.2) := by
  rw [splitAt?, Markup.stripStart?_eq_none h]

theorem splitAt?_mark_iff {d : List Char} :
    splitAt? mark (mark ++ d) = some (a, b) ↔
      mark ++ d = a ++ mark ++ b ∧ LeadsTo mark a (mark ++ b) := by
  rw [splitAt?_mark]
  constructor
  · intro h
    cases h
    exact ⟨rfl, leadsTo_nil mark _⟩
  · rintro ⟨heq, hleads⟩
    have hlength : a.length ≤ 0 := hleads [] d (by simpa using heq.symm)
    obtain rfl := List.eq_nil_of_length_eq_zero (Nat.le_zero.1 hlength)
    rw [List.append_cancel_left heq]

/-- A text is split at the first mark. -/
theorem splitAt?_eq_some_iff :
    splitAt? mark cs = some (a, b) ↔ cs = a ++ mark ++ b ∧ LeadsTo mark a (mark ++ b) := by
  induction cs generalizing a b with
  | nil =>
    by_cases hmark : mark = []
    · subst hmark
      exact splitAt?_mark_iff (d := [])
    · have hnone : splitAt? mark [] = none := by
        rw [splitAt?, Markup.stripStart?_eq_none (by simpa using hmark)]
        rfl
      simp [hnone, hmark]
  | cons c cs ih =>
    by_cases hhere : mark <+: c :: cs
    · obtain ⟨d, hd⟩ := hhere
      rw [← hd]
      exact splitAt?_mark_iff
    · simp only [splitAt?_cons hhere, Option.map_eq_some_iff, Prod.exists, Prod.mk.injEq, ih]
      cases a with
      | nil =>
        constructor
        · rintro ⟨_, _, _, hcons, _⟩
          exact absurd hcons (List.cons_ne_nil _ _)
        · rintro ⟨heq, -⟩
          exact absurd ⟨b, heq.symm⟩ hhere
      | cons x a =>
        constructor
        · rintro ⟨_, _, ⟨rfl, hleads⟩, hcons, rfl⟩
          cases hcons
          exact ⟨rfl, leadsTo_cons.2 ⟨by simpa using hhere, hleads⟩⟩
        · rintro ⟨heq, hleads⟩
          cases heq
          exact ⟨a, b, ⟨rfl, (leadsTo_cons.1 hleads).2⟩, rfl, rfl⟩

/-- A text is split wherever there is a mark in it. -/
theorem splitAt?_eq_none_iff : splitAt? mark cs = none ↔ ¬ mark <:+: cs := by
  induction cs with
  | nil =>
    by_cases hmark : mark = []
    · subst hmark
      exact iff_of_false (Option.some_ne_none _) (not_not_intro List.infix_rfl)
    · rw [splitAt?, Markup.stripStart?_eq_none (by simpa using hmark)]
      simpa using hmark
  | cons c cs ih =>
    rw [List.infix_cons_iff]
    by_cases hhere : mark <+: c :: cs
    · obtain ⟨d, hd⟩ := hhere
      rw [← hd, splitAt?_mark]
      exact iff_of_false (Option.some_ne_none _)
        (not_not_intro (.inl (List.prefix_append mark d)))
    · rw [splitAt?_cons hhere, Option.map_eq_none_iff, ih]
      simp [hhere]

end Text

namespace Template

open Text (LeadsTo)

/-- The text has an opening delimiter, and somewhere behind it a closing one. -/
def HasExpression (opening closing cs : List Char) : Prop :=
  ∃ before inner after, cs = before ++ (opening ++ inner ++ closing) ++ after

/-- How the part is written with the delimiters. -/
def Part.spelled (opening closing : List Char) : Part → List Char
  | plain cs => cs
  | expression inner => opening ++ inner ++ closing

/-- How the parts are written one after the other. -/
def spelledAll (opening closing : List Char) (parts : List Part) : List Char :=
  parts.flatMap (Part.spelled opening closing)

/-- The parts are the text, split from the left: no text is empty or next to another text, one in
front of an expression leads to the opening delimiter, an expression leads to the closing one, and
a text at the end has no expression. -/
structure IsSplit (opening closing cs : List Char) (parts : List Part) : Prop where
  whole : spelledAll opening closing parts = cs
  filled : ∀ t, .plain t ∈ parts → t ≠ []
  opened : ∀ t inner behind, .plain t :: .expression inner :: behind <:+ parts →
    LeadsTo opening t (spelledAll opening closing (.expression inner :: behind))
  closed : ∀ inner behind, .expression inner :: behind <:+ parts →
    LeadsTo closing inner (closing ++ spelledAll opening closing behind)
  last : ∀ t, [.plain t] <:+ parts → ¬ HasExpression opening closing t
  apart : ∀ t u behind, ¬ .plain t :: .plain u :: behind <:+ parts

section

variable {opening closing cs before inner after : List Char} {parts : List Part}

theorem interpolation?_eq_some_iff :
    interpolation? opening closing cs = some (before, inner, after) ↔
      cs = before ++ (opening ++ inner ++ closing ++ after) ∧
        LeadsTo opening before (opening ++ inner ++ closing ++ after) ∧
        LeadsTo closing inner (closing ++ after) := by
  simp only [interpolation?, Option.bind_eq_bind, Option.bind_eq_some_iff, Prod.exists,
    Text.splitAt?_eq_some_iff, Option.some.injEq, Prod.mk.injEq]
  constructor
  · rintro ⟨_, rest, ⟨rfl, hopening⟩, _, _, ⟨rfl, hclosing⟩, rfl, rfl, rfl⟩
    simp only [List.append_assoc] at hopening ⊢
    exact ⟨trivial, hopening, hclosing⟩
  · rintro ⟨rfl, hopening, hclosing⟩
    simp only [List.append_assoc] at hopening ⊢
    exact ⟨before, inner ++ (closing ++ after), ⟨rfl, hopening⟩, inner, after, ⟨rfl, hclosing⟩,
      rfl, rfl, rfl⟩

/-- Where there is an expression, one is found: the first opening delimiter is not behind that of
the expression, so its closing delimiter is still to come. -/
theorem HasExpression.exists_interpolation (h : HasExpression opening closing cs) :
    ∃ found, interpolation? opening closing cs = some found := by
  obtain ⟨before, inner, after, hcs⟩ := h
  obtain ⟨⟨front, rest⟩, hopening⟩ : ∃ found, Text.splitAt? opening cs = some found := by
    rw [← Option.ne_none_iff_exists', ne_eq, Text.splitAt?_eq_none_iff, not_not]
    exact ⟨before, inner ++ closing ++ after, by simp [hcs]⟩
  obtain ⟨heq, hleads⟩ := Text.splitAt?_eq_some_iff.1 hopening
  have hlength : front.length ≤ before.length := by
    refine hleads before (inner ++ closing ++ after) ?_
    rw [← List.append_assoc, ← heq, hcs]
    simp
  obtain ⟨x, hx⟩ : front ++ opening <+: before ++ opening := by
    refine List.prefix_of_prefix_length_le ⟨rest, heq.symm⟩
      ⟨inner ++ closing ++ after, by simp [hcs]⟩ ?_
    simpa using hlength
  have hwhole : front ++ opening ++ rest = front ++ opening ++ (x ++ (inner ++ closing ++ after)) :=
    calc front ++ opening ++ rest
      _ = before ++ opening ++ (inner ++ closing ++ after) := by
        rw [← heq, hcs]
        simp
      _ = front ++ opening ++ (x ++ (inner ++ closing ++ after)) := by
        rw [← hx, List.append_assoc]
  have hrest : rest = x ++ (inner ++ closing ++ after) := List.append_cancel_left hwhole
  obtain ⟨⟨expr, behind⟩, hclosing⟩ : ∃ found, Text.splitAt? closing rest = some found := by
    rw [← Option.ne_none_iff_exists', ne_eq, Text.splitAt?_eq_none_iff, not_not]
    exact ⟨x ++ inner, after, by simp [hrest]⟩
  exact ⟨(front, expr, behind), by simp [interpolation?, hopening, hclosing]⟩

theorem interpolation?_eq_none_iff :
    interpolation? opening closing cs = none ↔ ¬ HasExpression opening closing cs := by
  constructor
  · intro hnone hexpression
    obtain ⟨found, hfound⟩ := hexpression.exists_interpolation
    rw [hfound] at hnone
    cases hnone
  · intro hno
    refine Option.eq_none_iff_forall_ne_some.2 fun ⟨before, inner, after⟩ hfound => hno ?_
    exact ⟨before, inner, after, interpolation?_eq_some hfound⟩

/-! ## Splits -/

theorem isSplit_nil (opening closing : List Char) : IsSplit opening closing [] [] where
  whole := rfl
  filled _ h := absurd h List.not_mem_nil
  opened _ _ _ h := absurd (List.suffix_nil.1 h) (List.cons_ne_nil _ _)
  closed _ _ h := absurd (List.suffix_nil.1 h) (List.cons_ne_nil _ _)
  last _ h := absurd (List.suffix_nil.1 h) (List.cons_ne_nil _ _)
  apart _ _ _ h := absurd (List.suffix_nil.1 h) (List.cons_ne_nil _ _)

theorem IsSplit.tail {p : Part} (h : IsSplit opening closing cs (p :: parts)) :
    IsSplit opening closing (spelledAll opening closing parts) parts where
  whole := rfl
  filled t ht := h.filled t (List.mem_cons_of_mem p ht)
  opened t inner behind hs := h.opened t inner behind (hs.trans (List.suffix_cons p parts))
  closed inner behind hs := h.closed inner behind (hs.trans (List.suffix_cons p parts))
  last t hs := h.last t (hs.trans (List.suffix_cons p parts))
  apart t u behind hs := h.apart t u behind (hs.trans (List.suffix_cons p parts))

/-- A part is added in front of a split. Only what the part itself has to keep is left to show. -/
theorem IsSplit.cons (h : IsSplit opening closing cs parts) (p : Part)
    (hfilled : ∀ t, p = .plain t → t ≠ [])
    (hopened : ∀ t inner behind, p = .plain t → parts = .expression inner :: behind →
      LeadsTo opening t cs)
    (hclosed : ∀ inner, p = .expression inner → LeadsTo closing inner (closing ++ cs))
    (hlast : ∀ t, p = .plain t → parts = [] → ¬ HasExpression opening closing t)
    (hapart : ∀ t u behind, p = .plain t → parts ≠ .plain u :: behind) :
    IsSplit opening closing (p.spelled opening closing ++ cs) (p :: parts) where
  whole := congrArg _ h.whole
  filled t ht := by
    rcases List.mem_cons.1 ht with heq | ht
    · exact hfilled t heq.symm
    · exact h.filled t ht
  opened t inner behind hs := by
    rcases List.suffix_cons_iff.1 hs with heq | hs
    · cases heq
      rw [h.whole]
      exact hopened t inner behind rfl rfl
    · exact h.opened t inner behind hs
  closed inner behind hs := by
    rcases List.suffix_cons_iff.1 hs with heq | hs
    · cases heq
      rw [h.whole]
      exact hclosed inner rfl
    · exact h.closed inner behind hs
  last t hs := by
    rcases List.suffix_cons_iff.1 hs with heq | hs
    · cases heq
      exact hlast t rfl rfl
    · exact h.last t hs
  apart t u behind hs := by
    rcases List.suffix_cons_iff.1 hs with heq | hs
    · cases heq
      exact hapart t u behind rfl rfl
    · exact h.apart t u behind hs

theorem isSplit_expression_iff : IsSplit opening closing cs (.expression inner :: parts) ↔
    ∃ after, cs = opening ++ inner ++ closing ++ after ∧ LeadsTo closing inner (closing ++ after) ∧
      IsSplit opening closing after parts := by
  constructor
  · intro h
    exact ⟨spelledAll opening closing parts, h.whole.symm, h.closed inner parts List.suffix_rfl,
      h.tail⟩
  · rintro ⟨after, rfl, hleads, h⟩
    exact h.cons (.expression inner) (by simp) (by simp) (by simpa using hleads) (by simp)
      (by simp)

theorem isSplit_text_iff {t : List Char} : IsSplit opening closing cs [.plain t] ↔
    cs = t ∧ t ≠ [] ∧ ¬ HasExpression opening closing t := by
  constructor
  · intro h
    have hwhole : t ++ [] = cs := h.whole
    exact ⟨by simpa using hwhole.symm, h.filled t List.mem_cons_self, h.last t List.suffix_rfl⟩
  · rintro ⟨rfl, hne, hnone⟩
    have hsplit : IsSplit opening closing (cs ++ []) [.plain cs] :=
      (isSplit_nil opening closing).cons (.plain cs) (by simpa using hne) (by simp) (by simp)
        (by simpa using hnone) (by simp)
    rwa [List.append_nil] at hsplit

theorem isSplit_plain_iff {t : List Char} :
    IsSplit opening closing cs (.plain t :: .expression inner :: parts) ↔
      ∃ rest, cs = t ++ rest ∧ t ≠ [] ∧ LeadsTo opening t rest ∧
        IsSplit opening closing rest (.expression inner :: parts) := by
  constructor
  · intro h
    exact ⟨_, h.whole.symm, h.filled t List.mem_cons_self, h.opened t inner parts List.suffix_rfl,
      h.tail⟩
  · rintro ⟨rest, rfl, hne, hleads, h⟩
    exact h.cons (.plain t) (by simpa using hne) (by simpa using hleads) (by simp) (by simp)
      (by simp)

theorem splitParts_of_interpolation?_eq_none (h : interpolation? opening closing cs = none)
    (fuel : Nat) : splitParts opening closing fuel cs = plainPart cs := by
  cases fuel with
  | zero => rfl
  | succ fuel => rw [splitParts, h]

theorem splitParts_succ (h : interpolation? opening closing cs = some (before, inner, after))
    (fuel : Nat) :
    splitParts opening closing (fuel + 1) cs =
      plainPart before ++ .expression inner :: splitParts opening closing fuel after := by
  rw [splitParts, h]

theorem isSplit_plainPart (hnone : ¬ HasExpression opening closing cs) :
    IsSplit opening closing cs (plainPart cs) := by
  unfold plainPart
  split
  · rename_i hempty
    rw [List.isEmpty_iff.1 hempty]
    exact isSplit_nil opening closing
  · rename_i hne
    exact isSplit_text_iff.2 ⟨rfl, by simpa using hne, hnone⟩

/-- The parts are a split, however long the text is. -/
theorem isSplit_splitParts (hopening : opening ≠ []) {fuel : Nat} (hfuel : cs.length ≤ fuel) :
    IsSplit opening closing cs (splitParts opening closing fuel cs) := by
  induction fuel generalizing cs with
  | zero =>
    obtain rfl := List.eq_nil_of_length_eq_zero (Nat.le_zero.1 hfuel)
    exact isSplit_nil opening closing
  | succ fuel ih =>
    cases hfound : interpolation? opening closing cs with
    | none =>
      rw [splitParts_of_interpolation?_eq_none hfound]
      exact isSplit_plainPart (interpolation?_eq_none_iff.1 hfound)
    | some found =>
      obtain ⟨before, inner, after⟩ := found
      obtain ⟨rfl, hbefore, hinner⟩ := interpolation?_eq_some_iff.1 hfound
      have hpos := List.length_pos_iff.2 hopening
      have hafter : after.length ≤ fuel := by
        simp only [List.length_append] at hfuel
        omega
      have hrest : IsSplit opening closing (opening ++ inner ++ closing ++ after)
          (.expression inner :: splitParts opening closing fuel after) :=
        isSplit_expression_iff.2 ⟨after, rfl, hinner, ih hafter⟩
      rw [splitParts_succ hfound]
      unfold plainPart
      split
      · rename_i hempty
        rw [List.isEmpty_iff.1 hempty]
        exact hrest
      · rename_i hne
        exact isSplit_plain_iff.2 ⟨_, rfl, by simpa using hne, hbefore, hrest⟩

theorem not_hasExpression_nil (hopening : opening ≠ []) : ¬ HasExpression opening closing [] := by
  rintro ⟨before, inner, after, heq⟩
  simp [hopening] at heq

/-- An expression behind a text that leads to it is the first that is found. -/
theorem splitParts_expression (hopening : opening ≠ [])
    (hbefore : LeadsTo opening before (opening ++ inner ++ closing ++ after))
    (hinner : LeadsTo closing inner (closing ++ after)) {fuel : Nat}
    (hfuel : (before ++ (opening ++ inner ++ closing ++ after)).length ≤ fuel) :
    ∃ less, after.length ≤ less ∧
      splitParts opening closing fuel (before ++ (opening ++ inner ++ closing ++ after)) =
        plainPart before ++ .expression inner :: splitParts opening closing less after := by
  have hpos := List.length_pos_iff.2 hopening
  simp only [List.length_append] at hfuel
  obtain ⟨less, rfl⟩ : ∃ less, fuel = less + 1 := ⟨fuel - 1, by omega⟩
  exact ⟨less, by omega,
    splitParts_succ (interpolation?_eq_some_iff.2 ⟨rfl, hbefore, hinner⟩) less⟩

/-- There is only one split. -/
theorem IsSplit.splitParts_eq (hopening : opening ≠ []) :
    ∀ {parts cs}, IsSplit opening closing cs parts → ∀ {fuel : Nat}, cs.length ≤ fuel →
      splitParts opening closing fuel cs = parts
  | [], cs, h, fuel, _ => by
    obtain rfl : cs = [] := h.whole.symm
    exact splitParts_of_interpolation?_eq_none
      (interpolation?_eq_none_iff.2 (not_hasExpression_nil hopening)) fuel
  | [.plain t], cs, h, fuel, _ => by
    obtain ⟨rfl, hne, hnone⟩ := isSplit_text_iff.1 h
    rw [splitParts_of_interpolation?_eq_none (interpolation?_eq_none_iff.2 hnone)]
    exact if_neg (by simpa using hne)
  | .plain t :: .expression inner :: parts, cs, h, fuel, hfuel => by
    obtain ⟨rest, rfl, hne, hbefore, hrest⟩ := isSplit_plain_iff.1 h
    obtain ⟨after, rfl, hinner, hparts⟩ := isSplit_expression_iff.1 hrest
    obtain ⟨less, hless, heq⟩ := splitParts_expression hopening hbefore hinner hfuel
    rw [heq, hparts.splitParts_eq hopening hless, plainPart, if_neg (by simpa using hne)]
    rfl
  | .plain t :: .plain u :: parts, cs, h, _, _ => absurd List.suffix_rfl (h.apart t u parts)
  | .expression inner :: parts, cs, h, fuel, hfuel => by
    obtain ⟨after, rfl, hinner, hparts⟩ := isSplit_expression_iff.1 h
    obtain ⟨less, hless, heq⟩ :=
      splitParts_expression hopening (Text.leadsTo_nil opening _) hinner hfuel
    rw [List.nil_append] at heq
    rw [heq, hparts.splitParts_eq hopening hless]
    rfl

end

/-! ## The law -/

section

variable {text opening closing : String}

theorem splitInterpolations_eq (hopening : opening ≠ "") (hclosing : closing ≠ "") :
    splitInterpolations text opening closing =
      if (interpolation? opening.toList closing.toList text.toList).isSome then
        some ((splitParts opening.toList closing.toList text.toList.length text.toList).map
          Part.node)
      else none := by
  have hopening : opening.toList.isEmpty = false := by simpa using hopening
  have hclosing : closing.toList.isEmpty = false := by simpa using hclosing
  simp only [splitInterpolations, hopening, hclosing, Bool.or_self, Bool.false_eq_true, if_false,
    splitParts_node]

theorem splitInterpolations_eq_none_iff (hopening : opening ≠ "") (hclosing : closing ≠ "") :
    splitInterpolations text opening closing = none ↔
      ¬ HasExpression opening.toList closing.toList text.toList := by
  rw [splitInterpolations_eq hopening hclosing, ← interpolation?_eq_none_iff]
  cases interpolation? opening.toList closing.toList text.toList <;> simp

/-- The nodes of a text with an expression are those of its split. -/
theorem splitInterpolations_eq_some_iff (hopening : opening ≠ "") (hclosing : closing ≠ "")
    {nodes : List Node} :
    splitInterpolations text opening closing = some nodes ↔
      HasExpression opening.toList closing.toList text.toList ∧
        ∃ parts, IsSplit opening.toList closing.toList text.toList parts ∧
          nodes = parts.map Part.node := by
  have hne : opening.toList ≠ [] := by simpa using hopening
  have hsplit : IsSplit opening.toList closing.toList text.toList _ :=
    isSplit_splitParts hne le_rfl
  rw [splitInterpolations_eq hopening hclosing]
  constructor
  · intro h
    rw [Option.ite_none_right_eq_some, Option.some.injEq] at h
    refine ⟨not_not.1 fun hnone => ?_, _, hsplit, h.2.symm⟩
    rw [interpolation?_eq_none_iff.2 hnone] at h
    cases h.1
  · rintro ⟨hexpression, parts, hparts, rfl⟩
    obtain ⟨found, hfound⟩ := hexpression.exists_interpolation
    rw [hfound, hparts.splitParts_eq hne le_rfl]
    rfl

/-- A text is split exactly if it has an expression, and then from the left and without loss. -/
theorem splitInterpolations_leftmost (hopening : opening ≠ "") (hclosing : closing ≠ "") :
    (splitInterpolations text opening closing = none ↔
        ¬ HasExpression opening.toList closing.toList text.toList) ∧
      ∀ nodes, splitInterpolations text opening closing = some nodes →
        ∃ parts, nodes = parts.map Part.node ∧
          IsSplit opening.toList closing.toList text.toList parts ∧
          (∀ t inner behind, .plain t :: .expression inner :: behind <:+ parts →
            ¬ opening.toList <:+: t) ∧
          ∀ inner, .expression inner ∈ parts → ¬ closing.toList <:+: inner := by
  refine ⟨splitInterpolations_eq_none_iff hopening hclosing, fun nodes hnodes => ?_⟩
  obtain ⟨-, parts, hparts, rfl⟩ := (splitInterpolations_eq_some_iff hopening hclosing).1 hnodes
  refine ⟨parts, rfl, hparts, fun t inner behind hsuffix => ?_, fun inner hmem => ?_⟩
  · have hleads := hparts.opened t inner behind hsuffix
    exact hleads.not_infix (by simpa using hopening)
  · obtain ⟨front, behind, rfl⟩ := List.append_of_mem hmem
    have hleads := hparts.closed inner behind (List.suffix_append front _)
    exact hleads.not_infix (by simpa using hclosing)

/-- Delimiters that overlap themselves and each other, and an opening one that is left over. -/
theorem splitInterpolations_leftmost_overlapping :
    "((" ≠ "" ∧ "))" ≠ "" ∧
      splitInterpolations "((( a ))) b ((c))(( d )" "((" "))" =
        some [.interpolation "( a", .text ") b ", .interpolation "c", .text "(( d )"] ∧
      ∃ parts,
        [.interpolation "( a", .text ") b ", .interpolation "c", .text "(( d )"] =
          parts.map Part.node ∧
        IsSplit "((".toList "))".toList "((( a ))) b ((c))(( d )".toList parts ∧
        (∀ t inner behind, .plain t :: .expression inner :: behind <:+ parts →
          ¬ "((".toList <:+: t) ∧
        ∀ inner, .expression inner ∈ parts → ¬ "))".toList <:+: inner := by
  have hnodes : splitInterpolations "((( a ))) b ((c))(( d )" "((" "))" =
      some [.interpolation "( a", .text ") b ", .interpolation "c", .text "(( d )"] := by
    rfl
  have hopening : "((" ≠ "" := by decide
  have hclosing : "))" ≠ "" := by decide
  exact ⟨hopening, hclosing, hnodes,
    (splitInterpolations_leftmost hopening hclosing).2 _ hnodes⟩

end

end Template

end ViewTree
