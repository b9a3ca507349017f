import Mathlib.Data.List.Flatten
import ViewTree.Proofs.Template.Recording
/-!
# What is kept of a text

The parts of a text are all of it as long as they stand (`Made.written`). Three things take from
them: a space behind a space is not put there at all, a further branch sweeps away what is in front
of it, and the end of an element takes a single space in front of it, which may be the last part of
a longer text (`isWhole_iff`). So a text that is not blank is kept as it is written exactly if none
of the three happens (`parse_isWhole_iff`).
-/

namespace ViewTree.Template

/-- The innermost element takes texts, and they are decoded: it is no script and no style. -/
def Path.decodes : Path → Bool
  | [] => false
  | t :: _ => !t.holdsCode

/-- A further branch has swept the text away, and it is reported since not all of it is blank. -/
def isTold (parts : List Part) (behind : List Entry) : Bool :=
  sweeps behind && parts.any fun part => part.node.inTheWay?.isSome

/-- What is left of a text is all of it, as it is written. -/
def IsWhole (s : Settings) (trims : Bool) (text : String) (parts : List Part)
    (behind : List Entry) : Prop :=
  (left trims parts behind).flatMap (Part.written s) = (decodeText text).toList

section

variable {s : Settings} {p : Path} {siblings : List Node} {text : String} {parts : List Part}
  {behind : List Entry} {trims : Bool}

/-- The parts of a text are all of it, unless it is a space behind a space. -/
theorem Made.written (h : Made s p siblings (.text text parts)) (hdecodes : p.decodes)
    (hshown : 0 < p.preDepth s ∨ Text.allBlank text = false) :
    parts.flatMap (Part.written s) =
      if isMerged siblings (decodeText text) then [] else (decodeText text).toList := by
  cases p with
  | nil => cases hdecodes
  | cons t outer =>
    have hcode : t.holdsCode = false := by
      simpa [Path.decodes] using hdecodes
    have hparts : parts = shownParts s (Path.isRaw (t :: outer)) siblings (decodeText text) := by
      rw [h, textParts, Path.shown?_cons hshown, OpenTag.shows, hcode]
      rfl
    rw [hparts]
    exact shownParts_written s _ siblings (decodeText text)

theorem exists_of_endInSpace (h : endInSpace (parts.map Part.node)) :
    ∃ front, parts = front ++ [.plain [' ']] := by
  rw [endInSpace_iff, List.getLast?_map, Option.map_eq_some_iff] at h
  obtain ⟨part, hlast, hnode⟩ := h
  obtain ⟨front, rfl⟩ := List.getLast?_eq_some_iff.1 hlast
  cases part with
  | expression inner => cases hnode
  | plain cs =>
    have hcs : String.ofList cs = " " := Node.text.inj hnode
    refine ⟨front, ?_⟩
    rw [← String.toList_ofList (l := cs), hcs]
    rfl

/-- A text is left as it is written unless it is merged, swept away or trimmed. -/
theorem isWhole_iff (h : parts.flatMap (Part.written s) =
      if isMerged siblings (decodeText text) then [] else (decodeText text).toList) :
    IsWhole s trims text parts behind ↔
      isMerged siblings (decodeText text) = false ∧ (sweeps behind → decodeText text = "") ∧
        isTrimmed trims parts behind = false := by
  rw [IsWhole]
  cases hmerged : isMerged siblings (decodeText text) with
  | true =>
    rw [hmerged, if_pos rfl] at h
    have hleft : (left trims parts behind).flatMap (Part.written s) = [] := by
      have hsub := (left_sublist trims parts behind).flatMap (Part.written s)
      rwa [h, List.sublist_nil] at hsub
    simp only [isMerged, Bool.and_eq_true, beq_iff_eq] at hmerged
    simp [hleft, hmerged.1]
  | false =>
    rw [hmerged, if_neg Bool.false_ne_true] at h
    have hlast (htrimmed : isTrimmed trims parts behind) :
        parts.dropLast.flatMap (Part.written s) ++ [' '] = (decodeText text).toList := by
      simp only [isTrimmed, Bool.and_eq_true] at htrimmed
      obtain ⟨front, hfront⟩ := exists_of_endInSpace htrimmed.2
      rw [← h, hfront, List.dropLast_concat, List.flatMap_append]
      rfl
    unfold left
    cases sweeps behind with
    | true =>
      refine ⟨fun hnil => ?_, fun hrest => ?_⟩
      · have hempty : decodeText text = "" := String.toList_eq_nil_iff.1 hnil.symm
        refine ⟨rfl, fun _ => hempty, Bool.eq_false_iff.2 fun htrimmed => ?_⟩
        have hspace := hlast htrimmed
        rw [hempty] at hspace
        exact List.concat_ne_nil _ _ hspace
      · rw [hrest.2.1 rfl]
        rfl
    | false =>
      cases htrimmed : isTrimmed trims parts behind with
      | true =>
        have hspace := congrArg List.length (hlast htrimmed)
        rw [List.length_append] at hspace
        refine iff_of_false (fun hwhole => ?_) (by simp)
        have hlength := congrArg List.length hwhole
        simp only [Bool.false_eq_true, if_false, if_true] at hlength
        simp only [List.length_singleton] at hspace
        omega
      | false => simpa using h

end

theorem decodeText_eq_empty_iff {text : String} : decodeText text = "" ↔ text = "" := by
  have hcons (c : Char) (cs : List Char) (fuel : Nat) : decodeChars (fuel + 1) (c :: cs) ≠ [] := by
    rw [decodeChars]
    split
    · split
      · exact List.cons_ne_nil _ _
      · exact List.cons_ne_nil _ _
    · exact List.cons_ne_nil _ _
  rw [decodeText, ← String.toList_eq_nil_iff, String.toList_ofList, ← String.toList_eq_nil_iff]
  cases text.toList with
  | nil => exact iff_of_true rfl rfl
  | cons c cs => exact iff_of_false (hcons c cs cs.length) (List.cons_ne_nil c cs)

/-! ## Texts that are not blank -/

/-- A text that is more than blanks, among the entries inside an element that is no script and no
style, where blanks do not count and nothing is taken as it stands. A further branch does not
report it. -/
structure IsPlainText (s : Settings) (p : Path) (es front : List Entry) (text : String)
    (parts : List Part) (behind : List Entry) : Prop where
  split : es = front ++ .text text parts :: behind
  decodes : p.decodes
  noPre : p.preDepth s = 0
  notRaw : p.isRaw = false
  notBlank : Text.allBlank text = false
  untold : isTold parts behind = false

/-- In every template, a text with something besides blanks is left as it is written in the element
around it when that has ended, exactly if it is no space behind a space, no further branch sweeps it
away silently, and it does not end in a single space part behind which nothing stands. -/
theorem parse_isWhole_iff (template : String) :
    Records .base template (recordOf .base template) ∧
      Throughout (fun p es => ∀ front text parts behind,
        IsPlainText .base p es front text parts behind →
          (IsWhole .base (p.trims .base) text parts behind ↔
            isMerged (nodes front) (decodeText text) = false ∧ sweeps behind = false ∧
              isTrimmed (p.trims .base) parts behind = false)) [] (recordOf .base template) := by
  refine ⟨records_recordOf rfl template, throughout_record (fun p c => ?_) [] _⟩
  intro front text parts behind h
  have hwritten := (record_made .base p c front _ behind h.split).written h.decodes
    (.inr h.notBlank)
  have hne : decodeText text ≠ "" := by
    intro hempty
    have hblank := h.notBlank
    rw [decodeText_eq_empty_iff.1 hempty] at hblank
    cases hblank
  rw [isWhole_iff hwritten]
  simp [hne]

/-- The space behind an expression is taken by the end of the paragraph. -/
theorem not_isWhole_space :
    ¬ ∀ template, Throughout (fun p es => ∀ front text parts behind,
      IsPlainText .base p es front text parts behind →
        IsWhole .base (p.trims .base) text parts behind) [] (recordOf .base template) := by
  intro hwhole
  let inside : Markup.Content := .text "\x7b\x7b a \x7d\x7d " ⟨3, 11⟩ .nil
  have hrecord : recordOf .base "<p>\x7b\x7b a \x7d\x7d </p>" =
      record .base [] [] (.paired "p" [] ⟨0, 3⟩ inside "p" ⟨11, 15⟩ .nil) :=
    recordOf_eq (by decide +kernel)
  have hparagraph := hwhole "<p>\x7b\x7b a \x7d\x7d </p>"
  rw [hrecord] at hparagraph
  have hhere := (hparagraph.inside List.mem_cons_self).here
  have htext : IsPlainText .base [⟨"p", []⟩] (record .base [⟨"p", []⟩] [] inside) []
      "\x7b\x7b a \x7d\x7d " (textParts .base [⟨"p", []⟩] [] "\x7b\x7b a \x7d\x7d ") [] :=
    ⟨rfl, by decide, by decide, by decide, by decide, by decide⟩
  have hleft : ¬ IsWhole .base true "\x7b\x7b a \x7d\x7d "
      (textParts .base [⟨"p", []⟩] [] "\x7b\x7b a \x7d\x7d ") [] := by
    unfold IsWhole
    decide +kernel
  exact hleft (hhere _ _ _ _ htext)

end ViewTree.Template
