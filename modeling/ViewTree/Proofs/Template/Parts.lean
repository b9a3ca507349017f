import ViewTree.Proofs.Template.Siblings
/-!
# The parts of a text

A text is shown as it is or, where it has expressions between delimiters, in parts. The nodes it is
made into are those of its parts (`shownParts_node`), and the parts are all of the text
(`shownParts_written`), except that a space behind a space is nothing.
-/

namespace ViewTree.Template

/-- The text is a single space. -/
def Node.isSpace : Node → Bool
  | .text t => t == " "
  | _ => false

/-- The last of the siblings is a single space. -/
def endInSpace (siblings : List Node) : Bool :=
  siblings.getLast?.any Node.isSpace

/-- A space behind a space is not put there. -/
def isMerged (siblings : List Node) (shown : String) : Bool :=
  shown == " " && endInSpace siblings

/-- A part of a text: it is shown as it is, or it is an expression between delimiters. -/
inductive Part where
  | plain (cs : List Char)
  | expression (inner : List Char)
deriving DecidableEq

namespace Part

/-- The node that is made of the part. -/
def node : Part → Node
  | plain cs => .text (String.ofList cs)
  | expression inner => .interpolation (String.ofList (Text.trimChars inner))

/-- How the part is written, from the opening to the closing delimiter if it is an expression. -/
def written (s : Settings) : Part → List Char
  | plain cs => cs
  | expression inner => s.delimiterPair.1.toList ++ inner ++ s.delimiterPair.2.toList

end Part

/-- A part that is shown as it is, unless there is nothing of it. -/
def plainPart (cs : List Char) : List Part :=
  if cs.isEmpty then [] else [.plain cs]

/-- The parts of a text; `fuel` bounds the number of expressions. -/
def splitParts (opening closing : List Char) : Nat → List Char → List Part
  | 0, cs => plainPart cs
  | fuel + 1, cs =>
    match interpolation? opening closing cs with
    | some (before, inner, after) =>
      plainPart before ++ .expression inner :: splitParts opening closing fuel after
    | none => plainPart cs

/-- The parts that a shown text has behind its siblings: a text without complete expressions is one
part, but a space behind a space is none. -/
def shownParts (s : Settings) (raw : Bool) (siblings : List Node) (shown : String) : List Part :=
  let (opening, closing) := s.delimiterPair
  if !raw && shown != " " && (splitInterpolations shown opening closing).isSome then
    splitParts opening.toList closing.toList shown.toList.length shown.toList
  else if isMerged siblings shown then []
  else [.plain shown.toList]

/-! ## All of the text -/

theorem Part.node_element? (p : Part) : p.node.element? = none := by
  cases p <;> rfl

theorem plainPart_node (cs : List Char) : (plainPart cs).map Part.node = textNode cs := by
  unfold plainPart textNode
  split
  · rfl
  · rfl

theorem plainPart_written (s : Settings) (cs : List Char) :
    (plainPart cs).flatMap (Part.written s) = cs := by
  unfold plainPart
  split
  · rename_i hempty
    rw [List.isEmpty_iff.1 hempty]
    rfl
  · exact List.append_nil cs

theorem interpolation?_eq_some {opening closing cs before inner after : List Char}
    (h : interpolation? opening closing cs = some (before, inner, after)) :
    cs = before ++ (opening ++ inner ++ closing) ++ after := by
  simp only [interpolation?, Option.bind_eq_bind, Option.bind_eq_some_iff] at h
  obtain ⟨⟨before', rest⟩, hopening, ⟨inner', after'⟩, hclosing, heq⟩ := h
  cases heq
  have hrest : rest = inner' ++ closing ++ after' := Text.eq_of_splitAt? hclosing
  rw [Text.eq_of_splitAt? hopening, hrest]
  simp only [List.append_assoc]

theorem splitParts_node (opening closing : List Char) (fuel : Nat) (cs : List Char) :
    (splitParts opening closing fuel cs).map Part.node = interpolate opening closing fuel cs := by
  induction fuel generalizing cs with
  | zero => exact plainPart_node cs
  | succ fuel ih =>
    rw [splitParts, interpolate]
    cases interpolation? opening closing cs with
    | none => exact plainPart_node cs
    | some found =>
      obtain ⟨before, inner, after⟩ := found
      dsimp only
      rw [List.map_append, List.map_cons, plainPart_node, ih]
      rfl

theorem splitParts_written (s : Settings) (fuel : Nat) (cs : List Char) :
    (splitParts s.delimiterPair.1.toList s.delimiterPair.2.toList fuel cs).flatMap
      (Part.written s) = cs := by
  induction fuel generalizing cs with
  | zero => exact plainPart_written s cs
  | succ fuel ih =>
    unfold splitParts
    split
    · rename_i before inner after hsplit
      rw [List.flatMap_append, List.flatMap_cons, plainPart_written, ih,
        interpolation?_eq_some hsplit]
      simp [Part.written]
    · exact plainPart_written s cs

theorem endInSpace_iff {siblings : List Node} :
    endInSpace siblings ↔ siblings.getLast? = some (.text " ") := by
  unfold endInSpace
  rcases siblings.getLast? with _ | n
  · simp
  · cases n <;> simp [Node.isSpace]

theorem textNodes_eq (s : Settings) (raw : Bool) (siblings : List Node) (shown : String) :
    Builder.textNodes s raw siblings shown =
      (if raw || shown == " " then none
        else splitInterpolations shown s.delimiterPair.1 s.delimiterPair.2).getD
          (if isMerged siblings shown then [] else [.text shown]) := by
  unfold Builder.textNodes isMerged
  dsimp only
  split
  · rename_i parts hparts
    rw [hparts]
    rfl
  · rename_i hnone
    rw [hnone, Option.getD_none]
    split
    · rename_i hlast
      simp [endInSpace_iff.2 hlast]
    · rename_i hnot
      rw [if_neg]
      simp only [Bool.and_eq_true, beq_iff_eq, not_and, endInSpace_iff]
      exact fun hspace hlast => hnot hspace hlast

theorem splitInterpolations_eq_some {shown opening closing : String} {parts : List Node}
    (h : splitInterpolations shown opening closing = some parts) :
    parts = interpolate opening.toList closing.toList shown.toList.length shown.toList := by
  unfold splitInterpolations at h
  simp only [Option.ite_none_left_eq_some, Option.ite_none_right_eq_some] at h
  exact (Option.some.inj h.2.2).symm

/-- The parts of a shown text become its nodes. -/
theorem shownParts_node (s : Settings) (raw : Bool) (siblings : List Node) (shown : String) :
    (shownParts s raw siblings shown).map Part.node = Builder.textNodes s raw siblings shown := by
  rw [textNodes_eq]
  unfold shownParts
  dsimp only
  split
  · rename_i hsplit
    simp only [Bool.and_eq_true, Bool.not_eq_true', bne_iff_ne] at hsplit
    obtain ⟨⟨hraw, hspace⟩, hsome⟩ := hsplit
    obtain ⟨parts, hparts⟩ := Option.isSome_iff_exists.1 hsome
    rw [splitParts_node, ← splitInterpolations_eq_some hparts, hparts]
    simp [hraw, hspace]
  · rename_i hsplit
    have hnone : (if raw || shown == " " then none
        else splitInterpolations shown s.delimiterPair.1 s.delimiterPair.2) = none := by
      simpa [or_iff_not_imp_left] using hsplit
    rw [hnone, Option.getD_none]
    split
    · rfl
    · simp [Part.node]

/-- The parts of a shown text are all of it, but a space behind a space has no parts. -/
theorem shownParts_written (s : Settings) (raw : Bool) (siblings : List Node) (shown : String) :
    (shownParts s raw siblings shown).flatMap (Part.written s) =
      if isMerged siblings shown then [] else shown.toList := by
  unfold shownParts
  dsimp only
  split
  · rename_i hsplit
    simp only [Bool.and_eq_true, bne_iff_ne] at hsplit
    rw [splitParts_written, if_neg]
    simp [isMerged, hsplit.1.2]
  · split
    · rfl
    · exact List.append_nil _

end ViewTree.Template
