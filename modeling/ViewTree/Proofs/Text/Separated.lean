import Mathlib.Data.List.Basic
import ViewTree.Proofs.Expr.Blanks
import ViewTree.Text.Search
/-!
# Texts with separators, and blanks around texts

Splitting a text at a separator is the library's `List.splitOn`. A text joined from pieces is split
into the pieces of the pieces (`splitOn_intercalate_flatMap`). Blanks around a text do not change
what is left of it without them (`trimChars_padded`).
-/

namespace ViewTree.Text

/-! ## Pieces -/

theorem splitOnChar_eq_splitOn (sep : Char) (cs : List Char) :
    splitOnChar sep cs = cs.splitOn sep := by
  induction cs with
  | nil => rfl
  | cons c cs ih =>
    rw [splitOnChar, List.splitOn_cons_eq_if_modifyHead, ih]
    by_cases hc : c = sep
    · rw [if_pos hc, if_pos (beq_iff_eq.2 hc)]
    · rw [if_neg hc, if_neg (mt beq_iff_eq.1 hc)]
      cases hcs : cs.splitOn sep with
      | nil => exact absurd hcs (List.splitOn_ne_nil sep cs)
      | cons piece pieces => rfl

section

variable {sep : Char} {cs : List Char}

/-- There is no separator in a piece. -/
theorem notMem_of_mem_splitOn {piece : List Char} (h : piece ∈ cs.splitOn sep) : sep ∉ piece := by
  induction cs generalizing piece with
  | nil =>
    rw [List.splitOn_nil, List.mem_singleton] at h
    simp [h]
  | cons c cs ih =>
    rw [List.splitOn_cons_eq_if_modifyHead] at h
    split at h
    · rcases List.mem_cons.1 h with rfl | h
      · exact List.not_mem_nil
      · exact ih h
    · rename_i hc
      cases hcs : cs.splitOn sep with
      | nil => exact absurd hcs (List.splitOn_ne_nil sep cs)
      | cons first rest =>
        rw [hcs, List.modifyHead_cons] at h
        rcases List.mem_cons.1 h with rfl | h
        · rw [List.mem_cons, not_or]
          exact ⟨fun heq => hc (beq_iff_eq.2 heq.symm), ih (hcs ▸ List.mem_cons_self)⟩
        · exact ih (hcs ▸ List.mem_cons_of_mem first h)

/-- Pieces with separators between them are split into what each of them is split into. -/
theorem splitOn_intercalate_flatMap {pieces : List (List Char)} (hne : pieces ≠ []) :
    ([sep].intercalate pieces).splitOn sep = pieces.flatMap (·.splitOn sep) := by
  induction pieces with
  | nil => exact absurd rfl hne
  | cons piece pieces ih =>
    cases pieces with
    | nil => simp
    | cons next pieces =>
      have hjoined : [sep].intercalate (piece :: next :: pieces) =
          piece ++ sep :: [sep].intercalate (next :: pieces) := by
        simp [List.intercalate]
      rw [hjoined, List.splitOn_append_cons_self, ih (List.cons_ne_nil next pieces)]
      rfl

end

/-! ## Blanks around a text -/

instance (bs : List Char) : Decidable (Blank bs) :=
  decidable_of_iff (bs.all isBlank) List.all_eq_true

theorem Blank.notMem {bs : List Char} (hbs : Blank bs) {c : Char} (hc : isBlank c = false) :
    c ∉ bs :=
  fun hmem => by simp [hbs c hmem] at hc

/-- There are no blanks at either end. -/
def Trimmed (cs : List Char) : Prop :=
  trimChars cs = cs

instance (cs : List Char) : Decidable (Trimmed cs) :=
  inferInstanceAs (Decidable (trimChars cs = cs))

section

variable {cs front behind : List Char}

theorem dropBlank_padded (hfront : Blank front) : dropBlank (front ++ cs) = dropBlank cs :=
  List.dropWhile_append_of_pos hfront

theorem dropBlankEnd_padded (hbehind : Blank behind) :
    dropBlankEnd (cs ++ behind) = dropBlankEnd cs := by
  have hreverse : Blank behind.reverse := fun b hb => hbehind b (List.mem_reverse.1 hb)
  rw [dropBlankEnd, List.reverse_append, dropBlank_padded hreverse, ← dropBlankEnd]

theorem trimChars_padded (hfront : Blank front) (hbehind : Blank behind) :
    trimChars (front ++ (cs ++ behind)) = trimChars cs := by
  rw [trimChars, dropBlank_padded hfront, dropBlank_append hbehind, trimChars]
  split
  · rename_i hempty
    rw [List.isEmpty_iff.1 hempty]
  · exact dropBlankEnd_padded hbehind

theorem Trimmed.trimChars_eq (h : Trimmed cs) (hfront : Blank front) (hbehind : Blank behind) :
    trimChars (front ++ (cs ++ behind)) = cs :=
  (trimChars_padded hfront hbehind).trans h

theorem trimChars_sublist (cs : List Char) : (trimChars cs).Sublist cs := by
  have hend : (dropBlankEnd (dropBlank cs)).Sublist (dropBlank cs) := by
    have h := (List.dropWhile_sublist (l := (dropBlank cs).reverse) isBlank).reverse
    rwa [List.reverse_reverse] at h
  exact hend.trans (List.dropWhile_sublist isBlank)

/-- What is left of a text without the blanks around it. -/
theorem exists_padding (cs : List Char) :
    ∃ front behind, Blank front ∧ Blank behind ∧ cs = front ++ (trimChars cs ++ behind) := by
  obtain ⟨behind, hbehind, hdrop⟩ := exists_eq_trimChars_append cs
  refine ⟨cs.takeWhile isBlank, behind, fun b hb => List.mem_takeWhile_imp hb, hbehind, ?_⟩
  rw [← hdrop, dropBlank, List.takeWhile_append_dropWhile]

theorem trimmed_trimChars (cs : List Char) : Trimmed (trimChars cs) := by
  obtain ⟨front, behind, hfront, hbehind, hcs⟩ := exists_padding cs
  have h := congrArg trimChars hcs
  rw [trimChars_padded hfront hbehind] at h
  exact h.symm

end

end ViewTree.Text
