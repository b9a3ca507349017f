import ViewTree.Proofs.Expr.Literals
import ViewTree.Proofs.Expr.RoundTrip
/-!
# Reading the same again

What a reader has read of a text it reads again when something else stands behind it, as long as
that does not go on what has been read: no digit behind an index, no part of a name behind a name.
-/

namespace ViewTree.Expr

open Text
open Markup (Stops stops_nil stops_cons)

/-! ## Strings and what stands between brackets -/

theorem readString_again {quote : Char} {cs : List Char} {p : List Char × List Char}
    (h : readString quote cs = .ok p) :
    ∃ used, cs = used ++ p.2 ∧ ∀ rest, readString quote (used ++ rest) = .ok (p.1, rest) := by
  fun_induction readString quote cs generalizing p with
  | case1 => cases h
  | case2 => cases h
  | case3 c rest ih =>
    obtain ⟨q, hq, rfl⟩ := map_eq_ok.1 h
    obtain ⟨used, rfl, hagain⟩ := ih hq
    refine ⟨'\\' :: c :: used, rfl, fun rest => ?_⟩
    rw [List.cons_append, List.cons_append, readString, hagain]
    rfl
  | case4 rest hnil hcons =>
    cases h
    refine ⟨[quote], rfl, fun more => ?_⟩
    have hslash : quote ≠ '\\' := ne_backslash hnil hcons
    rw [List.singleton_append, readString_cons hslash, if_pos rfl]
  | case5 c rest hnil hcons hc ih =>
    have hslash : c ≠ '\\' := ne_backslash hnil hcons
    obtain ⟨q, hq, rfl⟩ := map_eq_ok.1 h
    obtain ⟨used, rfl, hagain⟩ := ih hq
    refine ⟨c :: used, rfl, fun more => ?_⟩
    rw [List.cons_append, readString_cons hslash, if_neg hc, hagain]
    rfl

/-- What stands between brackets is read again in front of anything that is no digit. -/
theorem readSubscript_again {cs : List Char} {p : Segment × List Char}
    (h : readSubscript cs = .ok p) :
    ∃ used, cs = used ++ p.2 ∧ (∀ rest, Stops isBlank (used ++ rest)) ∧
      ∀ rest, Stops Char.isDigit rest → readSubscript (used ++ rest) = .ok (p.1, rest) := by
  cases cs with
  | nil => cases h
  | cons c rest =>
    simp only [readSubscript] at h
    split at h
    · rename_i hquote
      obtain ⟨q, hq, rfl⟩ := map_eq_ok.1 h
      obtain ⟨used, rfl, hagain⟩ := readString_again hq
      refine ⟨c :: used, rfl, fun _ => stops_cons (isBlank_of_quote hquote), fun more _ => ?_⟩
      simp only [List.cons_append, readSubscript, hquote, if_true, hagain]
      rfl
    · rename_i hquote
      split at h
      · rename_i hdigit
        split at h
        · rename_i hsize
          cases h
          have hdigits : ∀ d ∈ (c :: rest).takeWhile Char.isDigit, d.isDigit :=
            fun _ => List.mem_takeWhile_imp
          have hcons : (c :: rest).takeWhile Char.isDigit = c :: rest.takeWhile Char.isDigit :=
            List.takeWhile_cons_of_pos hdigit
          refine ⟨(c :: rest).takeWhile Char.isDigit, List.takeWhile_append_dropWhile.symm,
            fun more => ?_, fun more hmore => ?_⟩
          · rw [hcons]
            exact stops_cons (isBlank_of_isDigit hdigit)
          · have hne : (c :: rest).takeWhile Char.isDigit ≠ [] := hcons ▸ List.cons_ne_nil _ _
            exact readSubscript_digits hdigits hne hsize hmore
        · cases h
      · cases h

/-! ## Segments -/

theorem stops_blank_append {p : Char → Bool} (hp : ∀ c, isBlank c → p c = false)
    {behind rest : List Char} (hbehind : Blank behind) (hrest : Stops p rest) :
    Stops p (behind ++ rest) := by
  cases behind with
  | nil => exact hrest
  | cons b behind => exact stops_cons (hp b hbehind.head)

theorem isDigit_of_isBlank {c : Char} (h : isBlank c) : c.isDigit = false := by
  rw [Bool.eq_false_iff]
  intro hdigit
  simp [isBlank_of_isDigit hdigit] at h

theorem exists_blanks (cs : List Char) : ∃ before, Blank before ∧ cs = before ++ dropBlank cs :=
  ⟨cs.takeWhile isBlank, fun _ => List.mem_takeWhile_imp, List.takeWhile_append_dropWhile.symm⟩

/-- Where brackets stand around what can be read between them, with blanks, there is a segment. -/
theorem exists_inside {rest : List Char} {p : Segment × List Char}
    (h : readSubscript (dropBlank rest) = .ok p) :
    ∃ inside, rest = inside ++ dropBlank p.2 ∧
      ∀ more, readSegment? ('[' :: (inside ++ ']' :: more)) = .ok (some (p.1, more)) := by
  obtain ⟨before, hbefore, hrest⟩ := exists_blanks rest
  obtain ⟨behind, hbehind, hp⟩ := exists_blanks p.2
  obtain ⟨used, hused, hstops, hagain⟩ := readSubscript_again h
  refine ⟨before ++ (used ++ behind), ?_, fun more => ?_⟩
  · rw [List.append_assoc, List.append_assoc, ← hp, ← hused, ← hrest]
  · rw [List.append_assoc, List.append_assoc]
    exact readSegment?_brackets hbefore (hstops _) hbehind
      (hagain _ (stops_blank_append (fun _ => isDigit_of_isBlank) hbehind (stops_cons (by decide))))

/-- What is taken from a text that begins as a name does is a name. -/
theorem exists_taken {c : Char} (hc : Name.isIdentStart c) (rest : List Char) :
    ∃ name behind, takeIdent (c :: rest) = (name.toList, behind) ∧
      c :: rest = name.toList ++ behind ∧ Name.isIdentifier name := by
  have hcons : (c :: rest).takeWhile Name.isIdentChar = c :: rest.takeWhile Name.isIdentChar :=
    List.takeWhile_cons_of_pos (isIdentChar_of_isIdentStart hc)
  refine ⟨String.ofList ((c :: rest).takeWhile Name.isIdentChar),
    (c :: rest).dropWhile Name.isIdentChar, ?_, ?_, ?_⟩
  · rw [String.toList_ofList]
    rfl
  · rw [String.toList_ofList, List.takeWhile_append_dropWhile]
  · simp only [Name.isIdentifier, hcons, String.toList_ofList, hc, Bool.true_and, List.all_eq_true]
    exact fun _ => List.mem_takeWhile_imp

/-- A segment is read again in front of what cannot be part of a name. -/
theorem readSegment?_again {cs : List Char} {p : Segment × List Char}
    (h : readSegment? cs = .ok (some p)) :
    ∃ used, cs = used ++ p.2 ∧ used ≠ [] ∧ (∀ rest, Stops Name.isIdentChar (used ++ rest)) ∧
      ∀ rest, Stops Name.isIdentChar rest →
        readSegment? (used ++ rest) = .ok (some (p.1, rest)) := by
  rcases cs with _ | ⟨c, rest⟩
  · cases h
  by_cases hpoint : c = '.'
  · subst hpoint
    cases rest with
    | nil => cases h
    | cons d rest =>
      simp only [readSegment?] at h
      split at h
      · rename_i hd
        obtain ⟨name, behind, htake, hsplit, hname⟩ := exists_taken hd rest
        rw [htake, String.ofList_toList] at h
        cases h
        refine ⟨'.' :: name.toList, congrArg (List.cons '.') hsplit, List.cons_ne_nil _ _,
          fun _ => stops_cons (by decide), fun more hmore => ?_⟩
        exact readSegment?_written (.point hname) trivial hmore
      · cases h
  by_cases hbracket : c = '['
  · subst hbracket
    rw [readSegment?_bracket] at h
    cases hread : readSubscript (dropBlank rest) with
    | error e => simp [hread, Except.bind] at h
    | ok q =>
      obtain ⟨inside, hrest, hagain⟩ := exists_inside hread
      simp only [hread, Except.bind] at h
      split at h
      · rename_i hclose
        cases h
        refine ⟨'[' :: (inside ++ [']']), ?_, List.cons_ne_nil _ _,
          fun _ => stops_cons (by decide), fun more _ => ?_⟩
        · rw [hrest, hclose, List.cons_append, List.append_assoc, List.singleton_append]
        · rw [List.cons_append, List.append_assoc, List.singleton_append]
          exact hagain more
      · cases h
  · simp [readSegment?_other hpoint hbracket] at h

/-! ## Negations -/

/-- Blanks and negations are read again in front of anything else. -/
theorem readNegations_again (cs : List Char) :
    ∃ used, cs = used ++ (readNegations cs).2 ∧
      ∀ rest, Stops (fun c => isBlank c || c == '!') rest →
        readNegations (used ++ rest) = ((readNegations cs).1, rest) := by
  have hnone {rest : List Char} (hrest : Stops (fun c => isBlank c || c == '!') rest) :
      readNegations rest = (0, rest) := by
    cases rest with
    | nil => rfl
    | cons c rest =>
      have hc := hrest c rfl
      simp only [Bool.or_eq_false_iff, beq_eq_false_iff_ne] at hc
      simp [readNegations, hc.1, hc.2]
  induction cs with
  | nil => exact ⟨[], rfl, fun rest hrest => hnone hrest⟩
  | cons c cs ih =>
    obtain ⟨used, hcs, hagain⟩ := ih
    by_cases hblank : isBlank c
    · refine ⟨c :: used, ?_, fun rest hrest => ?_⟩
      · simpa [readNegations, hblank] using hcs
      · simpa [readNegations, hblank] using hagain rest hrest
    · by_cases hnot : c = '!'
      · subst hnot
        have hcons (ts : List Char) :
            readNegations ('!' :: ts) = ((readNegations ts).1 + 1, (readNegations ts).2) := by
          rw [readNegations, if_neg hblank, if_pos rfl]
        refine ⟨'!' :: used, ?_, fun rest hrest => ?_⟩
        · rw [hcons]
          exact congrArg (List.cons '!') hcs
        · rw [List.cons_append, hcons, hcons, hagain rest hrest]
      · refine ⟨[], by simp [readNegations, hblank, hnot], fun rest hrest => ?_⟩
        simpa [readNegations, hblank, hnot] using hnone hrest

end ViewTree.Expr
