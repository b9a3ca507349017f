/-!
# Finding one text in another

Searching takes the leftmost occurrence, and splitting loses nothing but the separator.
-/

namespace ViewTree.Text

/-- Number of bytes of the text in UTF-8. -/
def byteLength (cs : List Char) : Nat :=
  cs.foldr (fun c n => c.utf8Size + n) 0

@[simp]
theorem byteLength_nil : byteLength [] = 0 := rfl

@[simp]
theorem byteLength_cons (c : Char) (cs : List Char) :
    byteLength (c :: cs) = c.utf8Size + byteLength cs := rfl

@[simp]
theorem byteLength_append (a b : List Char) :
    byteLength (a ++ b) = byteLength a + byteLength b := by
  induction a with
  | nil => simp
  | cons c cs ih => simp [ih, Nat.add_assoc]

/-- The text without `head` at its start, if it starts so. -/
def stripStart? : List Char → List Char → Option (List Char)
  | [], cs => some cs
  | _ :: _, [] => none
  | h :: head, c :: cs => if h = c then stripStart? head cs else none

theorem stripStart?_eq_some {head cs rest : List Char} :
    stripStart? head cs = some rest ↔ cs = head ++ rest := by
  induction head generalizing cs with
  | nil => simp [stripStart?, eq_comm]
  | cons h head ih =>
    cases cs with
    | nil => simp [stripStart?]
    | cons c cs =>
      by_cases hc : h = c
      · simp [stripStart?, hc, ih]
      · simp [stripStart?, hc, Ne.symm (Ne.intro hc)]

/-- The text starts with `head`. -/
def startsWith (head cs : List Char) : Bool :=
  (stripStart? head cs).isSome

theorem startsWith_iff {head cs : List Char} : startsWith head cs ↔ head <+: cs := by
  rw [startsWith, Option.isSome_iff_exists]
  constructor
  · rintro ⟨rest, h⟩
    exact ⟨rest, (stripStart?_eq_some.1 h).symm⟩
  · rintro ⟨rest, h⟩
    exact ⟨rest, stripStart?_eq_some.2 h.symm⟩

/-- The texts before and after the leftmost occurrence of `mark`. -/
def splitAt? (mark : List Char) : List Char → Option (List Char × List Char)
  | [] => (stripStart? mark []).map fun rest => ([], rest)
  | c :: cs =>
    match stripStart? mark (c :: cs) with
    | some rest => some ([], rest)
    | none => (splitAt? mark cs).map fun p => (c :: p.1, p.2)

theorem eq_of_splitAt? {mark cs a b : List Char} (h : splitAt? mark cs = some (a, b)) :
    cs = a ++ mark ++ b := by
  induction cs generalizing a b with
  | nil =>
    simp only [splitAt?, Option.map_eq_some_iff, Prod.mk.injEq] at h
    obtain ⟨rest, hr, rfl, rfl⟩ := h
    simpa using stripStart?_eq_some.1 hr
  | cons c cs ih =>
    unfold splitAt? at h
    split at h
    · rename_i rest hr
      simp only [Option.some.injEq, Prod.mk.injEq] at h
      obtain ⟨rfl, rfl⟩ := h
      simpa using stripStart?_eq_some.1 hr
    · simp only [Option.map_eq_some_iff, Prod.mk.injEq] at h
      obtain ⟨p, hp, rfl, rfl⟩ := h
      simp [ih hp]

/-- A text is split at the first of a character. -/
theorem splitAt?_char {sep : Char} {cs a b : List Char} :
    splitAt? [sep] cs = some (a, b) ↔ cs = a ++ sep :: b ∧ sep ∉ a := by
  induction cs generalizing a b with
  | nil => simp [splitAt?, stripStart?]
  | cons c cs ih =>
    by_cases hc : sep = c
    · subst hc
      cases a with
      | nil => simp [splitAt?, stripStart?]
      | cons x a =>
        simp only [splitAt?, stripStart?, if_true, Option.some.injEq, Prod.mk.injEq,
          List.cons_append, List.cons.injEq, List.mem_cons, not_or]
        grind
    · cases a with
      | nil => simp [splitAt?, stripStart?, hc, Ne.symm hc]
      | cons x a =>
        simp only [splitAt?, stripStart?, hc, if_false, Option.map_eq_some_iff, Prod.mk.injEq,
          Prod.exists, ih, List.cons_append, List.cons.injEq, List.mem_cons, not_or]
        grind

/-- The pieces between the separators; a text without one is a single piece. -/
def splitOnChar (sep : Char) : List Char → List (List Char)
  | [] => [[]]
  | c :: cs =>
    if c = sep then [] :: splitOnChar sep cs
    else
      match splitOnChar sep cs with
      | [] => [[c]]
      | piece :: pieces => (c :: piece) :: pieces

/-- The texts before and after the first `sep`. -/
def splitOnce? (sep : Char) (s : String) : Option (String × String) :=
  (splitAt? [sep] s.toList).map fun p => (String.ofList p.1, String.ofList p.2)

/-- The text starts with the ASCII letters of `head`, in either case. `head` is in lower case. -/
def stripStartNoCase? : List Char → List Char → Option (List Char)
  | [], cs => some cs
  | _ :: _, [] => none
  | h :: head, c :: cs => if h = c.toLower then stripStartNoCase? head cs else none

end ViewTree.Text
