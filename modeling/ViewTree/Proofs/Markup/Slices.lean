import ViewTree.Markup.Tokenizer
/-!
# Slices of a text

A text can be cut at a byte offset only between two characters and not behind its end. Where the
rest of a text begins, it can be cut (`dropBytes?_eq_some`), and what a scanner leaves of a rest
begins as many bytes further on as the scanner took (`dropBytes?_of_suffix`).
-/

namespace ViewTree.Text

/-- A difference that is not negative. -/
def sub? (a b : Nat) : Option Nat :=
  if b ≤ a then some (a - b) else none

/-- The texts before and after a byte offset. -/
def splitBytes? : Nat → List Char → Option (List Char × List Char)
  | 0, cs => some ([], cs)
  | _ + 1, [] => none
  | n + 1, c :: cs =>
    if c.utf8Size ≤ n + 1 then (splitBytes? (n + 1 - c.utf8Size) cs).map fun p => (c :: p.1, p.2)
    else none

/-- The text from a byte offset on. -/
def dropBytes? (n : Nat) (cs : List Char) : Option (List Char) :=
  (splitBytes? n cs).map (·.2)

/-- The text between two byte offsets. -/
def slice? (start stop : Nat) (cs : List Char) : Option (List Char) := do
  let rest ← dropBytes? start cs
  let (text, _) ← splitBytes? (← sub? stop start) rest
  some text

/-- The byte offset of the first occurrence of a text. -/
def indexOf? (mark cs : List Char) : Option Nat :=
  (splitAt? mark cs).map fun p => byteLength p.1

theorem byteLength_eq_zero {cs : List Char} : byteLength cs = 0 ↔ cs = [] := by
  cases cs with
  | nil => simp
  | cons c cs =>
    have hpos := c.utf8Size_pos
    simp only [byteLength_cons, reduceCtorEq, iff_false]
    omega

theorem splitBytes?_eq_some {n : Nat} {cs a b : List Char} :
    splitBytes? n cs = some (a, b) ↔ cs = a ++ b ∧ byteLength a = n := by
  induction cs generalizing n a with
  | nil =>
    cases n with
    | zero =>
      simp only [splitBytes?, Option.some.injEq, Prod.mk.injEq, byteLength_eq_zero]
      grind
    | succ n =>
      simp only [splitBytes?, reduceCtorEq, false_iff, not_and]
      intro happend
      simp [(List.append_eq_nil_iff.1 happend.symm).1]
  | cons c cs ih =>
    cases n with
    | zero =>
      simp only [splitBytes?, Option.some.injEq, Prod.mk.injEq, byteLength_eq_zero]
      grind
    | succ n =>
      cases a with
      | nil => simp [splitBytes?]
      | cons x a =>
        have htail : (splitBytes? (n + 1 - c.utf8Size) cs).map (fun p => (c :: p.1, p.2)) =
            some (x :: a, b) ↔ c = x ∧ splitBytes? (n + 1 - c.utf8Size) cs = some (a, b) := by
          simp
          grind
        rw [splitBytes?, Option.ite_none_right_eq_some, htail, ih, List.cons_append,
          List.cons.injEq, byteLength_cons]
        constructor
        · rintro ⟨hfits, rfl, rfl, hlength⟩
          exact ⟨⟨rfl, rfl⟩, by omega⟩
        · rintro ⟨⟨rfl, rfl⟩, hlength⟩
          exact ⟨by omega, rfl, rfl, by omega⟩

theorem dropBytes?_eq_some {n : Nat} {cs rest : List Char} :
    dropBytes? n cs = some rest ↔ ∃ front, cs = front ++ rest ∧ byteLength front = n := by
  simp [dropBytes?, splitBytes?_eq_some]

@[simp]
theorem dropBytes?_append (a b : List Char) : dropBytes? (byteLength a) (a ++ b) = some b :=
  dropBytes?_eq_some.2 ⟨a, rfl, rfl⟩

theorem dropBytes?_zero (cs : List Char) : dropBytes? 0 cs = some cs :=
  dropBytes?_eq_some.2 ⟨[], rfl, rfl⟩

/-- What is cut off can be cut further. -/
theorem dropBytes?_dropBytes? {n m : Nat} {cs rest behind : List Char}
    (h : dropBytes? n cs = some rest) (hrest : dropBytes? m rest = some behind) :
    dropBytes? (n + m) cs = some behind := by
  obtain ⟨front, rfl, rfl⟩ := dropBytes?_eq_some.1 h
  obtain ⟨more, rfl, rfl⟩ := dropBytes?_eq_some.1 hrest
  exact dropBytes?_eq_some.2 ⟨front ++ more, by simp, by simp⟩

theorem slice?_of_dropBytes? {n : Nat} {cs text rest : List Char}
    (h : dropBytes? n cs = some (text ++ rest)) :
    slice? n (n + byteLength text) cs = some text := by
  have hcut : splitBytes? (byteLength text) (text ++ rest) = some (text, rest) :=
    splitBytes?_eq_some.2 ⟨rfl, rfl⟩
  simp [slice?, h, sub?, hcut]

theorem slice?_eq_some {n m : Nat} {cs text : List Char} :
    slice? n m cs = some text ↔
      ∃ rest, dropBytes? n cs = some (text ++ rest) ∧ m = n + byteLength text := by
  constructor
  · intro h
    simp only [slice?, Option.bind_eq_bind, Option.bind_eq_some_iff, Option.some.injEq,
      Prod.exists] at h
    obtain ⟨behind, hbehind, length, hlength, cut, rest, hcut, rfl⟩ := h
    obtain ⟨rfl, rfl⟩ := splitBytes?_eq_some.1 hcut
    refine ⟨rest, hbehind, ?_⟩
    obtain ⟨hle, hlength⟩ := Option.ite_none_right_eq_some.1 hlength
    have hcut := Option.some.inj hlength
    omega
  · rintro ⟨rest, hdrop, rfl⟩
    exact slice?_of_dropBytes? hdrop

theorem indexOf?_of_splitAt? {mark cs a b : List Char} (h : splitAt? mark cs = some (a, b)) :
    indexOf? mark cs = some (byteLength a) := by
  rw [indexOf?, h, Option.map_some]

theorem indexOf?_eq_none {mark cs : List Char} :
    indexOf? mark cs = none ↔ splitAt? mark cs = none := by
  simp [indexOf?]

/-- The offset of a character is that of the first one. -/
theorem indexOf?_char (c : Char) (cs : List Char) :
    (indexOf? [c] cs = none ∧ c ∉ cs) ∨
      ∃ a b, indexOf? [c] cs = some (byteLength a) ∧ cs = a ++ c :: b ∧ c ∉ a := by
  by_cases hc : c ∈ cs
  · obtain ⟨a, b, hcs, ha⟩ := List.eq_append_cons_of_mem hc
    exact .inr ⟨a, b, indexOf?_of_splitAt? (splitAt?_char.2 ⟨hcs, ha⟩), hcs, ha⟩
  · refine .inl ⟨indexOf?_eq_none.2 ?_, hc⟩
    cases hsplit : splitAt? [c] cs with
    | none => rfl
    | some found =>
      obtain ⟨hcs, -⟩ := splitAt?_char.1 hsplit
      exact absurd (by simp [hcs]) hc

end ViewTree.Text

namespace ViewTree.Markup

open Text (byteLength dropBytes?)

/-- The bytes that a scanner takes from a text, given what it leaves. -/
def taken (cs rest : List Char) : Nat :=
  byteLength cs - byteLength rest

theorem taken_append (front rest : List Char) : taken (front ++ rest) rest = byteLength front := by
  simp [taken]

section

variable {cs rest : List Char} (h : rest <:+ cs)

include h

theorem taken_add_byteLength : taken cs rest + byteLength rest = byteLength cs := by
  obtain ⟨front, rfl⟩ := h
  simp [taken]

theorem dropBytes?_taken : dropBytes? (taken cs rest) cs = some rest := by
  obtain ⟨front, rfl⟩ := h
  rw [taken_append, Text.dropBytes?_append]

theorem length_lt_iff_taken_pos : rest.length < cs.length ↔ 0 < taken cs rest := by
  obtain ⟨front, rfl⟩ := h
  have hempty : byteLength front = 0 ↔ front.length = 0 := by
    rw [Text.byteLength_eq_zero, List.length_eq_zero_iff]
  simp only [List.length_append, taken, Text.byteLength_append]
  omega

variable {html : List Char} {n : Nat} (hplace : dropBytes? n html = some cs)

include hplace

theorem dropBytes?_of_suffix : dropBytes? (n + taken cs rest) html = some rest :=
  Text.dropBytes?_dropBytes? hplace (dropBytes?_taken h)

omit h in
theorem offset_eq : offset (byteLength html) cs = n := by
  obtain ⟨front, rfl, rfl⟩ := Text.dropBytes?_eq_some.1 hplace
  simp [offset]

theorem offset_of_suffix : offset (byteLength html) rest = n + taken cs rest :=
  offset_eq (dropBytes?_of_suffix h hplace)

theorem between_of_suffix : between (byteLength html) cs rest = ⟨n, n + taken cs rest⟩ := by
  rw [between, offset_eq hplace, offset_of_suffix h hplace]

end

end ViewTree.Markup
