import Mathlib
import ViewTree.Name
/-!
# Assets by their spelling with dashes

A name without dashes is read back from its spelling with dashes: humps give every capital back but
the first, and capitalizing gives that back too. So an asset is found by that spelling, unless
another asset has a spelling that is tried before (`resolveAsset_hyphenated`).
-/

namespace ViewTree.Name

/-! ## Capitals -/

theorem toUpper_toLower {c : Char} (h : c.isUpper) : c.toLower.toUpper = c := by
  rw [Char.toUpper_toLower_eq_toUpper]
  exact Char.toUpper_eq_of_not_isLower (Char.not_isLower_of_isUpper h)

theorem isLower_toLower {c : Char} (h : c.isUpper) : c.toLower.isLower := by
  rw [Char.isLower_toLower_eq_isAlpha, Char.isAlpha, h, Bool.true_or]

/-- The full upper case of a small ASCII letter is the capital alone. -/
theorem upperChar_toLower {c : Char} (h : c.isUpper) : Text.upperChar c.toLower = [c] := by
  have hascii : c.toLower.toNat < 0x80 := by
    have hle : c.toLower.toNat ≤ 122 := by
      have hlower := isLower_toLower h
      simp only [Char.isLower, Bool.and_eq_true, decide_eq_true_eq] at hlower
      exact UInt32.le_iff_toNat_le.1 hlower.2
    omega
  rw [Text.upperChar, if_pos hascii, toUpper_toLower h]

theorem toLower_ne_dash {c : Char} (h : c ≠ '-') : c.toLower ≠ '-' := by
  by_cases hupper : c.isUpper
  · intro hdash
    have hlower := isLower_toLower hupper
    rw [hdash] at hlower
    cases hlower
  · rwa [Char.toLower_eq_of_not_isUpper hupper]

/-! ## Humps -/

theorem camelizeFrom_dash (upper : Bool) (cs : List Char) :
    camelizeFrom upper ('-' :: cs) = camelizeFrom true cs :=
  if_pos rfl

theorem camelizeFrom_true {c : Char} (h : c ≠ '-') (cs : List Char) :
    camelizeFrom true (c :: cs) = Text.upperChar c ++ camelizeFrom false cs :=
  if_neg h

theorem camelizeFrom_false {c : Char} (h : c ≠ '-') (cs : List Char) :
    camelizeFrom false (c :: cs) = c :: camelizeFrom false cs :=
  if_neg h

/-- Humps give every capital back that a dash was put before. -/
theorem camelizeFrom_hyphenateTail {cs : List Char} (h : '-' ∉ cs) :
    camelizeFrom false (hyphenateTail cs) = cs := by
  induction cs with
  | nil => rfl
  | cons c cs ih =>
    obtain ⟨hne, hcs⟩ := List.ne_and_not_mem_of_not_mem_cons h
    rw [hyphenateTail, List.flatMap_cons, ← hyphenateTail]
    by_cases hupper : c.isUpper
    · rw [if_pos hupper, List.cons_append, List.singleton_append, camelizeFrom_dash,
        camelizeFrom_true (toLower_ne_dash hne.symm), upperChar_toLower hupper, ih hcs,
        List.singleton_append]
    · rw [if_neg hupper, List.singleton_append, camelizeFrom_false hne.symm, ih hcs]

theorem camelizeFrom_hyphenateChars {c : Char} {cs : List Char} (h : '-' ∉ c :: cs) :
    camelizeFrom false (hyphenateChars (c :: cs)) = c.toLower :: cs := by
  obtain ⟨hne, hcs⟩ := List.ne_and_not_mem_of_not_mem_cons h
  rw [hyphenateChars, camelizeFrom_false (toLower_ne_dash hne.symm),
    camelizeFrom_hyphenateTail hcs]

/-! ## Names -/

/-- The name begins with an ASCII capital. -/
def beginsUpper (r : String) : Bool :=
  r.toList.head?.any Char.isUpper

section

variable {r : String}

theorem toList_camelize_hyphenate (hr : '-' ∉ r.toList) {c : Char} {cs : List Char}
    (hsplit : r.toList = c :: cs) : (camelize (hyphenate r)).toList = c.toLower :: cs := by
  rw [camelize, hyphenate, String.toList_ofList, String.toList_ofList, hsplit]
  exact camelizeFrom_hyphenateChars (hsplit ▸ hr)

/-- Humps give back a name that does not begin with a capital. -/
theorem camelize_hyphenate (hr : '-' ∉ r.toList) (hbegin : beginsUpper r = false) :
    camelize (hyphenate r) = r := by
  apply String.toList_inj.1
  cases hsplit : r.toList with
  | nil =>
    rw [camelize, hyphenate, String.toList_ofList, String.toList_ofList, hsplit, hyphenateChars,
      camelizeFrom]
  | cons c cs =>
    have hlower : ¬ c.isUpper := by simpa [beginsUpper, hsplit] using hbegin
    rw [toList_camelize_hyphenate hr hsplit, Char.toLower_eq_of_not_isUpper hlower]

/-- A name that begins with a capital has to be capitalized as well. -/
theorem capitalize_camelize_hyphenate (hr : '-' ∉ r.toList) (hbegin : beginsUpper r = true) :
    capitalize (camelize (hyphenate r)) = r := by
  apply String.toList_inj.1
  cases hsplit : r.toList with
  | nil => simp [beginsUpper, hsplit] at hbegin
  | cons c cs =>
    have hupper : c.isUpper := by simpa [beginsUpper, hsplit] using hbegin
    rw [capitalize, String.toList_ofList, toList_camelize_hyphenate hr hsplit, capitalizeChars,
      upperChar_toLower hupper, List.singleton_append]

end

/-! ## Assets -/

/-- The spellings under which an asset is looked up, the first ones first. -/
def spellings (id : String) : List String :=
  [id, camelize id, capitalize (camelize id)]

section

variable {α : Type} (assets : Dict α)

theorem resolveAsset_eq_findSome? (id : String) :
    resolveAsset assets id = (spellings id).findSome? assets.get? := by
  unfold resolveAsset resolveSpelling? spellings
  simp only [List.findSome?_cons, List.findSome?_nil]
  cases assets.get? id with
  | some a => rfl
  | none =>
    cases assets.get? (camelize id) with
    | some a => rfl
    | none =>
      cases assets.get? (capitalize (camelize id)) with
      | some a => rfl
      | none => rfl

/-- An asset is found, if none of the others has a spelling that is tried before its own. -/
theorem resolveAsset_of_first {id key : String} {a : α} (before after : List String)
    (hspellings : spellings id = before ++ key :: after) (ha : assets.get? key = some a)
    (hbefore : ∀ other ∈ before, assets.contains other → other = key) :
    resolveAsset assets id = some a := by
  rw [resolveAsset_eq_findSome?, hspellings, List.findSome?_append, List.findSome?_cons, ha]
  cases hhit : before.findSome? assets.get? with
  | none => rfl
  | some b =>
    obtain ⟨other, hmem, hb⟩ := List.exists_of_findSome?_eq_some hhit
    have hcontains : assets.contains other := by rw [Dict.contains, hb, Option.isSome_some]
    rw [hbefore other hmem hcontains, ha] at hb
    exact hb.symm

/-- No other asset goes by the name's spelling with dashes, or by that with humps where the name
itself begins with a capital. -/
structure Unshadowed (r : String) : Prop where
  dashes : assets.contains (hyphenate r) → hyphenate r = r
  humps : beginsUpper r → assets.contains (camelize (hyphenate r)) → camelize (hyphenate r) = r

theorem resolveAsset_hyphenate {r : String} (hr : '-' ∉ r.toList) (h : Unshadowed assets r) {a : α}
    (ha : assets.get? r = some a) : resolveAsset assets (hyphenate r) = some a := by
  cases hbegin : beginsUpper r with
  | false =>
    refine resolveAsset_of_first assets [hyphenate r] [capitalize r] ?_ ha ?_
    · rw [spellings, camelize_hyphenate hr hbegin, List.singleton_append]
    · simpa using h.dashes
  | true =>
    refine resolveAsset_of_first assets [hyphenate r, camelize (hyphenate r)] [] ?_ ha ?_
    · rw [spellings, capitalize_camelize_hyphenate hr hbegin, List.cons_append,
        List.singleton_append]
    · simpa using ⟨h.dashes, h.humps hbegin⟩

/-- Names without dashes are read back from their spelling with dashes, with humps or capitalized as
well. So an asset is found by that spelling where no other asset shadows it; and what is found
stands under one of the three spellings of what was asked for. -/
theorem resolveAsset_hyphenated :
    (∀ r : String, '-' ∉ r.toList →
      (beginsUpper r = false → camelize (hyphenate r) = r) ∧
        (beginsUpper r = true → capitalize (camelize (hyphenate r)) = r) ∧
        ∀ a, assets.get? r = some a → Unshadowed assets r →
          resolveAsset assets (hyphenate r) = some a) ∧
      ∀ id a, resolveAsset assets id = some a → ∃ key ∈ spellings id, assets.get? key = some a := by
  refine ⟨fun r hr => ⟨camelize_hyphenate hr, capitalize_camelize_hyphenate hr,
    fun a ha h => resolveAsset_hyphenate assets hr h ha⟩, fun id a hfound => ?_⟩
  rw [resolveAsset_eq_findSome?] at hfound
  exact List.exists_of_findSome?_eq_some hfound

end

/-- A run of capitals, a digit and a letter beyond ASCII come back, and another asset that differs
in its capitals alone is not in the way. -/
theorem resolveAsset_hyphenated_capitals :
    '-' ∉ "XMLÄpfel_2B".toList ∧ beginsUpper "XMLÄpfel_2B" = true ∧
      hyphenate "XMLÄpfel_2B" = "x-m-lÄpfel_2-b" ∧
      capitalize (camelize "x-m-lÄpfel_2-b") = "XMLÄpfel_2B" ∧
      resolveAsset [("XMLÄpfel_2B", 1), ("xmlÄpfel_2B", 2)] "x-m-lÄpfel_2-b" = some 1 := by
  have hr : '-' ∉ "XMLÄpfel_2B".toList := by decide
  have hbegin : beginsUpper "XMLÄpfel_2B" = true := by decide
  have hdashes : hyphenate "XMLÄpfel_2B" = "x-m-lÄpfel_2-b" := by decide +kernel
  have hresolve := (resolveAsset_hyphenated [("XMLÄpfel_2B", 1), ("xmlÄpfel_2B", 2)]).1 _ hr
  rw [hdashes] at hresolve
  refine ⟨hr, hbegin, hdashes, hresolve.2.1 hbegin, hresolve.2.2 1 rfl ⟨?_, ?_⟩⟩
  · decide +kernel
  · decide +kernel

end ViewTree.Name
