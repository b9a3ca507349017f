import Mathlib.Data.List.Forall2
import ViewTree.Proofs.Markup.Scanning
/-!
# Entities of attribute values

However the characters of a value are written, decoding gives the value back. It goes once over the
text: an entity is decoded alike whatever stands before and behind it, what it stands for is no
part of another one, and what is no entity stays (`decodeValue_once`).
-/

namespace ViewTree.Markup

/-- The entities that are read, with what they stand for. `newlines` admits those by number. -/
def entities (newlines : Bool) : List (String × Char) :=
  [("&lt;", '<'), ("&gt;", '>'), ("&quot;", '"'), ("&amp;", '&')] ++
    if newlines then [("&#10;", '\n'), ("&#9;", '\t')] else []

/-- The ways to write a character in a value: as it is, but for the ampersand, or as an entity. -/
inductive WritesInValue (newlines : Bool) (c : Char) : List Char → Prop where
  | literal (h : c ≠ '&') : WritesInValue newlines c [c]
  | entity {name : String} (h : (name, c) ∈ entities newlines) :
    WritesInValue newlines c name.toList

/-! ## Reading an entity -/

section

variable {newlines : Bool} {name : String} {c : Char}

theorem mem_entities :
    (name, c) ∈ entities newlines ↔
      (name, c) ∈ [("&lt;", '<'), ("&gt;", '>'), ("&quot;", '"'), ("&amp;", '&')] ∨
        newlines = true ∧ (name, c) ∈ [("&#10;", '\n'), ("&#9;", '\t')] := by
  cases newlines <;> simp [entities, or_assoc]

/-- An entity begins with an ampersand, and holds no other. -/
theorem exists_eq_ampersand_cons (h : (name, c) ∈ entities newlines) :
    ∃ body, name.toList = '&' :: body ∧ '&' ∉ body := by
  have hall : ∀ e ∈ entities true, e.1.toList.head? = some '&' ∧ '&' ∉ e.1.toList.tail := by
    decide
  have hmem : (name, c) ∈ entities true :=
    mem_entities.2 ((mem_entities.1 h).imp_right fun hnumber => ⟨rfl, hnumber.2⟩)
  obtain ⟨hhead, htail⟩ := hall _ hmem
  obtain ⟨body, hbody⟩ := List.head?_eq_some_iff.1 hhead
  rw [hbody] at htail
  exact ⟨body, hbody, htail⟩

theorem decodeEntities_entity (h : (name, c) ∈ entities newlines) (cs : List Char) :
    decodeEntities newlines (name.toList ++ cs) = c :: decodeEntities newlines cs := by
  rw [mem_entities] at h
  simp only [List.mem_cons, Prod.mk.injEq, List.not_mem_nil, or_false] at h
  rcases h with (⟨rfl, rfl⟩ | ⟨rfl, rfl⟩ | ⟨rfl, rfl⟩ | ⟨rfl, rfl⟩) |
    ⟨rfl, ⟨rfl, rfl⟩ | ⟨rfl, rfl⟩⟩
  all_goals rfl

/-- A character that no entity begins with stays. -/
theorem decodeEntities_literal {cs : List Char}
    (h : ∀ name d, (name, d) ∈ entities newlines → ¬ name.toList <+: c :: cs) :
    decodeEntities newlines (c :: cs) = c :: decodeEntities newlines cs := by
  have hnot (name : String) (d : Char) (hmem : (name, d) ∈ entities newlines) {rest : List Char}
      (heq : c :: cs = name.toList ++ rest) : False :=
    h name d hmem ⟨rest, heq.symm⟩
  conv => lhs; unfold decodeEntities
  split
  case h_1 rest heq => exact (hnot "&lt;" '<' (by simp [entities]) heq).elim
  case h_2 rest heq => exact (hnot "&gt;" '>' (by simp [entities]) heq).elim
  case h_3 rest heq => exact (hnot "&quot;" '"' (by simp [entities]) heq).elim
  case h_4 rest heq => exact (hnot "&amp;" '&' (by simp [entities]) heq).elim
  case h_5 rest heq =>
    split
    · rename_i hnewlines
      exact (hnot "&#10;" '\n' (by simp [entities, hnewlines]) heq).elim
    · -- Both sides have the number as it is written.
      rename_i hoff
      obtain rfl := Bool.eq_false_iff.2 hoff
      cases heq
      rfl
  case h_6 rest heq =>
    split
    · rename_i hnewlines
      exact (hnot "&#9;" '\t' (by simp [entities, hnewlines]) heq).elim
    · rename_i hoff
      obtain rfl := Bool.eq_false_iff.2 hoff
      cases heq
      rfl
  case h_7 d ds _ _ _ _ _ _ heq =>
    cases heq
    rfl
  case h_8 heq => cases heq

/-- No entity reaches over an ampersand. -/
theorem prefix_of_prefix_ampersand (h : (name, c) ∈ entities newlines) {d : Char}
    {front cs : List Char} (hbegins : name.toList <+: d :: (front ++ '&' :: cs)) :
    name.toList <+: d :: front := by
  obtain ⟨body, hbody, hamp⟩ := exists_eq_ampersand_cons h
  rw [hbody, List.cons_prefix_cons] at hbegins ⊢
  refine ⟨hbegins.1, ?_⟩
  rcases List.prefix_or_prefix_of_prefix hbegins.2 (List.prefix_append front ('&' :: cs))
    with hshort | ⟨more, hmore⟩
  · exact hshort
  · have hmoreprefix : more <+: '&' :: cs := by
      rw [← List.prefix_append_right_inj front, hmore]
      exact hbegins.2
    cases more with
    | nil =>
      rw [List.append_nil] at hmore
      exact hmore ▸ List.prefix_rfl
    | cons a more =>
      -- The entity would go on with the ampersand.
      obtain rfl : a = '&' := (List.cons_prefix_cons.1 hmoreprefix).1
      exact absurd (hmore ▸ List.mem_append_right front List.mem_cons_self) hamp

/-- What stands in front of an ampersand is decoded as if it stood alone. -/
theorem decodeEntities_append_ampersand (newlines : Bool) (front cs : List Char) :
    decodeEntities newlines (front ++ '&' :: cs) =
      decodeEntities newlines front ++ decodeEntities newlines ('&' :: cs) := by
  induction hlength : front.length using Nat.strongRecOn generalizing front with
  | ind n ih =>
    subst hlength
    cases front with
    | nil => rfl
    | cons c front =>
      by_cases hread : ∃ name d, (name, d) ∈ entities newlines ∧ name.toList <+: c :: front
      · obtain ⟨name, d, hmem, rest, hrest⟩ := hread
        obtain ⟨body, hbody, -⟩ := exists_eq_ampersand_cons hmem
        have hlt : rest.length < (c :: front).length := by
          rw [← hrest, hbody, List.length_append, List.length_cons]
          omega
        rw [← hrest, List.append_assoc, decodeEntities_entity hmem, decodeEntities_entity hmem,
          ih _ hlt rest rfl, List.cons_append]
      · have hnone : ∀ name d, (name, d) ∈ entities newlines → ¬ name.toList <+: c :: front :=
          fun name d hmem hbegins => hread ⟨name, d, hmem, hbegins⟩
        have hlonger : ∀ name d, (name, d) ∈ entities newlines →
            ¬ name.toList <+: c :: (front ++ '&' :: cs) :=
          fun name d hmem hbegins => hnone name d hmem (prefix_of_prefix_ampersand hmem hbegins)
        rw [List.cons_append, decodeEntities_literal hlonger, decodeEntities_literal hnone,
          ih _ (Nat.lt_succ_self _) front rfl, List.cons_append]

/-- A text without entities stays. -/
theorem decodeEntities_of_not_infix {cs : List Char}
    (h : ∀ name d, (name, d) ∈ entities newlines → ¬ name.toList <:+: cs) :
    decodeEntities newlines cs = cs := by
  induction cs with
  | nil => rfl
  | cons c cs ih =>
    have hrest : decodeEntities newlines cs = cs :=
      ih fun name d hmem hinfix => h name d hmem (List.infix_cons hinfix)
    have hhere : decodeEntities newlines (c :: cs) = c :: decodeEntities newlines cs :=
      decodeEntities_literal fun name d hmem hbegins => h name d hmem hbegins.isInfix
    rw [hhere, hrest]

/-- However its characters are written, a value is read back. -/
theorem decodeEntities_flatten {cs : List Char} {spellings : List (List Char)}
    (h : List.Forall₂ (WritesInValue newlines) cs spellings) :
    decodeEntities newlines spellings.flatten = cs := by
  induction h with
  | nil => rfl
  | cons hc _ ih =>
    rw [List.flatten_cons]
    cases hc with
    | literal hne => rw [List.singleton_append, decodeEntities_cons hne, ih]
    | entity hmem => rw [decodeEntities_entity hmem, ih]

/-- The texts on both sides of an entity are decoded as if they stood alone. -/
theorem decodeEntities_around (h : (name, c) ∈ entities newlines) (before after : List Char) :
    decodeEntities newlines (before ++ (name.toList ++ after)) =
      decodeEntities newlines before ++ c :: decodeEntities newlines after := by
  obtain ⟨body, hbody, -⟩ := exists_eq_ampersand_cons h
  rw [← decodeEntities_entity h, hbody, List.cons_append, decodeEntities_append_ampersand]

/-- Where newlines are not written by number, the numbers stay. -/
theorem decodeEntities_around_number {text : String} (h : text ∈ ["&#10;", "&#9;"])
    (before after : List Char) :
    decodeEntities false (before ++ (text.toList ++ after)) =
      decodeEntities false before ++ (text.toList ++ decodeEntities false after) := by
  simp only [List.mem_cons, List.not_mem_nil, or_false] at h
  rcases h with rfl | rfl
  · exact decodeEntities_append_ampersand false before ("#10;".toList ++ after)
  · exact decodeEntities_append_ampersand false before ("#9;".toList ++ after)

end

/-- Decoding goes once over a value. The value is read back from every way to write its characters;
where newlines are not written by number, the numbers are left alone; an entity is replaced and what
stands before and behind it is decoded by itself, so that no entity comes from what another one
stands for; and a value without entities is left as it is. -/
theorem decodeValue_once (newlines : Bool) :
    (∀ (value : String) (spellings : List (List Char)),
      List.Forall₂ (WritesInValue newlines) value.toList spellings →
        decodeValue newlines (String.ofList spellings.flatten) = value) ∧
    (∀ text ∈ ["&#10;", "&#9;"], ∀ before after : String,
      decodeValue false (before ++ text ++ after) =
        decodeValue false before ++ text ++ decodeValue false after) ∧
    (∀ name c, (name, c) ∈ entities newlines → ∀ before after : String,
      decodeValue newlines (before ++ name ++ after) =
        decodeValue newlines before ++ String.singleton c ++ decodeValue newlines after) ∧
    (∀ value : String,
      (∀ name c, (name, c) ∈ entities newlines → ¬ name.toList <:+: value.toList) →
        decodeValue newlines value = value) := by
  refine ⟨fun value spellings h => ?_, fun text htext before after => ?_,
    fun name c hmem before after => ?_, fun value h => ?_⟩
  · rw [decodeValue, String.toList_ofList, decodeEntities_flatten h, String.ofList_toList]
  · apply String.toList_inj.1
    simp only [decodeValue, String.toList_append, String.toList_ofList, List.append_assoc,
      decodeEntities_around_number htext]
  · apply String.toList_inj.1
    simp only [decodeValue, String.toList_append, String.toList_ofList, String.toList_singleton,
      List.append_assoc, List.singleton_append, decodeEntities_around hmem]
  · rw [decodeValue, decodeEntities_of_not_infix h, String.ofList_toList]

/-- An ampersand that is written as an entity begins none, with newlines by number and without. -/
theorem decodeValue_once_ampersand :
    decodeValue true "&amp;lt;\n&#10;" = "&lt;\n\n" ∧
      decodeValue false ("&amp;" ++ "&#10;" ++ "&gt;") =
        decodeValue false "&amp;" ++ "&#10;" ++ decodeValue false "&gt;" ∧
      decodeValue true ("&" ++ "&amp;" ++ "#10;") =
        decodeValue true "&" ++ String.singleton '&' ++ decodeValue true "#10;" ∧
      decodeValue false "&#10;" = "&#10;" := by
  have hspellings : List.Forall₂ (WritesInValue true) "&lt;\n\n".toList
      ["&amp;".toList, ['l'], ['t'], [';'], ['\n'], "&#10;".toList] := by
    have hamp : ("&amp;", '&') ∈ entities true := by decide
    have hnewline : ("&#10;", '\n') ∈ entities true := by decide
    refine .cons (.entity hamp) (.cons (.literal ?_) (.cons (.literal ?_) (.cons (.literal ?_)
      (.cons (.literal ?_) (.cons (.entity hnewline) .nil)))))
    all_goals decide
  have hwritten : "&amp;lt;\n&#10;" = String.ofList
      ["&amp;".toList, ['l'], ['t'], [';'], ['\n'], "&#10;".toList].flatten := by
    rfl
  have hnone : ∀ name c, (name, c) ∈ entities false → ¬ name.toList <:+: "&#10;".toList := by
    have hall : ∀ e ∈ entities false, ¬ e.1.toList <:+: "&#10;".toList := by decide
    exact fun name c hmem => hall (name, c) hmem
  rw [hwritten]
  exact ⟨(decodeValue_once true).1 _ _ hspellings,
    (decodeValue_once false).2.1 "&#10;" (by decide) _ _,
    (decodeValue_once true).2.2.1 "&amp;" '&' (by decide) _ _,
    (decodeValue_once false).2.2.2 _ hnone⟩

end ViewTree.Markup
