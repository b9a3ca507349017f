import Mathlib.Data.List.DropRight
import ViewTree.Proofs.Name
import ViewTree.Proofs.Text.Separated
import ViewTree.Template.Attribute
/-!
# One spelling for the name of a directive

Dashes and underscores stand between the words of a name, and a capital begins a word. The one
spelling of a name is its words in small letters, with a dash between them. So it is a spelling of
itself, and names that tell the same words apart in different ways have the same one
(`normalizeName_words`).
-/

namespace ViewTree.Template

/-! ## Words -/

/-- What stands between separators or in front of capitals, in small letters. Some pieces are
empty. -/
def namePieces : List Char → List (List Char)
  | [] => [[]]
  | c :: cs =>
    if c = '-' ∨ c = '_' then [] :: namePieces cs
    else if c.isUpper then [] :: (namePieces cs).modifyHead (c.toLower :: ·)
    else (namePieces cs).modifyHead (c :: ·)

/-- The words of a name. -/
def nameWords (cs : List Char) : List (List Char) :=
  (namePieces cs).filter (· ≠ [])

/-- The ways to write that a word begins with a small letter. -/
inductive BeginsWord (c : Char) : List Char → Prop where
  | capital : BeginsWord c [c.toUpper]
  | underscore : BeginsWord c ['_', c]
  | dashes (more : Nat) : BeginsWord c (List.replicate (more + 1) '-' ++ [c])

/-- The names only differ in how it is written where words begin. -/
inductive SameButBoundaries : List Char → List Char → Prop where
  | nil : SameButBoundaries [] []
  | char (c : Char) {cs ds : List Char} (h : SameButBoundaries cs ds) :
    SameButBoundaries (c :: cs) (c :: ds)
  | boundary {c : Char} (hc : c.isLower) {a b : List Char} (ha : BeginsWord c a)
    (hb : BeginsWord c b) {cs ds : List Char} (h : SameButBoundaries cs ds) :
    SameButBoundaries (a ++ cs) (b ++ ds)

/-- Small letters and other characters, with single dashes inside. -/
structure IsDashed (cs : List Char) : Prop where
  noCapital : ∀ c ∈ cs, c.isUpper = false
  noUnderscore : '_' ∉ cs
  single : ¬ ['-', '-'] <:+: cs
  front : cs.head? ≠ some '-'
  behind : cs.getLast? ≠ some '-'

/-! ## Dashes -/

/-- Words with a dash in front of each. -/
def dashedWords (words : List (List Char)) : List Char :=
  words.flatMap ('-' :: ·)

section

variable {cs word : List Char}

theorem dashedWords_cons (word : List Char) (words : List (List Char)) :
    dashedWords (word :: words) = '-' :: (word ++ dashedWords words) :=
  rfl

theorem intercalate_dash (word : List Char) (words : List (List Char)) :
    ['-'].intercalate (word :: words) = word ++ dashedWords words := by
  induction words generalizing word with
  | nil => simp [dashedWords]
  | cons next words ih =>
    rw [List.intercalate_cons_cons, ih, dashedWords_cons, List.append_assoc,
      List.singleton_append]

theorem splitOn_dash (cs : List Char) : ('-' :: cs).splitOn '-' = [] :: cs.splitOn '-' := by
  rw [List.splitOn_cons_eq_if_modifyHead, if_pos BEq.rfl]

theorem splitOn_of_ne_dash {c : Char} (hc : c ≠ '-') (cs : List Char) :
    (c :: cs).splitOn '-' = (cs.splitOn '-').modifyHead (c :: ·) := by
  rw [List.splitOn_cons_eq_if_modifyHead, if_neg (mt beq_iff_eq.1 hc)]

/-- Where every piece is a word, dashes are single and stand inside. -/
theorem dashes_inside (h : [] ∉ cs.splitOn '-') :
    ¬ ['-', '-'] <:+: cs ∧ cs.head? ≠ some '-' ∧ cs.getLast? ≠ some '-' := by
  refine ⟨?_, fun hfront => ?_, fun hbehind => ?_⟩
  · rintro ⟨before, after, rfl⟩
    simp [splitOn_dash, List.splitOn_append_cons_self] at h
  · obtain ⟨rest, rfl⟩ := List.head?_eq_some_iff.1 hfront
    simp [splitOn_dash] at h
  · obtain ⟨before, rfl⟩ := List.getLast?_eq_some_iff.1 hbehind
    simp [List.splitOn_append_cons_self] at h

theorem dropWhile_word (hne : word ≠ []) (hword : '-' ∉ word) (cs : List Char) :
    (word ++ cs).dropWhile (· == '-') = word ++ cs := by
  cases word with
  | nil => exact absurd rfl hne
  | cons c word =>
    have hc : ¬ (c == '-') = true := fun h => hword (beq_iff_eq.1 h ▸ List.mem_cons_self)
    rw [List.cons_append, List.dropWhile_cons, if_neg hc]

/-- Behind a dash, no more dashes are kept. -/
theorem collapseDashes_true (cs : List Char) :
    collapseDashes true cs = (collapseDashes false cs).dropWhile (· == '-') := by
  induction cs with
  | nil => rfl
  | cons c cs ih =>
    by_cases hc : c = '-'
    · subst hc
      show collapseDashes true cs = ('-' :: collapseDashes true cs).dropWhile (· == '-')
      rw [List.dropWhile_cons_of_pos (by decide), ih, List.dropWhile_idempotent]
    · rw [collapseDashes, collapseDashes, if_neg hc, if_neg hc, List.dropWhile_cons,
        if_neg (mt beq_iff_eq.1 hc)]

/-- Of a run of dashes one is kept in front of a word, and perhaps one at the end. -/
theorem exists_collapseDashes_eq (cs : List Char) :
    ∃ first rest tail, cs.splitOn '-' = first :: rest ∧ (tail = [] ∨ tail = ['-']) ∧
      collapseDashes false cs = first ++ (dashedWords (rest.filter (· ≠ [])) ++ tail) := by
  induction cs with
  | nil => exact ⟨[], [], [], rfl, .inl rfl, rfl⟩
  | cons c cs ih =>
    obtain ⟨first, rest, tail, hsplit, htail, hcollapse⟩ := ih
    by_cases hc : c = '-'
    · subst hc
      have hword {word : List Char} (hmem : word ∈ first :: rest) : '-' ∉ word :=
        Text.notMem_of_mem_splitOn (hsplit ▸ hmem)
      have hdash : collapseDashes false ('-' :: cs) =
          '-' :: (first ++ (dashedWords (rest.filter (· ≠ [])) ++ tail)).dropWhile (· == '-') := by
        rw [← hcollapse, ← collapseDashes_true]
        rfl
      rw [splitOn_dash, hsplit, hdash]
      by_cases hfirst : first = []
      · subst hfirst
        cases hwords : rest.filter (· ≠ []) with
        | nil =>
          refine ⟨[], [] :: rest, ['-'], rfl, .inr rfl, ?_⟩
          rw [List.filter_cons_of_neg (by simp), hwords]
          rcases htail with rfl | rfl
          · rfl
          · rfl
        | cons word words =>
          refine ⟨[], [] :: rest, tail, rfl, htail, ?_⟩
          obtain ⟨hmem, hne⟩ := List.mem_filter.1 (hwords ▸ List.mem_cons_self)
          rw [List.filter_cons_of_neg (by simp), hwords, dashedWords_cons, List.nil_append,
            List.cons_append, List.append_assoc, List.dropWhile_cons_of_pos (by decide),
            dropWhile_word (by simpa using hne) (hword (List.mem_cons_of_mem _ hmem))]
      · refine ⟨[], first :: rest, tail, rfl, htail, ?_⟩
        rw [dropWhile_word hfirst (hword List.mem_cons_self),
          List.filter_cons_of_pos (by simpa using hfirst), dashedWords_cons]
        simp
    · refine ⟨c :: first, rest, tail, ?_, htail, ?_⟩
      · rw [splitOn_of_ne_dash hc, hsplit]
        rfl
      · rw [collapseDashes, if_neg hc, hcollapse]
        rfl

theorem rdropWhile_dash {tail : List Char} (hcs : cs.getLast? ≠ some '-')
    (htail : tail = [] ∨ tail = ['-']) : (cs ++ tail).rdropWhile (· == '-') = cs := by
  have hself : cs.rdropWhile (· == '-') = cs := by
    refine List.rdropWhile_eq_self_iff.2 fun hne hlast => hcs ?_
    rw [List.getLast?_eq_some_getLast hne, beq_iff_eq.1 hlast]
  rcases htail with rfl | rfl
  · rw [List.append_nil, hself]
  · rw [List.rdropWhile_concat_pos _ _ _ (by decide), hself]

/-- What is left is the words with a dash between them. -/
theorem trimDashes_collapseDashes (cs : List Char) :
    trimDashes (collapseDashes false cs) =
      ['-'].intercalate ((cs.splitOn '-').filter (· ≠ [])) := by
  obtain ⟨first, rest, tail, hsplit, htail, hcollapse⟩ := exists_collapseDashes_eq cs
  have hword {word : List Char} (hmem : word ∈ (first :: rest).filter (· ≠ [])) :
      word ≠ [] ∧ '-' ∉ word :=
    have h := List.mem_filter.1 hmem
    ⟨by simpa using h.2, Text.notMem_of_mem_splitOn (hsplit ▸ h.1)⟩
  have htrim : trimDashes (collapseDashes false cs) =
      ((collapseDashes false cs).dropWhile (· == '-')).rdropWhile (· == '-') :=
    rfl
  rw [htrim, hsplit, hcollapse]
  cases hwords : (first :: rest).filter (· ≠ []) with
  | nil =>
    have hempty := List.filter_eq_nil_iff.1 hwords
    have hfirst : first = [] := by simpa using hempty first List.mem_cons_self
    have hrest : rest.filter (· ≠ []) = [] :=
      List.filter_eq_nil_iff.2 fun word hmem => hempty word (List.mem_cons_of_mem first hmem)
    rw [hfirst, hrest]
    rcases htail with rfl | rfl
    · rfl
    · rfl
  | cons word words =>
    rw [hwords] at hword
    have hjoined : (first ++ (dashedWords (rest.filter (· ≠ [])) ++ tail)).dropWhile (· == '-') =
        ['-'].intercalate (word :: words) ++ tail := by
      obtain ⟨hne, hdash⟩ := hword List.mem_cons_self
      rw [intercalate_dash, List.append_assoc]
      by_cases hfirst : first = []
      · rw [List.filter_cons_of_neg (by simpa using hfirst)] at hwords
        rw [hfirst, hwords, dashedWords_cons, List.nil_append, List.cons_append,
          List.dropWhile_cons_of_pos (by decide), List.append_assoc, dropWhile_word hne hdash]
      · rw [List.filter_cons_of_pos (by simpa using hfirst), List.cons.injEq] at hwords
        obtain ⟨rfl, hrest⟩ := hwords
        rw [hrest, dropWhile_word hne hdash]
    have hsplit' : (['-'].intercalate (word :: words)).splitOn '-' = word :: words :=
      List.splitOn_intercalate '-' (fun w hw => (hword hw).2) (List.cons_ne_nil _ _)
    have hnonempty : [] ∉ (['-'].intercalate (word :: words)).splitOn '-' := by
      rw [hsplit']
      exact fun hmem => (hword hmem).1 rfl
    rw [hjoined, rdropWhile_dash (dashes_inside hnonempty).2.2 htail]

end

/-! ## The spelling with dashes -/

section

variable {cs ds : List Char}

theorem dashed_cons (c : Char) (cs : List Char) :
    dashed (c :: cs) =
      (if c = '_' then ['-'] else if c.isUpper then ['-', c.toLower] else [c]) ++ dashed cs :=
  rfl

theorem namePieces_eq_splitOn (cs : List Char) : namePieces cs = (dashed cs).splitOn '-' := by
  induction cs with
  | nil => rfl
  | cons c cs ih =>
    rw [namePieces, dashed_cons, ih]
    by_cases hunderscore : c = '_'
    · rw [if_pos (.inr hunderscore), if_pos hunderscore, List.singleton_append, splitOn_dash]
    rw [if_neg hunderscore]
    by_cases hupper : c.isUpper
    · have hne : c ≠ '-' := fun hdash => by
        subst hdash
        cases hupper
      rw [if_neg (by simp [hne, hunderscore]), if_pos hupper, if_pos hupper, List.cons_append,
        List.singleton_append, splitOn_dash, splitOn_of_ne_dash (Name.toLower_ne_dash hne)]
    · rw [if_neg hupper, if_neg hupper, List.singleton_append]
      by_cases hdash : c = '-'
      · rw [if_pos (.inl hdash), hdash, splitOn_dash]
      · rw [if_neg (by simp [hdash, hunderscore]), splitOn_of_ne_dash hdash]

/-- The one spelling of a name, as a list of characters. -/
theorem toList_normalizeName (name : String) :
    (normalizeName name).toList = ['-'].intercalate (nameWords name.toList) := by
  rw [normalizeName, String.toList_ofList, trimDashes_collapseDashes, nameWords,
    namePieces_eq_splitOn]

theorem collapseDashes_sublist (after : Bool) (cs : List Char) :
    (collapseDashes after cs).Sublist cs := by
  induction cs generalizing after with
  | nil => exact .slnil
  | cons c cs ih =>
    unfold collapseDashes
    split
    · split
      · exact (ih true).cons c
      · exact (ih true).cons_cons c
    · exact (ih false).cons_cons c

theorem trimDashes_sublist (cs : List Char) : (trimDashes cs).Sublist cs :=
  (List.rdropWhile_prefix (· == '-') _).sublist.trans (List.dropWhile_sublist (· == '-'))

theorem plain_of_mem_dashed {c : Char} (h : c ∈ dashed cs) : c.isUpper = false ∧ c ≠ '_' := by
  obtain ⟨d, -, hc⟩ := List.mem_flatMap.1 h
  split at hc
  · obtain rfl := List.mem_singleton.1 hc
    decide
  · split at hc
    · rename_i hupper
      have hlower : c = '-' ∨ c = d.toLower := by simpa using hc
      rcases hlower with rfl | rfl
      · decide
      · refine ⟨Char.isUpper_toLower_eq_false d, fun heq => ?_⟩
        have hsmall := Name.isLower_toLower hupper
        rw [heq] at hsmall
        cases hsmall
    · rename_i hunderscore hupper
      obtain rfl := List.mem_singleton.1 hc
      exact ⟨Bool.eq_false_iff.2 hupper, hunderscore⟩

/-- A text without capitals and underscores has dashes where it should. -/
theorem dashed_of_plain (h : ∀ c ∈ cs, c.isUpper = false ∧ c ≠ '_') : dashed cs = cs := by
  induction cs with
  | nil => rfl
  | cons c cs ih =>
    obtain ⟨hupper, hunderscore⟩ := h c List.mem_cons_self
    rw [dashed_cons, if_neg hunderscore, if_neg (Bool.eq_false_iff.1 hupper), List.singleton_append,
      ih fun d hd => h d (List.mem_cons_of_mem c hd)]

/-- However it is written that a word begins, there are dashes in front of it. -/
theorem BeginsWord.exists_dashed_eq {c : Char} (hc : c.isLower) {a : List Char}
    (ha : BeginsWord c a) : ∃ more, dashed a = List.replicate (more + 1) '-' ++ [c] := by
  have hupper : c.isUpper = false := Bool.eq_false_iff.2 (Char.not_isUpper_of_isLower hc)
  have hunderscore : c ≠ '_' := by
    rintro rfl
    cases hc
  cases ha with
  | capital =>
    have hcapital : c.toUpper.isUpper := by
      rw [Char.isUpper_toUpper_eq_isAlpha, Char.isAlpha, hc, Bool.or_true]
    have hne : c.toUpper ≠ '_' := by
      intro heq
      rw [heq] at hcapital
      cases hcapital
    refine ⟨0, ?_⟩
    rw [dashed_cons, if_neg hne, if_pos hcapital, Char.toLower_toUpper_eq_toLower,
      Char.toLower_eq_of_not_isUpper (Bool.eq_false_iff.1 hupper)]
    rfl
  | underscore =>
    have hplain : dashed [c] = [c] := dashed_of_plain (by simp [hupper, hunderscore])
    exact ⟨0, by rw [dashed_cons, if_pos rfl, hplain]; rfl⟩
  | dashes more =>
    refine ⟨more, dashed_of_plain fun d hd => ?_⟩
    rcases List.mem_append.1 hd with hd | hd
    · obtain rfl := List.eq_of_mem_replicate hd
      decide
    · obtain rfl := List.mem_singleton.1 hd
      exact ⟨hupper, hunderscore⟩

theorem splitOn_dashes (n : Nat) (cs : List Char) :
    (List.replicate n '-' ++ cs).splitOn '-' = List.replicate n [] ++ cs.splitOn '-' := by
  induction n with
  | zero => rfl
  | succ n ih =>
    rw [List.replicate_succ, List.replicate_succ, List.cons_append, List.cons_append, splitOn_dash,
      ih]

/-- The pieces have the same first one, and the same words are behind it. -/
def SamePieces (ps qs : List (List Char)) : Prop :=
  ∃ first rest rest', ps = first :: rest ∧ qs = first :: rest' ∧
    rest.filter (· ≠ []) = rest'.filter (· ≠ [])

theorem SamePieces.filter_eq {ps qs : List (List Char)} (h : SamePieces ps qs) :
    ps.filter (· ≠ []) = qs.filter (· ≠ []) := by
  obtain ⟨first, rest, rest', rfl, rfl, heq⟩ := h
  rw [List.filter_cons, List.filter_cons, heq]

theorem SamePieces.modifyHead {ps qs : List (List Char)} (h : SamePieces ps qs)
    (f : List Char → List Char) : SamePieces (ps.modifyHead f) (qs.modifyHead f) := by
  obtain ⟨first, rest, rest', rfl, rfl, heq⟩ := h
  exact ⟨f first, rest, rest', rfl, rfl, heq⟩

/-- Words are told apart alike in both texts. -/
theorem SameButBoundaries.samePieces (h : SameButBoundaries cs ds) :
    SamePieces (namePieces cs) (namePieces ds) := by
  induction h with
  | nil => exact ⟨[], [], [], rfl, rfl, rfl⟩
  | char c h ih =>
    rw [namePieces, namePieces]
    split
    · exact ⟨[], _, _, rfl, rfl, ih.filter_eq⟩
    · split
      · exact ⟨[], _, _, rfl, rfl, (ih.modifyHead _).filter_eq⟩
      · exact ih.modifyHead _
  | @boundary c hc a b ha hb cs ds h ih =>
    have hpieces {a : List Char} (ha : BeginsWord c a) (cs : List Char) : ∃ more,
        namePieces (a ++ cs) =
          [] :: (List.replicate more [] ++ (namePieces cs).modifyHead (c :: ·)) := by
      obtain ⟨more, hmore⟩ := ha.exists_dashed_eq hc
      refine ⟨more, ?_⟩
      have hne : c ≠ '-' := by
        rintro rfl
        cases hc
      rw [namePieces_eq_splitOn, namePieces_eq_splitOn, dashed, List.flatMap_append, ← dashed,
        ← dashed, hmore, List.append_assoc, splitOn_dashes, List.singleton_append,
        splitOn_of_ne_dash hne, List.replicate_succ, List.cons_append]
    obtain ⟨more, hcs⟩ := hpieces ha cs
    obtain ⟨more', hds⟩ := hpieces hb ds
    refine ⟨[], _, _, hcs, hds, ?_⟩
    simp only [List.filter_append, (ih.modifyHead _).filter_eq]
    simp

end

/-! ## One spelling -/

section

variable {name : String}

theorem plain_of_mem_normalizeName {c : Char} (h : c ∈ (normalizeName name).toList) :
    c.isUpper = false ∧ c ≠ '_' := by
  rw [normalizeName, String.toList_ofList] at h
  have hsublist := (trimDashes_sublist _).trans (collapseDashes_sublist false (dashed name.toList))
  exact plain_of_mem_dashed (hsublist.subset h)

/-- The words of a name can be told apart in its one spelling. -/
theorem splitOn_normalizeName (hne : nameWords name.toList ≠ []) :
    (normalizeName name).toList.splitOn '-' = nameWords name.toList := by
  rw [toList_normalizeName]
  refine List.splitOn_intercalate '-' (fun word hword => ?_) hne
  have hpiece := (List.mem_filter.1 hword).1
  rw [namePieces_eq_splitOn] at hpiece
  exact Text.notMem_of_mem_splitOn hpiece

theorem normalizeName_eq_empty (h : nameWords name.toList = []) :
    (normalizeName name).toList = [] := by
  rw [toList_normalizeName, h]
  rfl

theorem nil_notMem_nameWords (cs : List Char) : [] ∉ nameWords cs :=
  fun h => by simp [nameWords] at h

theorem isDashed_normalizeName (name : String) : IsDashed (normalizeName name).toList := by
  have hinside : ¬ ['-', '-'] <:+: (normalizeName name).toList ∧
      (normalizeName name).toList.head? ≠ some '-' ∧
        (normalizeName name).toList.getLast? ≠ some '-' := by
    by_cases hwords : nameWords name.toList = []
    · rw [normalizeName_eq_empty hwords]
      decide
    · refine dashes_inside ?_
      rw [splitOn_normalizeName hwords]
      exact nil_notMem_nameWords _
  exact ⟨fun c hc => (plain_of_mem_normalizeName hc).1,
    fun h => (plain_of_mem_normalizeName h).2 rfl, hinside.1, hinside.2.1, hinside.2.2⟩

/-- The words of the one spelling are the words of the name. -/
theorem nameWords_normalizeName (name : String) :
    nameWords (normalizeName name).toList = nameWords name.toList := by
  have hpieces : namePieces (normalizeName name).toList =
      (normalizeName name).toList.splitOn '-' := by
    rw [namePieces_eq_splitOn, dashed_of_plain fun c hc => plain_of_mem_normalizeName hc]
  rw [nameWords, hpieces]
  by_cases hwords : nameWords name.toList = []
  · rw [normalizeName_eq_empty hwords, hwords]
    rfl
  · rw [splitOn_normalizeName hwords, nameWords, List.filter_filter]
    simp

theorem normalizeName_congr {other : String}
    (h : nameWords name.toList = nameWords other.toList) :
    normalizeName name = normalizeName other := by
  apply String.toList_inj.1
  rw [toList_normalizeName, toList_normalizeName, h]

end

/-- The one spelling of a name. It is the words of the name in small letters, with a dash between
them: there are no capitals, no underscores, and dashes are single and stand inside. It is a
spelling of itself, and names that only differ in how it is written where words begin have the
same. -/
theorem normalizeName_words :
    (∀ name, (normalizeName name).toList = ['-'].intercalate (nameWords name.toList)) ∧
    (∀ name, IsDashed (normalizeName name).toList) ∧
    (∀ name, normalizeName (normalizeName name) = normalizeName name) ∧
    (∀ name other : String, SameButBoundaries name.toList other.toList →
      normalizeName name = normalizeName other) :=
  ⟨toList_normalizeName, isDashed_normalizeName,
    fun name => normalizeName_congr (nameWords_normalizeName name),
    fun _ _ h => normalizeName_congr h.samePieces.filter_eq⟩

/-- A capital, an underscore and two dashes begin a word alike. -/
theorem normalizeName_words_elseIf :
    SameButBoundaries "elseIfTrue".toList "else--if_true".toList ∧
      normalizeName "elseIfTrue" = normalizeName "else--if_true" := by
  have hsame : SameButBoundaries "elseIfTrue".toList "else--if_true".toList := by
    have hif := SameButBoundaries.boundary (c := 'i') (by decide) .capital (.dashes 1)
      (.char 'f' (.boundary (c := 't') (by decide) .capital .underscore
        (.char 'r' (.char 'u' (.char 'e' .nil)))))
    exact .char 'e' (.char 'l' (.char 's' (.char 'e' hif)))
  exact ⟨hsame, normalizeName_words.2.2.2 _ _ hsame⟩

end ViewTree.Template
