import Mathlib.Data.List.DropRight
import ViewTree.Expr.Parser
/-!
# Blanks around an expression

Blanks around a text do not matter for the expression that it writes (`toOption_parse_trim`). Those
in front are skipped with the negations. Those behind it are never read: a reader stops at a
character that is not blank, so it does the same whether there are blanks behind the text or not.
-/

namespace ViewTree.Text

/-! ## Characters -/

/-- The letters of ASCII, by their numbers. -/
theorem toNat_of_isAlpha {c : Char} (h : c.isAlpha) :
    (65 ≤ c.toNat ∧ c.toNat ≤ 90) ∨ (97 ≤ c.toNat ∧ c.toNat ≤ 122) := by
  rcases Bool.or_eq_true_iff.1 h with hupper | hlower
  · obtain ⟨hlow, hhigh⟩ := of_decide_eq_true hupper
    exact .inl ⟨UInt32.le_iff_toNat_le.1 hlow, UInt32.le_iff_toNat_le.1 hhigh⟩
  · obtain ⟨hlow, hhigh⟩ := Bool.and_eq_true_iff.1 hlower
    exact .inr ⟨UInt32.le_iff_toNat_le.1 (of_decide_eq_true hlow),
      UInt32.le_iff_toNat_le.1 (of_decide_eq_true hhigh)⟩

/-- There are no blanks between the space and the end of ASCII. -/
theorem isBlank_of_between {c : Char} (hlow : 32 < c.toNat) (hhigh : c.toNat < 133) :
    isBlank c = false := by
  rw [Bool.eq_false_iff]
  intro hblank
  simp only [isBlank, blankRanges, Ranges.has, List.any_cons, List.any_nil, Bool.or_false,
    Bool.or_eq_true, Bool.and_eq_true, decide_eq_true_eq] at hblank
  omega

theorem isBlank_of_isDigit {c : Char} (h : c.isDigit) : isBlank c = false := by
  have hdigit : 48 ≤ c.toNat ∧ c.toNat ≤ 57 := Char.isDigit_iff_toNat.1 h
  exact isBlank_of_between (by omega) (by omega)

theorem isBlank_of_isAlpha {c : Char} (h : c.isAlpha) : isBlank c = false := by
  have halpha := toNat_of_isAlpha h
  exact isBlank_of_between (by omega) (by omega)

theorem isBlank_of_isIdentChar {c : Char} (h : Name.isIdentChar c) : isBlank c = false := by
  simp only [Name.isIdentChar, Char.isAlphanum, Bool.or_eq_true, beq_iff_eq] at h
  rcases h with ((halpha | hdigit) | rfl) | rfl
  · exact isBlank_of_isAlpha halpha
  · exact isBlank_of_isDigit hdigit
  · decide
  · decide

theorem isBlank_of_isIdentStart {c : Char} (h : Name.isIdentStart c) : isBlank c = false := by
  refine isBlank_of_isIdentChar ?_
  simp only [Name.isIdentStart, Name.isIdentChar, Char.isAlphanum, Bool.or_eq_true] at h ⊢
  tauto

theorem isBlank_of_quote {c : Char} (h : c = '"' || c = '\'') : isBlank c = false := by
  simp only [Bool.or_eq_true, decide_eq_true_eq] at h
  rcases h with rfl | rfl <;> decide

/-! ## Runs of blanks -/

/-- Only blanks. -/
def Blank (bs : List Char) : Prop :=
  ∀ b ∈ bs, isBlank b

theorem Blank.head {b : Char} {bs : List Char} (h : Blank (b :: bs)) : isBlank b :=
  (List.forall_mem_cons.1 h).1

theorem Blank.tail {b : Char} {bs : List Char} (h : Blank (b :: bs)) : Blank bs :=
  (List.forall_mem_cons.1 h).2

/-- A blank is none of the characters that are known not to be blank. -/
theorem Blank.head_ne {b c : Char} {bs : List Char} (h : Blank (b :: bs))
    (hc : isBlank c = false) : b ≠ c := by
  rintro rfl
  simp [h.head] at hc

section

variable {bs : List Char} (hbs : Blank bs)

include hbs

theorem Blank.dropBlank_eq_nil : dropBlank bs = [] :=
  List.dropWhile_eq_nil_iff.2 hbs

/-- Blanks behind a text stay behind what is left of it, if anything is. -/
theorem dropBlank_append (cs : List Char) :
    dropBlank (cs ++ bs) = if (dropBlank cs).isEmpty then [] else dropBlank cs ++ bs := by
  rw [dropBlank, List.dropWhile_append, ← dropBlank, ← dropBlank, hbs.dropBlank_eq_nil]

/-- A run of characters that are not blank ends in front of blanks. -/
theorem run_append_blank {p : Char → Bool} (hp : ∀ c, p c → isBlank c = false) (cs : List Char) :
    (cs ++ bs).takeWhile p = cs.takeWhile p ∧ (cs ++ bs).dropWhile p = cs.dropWhile p ++ bs := by
  induction cs with
  | nil =>
    cases bs with
    | nil => exact ⟨rfl, rfl⟩
    | cons b bs =>
      have hb : p b = false := by
        rw [Bool.eq_false_iff]
        intro h
        simpa [hp b h] using hbs.head
      simp [hb]
  | cons c cs ih =>
    by_cases hc : p c
    · simpa [hc] using ih
    · simp [hc]

end

theorem exists_eq_trimChars_append (cs : List Char) :
    ∃ bs, Blank bs ∧ dropBlank cs = trimChars cs ++ bs :=
  ⟨List.rtakeWhile isBlank (dropBlank cs), fun _ => List.mem_rtakeWhile_imp,
    List.rdropWhile_append_rtakeWhile.symm⟩

end ViewTree.Text

namespace ViewTree.Expr

open Text

/-! ## Readers -/

/-- Two readings both fail, or what the second one gives comes from what the first one gives. -/
inductive Follows {α : Type} (f : α → α) : Except ReadError α → Except ReadError α → Prop
  | ok (a : α) : Follows f (.ok a) (.ok (f a))
  | error (e e' : ReadError) : Follows f (.error e) (.error e')

/-- What is read, with more text behind what is left. -/
def leaving {α : Type} (bs : List Char) (p : α × List Char) : α × List Char :=
  (p.1, p.2 ++ bs)

section

variable {α β : Type} {f : α → α} {g : β → β} {x y : Except ReadError α}

theorem Follows.map (h : Follows f x y) {k : α → β} (hk : ∀ a, k (f a) = g (k a)) :
    Follows g (x.map k) (y.map k) := by
  cases h with
  | ok a =>
    simp only [Except.map, hk]
    exact .ok _
  | error e e' => exact .error e e'

theorem Follows.bind (h : Follows f x y) {k k' : α → Except ReadError β}
    (hk : ∀ a, Follows g (k a) (k' (f a))) : Follows g (x.bind k) (y.bind k') := by
  cases h with
  | ok a => exact hk a
  | error e e' => exact .error e e'

theorem Follows.toOption (h : Follows f x y) : y.toOption = x.toOption.map f := by
  cases h <;> rfl

end

theorem map_eq_ok {α β : Type} {x : Except ReadError α} {k : α → β} {b : β} :
    x.map k = .ok b ↔ ∃ a, x = .ok a ∧ k a = b := by
  cases x <;> simp [Except.map]

/-- A character of a string that is no backslash ends it, or stands for itself. -/
theorem readString_cons {quote c : Char} (hc : c ≠ '\\') (rest : List Char) :
    readString quote (c :: rest) =
      if c = quote then .ok ([], rest)
      else (readString quote rest).map fun p => (c :: p.1, p.2) := by
  rw [readString]
  · exact fun h => absurd h hc
  · exact fun _ _ h => absurd h hc

theorem readString_length {quote : Char} {cs : List Char} {p : List Char × List Char}
    (h : readString quote cs = .ok p) : p.2.length ≤ cs.length := by
  fun_induction readString quote cs generalizing p with
  | case1 => cases h
  | case2 => cases h
  | case3 c cs ih =>
    obtain ⟨q, hq, rfl⟩ := map_eq_ok.1 h
    have hle : q.2.length ≤ cs.length := ih hq
    simp only [List.length_cons]
    omega
  | case4 => cases h; simp
  | case5 c cs _ _ _ ih =>
    obtain ⟨q, hq, rfl⟩ := map_eq_ok.1 h
    have hle : q.2.length ≤ cs.length := ih hq
    simp only [List.length_cons]
    omega

theorem readSubscript_length {cs : List Char} {p : Segment × List Char}
    (h : readSubscript cs = .ok p) : p.2.length ≤ cs.length := by
  cases cs with
  | nil => cases h
  | cons c rest =>
    simp only [readSubscript] at h
    split at h
    · obtain ⟨q, hq, rfl⟩ := map_eq_ok.1 h
      exact (readString_length hq).trans (by simp)
    · split at h
      · split at h
        · cases h
          exact (List.dropWhile_sublist _).length_le
        · cases h
      · cases h

theorem readSegment?_bracket (rest : List Char) :
    readSegment? ('[' :: rest) = (readSubscript (dropBlank rest)).bind fun p =>
      match dropBlank p.2 with
      | ']' :: rest => .ok (some (p.1, rest))
      | _ => .error .unexpectedEnd :=
  rfl

theorem readSegment?_other {c : Char} (hpoint : c ≠ '.') (hbracket : c ≠ '[') (rest : List Char) :
    readSegment? (c :: rest) = .ok none := by
  simp [readSegment?, hpoint, hbracket]

/-- A segment is at least one character. -/
theorem readSegment?_length {cs : List Char} {p : Segment × List Char}
    (h : readSegment? cs = .ok (some p)) : p.2.length < cs.length := by
  rcases cs with _ | ⟨c, rest⟩
  · cases h
  by_cases hpoint : c = '.'
  · subst hpoint
    cases rest with
    | nil => cases h
    | cons d rest =>
      simp only [readSegment?] at h
      split at h
      · cases h
        exact Nat.lt_succ_of_le (List.dropWhile_sublist _).length_le
      · cases h
  by_cases hbracket : c = '['
  · subst hbracket
    rw [readSegment?_bracket] at h
    cases hread : readSubscript (dropBlank rest) with
    | error e => simp [hread, Except.bind] at h
    | ok q =>
      have hle : q.2.length ≤ (dropBlank rest).length := readSubscript_length hread
      have hrest : (dropBlank rest).length ≤ rest.length := dropBlank_length_le rest
      have hblank : (dropBlank q.2).length ≤ q.2.length := dropBlank_length_le q.2
      simp only [hread, Except.bind] at h
      split at h
      · rename_i hclose
        cases h
        simp only [hclose, List.length_cons] at hblank ⊢
        omega
      · cases h
  · simp [readSegment?_other hpoint hbracket] at h

/-- The number of segments is bounded by the length of the text. -/
theorem readSegments_fuel {n m : Nat} {cs : List Char} (hn : cs.length < n) (hm : cs.length < m) :
    readSegments n cs = readSegments m cs := by
  induction n generalizing m cs with
  | zero => exact absurd hn (Nat.not_lt_zero _)
  | succ n ih =>
    obtain ⟨m, rfl⟩ := Nat.exists_eq_add_one_of_ne_zero (Nat.ne_zero_of_lt hm)
    simp only [readSegments]
    cases hsegment : readSegment? cs with
    | error e => rfl
    | ok found =>
      cases found with
      | none => rfl
      | some p =>
        have hlt := readSegment?_length hsegment
        dsimp only
        rw [ih (m := m) (by omega) (by omega)]

/-- The characters of a number behind its sign. -/
def isNumberChar (c : Char) : Bool :=
  c.isDigit || c == '.'

/-- A number behind its sign, where `front` is the text from the sign on. -/
def readUnsigned (negative : Bool) (front cs : List Char) : Read Expr :=
  match numberOf? negative (cs.takeWhile isNumberChar) with
  | some n => .ok (.literal (.number n), cs.dropWhile isNumberChar)
  | none => .error (.unexpected '-' front)

theorem readNumber_cons (c : Char) (rest : List Char) :
    readNumber (c :: rest) =
      if c = '-' then readUnsigned true (c :: rest) rest
      else readUnsigned false (c :: rest) (c :: rest) := by
  split
  · subst c
    rfl
  · rename_i hminus
    simp only [readNumber, List.cons.injEq, hminus, false_and, imp_self, implies_true]
    rfl

section

variable {bs : List Char} (hbs : Blank bs)

include hbs

theorem readString_blank {quote : Char} (hquote : isBlank quote = false) :
    ∃ e, readString quote bs = .error e := by
  induction bs with
  | nil => exact ⟨_, rfl⟩
  | cons b bs ih =>
    obtain ⟨e, he⟩ := ih hbs.tail
    refine ⟨e, ?_⟩
    rw [readString_cons (hbs.head_ne (by decide)), if_neg (hbs.head_ne hquote), he]
    rfl

/-- A string that is open stays open, and blanks behind one that is closed are left. -/
theorem readString_append {quote : Char} (hquote : isBlank quote = false) (cs : List Char) :
    Follows (leaving bs) (readString quote cs) (readString quote (cs ++ bs)) := by
  have hslash {c : Char} {rest : List Char} (hnil : c = '\\' → rest = [] → False)
      (hcons : ∀ d ds, c = '\\' → rest = d :: ds → False) : c ≠ '\\' := by
    rintro rfl
    cases rest with
    | nil => exact hnil rfl rfl
    | cons d ds => exact hcons d ds rfl rfl
  fun_induction readString quote cs with
  | case1 =>
    obtain ⟨e, he⟩ := readString_blank hbs hquote
    rw [List.nil_append, he]
    exact .error _ _
  | case2 =>
    cases bs with
    | nil => exact .error _ _
    | cons b bs =>
      obtain ⟨e, he⟩ := readString_blank hbs.tail hquote
      rw [List.singleton_append, readString, he]
      exact .error _ _
  | case3 c rest ih =>
    rw [List.cons_append, List.cons_append, readString]
    exact ih.map fun _ => rfl
  | case4 rest hnil hcons =>
    rw [List.cons_append, readString_cons (hslash hnil hcons), if_pos rfl]
    exact .ok _
  | case5 c rest hnil hcons hc ih =>
    rw [List.cons_append, readString_cons (hslash hnil hcons), if_neg hc]
    exact ih.map fun _ => rfl

/-- What stands between brackets ends in front of blanks. -/
theorem readSubscript_append {cs : List Char} (hcs : cs ≠ []) :
    Follows (leaving bs) (readSubscript cs) (readSubscript (cs ++ bs)) := by
  obtain ⟨c, rest, rfl⟩ := List.exists_cons_of_ne_nil hcs
  obtain ⟨htake, hdrop⟩ := run_append_blank hbs (p := Char.isDigit)
    (fun _ => isBlank_of_isDigit) (c :: rest)
  simp only [List.cons_append] at htake hdrop
  simp only [readSubscript, List.cons_append, htake, hdrop]
  split
  · rename_i hquote
    exact (readString_append hbs (isBlank_of_quote hquote) rest).map fun _ => rfl
  · split
    · split
      · exact .ok _
      · exact .error _ _
    · exact .error _ _

theorem readSegment?_append (cs : List Char) :
    Follows (Option.map (leaving bs)) (readSegment? cs) (readSegment? (cs ++ bs)) := by
  rcases cs with _ | ⟨c, rest⟩
  · cases bs with
    | nil => exact .ok none
    | cons b bs =>
      rw [List.nil_append,
        readSegment?_other (hbs.head_ne (by decide)) (hbs.head_ne (by decide))]
      exact .ok none
  rw [List.cons_append]
  by_cases hpoint : c = '.'
  · subst hpoint
    cases rest with
    | nil =>
      cases bs with
      | nil => exact .error _ _
      | cons b bs =>
        have hb : Name.isIdentStart b = false := by
          rw [Bool.eq_false_iff]
          intro h
          simpa [isBlank_of_isIdentStart h] using hbs.head
        simp only [readSegment?, List.nil_append, hb]
        exact .error _ _
    | cons d rest =>
      obtain ⟨htake, hdrop⟩ := run_append_blank hbs (fun _ => isBlank_of_isIdentChar) (d :: rest)
      simp only [List.cons_append] at htake hdrop
      simp only [readSegment?, List.cons_append, takeIdent, htake, hdrop]
      split
      · exact .ok _
      · exact .error _ _
  by_cases hbracket : c = '['
  · subst hbracket
    rw [readSegment?_bracket, readSegment?_bracket, dropBlank_append hbs]
    by_cases hrest : dropBlank rest = []
    · simp only [hrest]
      exact .error _ _
    rw [if_neg (by simpa using hrest)]
    refine (readSubscript_append hbs hrest).bind fun p => ?_
    simp only [leaving, dropBlank_append hbs]
    cases hclose : dropBlank p.2 with
    | nil => exact .error _ _
    | cons d more =>
      by_cases hd : d = ']'
      · subst hd
        exact .ok (some (p.1, more))
      · simpa [hd] using .error _ _
  · rw [readSegment?_other hpoint hbracket, readSegment?_other hpoint hbracket]
    exact .ok none

theorem readSegments_append (n : Nat) (cs : List Char) :
    Follows (leaving bs) (readSegments n cs) (readSegments n (cs ++ bs)) := by
  induction n generalizing cs with
  | zero => exact .ok _
  | succ n ih =>
    simp only [readSegments]
    have hsegment := readSegment?_append hbs cs
    generalize readSegment? cs = short at hsegment
    generalize readSegment? (cs ++ bs) = long at hsegment
    cases hsegment with
    | error e e' => exact .error e e'
    | ok found =>
      cases found with
      | none => exact .ok _
      | some p => exact (ih p.2).map fun _ => rfl

theorem readUnsigned_append (negative : Bool) (front cs : List Char) :
    Follows (leaving bs) (readUnsigned negative front cs)
      (readUnsigned negative (front ++ bs) (cs ++ bs)) := by
  have hbody : ∀ c : Char, isNumberChar c → isBlank c = false := by
    intro c hc
    rw [isNumberChar, Bool.or_eq_true, beq_iff_eq] at hc
    rcases hc with hdigit | rfl
    · exact isBlank_of_isDigit hdigit
    · decide
  obtain ⟨htake, hdrop⟩ := run_append_blank hbs hbody cs
  simp only [readUnsigned, htake, hdrop]
  cases numberOf? negative (cs.takeWhile isNumberChar) with
  | some n => exact .ok _
  | none => exact .error _ _

/-- A literal or a path ends in front of blanks. -/
theorem readPrimary_append {cs : List Char} (hcs : cs ≠ []) :
    Follows (leaving bs) (readPrimary cs) (readPrimary (cs ++ bs)) := by
  obtain ⟨c, rest, rfl⟩ := List.exists_cons_of_ne_nil hcs
  rw [List.cons_append, readPrimary, readPrimary]
  split
  · rename_i hquote
    exact (readString_append hbs (isBlank_of_quote hquote) rest).map fun _ => rfl
  split
  · rw [readNumber_cons, readNumber_cons]
    split
    · exact readUnsigned_append hbs true _ rest
    · exact readUnsigned_append hbs false _ (c :: rest)
  split
  · obtain ⟨htake, hdrop⟩ := run_append_blank hbs (fun _ => isBlank_of_isIdentChar) (c :: rest)
    simp only [List.cons_append] at htake hdrop
    simp only [takeIdent, htake, hdrop]
    cases keyword? (String.ofList ((c :: rest).takeWhile Name.isIdentChar)) with
    | some v => exact .ok _
    | none =>
      generalize (c :: rest).dropWhile Name.isIdentChar = path
      -- The blanks are more fuel, which is not needed.
      have hfuel : path.length < (path ++ bs).length + 1 := by
        rw [List.length_append]
        omega
      have hsegments := readSegments_append hbs ((path ++ bs).length + 1) path
      rw [readSegments_fuel hfuel (Nat.lt_succ_self path.length)] at hsegments
      exact hsegments.map fun _ => rfl
  · exact .error _ _

theorem readNegations_append (cs : List Char) :
    readNegations (cs ++ bs) =
      ((readNegations cs).1,
        if (readNegations cs).2.isEmpty then [] else (readNegations cs).2 ++ bs) := by
  induction cs with
  | nil =>
    induction bs with
    | nil => rfl
    | cons b bs ih =>
      simpa [readNegations, hbs.head] using ih hbs.tail
  | cons c cs ih =>
    rw [List.cons_append, readNegations, readNegations]
    split
    · exact ih
    · split
      · rw [ih]
      · rfl

theorem readUnary_append (cs : List Char) :
    Follows (leaving bs) (readUnary cs) (readUnary (cs ++ bs)) := by
  simp only [readUnary, readNegations_append hbs]
  by_cases hrest : (readNegations cs).2 = []
  · simp only [hrest]
    exact .error _ _
  · rw [if_neg (by simpa using hrest)]
    exact (readPrimary_append hbs hrest).map fun _ => rfl

theorem readAll_append (cs : List Char) : Follows id (readAll cs) (readAll (cs ++ bs)) := by
  refine (readUnary_append hbs cs).bind fun p => ?_
  simp only [leaving, dropBlank_append hbs]
  cases hrest : dropBlank p.2 with
  | nil => exact .ok _
  | cons d more => exact .error _ _

end

theorem readNegations_dropBlank (cs : List Char) :
    readNegations (dropBlank cs) = readNegations cs := by
  induction cs with
  | nil => rfl
  | cons c cs ih =>
    by_cases hc : isBlank c
    · simpa [dropBlank, readNegations, hc] using ih
    · simp [dropBlank, hc]

theorem readAll_dropBlank (cs : List Char) : readAll (dropBlank cs) = readAll cs := by
  simp only [readAll, readUnary, readNegations_dropBlank]

/-- Blank text has no expression to be read, so it needs no case of its own. -/
theorem toOption_parse (src : String) : (parse src).toOption = (readAll src.toList).toOption := by
  simp only [parse]
  split
  · rename_i hblank
    rw [← readAll_dropBlank, List.isEmpty_iff.1 hblank]
    rfl
  · cases readAll src.toList <;> rfl

/-- Blanks around a text do not matter for the expression that it writes. -/
theorem toOption_parse_trim (src : String) :
    (parse (Text.trim src)).toOption = (parse src).toOption := by
  obtain ⟨bs, hbs, hdrop⟩ := exists_eq_trimChars_append src.toList
  have hfollows := readAll_append hbs (trimChars src.toList)
  rw [← hdrop, readAll_dropBlank] at hfollows
  rw [toOption_parse, toOption_parse, hfollows.toOption, Option.map_id, Text.trim,
    String.toList_ofList]
  rfl

end ViewTree.Expr
