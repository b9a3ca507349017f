import ViewTree.Proofs.Expr.Blanks
/-!
# Literals of an expression

Where the literals of a text are is told by its quotes and backslashes alone (`literals`). An
expression is made of such literals and of characters that are neither quotes nor commas, with its
brackets in pairs (`lexed_of_parse`): each reader takes a part of this form and leaves the rest.
-/

namespace ViewTree.Expr

open Text

/-! ## Literals -/

/-- A literal: its quote, and what stands behind the quote as it is written. -/
structure StringLiteral where
  quote : Char
  body : List Char

/-- The literal with more behind it. -/
def StringLiteral.add (l : StringLiteral) (cs : List Char) : StringLiteral :=
  ⟨l.quote, l.body ++ cs⟩

/-- The literals of a text: those that are closed, and the one that is open at its end. -/
structure Literals where
  closed : List StringLiteral
  open? : Option StringLiteral

/-- The literals of a text, where `opened` is what has been read of the one that is open. A
backslash goes with the character behind it. -/
def literalsFrom : Option StringLiteral → List Char → Literals
  | opened, [] => ⟨[], opened⟩
  | none, c :: cs =>
    if c = '"' ∨ c = '\'' then literalsFrom (some ⟨c, []⟩) cs else literalsFrom none cs
  | some l, '\\' :: c :: cs => literalsFrom (some (l.add ['\\', c])) cs
  | some l, c :: cs =>
    if c = l.quote then ⟨l :: (literalsFrom none cs).closed, (literalsFrom none cs).open?⟩
    else literalsFrom (some (l.add [c])) cs

/-- The literals of a text. -/
def literals (src : String) : Literals :=
  literalsFrom none src.toList

/-- What may stand in a literal: its quote only behind a backslash. -/
inductive Body (quote : Char) : List Char → Prop
  | nil : Body quote []
  | plain {c : Char} {body : List Char} (hquote : c ≠ quote) (hslash : c ≠ '\\')
      (h : Body quote body) : Body quote (c :: body)
  | escaped (c : Char) {body : List Char} (h : Body quote body) : Body quote ('\\' :: c :: body)

/-- The characters that separate arguments, quote or group. -/
def separators : List Char :=
  [',', '"', '\'', '(', ')', '[', ']']

/-- Literals and other characters, with square brackets in pairs. -/
inductive Lexed : List Char → Prop
  | nil : Lexed []
  | mark {c : Char} {cs : List Char} (hc : c ∉ separators) (h : Lexed cs) : Lexed (c :: cs)
  | literal {quote : Char} {body cs : List Char} (hquote : quote = '"' ∨ quote = '\'')
      (hbody : Body quote body) (h : Lexed cs) : Lexed (quote :: (body ++ quote :: cs))
  | brackets {inside cs : List Char} (hinside : Lexed inside) (h : Lexed cs) :
      Lexed ('[' :: (inside ++ ']' :: cs))

theorem Lexed.append {a b : List Char} (ha : Lexed a) (hb : Lexed b) : Lexed (a ++ b) := by
  induction ha with
  | nil => exact hb
  | mark hc _ ih => exact .mark hc ih
  | literal hquote hbody _ ih =>
    rw [List.cons_append, List.append_assoc, List.cons_append]
    exact .literal hquote hbody ih
  | brackets hinside _ _ ih =>
    rw [List.cons_append, List.append_assoc, List.cons_append]
    exact .brackets hinside ih

theorem lexed_of_forall {cs : List Char} (h : ∀ c ∈ cs, c ∉ separators) : Lexed cs := by
  induction cs with
  | nil => exact .nil
  | cons c cs ih =>
    obtain ⟨hc, hcs⟩ := List.forall_mem_cons.1 h
    exact .mark hc (ih hcs)

/-! ## The literals of what is lexed -/

theorem literalsFrom_mark {c : Char} (hdouble : c ≠ '"') (hsingle : c ≠ '\'') (cs : List Char) :
    literalsFrom none (c :: cs) = literalsFrom none cs := by
  rw [literalsFrom, if_neg (by tauto)]

theorem literalsFrom_quote {c : Char} (hc : c = '"' ∨ c = '\'') (cs : List Char) :
    literalsFrom none (c :: cs) = literalsFrom (some ⟨c, []⟩) cs := by
  rw [literalsFrom, if_pos hc]

/-- A character of a literal that is no backslash ends it, or belongs to it. -/
theorem literalsFrom_cons {c : Char} (hslash : c ≠ '\\') (l : StringLiteral) (cs : List Char) :
    literalsFrom (some l) (c :: cs) =
      if c = l.quote then ⟨l :: (literalsFrom none cs).closed, (literalsFrom none cs).open?⟩
      else literalsFrom (some (l.add [c])) cs := by
  rw [literalsFrom]
  exact fun _ _ h => absurd h hslash

/-- A literal is read up to its quote. -/
theorem literalsFrom_body {quote : Char} (hquote : quote = '"' ∨ quote = '\'') {body : List Char}
    (h : Body quote body) (front cs : List Char) :
    literalsFrom (some ⟨quote, front⟩) (body ++ quote :: cs) =
      ⟨⟨quote, front ++ body⟩ :: (literalsFrom none cs).closed, (literalsFrom none cs).open?⟩ := by
  induction h generalizing front with
  | nil =>
    have hslash : quote ≠ '\\' := by rcases hquote with rfl | rfl <;> decide
    rw [List.nil_append, literalsFrom_cons hslash, if_pos rfl, List.append_nil]
  | plain hne hslash _ ih =>
    rw [List.cons_append, literalsFrom_cons hslash, if_neg hne, StringLiteral.add, ih]
    simp
  | escaped c _ ih =>
    rw [List.cons_append, List.cons_append, literalsFrom, StringLiteral.add, ih]
    simp

/-- What is lexed leaves no literal open. -/
theorem literalsFrom_append {a : List Char} (ha : Lexed a) (b : List Char) :
    literalsFrom none (a ++ b) =
      ⟨(literalsFrom none a).closed ++ (literalsFrom none b).closed,
        (literalsFrom none b).open?⟩ := by
  induction ha generalizing b with
  | nil => rfl
  | @mark c cs hc _ ih =>
    have hdouble : c ≠ '"' := by rintro rfl; exact hc (by decide)
    have hsingle : c ≠ '\'' := by rintro rfl; exact hc (by decide)
    rw [List.cons_append, literalsFrom_mark hdouble hsingle, literalsFrom_mark hdouble hsingle, ih]
  | literal hquote hbody _ ih =>
    rw [List.cons_append, List.append_assoc, List.cons_append, literalsFrom_quote hquote,
      literalsFrom_quote hquote, literalsFrom_body hquote hbody, literalsFrom_body hquote hbody, ih]
    rfl
  | @brackets inside cs _ _ ihinside ih =>
    have hopen (ts : List Char) : literalsFrom none ('[' :: ts) = literalsFrom none ts :=
      literalsFrom_mark (by decide) (by decide) ts
    have hclose (ts : List Char) : literalsFrom none (']' :: ts) = literalsFrom none ts :=
      literalsFrom_mark (by decide) (by decide) ts
    rw [List.cons_append, List.append_assoc, List.cons_append, hopen, hopen, ihinside, ihinside,
      hclose, hclose, ih, List.append_assoc]

/-! ## What the readers take -/

theorem not_mem_separators {p : Char → Bool} (hall : separators.all fun x => !p x) {c : Char}
    (h : p c) : c ∉ separators := by
  intro hc
  have hnot : !p c := List.all_eq_true.1 hall c hc
  simp [h] at hnot

theorem not_mem_separators_of_isIdentChar {c : Char} (h : Name.isIdentChar c) : c ∉ separators :=
  not_mem_separators (by decide) h

theorem not_mem_separators_of_isBlank {c : Char} (h : isBlank c) : c ∉ separators :=
  not_mem_separators (by decide) h

theorem not_mem_separators_of_isNumberChar {c : Char} (h : isNumberChar c) : c ∉ separators :=
  not_mem_separators (by decide) h

/-- What is in front of the rest is lexed. -/
def Takes (cs rest : List Char) : Prop :=
  ∃ used, Lexed used ∧ cs = used ++ rest

theorem Takes.refl (cs : List Char) : Takes cs cs :=
  ⟨[], .nil, rfl⟩

theorem Takes.trans {a b c : List Char} (hab : Takes a b) (hbc : Takes b c) : Takes a c := by
  obtain ⟨front, hfront, rfl⟩ := hab
  obtain ⟨middle, hmiddle, rfl⟩ := hbc
  exact ⟨front ++ middle, hfront.append hmiddle, (List.append_assoc _ _ _).symm⟩

theorem takes_cons {c : Char} (hc : c ∉ separators) (cs : List Char) : Takes (c :: cs) cs :=
  ⟨[c], .mark hc .nil, rfl⟩

theorem takes_dropWhile {p : Char → Bool} (hp : ∀ c, p c → c ∉ separators) (cs : List Char) :
    Takes cs (cs.dropWhile p) :=
  ⟨cs.takeWhile p, lexed_of_forall fun c hc => hp c (List.mem_takeWhile_imp hc),
    List.takeWhile_append_dropWhile.symm⟩

theorem takes_dropBlank (cs : List Char) : Takes cs (dropBlank cs) :=
  takes_dropWhile (fun _ => not_mem_separators_of_isBlank) cs

theorem takes_ident (cs : List Char) : Takes cs (takeIdent cs).2 :=
  takes_dropWhile (fun _ => not_mem_separators_of_isIdentChar) cs

theorem takes_digits (cs : List Char) : Takes cs (cs.dropWhile Char.isDigit) :=
  takes_dropWhile
    (fun _ h => not_mem_separators_of_isIdentChar (by simp [Name.isIdentChar, Char.isAlphanum, h]))
    cs

/-- The cases in which a string does not begin with a backslash. -/
theorem ne_backslash {c : Char} {rest : List Char} (hnil : c = '\\' → rest = [] → False)
    (hcons : ∀ d ds, c = '\\' → rest = d :: ds → False) : c ≠ '\\' := by
  rintro rfl
  cases rest with
  | nil => exact hnil rfl rfl
  | cons d ds => exact hcons d ds rfl rfl

/-- A string is read up to the first quote that no backslash protects. -/
theorem exists_body {quote : Char} {cs : List Char} {p : List Char × List Char}
    (h : readString quote cs = .ok p) : ∃ body, Body quote body ∧ cs = body ++ quote :: p.2 := by
  fun_induction readString quote cs generalizing p with
  | case1 => cases h
  | case2 => cases h
  | case3 c rest ih =>
    obtain ⟨q, hq, rfl⟩ := map_eq_ok.1 h
    obtain ⟨body, hbody, rfl⟩ := ih hq
    exact ⟨_, .escaped c hbody, rfl⟩
  | case4 => cases h; exact ⟨[], .nil, rfl⟩
  | case5 c rest hnil hcons hc ih =>
    have hslash : c ≠ '\\' := ne_backslash hnil hcons
    obtain ⟨q, hq, rfl⟩ := map_eq_ok.1 h
    obtain ⟨body, hbody, rfl⟩ := ih hq
    exact ⟨_, .plain hc hslash hbody, rfl⟩

theorem takes_string {c : Char} (hc : c = '"' || c = '\'') {cs : List Char}
    {p : List Char × List Char} (h : readString c cs = .ok p) : Takes (c :: cs) p.2 := by
  obtain ⟨body, hbody, rfl⟩ := exists_body h
  refine ⟨c :: (body ++ [c]), .literal (by simpa using hc) hbody .nil, ?_⟩
  rw [List.cons_append, List.append_assoc, List.singleton_append]

theorem takes_subscript {cs : List Char} {p : Segment × List Char}
    (h : readSubscript cs = .ok p) : Takes cs p.2 := by
  cases cs with
  | nil => cases h
  | cons c rest =>
    simp only [readSubscript] at h
    split at h
    · rename_i hquote
      obtain ⟨q, hq, rfl⟩ := map_eq_ok.1 h
      exact takes_string hquote hq
    · split at h
      · split at h
        · cases h
          exact takes_digits _
        · cases h
      · cases h

theorem takes_segment {cs : List Char} {p : Segment × List Char}
    (h : readSegment? cs = .ok (some p)) : Takes cs p.2 := by
  rcases cs with _ | ⟨c, rest⟩
  · cases h
  by_cases hpoint : c = '.'
  · subst hpoint
    cases rest with
    | nil => cases h
    | cons d rest =>
      simp only [readSegment?] at h
      split at h
      · cases h
        exact (takes_cons (by decide) _).trans (takes_ident _)
      · cases h
  by_cases hbracket : c = '['
  · subst hbracket
    rw [readSegment?_bracket] at h
    cases hread : readSubscript (dropBlank rest) with
    | error e => simp [hread, Except.bind] at h
    | ok q =>
      simp only [hread, Except.bind] at h
      split at h
      · rename_i hclose
        cases h
        obtain ⟨inside, hinside, hrest⟩ :=
          (takes_dropBlank rest).trans ((takes_subscript hread).trans (takes_dropBlank q.2))
        refine ⟨'[' :: (inside ++ [']']), .brackets hinside .nil, ?_⟩
        rw [hrest, hclose, List.cons_append, List.append_assoc, List.singleton_append]
      · cases h
  · simp [readSegment?_other hpoint hbracket] at h

theorem takes_segments {n : Nat} {cs : List Char} {p : List Segment × List Char}
    (h : readSegments n cs = .ok p) : Takes cs p.2 := by
  induction n generalizing cs p with
  | zero => cases h; exact .refl _
  | succ n ih =>
    simp only [readSegments] at h
    split at h
    · cases h
    · cases h
      exact .refl _
    · rename_i segment rest hsegment
      obtain ⟨q, hq, rfl⟩ := map_eq_ok.1 h
      have hothers : Takes rest q.2 := ih hq
      exact (takes_segment hsegment).trans hothers

theorem takes_number {cs : List Char} {p : Expr × List Char} (h : readNumber cs = .ok p) :
    Takes cs p.2 := by
  have hunsigned {negative : Bool} {front ts : List Char}
      (h : readUnsigned negative front ts = .ok p) : Takes ts p.2 := by
    simp only [readUnsigned] at h
    split at h
    · cases h
      exact takes_dropWhile (fun _ => not_mem_separators_of_isNumberChar) ts
    · cases h
  cases cs with
  | nil =>
    have hempty : readUnsigned false [] [] = .ok p := h
    exact hunsigned hempty
  | cons c rest =>
    rw [readNumber_cons] at h
    split at h
    · rename_i hminus
      subst hminus
      exact (takes_cons (by decide) rest).trans (hunsigned h)
    · exact hunsigned h

theorem takes_primary {cs : List Char} {p : Expr × List Char} (h : readPrimary cs = .ok p) :
    Takes cs p.2 := by
  cases cs with
  | nil => cases h
  | cons c rest =>
    simp only [readPrimary] at h
    split at h
    · rename_i hquote
      obtain ⟨q, hq, rfl⟩ := map_eq_ok.1 h
      exact takes_string hquote hq
    split at h
    · exact takes_number h
    split at h
    · split at h
      · cases h
        exact takes_ident _
      · obtain ⟨q, hq, rfl⟩ := map_eq_ok.1 h
        exact (takes_ident _).trans (takes_segments hq)
    · cases h

theorem takes_negations (cs : List Char) : Takes cs (readNegations cs).2 := by
  induction cs with
  | nil => exact .refl _
  | cons c cs ih =>
    rw [readNegations]
    split
    · rename_i hblank
      exact (takes_cons (not_mem_separators_of_isBlank hblank) cs).trans ih
    · split
      · rename_i hnot
        subst hnot
        exact (takes_cons (by decide) cs).trans ih
      · exact .refl _

/-- A text that is an expression is lexed. -/
theorem lexed_of_parse {src : String} {e : Expr} (h : parse src = .ok e) : Lexed src.toList := by
  have hread : (readAll src.toList).toOption = some e := by
    rw [← toOption_parse, h]
    rfl
  simp only [readAll, readUnary, bind, Except.bind] at hread
  cases hprimary : readPrimary (readNegations src.toList).2 with
  | error e => simp [hprimary, Except.map, Except.toOption] at hread
  | ok p =>
    simp only [hprimary, Except.map] at hread
    cases hrest : dropBlank p.2 with
    | cons c rest => simp [hrest, Except.toOption] at hread
    | nil =>
      obtain ⟨used, hused, hsrc⟩ := (takes_negations src.toList).trans
        ((takes_primary hprimary).trans (takes_dropBlank p.2))
      rw [hsrc, hrest, List.append_nil]
      exact hused

end ViewTree.Expr
