import ViewTree.Proofs.Markup.Scanning
import ViewTree.Template.Lint
/-!
# Keywords in expressions

An expression is searched for keywords in what is left of it without its quoted texts
(`unquoted_iff`). The search stops at the first keyword that is a whole word
(`firstWord?_findsFirst`), and a dollar sign in front of that one ends it. So a keyword is reported
exactly if the first one has no dollar sign (`checked_expressionErrors`), and the keywords behind a
first one that has are never looked at (`keywordsFound_iff`).
-/

namespace ViewTree.Template.Lint

open Markup (Stops stops_nil stops_cons stops_dropWhile spanWhile spanWhile_append)

/-! ## Quoted texts -/

/-- A quoted text behind its opening quote. A backslash goes with the character behind it, which
is no line feed. -/
inductive Closes (quote : Char) : List Char → Prop
  | close : Closes quote [quote]
  | char {c : Char} {cs : List Char} (hquote : c ≠ quote) (hescape : c ≠ '\\')
      (h : Closes quote cs) : Closes quote (c :: cs)
  | escape {c : Char} {cs : List Char} (hc : c ≠ '\n') (h : Closes quote cs) :
      Closes quote ('\\' :: c :: cs)

/-- A quoted text. -/
def IsQuoted (cs : List Char) : Prop :=
  ∃ quote body, (quote = '\'' ∨ quote = '"') ∧ Closes quote body ∧ cs = quote :: body

/-- The second text is the first one without its quoted texts, which are found from the left. -/
inductive Unquoted : List Char → List Char → Prop
  | nil : Unquoted [] []
  | quoted {cs rest out : List Char} (hcs : IsQuoted cs) (h : Unquoted rest out) :
      Unquoted (cs ++ rest) out
  | char {c : Char} {cs out : List Char} (hc : ∀ quoted, IsQuoted quoted → ¬ quoted <+: c :: cs)
      (h : Unquoted cs out) : Unquoted (c :: cs) (c :: out)

section

variable {quote c : Char} {cs body rest out : List Char}

theorem afterQuoted?_cons (hc : c ≠ '\\') (cs : List Char) :
    afterQuoted? quote (c :: cs) = if c = quote then some cs else afterQuoted? quote cs := by
  rw [afterQuoted?]
  · exact fun _ _ h => absurd h hc
  · exact fun h => absurd h hc

theorem afterQuoted?_closes (hquote : quote ≠ '\\') (h : Closes quote body) (rest : List Char) :
    afterQuoted? quote (body ++ rest) = some rest := by
  induction h with
  | close => exact (afterQuoted?_cons hquote rest).trans (if_pos rfl)
  | char hne hescape h ih => rw [List.cons_append, afterQuoted?_cons hescape, if_neg hne, ih]
  | escape hc h ih => rw [List.cons_append, List.cons_append, afterQuoted?, if_neg hc, ih]

theorem exists_closes_of_afterQuoted? (h : afterQuoted? quote cs = some rest) :
    ∃ body, Closes quote body ∧ cs = body ++ rest := by
  fun_induction afterQuoted? quote cs with
  | case1 => cases h
  | case2 => cases h
  | case3 c cs hc ih =>
    obtain ⟨body, hbody, rfl⟩ := ih h
    exact ⟨'\\' :: c :: body, .escape hc hbody, rfl⟩
  | case4 => cases h
  | case5 cs =>
    cases h
    exact ⟨[quote], .close, rfl⟩
  | case6 c cs hpair hsingle hne ih =>
    have hescape : c ≠ '\\' := by
      rintro rfl
      cases cs with
      | nil => exact hsingle rfl rfl
      | cons d cs => exact hpair d cs rfl rfl
    obtain ⟨body, hbody, rfl⟩ := ih h
    exact ⟨c :: body, .char hne hescape hbody, rfl⟩

/-- The quoted text at the front of a text, if there is one. -/
theorem afterQuoted?_eq_some_iff :
    (if c = '\'' || c = '"' then afterQuoted? c cs else none) = some rest ↔
      ∃ quoted, IsQuoted quoted ∧ c :: cs = quoted ++ rest := by
  constructor
  · intro h
    split at h
    · rename_i hc
      obtain ⟨body, hbody, rfl⟩ := exists_closes_of_afterQuoted? h
      exact ⟨c :: body, ⟨c, body, by simpa using hc, hbody, rfl⟩, rfl⟩
    · cases h
  · rintro ⟨_, ⟨quote, body, hquote, hbody, rfl⟩, hcs⟩
    obtain ⟨rfl, rfl⟩ := List.cons.inj hcs
    have hne : c ≠ '\\' := by
      rcases hquote with rfl | rfl
      · decide
      · decide
    rw [if_pos (by simpa using hquote)]
    exact afterQuoted?_closes hne hbody rest

theorem unquoted_dropQuoted {fuel : Nat} (hfuel : cs.length ≤ fuel) :
    Unquoted cs (dropQuoted fuel cs) := by
  induction fuel generalizing cs with
  | zero =>
    rw [List.eq_nil_of_length_eq_zero (Nat.le_zero.1 hfuel)]
    exact .nil
  | succ fuel ih =>
    cases cs with
    | nil => exact .nil
    | cons c cs =>
      rw [List.length_cons] at hfuel
      rw [dropQuoted]
      split
      · rename_i rest hrest
        obtain ⟨quoted, hquoted, hcs⟩ := afterQuoted?_eq_some_iff.1 hrest
        obtain ⟨quote, body, -, -, rfl⟩ := id hquoted
        have hlength := congrArg List.length hcs
        simp only [List.length_cons, List.length_append] at hlength
        rw [hcs]
        exact .quoted hquoted (ih (by omega))
      · rename_i hnone
        refine .char (fun quoted hquoted hprefix => ?_) (ih (by omega))
        obtain ⟨rest, hrest⟩ := hprefix
        have hsome := afterQuoted?_eq_some_iff.2 ⟨quoted, hquoted, hrest.symm⟩
        rw [hnone] at hsome
        cases hsome

theorem Unquoted.dropQuoted_eq (h : Unquoted cs out) {fuel : Nat} (hfuel : cs.length ≤ fuel) :
    dropQuoted fuel cs = out := by
  induction h generalizing fuel with
  | nil => cases fuel <;> rfl
  | @quoted quoted rest out hquoted h ih =>
    obtain ⟨quote, body, -, -, rfl⟩ := id hquoted
    simp only [List.cons_append, List.length_cons, List.length_append] at hfuel
    obtain ⟨fuel, rfl⟩ : ∃ n, fuel = n + 1 := ⟨fuel - 1, by omega⟩
    have hrest : (if quote = '\'' || quote = '"' then afterQuoted? quote (body ++ rest) else none) =
        some rest := afterQuoted?_eq_some_iff.2 ⟨quote :: body, hquoted, rfl⟩
    rw [List.cons_append, dropQuoted, hrest]
    exact ih (by omega)
  | @char c cs out hc h ih =>
    simp only [List.length_cons] at hfuel
    obtain ⟨fuel, rfl⟩ : ∃ n, fuel = n + 1 := ⟨fuel - 1, by omega⟩
    rw [dropQuoted]
    split
    · rename_i rest hrest
      obtain ⟨quoted, hquoted, hcs⟩ := afterQuoted?_eq_some_iff.1 hrest
      exact absurd ⟨rest, hcs.symm⟩ (hc quoted hquoted)
    · rw [ih (by omega)]

end

/-- What is searched for keywords is what is left without the quoted texts. -/
theorem unquoted_iff {expr : String} {cs : List Char} :
    Unquoted expr.toList cs ↔ unquoted expr = cs := by
  constructor
  · intro h
    exact h.dropQuoted_eq (Nat.le_refl _)
  · rintro rfl
    exact unquoted_dropQuoted (Nat.le_refl _)

/-! ## Whole words -/

section

variable {α : Type} {take? : List Char → List Char → Option α} {before : Option Char}
  {cs front : List Char} {a : α}

/-- A word that is taken, on its own behind `front`: no word character is next to it. `before` is
the character in front of the text. -/
def TakenAt (take? : List Char → List Char → Option α) (before : Option Char)
    (cs front : List Char) (a : α) : Prop :=
  ∃ word behind, cs = front ++ (word ++ behind) ∧ word ≠ [] ∧ (∀ c ∈ word, Text.isWord c) ∧
    Text.isWord? (front.getLast?.or before) = false ∧ Stops Text.isWord behind ∧
      take? word behind = some a

/-- A search that finds the first of all places where a word is taken, if there is one. -/
def FindsFirst (take? : List Char → List Char → Option α) (before : Option Char)
    (cs : List Char) : Option (Option Char × α) → Prop
  | none => ∀ front a, ¬ TakenAt take? before cs front a
  | some (b, a) => ∃ front, b = front.getLast?.or before ∧ TakenAt take? before cs front a ∧
      ∀ front' a', TakenAt take? before cs front' a' → front.length ≤ front'.length

/-- At a place, one word is taken. -/
theorem TakenAt.unique {a' : α} (h : TakenAt take? before cs front a)
    (h' : TakenAt take? before cs front a') : a = a' := by
  obtain ⟨word, behind, rfl, -, hword, -, hbehind, ha⟩ := h
  obtain ⟨word', behind', hcs, -, hword', -, hbehind', ha'⟩ := h'
  have hspan := congrArg (spanWhile Text.isWord) (List.append_cancel_left hcs)
  rw [spanWhile_append hword hbehind, spanWhile_append hword' hbehind'] at hspan
  obtain ⟨rfl, rfl⟩ := Prod.mk.inj hspan
  exact Option.some.inj (ha.symm.trans ha')

theorem takenAt_append {piece : List Char} (hpiece : piece ≠ []) (rest inner : List Char) :
    TakenAt take? before (piece ++ rest) (piece ++ inner) a ↔
      TakenAt take? piece.getLast? rest inner a := by
  have hedge : (piece ++ inner).getLast?.or before = inner.getLast?.or piece.getLast? := by
    rw [List.getLast?_append, List.getLast?_eq_some_getLast hpiece]
    cases inner.getLast? <;> rfl
  simp only [TakenAt, hedge, List.append_assoc, List.append_cancel_left_eq]

/-- If no word is taken in front of the end of a piece, the search goes on behind it. -/
theorem FindsFirst.append {piece rest : List Char} (hpiece : piece ≠ [])
    (hinside : ∀ front a, TakenAt take? before (piece ++ rest) front a →
      ∃ inner, front = piece ++ inner)
    {found : Option (Option Char × α)} (h : FindsFirst take? piece.getLast? rest found) :
    FindsFirst take? before (piece ++ rest) found := by
  cases found with
  | none =>
    intro front a htaken
    obtain ⟨inner, rfl⟩ := hinside front a htaken
    exact h inner a ((takenAt_append hpiece rest inner).1 htaken)
  | some p =>
    obtain ⟨inner, hb, htaken, hfirst⟩ := h
    refine ⟨piece ++ inner, ?_, (takenAt_append hpiece rest inner).2 htaken, ?_⟩
    · rw [hb, List.getLast?_append, List.getLast?_eq_some_getLast hpiece]
      cases inner.getLast? <;> rfl
    · intro front' a' htaken'
      obtain ⟨inner', rfl⟩ := hinside front' a' htaken'
      have hle := hfirst inner' a' ((takenAt_append hpiece rest inner').1 htaken')
      simp only [List.length_append]
      omega

/-- No place inside of a word begins one. -/
theorem exists_append_of_takenAt {word rest : List Char} (hword : ∀ c ∈ word, Text.isWord c)
    (hrest : Stops Text.isWord rest) (hnone : take? word rest = none)
    (h : TakenAt take? before (word ++ rest) front a) : ∃ inner, front = word ++ inner := by
  obtain ⟨word', behind, hcs, -, hword', hedge, hbehind, ha⟩ := h
  rcases List.append_eq_append_iff.1 hcs with ⟨inner, hfront, -⟩ | ⟨tail, hsplit, -⟩
  · exact ⟨inner, hfront⟩
  · cases hlast : front.getLast? with
    | some c =>
      have hc : c ∈ word := hsplit ▸ List.mem_append_left tail (List.mem_of_getLast? hlast)
      rw [hlast] at hedge
      simp [Text.isWord?, hword c hc] at hedge
    | none =>
      obtain rfl := List.getLast?_eq_none_iff.1 hlast
      have hspan := congrArg (spanWhile Text.isWord) hcs
      rw [List.nil_append, spanWhile_append hword hrest, spanWhile_append hword' hbehind] at hspan
      obtain ⟨rfl, rfl⟩ := Prod.mk.inj hspan
      rw [hnone] at ha
      cases ha

/-- No place in front of a character that is in no word begins one. -/
theorem exists_cons_of_takenAt {c : Char} (hc : ¬ Text.isWord c)
    (h : TakenAt take? before ([c] ++ cs) front a) : ∃ inner, front = [c] ++ inner := by
  obtain ⟨word, behind, hcs, hne, hword, -⟩ := h
  cases front with
  | cons x inner => exact ⟨inner, congrArg (· :: inner) (List.cons.inj hcs).1.symm⟩
  | nil =>
    obtain ⟨x, tail, rfl⟩ := List.exists_cons_of_ne_nil hne
    cases hcs
    exact absurd (hword c List.mem_cons_self) hc

/-- The word that a text begins with. -/
theorem exists_word {c : Char} (hc : Text.isWord c) (cs : List Char) :
    ∃ word rest, c :: cs = word ++ rest ∧ word ≠ [] ∧ (∀ c ∈ word, Text.isWord c) ∧
      Stops Text.isWord rest := by
  refine ⟨(c :: cs).takeWhile Text.isWord, (c :: cs).dropWhile Text.isWord,
    List.takeWhile_append_dropWhile.symm, ?_, List.all_eq_true.1 List.all_takeWhile,
    stops_dropWhile _ _⟩
  rw [List.takeWhile_cons_of_pos hc]
  exact List.cons_ne_nil _ _

/-- The search finds the first whole word that is taken. A word is read in one step, so the search
never stands inside of one. -/
theorem firstWord?_findsFirst {fuel : Nat} (hfuel : cs.length < fuel)
    (hbefore : Text.isWord? before → Stops Text.isWord cs) :
    FindsFirst take? before cs (firstWord? take? fuel before cs) := by
  induction fuel generalizing before cs with
  | zero => exact absurd hfuel (Nat.not_lt_zero _)
  | succ fuel ih =>
    cases cs with
    | nil =>
      rintro front a ⟨word, behind, hcs, hne, -⟩
      have hnil := List.append_eq_nil_iff.1 (List.append_eq_nil_iff.1 hcs.symm).2
      exact hne hnil.1
    | cons c cs =>
      rw [List.length_cons] at hfuel
      rw [firstWord?]
      split
      · rename_i hc
        obtain ⟨word, rest, hsplit, hne, hall, hstops⟩ := exists_word hc cs
        have hspan : spanWhile Text.isWord (c :: cs) = (word, rest) := by
          rw [hsplit, spanWhile_append hall hstops]
        obtain ⟨hword, hrest⟩ := Prod.mk.inj hspan
        dsimp only
        rw [hword, hrest]
        split
        · rename_i a ha
          -- a word stands here, so no word goes on from in front of the text
          have hedge : Text.isWord? before = false := by
            rw [Bool.eq_false_iff]
            intro hbad
            have hstop := hbefore hbad c rfl
            simp [hc] at hstop
          exact ⟨[], rfl, ⟨word, rest, hsplit, hne, hall, hedge, hstops, ha⟩,
            fun front' a' _ => Nat.zero_le _⟩
        · rename_i hnone
          have hlength := congrArg List.length hsplit
          have hpos := List.length_pos_iff.2 hne
          simp only [List.length_cons, List.length_append] at hlength
          rw [hsplit]
          refine .append hne (fun front a h => exists_append_of_takenAt hall hstops hnone h) ?_
          exact ih (by omega) fun _ => hstops
      · rename_i hc
        have hrest : FindsFirst take? [c].getLast? cs (firstWord? take? fuel (some c) cs) :=
          ih (by omega) fun hbad => absurd hbad hc
        exact hrest.append (List.cons_ne_nil c []) fun front a => exists_cons_of_takenAt hc

end

/-! ## Keywords -/

/-- A keyword stands behind `front`, as a whole word. -/
def KeywordAt (cs front : List Char) (word : String) : Prop :=
  word ∈ keywords ∧ Text.isWord? front.getLast? = false ∧
    ∃ behind, cs = front ++ (word.toList ++ behind) ∧ Stops Text.isWord behind

/-- A keyword behind a dollar sign is part of a name. -/
def Allowed (front : List Char) : Prop :=
  front.getLast? = some '$'

/-- The first of all keywords. -/
def FirstKeyword (cs front : List Char) (word : String) : Prop :=
  KeywordAt cs front word ∧
    ∀ front' word', KeywordAt cs front' word' → front.length ≤ front'.length

theorem takenAt_keyword?_iff {cs front : List Char} {word : String} :
    TakenAt keyword? none cs front word ↔ KeywordAt cs front word := by
  have hletters : ∀ w ∈ keywords, w.toList ≠ [] ∧ w.toList.all Text.isWord := by decide
  have hkeyword (cs behind : List Char) :
      keyword? cs behind = some word ↔ word ∈ keywords ∧ word.toList = cs := by
    simp only [keyword?, List.contains_iff_mem]
    constructor
    · intro h
      split at h
      · cases h
        exact ⟨by assumption, String.toList_ofList⟩
      · cases h
    · rintro ⟨hmem, rfl⟩
      rw [String.ofList_toList, if_pos hmem]
  simp only [TakenAt, KeywordAt, hkeyword, Option.or_none]
  constructor
  · rintro ⟨_, behind, hcs, -, -, hedge, hbehind, hmem, rfl⟩
    exact ⟨hmem, hedge, behind, hcs, hbehind⟩
  · rintro ⟨hmem, hedge, behind, hcs, hbehind⟩
    obtain ⟨hne, hall⟩ := hletters word hmem
    exact ⟨word.toList, behind, hcs, hne, List.all_eq_true.1 hall, hedge, hbehind, hmem, rfl⟩

theorem FirstKeyword.unique {cs front front' : List Char} {word word' : String}
    (h : FirstKeyword cs front word) (h' : FirstKeyword cs front' word') :
    front = front' ∧ word = word' := by
  obtain ⟨hat, hfirst⟩ := h
  obtain ⟨hat', hfirst'⟩ := h'
  have hlength : front.length = front'.length :=
    Nat.le_antisymm (hfirst front' word' hat') (hfirst' front word hat)
  obtain ⟨behind, hcs, -⟩ := hat.2.2
  obtain ⟨behind', hcs', -⟩ := hat'.2.2
  obtain ⟨rfl, -⟩ := List.append_inj (hcs.symm.trans hcs') hlength
  exact ⟨rfl, (takenAt_keyword?_iff.2 hat).unique (takenAt_keyword?_iff.2 hat')⟩

/-- The search for keywords finds the first one and the character in front of it, or there are
none. -/
theorem firstKeyword_or_none (cs : List Char) :
    (∃ front word, firstWord? keyword? (cs.length + 1) none cs = some (front.getLast?, word) ∧
        FirstKeyword cs front word) ∨
      firstWord? keyword? (cs.length + 1) none cs = none ∧
        ∀ front word, ¬ KeywordAt cs front word := by
  have hsearch : FindsFirst keyword? none cs (firstWord? keyword? (cs.length + 1) none cs) :=
    firstWord?_findsFirst (Nat.lt_succ_self _) fun h => absurd h Bool.false_ne_true
  generalize firstWord? keyword? (cs.length + 1) none cs = found at hsearch
  rcases found with - | ⟨b, word⟩
  · exact .inr ⟨rfl, fun front word hat => hsearch front word (takenAt_keyword?_iff.2 hat)⟩
  · obtain ⟨front, hb, htaken, hfirst⟩ := hsearch
    rw [Option.or_none] at hb
    exact .inl ⟨front, word, by rw [hb], takenAt_keyword?_iff.1 htaken,
      fun front' word' hat => hfirst front' word' (takenAt_keyword?_iff.2 hat)⟩

/-- The keyword that is reported is the first one, unless it is allowed. -/
theorem offence?_eq_some_iff {cs : List Char} {word : String} :
    offence? keyword? cs = some word ↔ ∃ front, FirstKeyword cs front word ∧ ¬ Allowed front := by
  rcases firstKeyword_or_none cs with ⟨front, first, hfound, hfirst⟩ | ⟨hfound, hnone⟩
  · simp only [offence?, hfound]
    constructor
    · intro h
      split at h
      · cases h
      · rename_i hdollar
        cases h
        exact ⟨front, hfirst, hdollar⟩
    · rintro ⟨front', hfirst', hallowed⟩
      obtain ⟨rfl, rfl⟩ := hfirst.unique hfirst'
      exact if_neg hallowed
  · simp only [offence?, hfound]
    constructor
    · intro h
      cases h
    · rintro ⟨front, hfirst, -⟩
      exact absurd hfirst.1 (hnone front word)

/-! ## What is reported -/

/-- A keyword stands where a name should. -/
def keywordError (word text : String) : String :=
  "avoid using JavaScript keyword as property name: \"" ++ word ++ "\"\n  Raw expression: " ++
    Text.trim text

/-- A text is no expression. -/
def invalidError (e : ExprError) (expr text : String) : String :=
  "invalid expression: " ++ e.message ++ " in\n\n    " ++ Text.trim expr ++
    "\n\n  Raw expression: " ++ Text.trim text ++ "\n"

/-- What is reported for an expression with nothing but `cs` outside of its quoted texts. -/
inductive Checked (expr text : String) (cs : List Char) : List String → Prop
  | keyword {front : List Char} {word : String} (hfirst : FirstKeyword cs front word)
      (hword : ¬ Allowed front) : Checked expr text cs [keywordError word text]
  | invalid {e : ExprError} (hallowed : ∀ front word, FirstKeyword cs front word → Allowed front)
      (he : Expr.parse expr = .error e) : Checked expr text cs [invalidError e expr text]
  | accepted {x : Expr} (hallowed : ∀ front word, FirstKeyword cs front word → Allowed front)
      (hx : Expr.parse expr = .ok x) : Checked expr text cs []

theorem checked_expressionErrors {expr : String} {cs : List Char} (h : Unquoted expr.toList cs)
    (text : String) : Checked expr text cs (expressionErrors expr text) := by
  obtain rfl := unquoted_iff.1 h
  rw [expressionErrors]
  split
  · rename_i word hword
    obtain ⟨front, hfirst, hallowed⟩ := offence?_eq_some_iff.1 hword
    exact .keyword hfirst hallowed
  · rename_i hnone
    have hallowed (front : List Char) (word : String)
        (hfirst : FirstKeyword (unquoted expr) front word) : Allowed front := by
      refine Classical.byContradiction fun hnot => ?_
      have hsome := offence?_eq_some_iff.2 ⟨front, hfirst, hnot⟩
      rw [hnone] at hsome
      cases hsome
    split
    · rename_i x hx
      exact .accepted hallowed hx
    · rename_i e he
      exact .invalid hallowed he

/-- A keyword is reported exactly if some keyword is not allowed. Otherwise the expression is
reported exactly if it is none. -/
structure KeywordsFound (expr text : String) (cs : List Char) : Prop where
  keyword : (∃ word, keywordError word text ∈ expressionErrors expr text) ↔
    ∃ front word, KeywordAt cs front word ∧ ¬ Allowed front
  invalid : (∀ front word, KeywordAt cs front word → Allowed front) →
    ((∃ e, invalidError e expr text ∈ expressionErrors expr text) ↔
      ∃ e, Expr.parse expr = .error e)

/-- The first keyword is allowed, and one behind it is not. -/
def Hides (cs : List Char) : Prop :=
  (∃ front word, FirstKeyword cs front word ∧ Allowed front) ∧
    ∃ front word, KeywordAt cs front word ∧ ¬ Allowed front

theorem head?_toList_append {s : String} {c : Char} (h : s.toList.head? = some c) (t : String) :
    (s ++ t).toList.head? = some c := by
  rw [String.toList_append, List.head?_append, h, Option.some_or]

/-- The two messages begin with different letters. -/
theorem keywordError_ne_invalidError (word text : String) (e : ExprError) (expr text' : String) :
    keywordError word text ≠ invalidError e expr text' := by
  have hkeyword : (keywordError word text).toList.head? = some 'a' := by
    refine head?_toList_append (head?_toList_append (head?_toList_append ?_ _) _) _
    rfl
  have hinvalid : (invalidError e expr text').toList.head? = some 'i' := by
    refine head?_toList_append (head?_toList_append (head?_toList_append (head?_toList_append
      (head?_toList_append (head?_toList_append ?_ _) _) _) _) _) _
    rfl
  intro h
  rw [h, hinvalid] at hkeyword
  cases hkeyword

section

variable {expr : String} {cs : List Char}

/-- A keyword is reported exactly if the first one is not allowed. -/
theorem keyword_reported_iff (h : Unquoted expr.toList cs) (text : String) :
    (∃ word, keywordError word text ∈ expressionErrors expr text) ↔
      ∃ front word, FirstKeyword cs front word ∧ ¬ Allowed front := by
  have hchecked := checked_expressionErrors h text
  generalize expressionErrors expr text = reported at hchecked
  constructor
  · rintro ⟨word, hword⟩
    cases hchecked with
    | keyword hfirst hallowed => exact ⟨_, _, hfirst, hallowed⟩
    | invalid => exact (keywordError_ne_invalidError _ _ _ _ _ (List.mem_singleton.1 hword)).elim
    | accepted => cases hword
  · rintro ⟨front, word, hfirst, hnot⟩
    cases hchecked with
    | keyword => exact ⟨_, List.mem_singleton_self _⟩
    | invalid hallowed => exact absurd (hallowed front word hfirst) hnot
    | accepted hallowed => exact absurd (hallowed front word hfirst) hnot

/-- Where no keyword is reported, the parser decides. -/
theorem invalid_reported_iff (h : Unquoted expr.toList cs) (text : String)
    (hallowed : ∀ front word, FirstKeyword cs front word → Allowed front) :
    (∃ e, invalidError e expr text ∈ expressionErrors expr text) ↔
      ∃ e, Expr.parse expr = .error e := by
  have hchecked := checked_expressionErrors h text
  generalize expressionErrors expr text = reported at hchecked
  cases hchecked with
  | keyword hfirst hnot => exact absurd (hallowed _ _ hfirst) hnot
  | invalid _ he => exact ⟨fun _ => ⟨_, he⟩, fun _ => ⟨_, List.mem_singleton_self _⟩⟩
  | accepted _ hx =>
    constructor
    · rintro ⟨e, he⟩
      cases he
    · rintro ⟨e, he⟩
      rw [hx] at he
      cases he

/-- The search misses a keyword exactly if the first one is allowed and hides another one. Without
such a keyword, an expression is reported as it should be. -/
theorem keywordsFound_iff (h : Unquoted expr.toList cs) (text : String) :
    Checked expr text cs (expressionErrors expr text) ∧
      (KeywordsFound expr text cs ↔ ¬ Hides cs) := by
  refine ⟨checked_expressionErrors h text, ?_, ?_⟩
  · rintro ⟨hkeyword, -⟩ ⟨⟨front, word, hfirst, hallowed⟩, hother⟩
    obtain ⟨front', word', hfirst', hnot⟩ :=
      (keyword_reported_iff h text).1 (hkeyword.2 hother)
    obtain ⟨rfl, -⟩ := hfirst.unique hfirst'
    exact hnot hallowed
  · intro hhides
    constructor
    · rw [keyword_reported_iff h text]
      constructor
      · rintro ⟨front, word, hfirst, hnot⟩
        exact ⟨front, word, hfirst.1, hnot⟩
      · rintro ⟨other, word', hat, hnot⟩
        rcases firstKeyword_or_none cs with ⟨front, word, -, hfirst⟩ | ⟨-, hnone⟩
        · exact ⟨front, word, hfirst, fun hallowed =>
            hhides ⟨⟨front, word, hfirst, hallowed⟩, other, word', hat, hnot⟩⟩
        · exact absurd hat (hnone other word')
    · intro hallowed
      exact invalid_reported_iff h text fun front word hfirst => hallowed front word hfirst.1

end

/-- A keyword in a quoted text is none. The one behind it is found. -/
theorem keywordsFound_quoted :
    Checked "x['if'].new" ":a=\"x['if'].new\"" "x[].new".toList
        (expressionErrors "x['if'].new" ":a=\"x['if'].new\"") ∧
      (KeywordsFound "x['if'].new" ":a=\"x['if'].new\"" "x[].new".toList ↔
        ¬ Hides "x[].new".toList) :=
  keywordsFound_iff (unquoted_iff.2 (by decide)) _

/-- A keyword behind another one that is part of a name is not found. -/
theorem keyword_hidden :
    Unquoted "$if.delete".toList "$if.delete".toList ∧
      KeywordAt "$if.delete".toList "$if.".toList "delete" ∧ ¬ Allowed "$if.".toList ∧
        expressionErrors "$if.delete" "\x7b\x7b$if.delete\x7d\x7d" = [] ∧
          ¬ KeywordsFound "$if.delete" "\x7b\x7b$if.delete\x7d\x7d" "$if.delete".toList := by
  have hat : KeywordAt "$if.delete".toList "$if.".toList "delete" :=
    ⟨by decide, by decide, [], by decide, Markup.stops_nil _⟩
  have hnot : ¬ Allowed "$if.".toList := by
    unfold Allowed
    decide
  have hnone : expressionErrors "$if.delete" "\x7b\x7b$if.delete\x7d\x7d" = [] := by
    decide +kernel
  refine ⟨unquoted_iff.2 (by decide), hat, hnot, hnone, fun h => ?_⟩
  obtain ⟨word, hword⟩ := h.keyword.2 ⟨_, _, hat, hnot⟩
  rw [hnone] at hword
  cases hword

end ViewTree.Template.Lint
