import ViewTree.Proofs.Expr.Literals
import ViewTree.Proofs.Expr.Rereading
import ViewTree.Proofs.Markup.Slices
/-!
# What errors say

An error says where the reading of an expression has come to an end: at a character, at the end of
the text, inside a literal, or in front of anything. That is so but for two errors
(`truthful_iff`). A malformed number without a sign is reported as a sign that stands where its
first digit does. And where a bracket should be closed, any other character is taken for the end of
the text, whatever stands behind it.
-/

namespace ViewTree.Expr

open Text
open Markup (Stops stops_nil stops_cons)

/-! ## What is left unread -/

/-- What is left unread between brackets, where reading fails there. A string that is not closed is
read to the end. -/
def subscriptUnread : List Char → List Char
  | [] => []
  | c :: rest =>
    if c = '"' || c = '\'' then []
    else if c.isDigit then (c :: rest).dropWhile Char.isDigit
    else c :: rest

/-- What is left unread of a segment, where reading fails there. A character in place of the closing
bracket has been read. -/
def segmentUnread : List Char → List Char
  | '.' :: rest => rest
  | '[' :: rest =>
    match readSubscript (dropBlank rest) with
    | .ok p => (dropBlank p.2).tail
    | .error _ => subscriptUnread (dropBlank rest)
  | cs => cs

/-- What is left unread of the segments of a path. -/
def segmentsUnread : Nat → List Char → List Char
  | 0, cs => cs
  | fuel + 1, cs =>
    match readSegment? cs with
    | .ok (some p) => segmentsUnread fuel p.2
    | .ok none => cs
    | .error _ => segmentUnread cs

/-- What is left unread of a literal or a path. -/
def primaryUnread : List Char → List Char
  | [] => []
  | c :: rest =>
    if c = '"' || c = '\'' then []
    else if c.isDigit || c = '-' then
      (if c = '-' then rest else c :: rest).dropWhile isNumberChar
    else if Name.isIdentStart c then
      let path := (takeIdent (c :: rest)).2
      segmentsUnread (path.length + 1) path
    else c :: rest

/-- What is left of a text where its reading has come to an end. -/
def unread (src : String) : List Char :=
  let rest := (readNegations src.toList).2
  match readPrimary rest with
  | .ok p => dropBlank p.2
  | .error _ => primaryUnread rest

/-! ## What an error says -/

/-- The text begins with a digit, and its digits and points are no number. -/
def Misnumbered (cs : List Char) : Prop :=
  ∃ d rest, cs = d :: rest ∧ d.isDigit ∧ numberOf? false (cs.takeWhile isNumberChar) = none

/-- What the error says is so: the character stands at that offset, nothing but blanks is left
unread, a literal is open at the end, or the text is blank. -/
def Truthful (src : String) : ExprError → Prop
  | .empty => Text.allBlank src
  | .unexpected ch pos => ∃ behind, dropBytes? pos src.toList = some (ch :: behind)
  | .unterminatedString => (literals src).open?.isSome
  | .unexpectedEnd => Blank (unread src)

/-- The error names a sign where a malformed number without one begins. -/
def NamesSign (src : String) (e : ExprError) : Prop :=
  ∃ pos number, e = .unexpected '-' pos ∧ dropBytes? pos src.toList = some number ∧
    Misnumbered number

/-- The error tells the end of the text where another character stands for the closing bracket
without which the text in front of it is no expression, and more than blanks are behind it. -/
def NamesEnd (src : String) (e : ExprError) : Prop :=
  e = .unexpectedEnd ∧ ¬ Blank (unread src) ∧
    ∃ front c, src.toList = front ++ c :: unread src ∧ c ≠ ']' ∧ isBlank c = false ∧
      ∃ closed, parse (String.ofList (front ++ [']'])) = .ok closed

/-! ## Characters and literals -/

/-- What a reader's error says of the text it was reading: the character is the first one of some
rest, but for the sign of a malformed number, and a literal is open if one is said to be. -/
def ReadError.Fits (cs : List Char) : ReadError → Prop
  | .unexpected ch rest =>
    rest <:+ cs ∧ (rest.head? = some ch ∨ ch = '-' ∧ Misnumbered rest)
  | .unterminatedString => (literalsFrom none cs).open?.isSome
  | .unexpectedEnd => True

/-- An error in a rest is one in the whole text if no literal is open where the rest begins. -/
theorem ReadError.Fits.extend {cs rest : List Char} {e : ReadError} (h : e.Fits rest)
    (hsuffix : rest <:+ cs)
    (hliterals : (literalsFrom none cs).open? = (literalsFrom none rest).open?) : e.Fits cs := by
  cases e with
  | unexpected ch from? => exact ⟨h.1.trans hsuffix, h.2⟩
  | unterminatedString => exact (congrArg Option.isSome hliterals).trans h
  | unexpectedEnd => trivial

theorem ReadError.Fits.behind {cs rest : List Char} {e : ReadError} (h : e.Fits rest)
    (htakes : Takes cs rest) : e.Fits cs := by
  obtain ⟨used, hused, rfl⟩ := htakes
  refine h.extend (List.suffix_append used rest) ?_
  rw [literalsFrom_append hused]

theorem ReadError.Fits.cons {c : Char} {rest : List Char} {e : ReadError} (h : e.Fits rest)
    (hdouble : c ≠ '"') (hsingle : c ≠ '\'') : e.Fits (c :: rest) := by
  refine h.extend (List.suffix_cons c rest) ?_
  rw [literalsFrom_mark hdouble hsingle]

theorem fits_at (cs : List Char) : (ReadError.at cs).Fits cs := by
  cases cs with
  | nil => trivial
  | cons c cs => exact ⟨List.suffix_refl _, .inl rfl⟩

theorem map_eq_error {α β : Type} {x : Except ReadError α} {k : α → β} {e : ReadError} :
    x.map k = .error e ↔ x = .error e := by
  cases x <;> simp [Except.map]

/-- A string that cannot be read is not closed. -/
theorem readString_error {quote : Char} (hquote : quote = '"' || quote = '\'') {cs : List Char}
    {e : ReadError} (h : readString quote cs = .error e) (front : List Char) :
    e = .unterminatedString ∧ (literalsFrom (some ⟨quote, front⟩) cs).open?.isSome := by
  fun_induction readString quote cs generalizing front with
  | case1 => cases h; exact ⟨rfl, rfl⟩
  | case2 =>
    cases h
    have hslash : '\\' ≠ quote := by
      rintro rfl
      exact absurd hquote (by decide)
    rw [literalsFrom, if_neg hslash]
    · exact ⟨rfl, rfl⟩
    · simp
  | case3 c rest ih =>
    rw [literalsFrom]
    exact ih (map_eq_error.1 h) _
  | case4 => cases h
  | case5 c rest hnil hcons hc ih =>
    have hslash : c ≠ '\\' := ne_backslash hnil hcons
    rw [literalsFrom_cons hslash, if_neg hc]
    exact ih (map_eq_error.1 h) _

theorem fits_string {c : Char} (hc : c = '"' || c = '\'') {cs : List Char} {e : ReadError}
    (h : readString c cs = .error e) : e.Fits (c :: cs) := by
  obtain ⟨rfl, hopen⟩ := readString_error hc h []
  rw [ReadError.Fits, literalsFrom_quote (by simpa using hc)]
  exact hopen

theorem fits_subscript {cs : List Char} {e : ReadError} (h : readSubscript cs = .error e) :
    e.Fits cs := by
  cases cs with
  | nil => cases h; trivial
  | cons c rest =>
    simp only [readSubscript] at h
    split at h
    · rename_i hquote
      exact fits_string hquote (map_eq_error.1 h)
    · split at h
      · split at h
        · cases h
        · cases h
          exact ⟨List.suffix_refl _, .inl rfl⟩
      · cases h
        exact fits_at _

theorem fits_segment {cs : List Char} {e : ReadError} (h : readSegment? cs = .error e) :
    e.Fits cs := by
  rcases cs with _ | ⟨c, rest⟩
  · cases h
  by_cases hpoint : c = '.'
  · subst hpoint
    cases rest with
    | nil => cases h; trivial
    | cons d rest =>
      simp only [readSegment?] at h
      split at h
      · cases h
      · cases h
        exact (fits_at _).cons (by decide) (by decide)
  by_cases hbracket : c = '['
  · subst hbracket
    rw [readSegment?_bracket] at h
    cases hread : readSubscript (dropBlank rest) with
    | error e' =>
      simp only [hread, Except.bind] at h
      cases h
      exact ((fits_subscript hread).behind (takes_dropBlank rest)).cons (by decide) (by decide)
    | ok q =>
      simp only [hread, Except.bind] at h
      split at h
      · cases h
      · cases h
        trivial
  · simp [readSegment?_other hpoint hbracket] at h

theorem fits_segments {n : Nat} {cs : List Char} {e : ReadError}
    (h : readSegments n cs = .error e) : e.Fits cs := by
  induction n generalizing cs with
  | zero => cases h
  | succ n ih =>
    simp only [readSegments] at h
    split at h
    · rename_i hsegment
      cases h
      exact fits_segment hsegment
    · cases h
    · rename_i hsegment
      exact (ih (map_eq_error.1 h)).behind (takes_segment hsegment)

theorem readUnsigned_error {negative : Bool} {front cs : List Char} {e : ReadError}
    (h : readUnsigned negative front cs = .error e) :
    e = .unexpected '-' front ∧ numberOf? negative (cs.takeWhile isNumberChar) = none := by
  simp only [readUnsigned] at h
  split at h
  · cases h
  · rename_i hnone
    cases h
    exact ⟨rfl, hnone⟩

/-- A number that cannot be read is reported as its sign, whether it has one or not. -/
theorem readNumber_error {c : Char} {rest : List Char} (hc : c.isDigit || c = '-') {e : ReadError}
    (h : readNumber (c :: rest) = .error e) :
    e = .unexpected '-' (c :: rest) ∧ (c = '-' ∨ Misnumbered (c :: rest)) := by
  rw [readNumber_cons] at h
  split at h
  · rename_i hminus
    obtain ⟨rfl, -⟩ := readUnsigned_error h
    exact ⟨rfl, .inl hminus⟩
  · rename_i hminus
    obtain ⟨rfl, hnone⟩ := readUnsigned_error h
    have hdigit : c.isDigit := by simpa [hminus] using hc
    exact ⟨rfl, .inr ⟨c, rest, rfl, hdigit, hnone⟩⟩

theorem fits_number {c : Char} {rest : List Char} (hc : c.isDigit || c = '-') {e : ReadError}
    (h : readNumber (c :: rest) = .error e) : e.Fits (c :: rest) := by
  obtain ⟨rfl, hsign⟩ := readNumber_error hc h
  refine ⟨List.suffix_refl _, ?_⟩
  rcases hsign with rfl | hnumber
  · exact .inl rfl
  · exact .inr ⟨rfl, hnumber⟩

theorem fits_primary {cs : List Char} {e : ReadError} (h : readPrimary cs = .error e) :
    e.Fits cs := by
  cases cs with
  | nil => cases h; trivial
  | cons c rest =>
    simp only [readPrimary] at h
    split at h
    · rename_i hquote
      exact fits_string hquote (map_eq_error.1 h)
    split at h
    · rename_i hnumber
      exact fits_number hnumber h
    split at h
    · split at h
      · cases h
      · exact (fits_segments (map_eq_error.1 h)).behind (takes_ident _)
    · cases h
      exact fits_at _

/-- Reading fails in the literal or the path, or in front of what is behind it. -/
theorem readAll_error {cs : List Char} {e : ReadError} (h : readAll cs = .error e) :
    readPrimary (readNegations cs).2 = .error e ∨
      ∃ p c rest, readPrimary (readNegations cs).2 = .ok p ∧ dropBlank p.2 = c :: rest ∧
        e = .unexpected c (c :: rest) := by
  simp only [readAll, readUnary, bind, Except.bind] at h
  cases hprimary : readPrimary (readNegations cs).2 with
  | error e' =>
    simp only [hprimary, Except.map] at h
    cases h
    exact .inl rfl
  | ok p =>
    simp only [hprimary, Except.map] at h
    cases hrest : dropBlank p.2 with
    | nil => simp [hrest] at h
    | cons c rest =>
      simp only [hrest] at h
      cases h
      exact .inr ⟨p, c, rest, rfl, hrest, rfl⟩

theorem fits_all {cs : List Char} {e : ReadError} (h : readAll cs = .error e) : e.Fits cs := by
  rcases readAll_error h with hprimary | ⟨p, c, rest, hprimary, hrest, rfl⟩
  · exact (fits_primary hprimary).behind (takes_negations cs)
  · have htakes : Takes cs (c :: rest) := hrest ▸
      (takes_negations cs).trans ((takes_primary hprimary).trans (takes_dropBlank p.2))
    exact ReadError.Fits.behind ⟨List.suffix_refl _, .inl rfl⟩ htakes

/-! ## The end of the text -/

/-- What is left unread where the end of the text is told: nothing, or what is behind a character
that stands for a closing bracket. With the bracket, the text in front of it can be read. -/
def ToldEnd (reads : List Char → Prop) (cs left : List Char) : Prop :=
  left = [] ∨ ∃ front c, cs = front ++ c :: left ∧ c ≠ ']' ∧ isBlank c = false ∧
    reads (front ++ [']'])

theorem ToldEnd.behind {reads reads' : List Char → Prop} {rest left : List Char}
    (h : ToldEnd reads rest left) (used : List Char)
    (hreads : ∀ ts, reads ts → reads' (used ++ ts)) : ToldEnd reads' (used ++ rest) left := by
  rcases h with hleft | ⟨front, c, rfl, hc, hblank, hfront⟩
  · exact .inl hleft
  · refine .inr ⟨used ++ front, c, (List.append_assoc _ _ _).symm, hc, hblank, ?_⟩
    rw [List.append_assoc]
    exact hreads _ hfront

/-- All of the text is one segment between brackets. -/
def IsSubscript (cs : List Char) : Prop :=
  Stops Name.isIdentChar cs ∧ ∃ s, readSegment? cs = .ok (some (s, []))

/-- All of the text is segments. -/
def IsPath (cs : List Char) : Prop :=
  Stops Name.isIdentChar cs ∧
    ∃ segments, ∀ n, cs.length < n → readSegments n cs = .ok (segments, [])

theorem toldEnd_subscript {cs : List Char} (h : readSubscript cs = .error .unexpectedEnd) :
    subscriptUnread cs = [] := by
  cases cs with
  | nil => rfl
  | cons c rest =>
    simp only [readSubscript] at h
    split at h
    · rename_i hquote
      rw [subscriptUnread, if_pos hquote]
    · split at h
      · split at h <;> cases h
      · cases h

theorem toldEnd_segment {cs : List Char} (h : readSegment? cs = .error .unexpectedEnd) :
    ToldEnd IsSubscript cs (segmentUnread cs) := by
  rcases cs with _ | ⟨c, rest⟩
  · cases h
  by_cases hpoint : c = '.'
  · subst hpoint
    cases rest with
    | nil => exact .inl rfl
    | cons d rest =>
      simp only [readSegment?] at h
      split at h <;> cases h
  by_cases hbracket : c = '['
  · subst hbracket
    rw [readSegment?_bracket] at h
    simp only [segmentUnread]
    cases hread : readSubscript (dropBlank rest) with
    | error e =>
      simp only [hread, Except.bind] at h
      cases h
      exact .inl (toldEnd_subscript hread)
    | ok q =>
      obtain ⟨inside, hrest, hagain⟩ := exists_inside hread
      simp only [hread, Except.bind] at h
      split at h
      · cases h
      · rename_i hclose
        dsimp only
        cases hbehind : dropBlank q.2 with
        | nil => exact .inl rfl
        | cons c left =>
          have hc : c ≠ ']' := by
            rintro rfl
            exact hclose _ hbehind
          have hblank : isBlank c = false :=
            Markup.stops_dropWhile isBlank q.2 c (congrArg List.head? hbehind)
          refine .inr ⟨'[' :: inside, c, ?_, hc, hblank, stops_cons (by decide), q.1, hagain []⟩
          rw [hrest, hbehind]
          rfl
  · simp [readSegment?_other hpoint hbracket] at h

theorem readSegments_cons {n : Nat} {cs rest : List Char} {s : Segment}
    (h : readSegment? cs = .ok (some (s, rest))) :
    readSegments (n + 1) cs = (readSegments n rest).map fun p => (s :: p.1, p.2) := by
  simp only [readSegments, h]

theorem readSegments_nil (n : Nat) : readSegments n [] = .ok ([], []) := by
  cases n <;> rfl

theorem toldEnd_segments {n : Nat} {cs : List Char}
    (h : readSegments n cs = .error .unexpectedEnd) :
    ToldEnd IsPath cs (segmentsUnread n cs) := by
  induction n generalizing cs with
  | zero => cases h
  | succ n ih =>
    simp only [readSegments] at h
    simp only [segmentsUnread]
    split at h
    · rename_i hsegment
      cases h
      simp only [hsegment]
      refine (toldEnd_segment hsegment).behind [] fun ts hts => ⟨hts.1, ?_⟩
      obtain ⟨s, hs⟩ := hts.2
      refine ⟨[s], fun m hm => ?_⟩
      obtain ⟨m, rfl⟩ := Nat.exists_eq_add_one_of_ne_zero (Nat.ne_zero_of_lt hm)
      rw [List.nil_append, readSegments_cons hs, readSegments_nil]
      rfl
    · cases h
    · rename_i s rest hsegment
      obtain ⟨used, hcs, hne, hstops, hagain⟩ := readSegment?_again hsegment
      simp only [hsegment]
      rw [hcs]
      refine (ih (map_eq_error.1 h)).behind used fun ts hts => ⟨hstops ts, ?_⟩
      obtain ⟨hts, segments, hread⟩ := hts
      refine ⟨s :: segments, fun m hm => ?_⟩
      have hlength := List.length_pos_iff.2 hne
      rw [List.length_append] at hm
      obtain ⟨m, rfl⟩ := Nat.exists_eq_add_one_of_ne_zero (Nat.ne_zero_of_lt hm)
      rw [readSegments_cons (hagain ts hts), hread m (by omega)]
      rfl

/-- All of the text is a literal or a path, with neither blanks nor negations in front of it. -/
def IsPrimary (cs : List Char) : Prop :=
  Stops (fun c => isBlank c || c == '!') cs ∧ ∃ e, readPrimary cs = .ok (e, [])

theorem isPrimary_path {name : String} (hname : Name.isIdentifier name)
    (hkeyword : keyword? name = none) {ts : List Char} (hts : IsPath ts) :
    IsPrimary (name.toList ++ ts) := by
  obtain ⟨hstops, segments, hread⟩ := hts
  constructor
  · obtain ⟨c, part, hcons, hc, -⟩ := isIdentifier_eq_cons hname
    rw [hcons]
    refine stops_cons ?_
    simp only [isBlank_of_isIdentStart hc, Bool.false_or, beq_eq_false_iff_ne]
    rintro rfl
    exact absurd hc (by decide)
  · have hprimary := readPrimary_name hname hstops
    rw [hkeyword, hread _ (Nat.lt_succ_self _)] at hprimary
    exact ⟨_, hprimary⟩

theorem toldEnd_primary {cs : List Char} (h : readPrimary cs = .error .unexpectedEnd) :
    ToldEnd IsPrimary cs (primaryUnread cs) := by
  cases cs with
  | nil => exact .inl rfl
  | cons c rest =>
    simp only [readPrimary] at h
    simp only [primaryUnread]
    split at h
    · rename_i hquote
      cases (readString_error hquote (map_eq_error.1 h) []).1
    rename_i hquote
    rw [if_neg hquote]
    split at h
    · rename_i hnumber
      cases (readNumber_error hnumber h).1
    rename_i hnumber
    rw [if_neg hnumber]
    split at h
    · rename_i hstart
      rw [if_pos hstart]
      obtain ⟨name, behind, htake, hsplit, hname⟩ := exists_taken hstart rest
      simp only [htake, String.ofList_toList] at h ⊢
      split at h
      · cases h
      · rename_i hkeyword
        rw [hsplit]
        exact (toldEnd_segments (map_eq_error.1 h)).behind name.toList
          fun ts hts => isPrimary_path hname hkeyword hts
    · cases h

/-! ## Errors -/

/-- An error tells that the text is blank, or comes from a reader. -/
theorem parse_error {src : String} {e : ExprError} (h : parse src = .error e) :
    Text.allBlank src ∧ e = .empty ∨
      ∃ e', readAll src.toList = .error e' ∧ e = e'.locate src.toList := by
  simp only [parse] at h
  split at h
  · rename_i hblank
    cases h
    exact .inl ⟨List.all_eq_true.2 (List.dropWhile_eq_nil_iff.1 (List.isEmpty_iff.1 hblank)), rfl⟩
  · cases hread : readAll src.toList with
    | ok x => simp [hread, Except.mapError] at h
    | error e' =>
      simp only [hread, Except.mapError] at h
      cases h
      exact .inr ⟨e', rfl, rfl⟩

theorem parse_empty_iff (src : String) : parse src = .error .empty ↔ Text.allBlank src := by
  constructor
  · intro h
    rcases parse_error h with ⟨hblank, -⟩ | ⟨e', -, he'⟩
    · exact hblank
    · cases e' <;> cases he'
  · intro hblank
    have hempty : dropBlank src.toList = [] :=
      List.dropWhile_eq_nil_iff.2 (List.all_eq_true.1 hblank)
    simp [parse, hempty]

theorem toldEnd_parse {src : String} (h : readAll src.toList = .error .unexpectedEnd) :
    ToldEnd (fun ts => ∃ e, parse (String.ofList ts) = .ok e) src.toList (unread src) := by
  rcases readAll_error h with hprimary | ⟨p, c, rest, -, -, hend⟩
  · obtain ⟨used, hsrc, hagain⟩ := readNegations_again src.toList
    have hunread : unread src = primaryUnread (readNegations src.toList).2 := by
      simp only [unread, hprimary]
    have hparse : ∀ ts, IsPrimary ts → ∃ e, parse (String.ofList (used ++ ts)) = .ok e := by
      rintro ts ⟨hstops, e, he⟩
      refine ⟨negate (readNegations src.toList).1 e, ?_⟩
      rw [parse_eq_ok_iff, String.toList_ofList]
      simp only [readAll, readUnary, hagain ts hstops, he]
      rfl
    have htold : ToldEnd (fun ts => ∃ e, parse (String.ofList ts) = .ok e)
        (used ++ (readNegations src.toList).2) (primaryUnread (readNegations src.toList).2) :=
      (toldEnd_primary hprimary).behind used hparse
    rwa [← hsrc, ← hunread] at htold
  · cases hend

theorem not_namesSign {src : String} {e : ExprError} (h : ∀ ch pos, e ≠ .unexpected ch pos) :
    ¬ NamesSign src e := by
  rintro ⟨pos, number, he, -⟩
  exact h _ _ he

theorem not_namesEnd {src : String} {e : ExprError} (h : e ≠ .unexpectedEnd) :
    ¬ NamesEnd src e :=
  fun hend => h hend.1

/-- The character of an error is at its offset, unless it is a sign in place of a digit. -/
theorem truthful_unexpected_iff {src : String} {ch : Char} {rest : List Char}
    (hfits : (ReadError.unexpected ch rest).Fits src.toList) :
    Truthful src ((ReadError.unexpected ch rest).locate src.toList) ↔
      ¬ NamesSign src ((ReadError.unexpected ch rest).locate src.toList) := by
  obtain ⟨⟨front, hsrc⟩, hpoints⟩ := hfits
  have hdrop : dropBytes? (byteLength src.toList - byteLength rest) src.toList = some rest := by
    rw [← hsrc, byteLength_append, Nat.add_sub_cancel, dropBytes?_append]
  simp only [Truthful, ReadError.locate, hdrop, Option.some.injEq]
  constructor
  · rintro ⟨behind, rfl⟩ ⟨pos, number, he, hnumber, d, more, rfl, hdigit, -⟩
    cases he
    rw [hdrop] at hnumber
    cases hnumber
    exact absurd hdigit (by decide)
  · intro hsign
    rcases hpoints with hhead | ⟨rfl, hnumber⟩
    · exact ⟨rest.tail, (List.cons_head?_tail hhead).symm⟩
    · exact absurd ⟨_, rest, rfl, hdrop, hnumber⟩ hsign

/-- If the end of the text is told, it is there or a character stands for a closing bracket. -/
theorem truthful_unexpectedEnd_iff {src : String}
    (h : readAll src.toList = .error .unexpectedEnd) :
    Truthful src .unexpectedEnd ↔ ¬ NamesEnd src .unexpectedEnd := by
  constructor
  · exact fun hblank hend => hend.2.1 hblank
  · intro hend
    rcases toldEnd_parse h with hnil | hfront
    · have hblank : Blank (unread src) := hnil ▸ blank_nil
      exact hblank
    · by_contra hleft
      exact hend ⟨rfl, hleft, hfront⟩

/-- An error says what is so, unless it names a sign in place of a digit, or the end of the text in
place of a character. A blank text, and no other, is reported as blank. -/
theorem truthful_iff (src : String) :
    (parse src = .error .empty ↔ Text.allBlank src) ∧
      ∀ e, parse src = .error e →
        (Truthful src e ↔ ¬ NamesSign src e ∧ ¬ NamesEnd src e) := by
  refine ⟨parse_empty_iff src, fun e h => ?_⟩
  rcases parse_error h with ⟨hblank, rfl⟩ | ⟨e', hread, rfl⟩
  · exact iff_of_true hblank ⟨not_namesSign nofun, not_namesEnd nofun⟩
  · have hfits := fits_all hread
    cases e' with
    | unterminatedString =>
      exact iff_of_true hfits ⟨not_namesSign nofun, not_namesEnd nofun⟩
    | unexpectedEnd =>
      have hsign : ¬ NamesSign src .unexpectedEnd := not_namesSign nofun
      exact (truthful_unexpectedEnd_iff hread).trans (and_iff_right hsign).symm
    | unexpected ch rest =>
      have hend : ¬ NamesEnd src ((ReadError.unexpected ch rest).locate src.toList) :=
        not_namesEnd nofun
      exact (truthful_unexpected_iff hfits).trans (and_iff_left hend).symm

/-- Offsets are in bytes: the plus stands behind eight of them. -/
theorem truthful_iff_wide :
    parse "a['é'].+" = .error (.unexpected '+' 8) ∧ Truthful "a['é'].+" (.unexpected '+' 8) := by
  have hparse : parse "a['é'].+" = .error (.unexpected '+' 8) := by rfl
  refine ⟨hparse, ((truthful_iff "a['é'].+").2 _ hparse).2 ⟨?_, not_namesEnd nofun⟩⟩
  rintro ⟨pos, number, he, -⟩
  cases he

/-- There is no sign at the front of the first text, and the second one goes on behind the plus. -/
theorem errors_not_truthful :
    (parse "1.2.3" = .error (.unexpected '-' 0) ∧ ¬ Truthful "1.2.3" (.unexpected '-' 0)) ∧
      parse "a[0+1]" = .error .unexpectedEnd ∧ ¬ Truthful "a[0+1]" .unexpectedEnd := by
  refine ⟨⟨by rfl, ?_⟩, by rfl, ?_⟩
  · rintro ⟨behind, hdrop⟩
    have hfirst : dropBytes? 0 "1.2.3".toList = some "1.2.3".toList := dropBytes?_zero _
    rw [hdrop] at hfirst
    exact absurd hfirst (by simp)
  · intro hblank
    have hunread : unread "a[0+1]" = ['1', ']'] := by decide +kernel
    rw [Truthful, hunread] at hblank
    exact absurd hblank.head (by decide)

end ViewTree.Expr
