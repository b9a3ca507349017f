import ViewTree.Template.Code
/-!
# Source text as tokens

Source text is read as a reader of the code sees it: characters, and literals between quotes. Code
can be read piece by piece (`ofText?_text`), and a text comes back from its literal unharmed
(`scan_literal`, `unescape_escape`).
-/

namespace ViewTree.Template

/-- A character outside of literals, or a literal as it is written between its quotes. -/
inductive Token where
  | mark (c : Char)
  | quoted (raw : List Char)
deriving DecidableEq

namespace Token

/-- The tokens of a text, where `opened` is what has been read of a literal that is open. A
backslash goes with the character behind it. There are no tokens if a literal stays open. -/
def scan : Option (List Char) → List Char → Option (List Token)
  | none, [] => some []
  | some _, [] => none
  | none, c :: cs =>
    if c = '"' then scan (some []) cs else (scan none cs).map (mark c :: ·)
  | some raw, '\\' :: c :: cs => scan (some (raw ++ ['\\', c])) cs
  | some raw, c :: cs =>
    if c = '"' then (scan none cs).map (quoted raw :: ·) else scan (some (raw ++ [c])) cs

/-- The tokens of source text, which ends outside of literals. -/
def ofText? (source : String) : Option (List Token) :=
  scan none source.toList

/-- Text that stands outside of literals. -/
def marks (text : String) : List Token :=
  text.toList.map mark

@[simp] theorem marks_append (a b : String) : marks (a ++ b) = marks a ++ marks b := by
  simp [marks]

/-- The text that a literal stands for. -/
def unescape : List Char → Option (List Char)
  | [] => some []
  | '\\' :: 'n' :: cs => (unescape cs).map ('\n' :: ·)
  | '\\' :: 'r' :: cs => (unescape cs).map ('\r' :: ·)
  | '\\' :: 't' :: cs => (unescape cs).map ('\t' :: ·)
  | '\\' :: c :: cs => if c = '\\' || c = '"' then (unescape cs).map (c :: ·) else none
  | '\\' :: [] => none
  | c :: cs => (unescape cs).map (c :: ·)

/-- The bracket that closes another. -/
def closer? (c : Char) : Option Char :=
  if c = '(' then some ')' else if c = '[' then some ']' else if c = '\x7b' then some '\x7d'
  else none

/-- The closing brackets that are due behind the tokens, the next one first, where `due` are due in
front of them. There are none if a bracket does not close the last one that is open. -/
def nest : List Char → List Token → Option (List Char)
  | due, [] => some due
  | due, quoted _ :: ts => nest due ts
  | due, mark c :: ts =>
    match closer? c with
    | some d => nest (d :: due) ts
    | none =>
      if c = ')' || c = ']' || c = '\x7d' then
        match due with
        | d :: due => if c = d then nest due ts else none
        | [] => none
      else nest due ts

/-- A literal that is on one line and without tabs. -/
def isClean : Token → Bool
  | mark _ => true
  | quoted raw => raw.all fun c => c != '\n' && c != '\r' && c != '\t'

/-! ## Literals -/

/-- A text as it is written in its literal. -/
def escape (s : String) : List Char :=
  s.toList.flatMap escapeChar

theorem escapeChar_cases (c : Char) :
    (∃ d, escapeChar c = ['\\', d]) ∨ (escapeChar c = [c] ∧ c ≠ '\\' ∧ c ≠ '"') := by
  unfold escapeChar
  split
  · exact .inl ⟨_, rfl⟩
  · split
    · exact .inl ⟨_, rfl⟩
    · iterate 3
        split
        · exact .inl ⟨_, rfl⟩
      exact .inr ⟨rfl, ‹_›, ‹_›⟩

theorem scan_backslash (raw : List Char) (c : Char) (cs : List Char) :
    scan (some raw) ('\\' :: c :: cs) = scan (some (raw ++ ['\\', c])) cs := by
  rw [scan]

theorem scan_inside {c : Char} (hslash : c ≠ '\\') (hquote : c ≠ '"') (raw cs : List Char) :
    scan (some raw) (c :: cs) = scan (some (raw ++ [c])) cs := by
  rw [scan, if_neg hquote]
  rintro d ds rfl
  exact absurd rfl hslash

theorem scan_escape (s raw cs : List Char) :
    scan (some raw) (s.flatMap escapeChar ++ '"' :: cs) =
      (scan none cs).map (quoted (raw ++ s.flatMap escapeChar) :: ·) := by
  induction s generalizing raw with
  | nil => simp [scan]
  | cons c s ih =>
    rw [List.flatMap_cons, List.append_assoc]
    rcases escapeChar_cases c with ⟨d, hd⟩ | ⟨hc, hslash, hquote⟩
    · rw [hd, List.cons_append, List.cons_append, List.nil_append, scan_backslash, ih]
      simp
    · rw [hc, List.singleton_append, scan_inside hslash hquote, ih]
      simp

/-- A literal is one token. -/
theorem scan_literal (s : String) : ofText? (literal s) = some [quoted (escape s)] := by
  unfold ofText? literal
  rw [String.toList_ofList, scan, if_pos rfl, scan_escape]
  rfl

theorem unescape_escapeChar (c : Char) (cs : List Char) :
    unescape (escapeChar c ++ cs) = (unescape cs).map (c :: ·) := by
  unfold escapeChar
  repeat' split
  all_goals simp_all [unescape]

theorem unescape_escape (s : String) : unescape (escape s) = some s.toList := by
  unfold escape
  induction s.toList with
  | nil => rfl
  | cons c cs ih => rw [List.flatMap_cons, unescape_escapeChar, ih, Option.map_some]

theorem escapeChar_clean (c : Char) : (quoted (escapeChar c)).isClean := by
  simp only [isClean]
  unfold escapeChar
  repeat' split
  all_goals simp_all

theorem isClean_escape (s : String) : (quoted (escape s)).isClean := by
  simp only [isClean, escape, List.all_flatMap, List.all_eq_true (l := s.toList)]
  exact fun c _ => escapeChar_clean c

/-! ## Texts behind one another -/

theorem scan_append {opened : Option (List Char)} {a : List Char} {ts : List Token}
    (h : scan opened a = some ts) (b : List Char) :
    scan opened (a ++ b) = (scan none b).map (ts ++ ·) := by
  induction opened, a using scan.induct generalizing ts with
  | case1 => cases h; simp
  | case2 raw => cases h
  | case3 cs ih =>
    rw [scan, if_pos rfl] at h
    rw [List.cons_append, scan, if_pos rfl, ih h]
  | case4 c cs hc ih =>
    rw [scan, if_neg hc, Option.map_eq_some_iff] at h
    obtain ⟨us, hus, rfl⟩ := h
    rw [List.cons_append, scan, if_neg hc, ih hus, Option.map_map]
    rfl
  | case5 raw c cs ih =>
    rw [scan_backslash] at h
    rw [List.cons_append, List.cons_append, scan_backslash, ih h]
  | case6 raw cs hslash ih =>
    rw [scan, if_pos rfl, Option.map_eq_some_iff] at h
    obtain ⟨us, hus, rfl⟩ := h
    rw [List.cons_append, scan, if_pos rfl, ih hus, Option.map_map]
    · rfl
    · simp
    · simp
  | case7 raw c cs hslash hc ih =>
    -- A backslash at the end leaves the literal open, so this is no backslash.
    have hc' : c ≠ '\\' := by
      rintro rfl
      cases cs with
      | nil => simp [scan] at h
      | cons d ds => exact hslash d ds rfl rfl
    rw [scan_inside hc' hc] at h
    rw [List.cons_append, scan_inside hc' hc, ih h]

theorem nest_append (due : List Char) (a b : List Token) :
    nest due (a ++ b) = (nest due a).bind (nest · b) := by
  fun_induction nest due a <;> simp_all [nest]

/-- Brackets that are due further out stay due. -/
theorem nest_frame {due left : List Char} {ts : List Token} (h : nest due ts = some left)
    (outer : List Char) : nest (due ++ outer) ts = some (left ++ outer) := by
  fun_induction nest due ts <;> simp_all [nest]

theorem scan_marks {cs : List Char} (h : '"' ∉ cs) : scan none cs = some (cs.map mark) := by
  induction cs with
  | nil => rfl
  | cons c cs ih =>
    rw [List.mem_cons, not_or] at h
    rw [scan, if_neg (Ne.symm h.1), ih h.2]
    rfl

theorem ofText?_append {a : String} {ts : List Token} (h : ofText? a = some ts) (b : String) :
    ofText? (a ++ b) = (ofText? b).map (ts ++ ·) := by
  rw [ofText?, String.toList_append, scan_append h]
  rfl

theorem ofText?_marks {text : String} (h : '"' ∉ text.toList) :
    ofText? text = some (marks text) :=
  scan_marks h

end Token

/-! ## Pieces of code -/

/-- The tokens of a piece of code. -/
def Piece.tokens (p : Piece) : List Token :=
  (Token.ofText? p.text).getD []

/-- The tokens of code, piece by piece. -/
def Code.tokens (code : Code) : List Token :=
  code.flatMap Piece.tokens

namespace Piece

/-- The text of the piece ends outside of literals. -/
def Ends (p : Piece) : Prop :=
  Token.ofText? p.text = some p.tokens

theorem ends_of_eq {p : Piece} {ts : List Token} (h : Token.ofText? p.text = some ts) :
    p.Ends ∧ p.tokens = ts := by
  simp [Ends, tokens, h]

theorem ends_literal (s : String) :
    (literal s).Ends ∧ (literal s).tokens = [.quoted (Token.escape s)] :=
  ends_of_eq (Token.scan_literal s)

/-- A call with a literal as its last argument. -/
theorem ends_call {front : String} (h : '"' ∉ front.toList) (s : String) {p : Piece}
    (hp : p.text = front ++ Template.literal s ++ ")") :
    p.Ends ∧ p.tokens = Token.marks front ++ [.quoted (Token.escape s), .mark ')'] := by
  refine ends_of_eq ?_
  rw [hp, String.append_assoc, Token.ofText?_append (Token.ofText?_marks h),
    Token.ofText?_append (Token.scan_literal s)]
  rfl

theorem ends_read (expr : String) :
    (read expr).Ends ∧ (read expr).tokens =
      Token.marks "vm.resolve_in(&scope, " ++ [.quoted (Token.escape expr), .mark ')'] :=
  ends_call (by decide) expr rfl

theorem ends_listener (handler : String) :
    (listener handler).Ends ∧ (listener handler).tokens =
      Token.marks "vm.listener(&scope, " ++ [.quoted (Token.escape handler), .mark ')'] :=
  ends_call (by decide) handler rfl

/-- A number is written in digits. -/
theorem isDigit_of_mem_toString {n : Nat} {c : Char} (h : c ∈ (toString n).toList) : c.isDigit := by
  rw [Nat.toString_eq_ofList_toDigits, String.toList_ofList] at h
  exact Nat.isDigit_of_mem_toDigits (b := 10) (by decide) (by decide) h

theorem ends_hoisted (index : Nat) :
    (hoisted index).Ends ∧ (hoisted index).tokens =
      Token.marks "Child::from(vm.static_tree(" ++ Token.marks (toString index) ++
        Token.marks "))" := by
  have hfront : Token.ofText? "Child::from(vm.static_tree(" =
      some (Token.marks "Child::from(vm.static_tree(") := Token.ofText?_marks (by decide)
  have hindex : Token.ofText? (toString index) = some (Token.marks (toString index)) :=
    Token.ofText?_marks fun h => absurd (isDigit_of_mem_toString h) (by decide)
  have hback : Token.ofText? "))" = some (Token.marks "))") := Token.ofText?_marks (by decide)
  have htext : (hoisted index).text =
      "Child::from(vm.static_tree(" ++ toString index ++ "))" := rfl
  refine ends_of_eq ?_
  rw [htext, String.append_assoc, Token.ofText?_append hfront, Token.ofText?_append hindex, hback]
  simp

end Piece

namespace Code

@[simp] theorem tokens_nil : tokens [] = [] :=
  rfl

@[simp] theorem tokens_cons (p : Piece) (code : Code) :
    tokens (p :: code) = p.tokens ++ tokens code :=
  rfl

@[simp] theorem tokens_append (a b : Code) : tokens (a ++ b) = tokens a ++ tokens b :=
  List.flatMap_append

theorem text_cons (p : Piece) (code : Code) : text (p :: code) = p.text ++ text code := by
  simp [text, String.join_cons]

/-- Code can be read piece by piece if every piece ends outside of literals. -/
theorem ofText?_text {code : Code} (h : ∀ p ∈ code, p.Ends) :
    Token.ofText? code.text = some code.tokens := by
  induction code with
  | nil => rfl
  | cons p code ih =>
    have hp : p.Ends := h p List.mem_cons_self
    rw [text_cons, Token.ofText?_append hp, ih fun q hq => h q (List.mem_cons_of_mem p hq)]
    rfl

end Code

end ViewTree.Template
