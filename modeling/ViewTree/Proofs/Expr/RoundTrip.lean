import Mathlib.Data.List.Forall2
import ViewTree.Proofs.Expr.Blanks
import ViewTree.Proofs.Markup.Scanning
/-!
# Written expressions

How an expression may be written: either quote around a text, escapes where they are needed, keys
behind a point or between brackets, blanks around the whole, behind each negation and inside the
brackets. Everything that can be said has such a text (`exists_written`), and each of them is read
as the expression it is a text of (`parse_written`).
-/

namespace ViewTree.Expr

open Text
open Markup (Stops stops_nil stops_cons dropWhile_of_stops spanWhile_append)

/-! ## What is written -/

/-- A character between quotes: itself, or behind a backslash if it would end the text or begin an
escape. A line break and a tab have letters of their own. -/
inductive WrittenChar (quote : Char) : Char → List Char → Prop
  | plain {c : Char} (hquote : c ≠ quote) (hslash : c ≠ '\\') : WrittenChar quote c [c]
  | escaped {c : Char} (hc : c = quote ∨ c = '\\') : WrittenChar quote c ['\\', c]
  | newline : WrittenChar quote '\n' ['\\', 'n']
  | tab : WrittenChar quote '\t' ['\\', 't']

/-- A text in quotes of either kind. -/
inductive WrittenString (s : String) : List Char → Prop
  | quoted {quote : Char} {spelt : List (List Char)} (hquote : quote = '"' ∨ quote = '\'')
      (hspelt : List.Forall₂ (WrittenChar quote) s.toList spelt) :
      WrittenString s (quote :: (spelt.flatten ++ [quote]))

/-- A step of a path. Only an identifier may stand behind a point. -/
inductive WrittenSegment : Segment → List Char → Prop
  | point {k : String} (hk : Name.isIdentifier k) : WrittenSegment (.key k) ('.' :: k.toList)
  | key {k : String} {before written behind : List Char} (hbefore : Blank before)
      (hk : WrittenString k written) (hbehind : Blank behind) :
      WrittenSegment (.key k) ('[' :: (before ++ (written ++ (behind ++ [']']))))
  | index {before behind : List Char} (i : Nat) (hbefore : Blank before) (hbehind : Blank behind) :
      WrittenSegment (.index i) ('[' :: (before ++ (Nat.toDigits 10 i ++ (behind ++ [']']))))

/-- An expression without blanks around it. -/
inductive WrittenBare : Expr → List Char → Prop
  | null : WrittenBare (.literal .null) "null".toList
  | bool (b : Bool) : WrittenBare (.literal (.bool b)) (if b then "true" else "false").toList
  | integer (n : Int) : WrittenBare (.literal (.int n)) (Number.int n).text.toList
  | string {s : String} {written : List Char} (hs : WrittenString s written) :
      WrittenBare (.literal (.string s)) written
  | path {segments : List Segment} {spelt : List (List Char)} (root : String)
      (hspelt : List.Forall₂ WrittenSegment segments spelt) :
      WrittenBare (.path root segments) (root.toList ++ spelt.flatten)
  | not {e : Expr} {gap written : List Char} (hgap : Blank gap) (he : WrittenBare e written) :
      WrittenBare (.not e) ('!' :: (gap ++ written))

/-- An expression with blanks around it. -/
inductive Written (e : Expr) (src : String) : Prop
  | spaced {before written behind : List Char} (hbefore : Blank before) (he : WrittenBare e written)
      (hbehind : Blank behind) (hsrc : src.toList = before ++ (written ++ behind))

/-- A key, or an index of at most sixty-four bits. -/
def ExpressibleSegment : Segment → Prop
  | .key _ => True
  | .index i => i < Number.unsignedEnd

/-- The words that are no roots of paths. -/
def keywords : List String :=
  ["true", "false", "null", "undefined"]

/-- The expressions that can be written: literals but for doubles, lists and objects, whole numbers
that fit sixty-four bits with a sign, paths from a name, and negations of all these. -/
def Expressible : Expr → Prop
  | literal .null => True
  | literal (.bool _) => True
  | literal (.number (.int n)) => -(Number.signedEnd : Int) ≤ n ∧ n < Number.signedEnd
  | literal (.string _) => True
  | literal _ => False
  | path root segments =>
    Name.isIdentifier root ∧ root ∉ keywords ∧ ∀ s ∈ segments, ExpressibleSegment s
  | not inner => inner.Expressible

/-! ## Everything can be written -/

theorem exists_writtenChar (quote c : Char) : ∃ spelt, WrittenChar quote c spelt := by
  by_cases hc : c = quote ∨ c = '\\'
  · exact ⟨_, .escaped hc⟩
  · obtain ⟨hquote, hslash⟩ := not_or.1 hc
    exact ⟨_, .plain hquote hslash⟩

theorem exists_writtenString (s : String) : ∃ written, WrittenString s written := by
  choose spell hspell using exists_writtenChar '"'
  have hall : List.Forall₂ (WrittenChar '"') s.toList (s.toList.map spell) :=
    List.forall₂_map_right_iff.2 (List.forall₂_same.2 fun c _ => hspell c)
  exact ⟨_, .quoted (.inl rfl) hall⟩

theorem blank_nil : Blank [] :=
  fun _ h => absurd h List.not_mem_nil

theorem exists_writtenSegment (s : Segment) : ∃ written, WrittenSegment s written := by
  cases s with
  | key k =>
    obtain ⟨written, hk⟩ := exists_writtenString k
    exact ⟨_, .key blank_nil hk blank_nil⟩
  | index i => exact ⟨_, .index i blank_nil blank_nil⟩

theorem Expressible.exists_writtenBare {e : Expr} (h : e.Expressible) :
    ∃ written, WrittenBare e written := by
  induction e with
  | literal v =>
    cases v with
    | null => exact ⟨_, .null⟩
    | bool b => exact ⟨_, .bool b⟩
    | number n =>
      cases n with
      | int n => exact ⟨_, .integer n⟩
      | double d => exact h.elim
    | string s =>
      obtain ⟨written, hs⟩ := exists_writtenString s
      exact ⟨_, .string hs⟩
    | array items => exact h.elim
    | object fields => exact h.elim
  | path root segments =>
    choose spell hspell using exists_writtenSegment
    have hall : List.Forall₂ WrittenSegment segments (segments.map spell) :=
      List.forall₂_map_right_iff.2 (List.forall₂_same.2 fun s _ => hspell s)
    exact ⟨_, .path root hall⟩
  | not inner ih =>
    obtain ⟨written, hinner⟩ := ih h
    exact ⟨_, .not blank_nil hinner⟩

/-! ## Texts -/

section

variable {quote c : Char} {spelt : List Char}

theorem readString_char (hquote : quote = '"' ∨ quote = '\'') (hc : WrittenChar quote c spelt)
    (rest : List Char) :
    readString quote (spelt ++ rest) =
      (readString quote rest).map fun p => (c :: p.1, p.2) := by
  cases hc with
  | plain hne hslash => rw [List.singleton_append, readString_cons hslash, if_neg hne]
  | escaped hc =>
    have hletter : c ≠ 'n' ∧ c ≠ 't' := by
      rcases hc with rfl | rfl
      · rcases hquote with rfl | rfl <;> decide
      · decide
    simp only [List.cons_append, List.nil_append, readString, hletter.1, hletter.2, if_false]
  | newline => simp only [List.cons_append, List.nil_append, readString, if_true]
  | tab =>
    simp only [List.cons_append, List.nil_append, readString, if_true]
    rfl

theorem readString_chars (hquote : quote = '"' ∨ quote = '\'') {s : List Char}
    {spelt : List (List Char)} (hs : List.Forall₂ (WrittenChar quote) s spelt)
    (rest : List Char) :
    readString quote (spelt.flatten ++ quote :: rest) = .ok (s, rest) := by
  induction hs with
  | nil =>
    have hslash : quote ≠ '\\' := by rcases hquote with rfl | rfl <;> decide
    rw [List.flatten_nil, List.nil_append, readString_cons hslash, if_pos rfl]
  | cons hc _ ih =>
    rw [List.flatten_cons, List.append_assoc, readString_char hquote hc, ih]
    rfl

end

/-- A text in quotes begins with its quote, and what is behind that is read to its end. -/
theorem WrittenString.eq_cons {s : String} {written : List Char} (h : WrittenString s written) :
    ∃ quote body, written = quote :: body ∧ (quote = '"' ∨ quote = '\'') ∧
      ∀ rest, readString quote (body ++ rest) = .ok (s.toList, rest) := by
  cases h with
  | @quoted quote spelt hquote hspelt =>
    refine ⟨quote, _, rfl, hquote, fun rest => ?_⟩
    rw [List.append_assoc]
    exact readString_chars hquote hspelt rest

/-! ## Numbers -/

theorem digitsValue_toDigits (n : Nat) : digitsValue (Nat.toDigits 10 n) = n := by
  have hvalue : Nat.ofDigitChars 10 (Nat.toDigits 10 n) 0 = n :=
    Nat.ofDigitChars_toDigits (by decide) (by decide)
  simpa [digitsValue, Nat.ofDigitChars_eq_foldl, Nat.mul_comm] using hvalue

theorem isDigit_of_mem_toDigits {n : Nat} {c : Char} (h : c ∈ Nat.toDigits 10 n) : c.isDigit :=
  Nat.isDigit_of_mem_toDigits (by decide) (by decide) h

theorem toDigits_eq_cons (n : Nat) :
    ∃ d ds, Nat.toDigits 10 n = d :: ds ∧ d.isDigit := by
  obtain ⟨d, ds, hcons⟩ := List.exists_cons_of_ne_nil (Nat.toDigits_ne_nil (n := n) (b := 10))
  exact ⟨d, ds, hcons, isDigit_of_mem_toDigits (hcons ▸ List.mem_cons_self)⟩

/-- The digits of a number end where no digit follows. -/
theorem span_toDigits (n : Nat) {rest : List Char} (h : Stops Char.isDigit rest) :
    (Nat.toDigits 10 n ++ rest).takeWhile Char.isDigit = Nat.toDigits 10 n ∧
      (Nat.toDigits 10 n ++ rest).dropWhile Char.isDigit = rest :=
  Prod.mk.inj (spanWhile_append (fun _ => isDigit_of_mem_toDigits) h)

theorem numberOf?_toDigits {negative : Bool} {n : Nat}
    (hn : if negative then n ≤ Number.signedEnd else n < Number.signedEnd) :
    numberOf? negative (Nat.toDigits 10 n) = some (.int (if negative then -n else n)) := by
  obtain ⟨htake, hdrop⟩ := span_toDigits n (stops_nil _)
  rw [List.append_nil] at htake hdrop
  have hne : (Nat.toDigits 10 n).isEmpty = false :=
    List.isEmpty_eq_false_iff.2 Nat.toDigits_ne_nil
  simp only [numberOf?, htake, hdrop, hne, digitsValue_toDigits]
  cases negative
  · rw [if_neg Bool.false_ne_true] at hn
    simp [hn]
  · rw [if_pos rfl] at hn
    simp [hn]

theorem readUnsigned_toDigits (negative : Bool) {n : Nat} (front : List Char)
    (hn : if negative then n ≤ Number.signedEnd else n < Number.signedEnd) :
    readUnsigned negative front (Nat.toDigits 10 n) =
      .ok (.literal (.int (if negative then -n else n)), []) := by
  have hbody : ∀ c ∈ Nat.toDigits 10 n, isNumberChar c := fun c hc => by
    simp [isNumberChar, isDigit_of_mem_toDigits hc]
  obtain ⟨htake, hdrop⟩ := Prod.mk.inj (spanWhile_append hbody (stops_nil _))
  rw [List.append_nil] at htake hdrop
  rw [readUnsigned, htake, hdrop, numberOf?_toDigits hn]
  rfl

theorem readPrimary_integer {n : Int} (hlow : -(Number.signedEnd : Int) ≤ n)
    (hhigh : n < Number.signedEnd) :
    readPrimary (Number.int n).text.toList = .ok (.literal (.int n), []) := by
  rw [Number.text, String.toList_ofList]
  by_cases hn : n < 0
  · have hread := readUnsigned_toDigits true (n := n.natAbs)
      ('-' :: Nat.toDigits 10 n.natAbs) (by simp only [if_true]; omega)
    have habs : -(n.natAbs : Int) = n := by omega
    simp only [if_true, habs] at hread
    rw [if_pos hn, List.singleton_append, readPrimary, readNumber_cons, if_pos rfl, hread]
    rfl
  · have hread := readUnsigned_toDigits false (n := n.natAbs)
      (Nat.toDigits 10 n.natAbs) (by simp only [Bool.false_eq_true, if_false]; omega)
    have habs : (n.natAbs : Int) = n := by omega
    simp only [Bool.false_eq_true, if_false, habs] at hread
    obtain ⟨d, ds, hcons, hd⟩ := toDigits_eq_cons n.natAbs
    have hquote : ¬ (d = '"' ∨ d = '\'') := by
      rintro (rfl | rfl) <;> exact absurd hd (by decide)
    have hminus : d ≠ '-' := by
      rintro rfl
      exact absurd hd (by decide)
    rw [if_neg hn, List.nil_append]
    rw [hcons] at hread ⊢
    simp only [readPrimary, readNumber_cons, hquote, hd, hminus, hread, decide_eq_true_eq,
      Bool.true_or, if_true, if_false, ← Bool.decide_or]

/-! ## Paths -/

theorem dropBlank_blank_append {before rest : List Char} (hbefore : Blank before)
    (hrest : Stops isBlank rest) : dropBlank (before ++ rest) = rest := by
  rw [dropBlank, List.dropWhile_append_of_pos hbefore, dropWhile_of_stops hrest]

theorem takeIdent_append {name rest : List Char} (hname : ∀ c ∈ name, Name.isIdentChar c)
    (hrest : Stops Name.isIdentChar rest) : takeIdent (name ++ rest) = (name, rest) :=
  spanWhile_append hname hrest

theorem isIdentChar_of_isIdentStart {c : Char} (h : Name.isIdentStart c) : Name.isIdentChar c := by
  simp only [Name.isIdentStart, Name.isIdentChar, Char.isAlphanum, Bool.or_eq_true] at h ⊢
  tauto

theorem isIdentifier_eq_cons {name : String} (h : Name.isIdentifier name) :
    ∃ c part, name.toList = c :: part ∧ Name.isIdentStart c ∧
      ∀ x ∈ name.toList, Name.isIdentChar x := by
  unfold Name.isIdentifier at h
  split at h
  · cases h
  · rename_i c part hname
    obtain ⟨hc, hpart⟩ := Bool.and_eq_true_iff.1 h
    refine ⟨c, part, hname, hc, fun x hx => ?_⟩
    rcases List.mem_cons.1 (hname ▸ hx) with rfl | hx
    · exact isIdentChar_of_isIdentStart hc
    · exact List.all_eq_true.1 hpart x hx

/-- What stands between brackets is read between the blanks. -/
theorem readSegment?_brackets {before written behind rest : List Char} {s : Segment}
    (hbefore : Blank before) (hwritten : Stops isBlank (written ++ (behind ++ ']' :: rest)))
    (hbehind : Blank behind)
    (hread : readSubscript (written ++ (behind ++ ']' :: rest)) = .ok (s, behind ++ ']' :: rest)) :
    readSegment? ('[' :: (before ++ (written ++ (behind ++ ']' :: rest)))) =
      .ok (some (s, rest)) := by
  have hclose : dropBlank (behind ++ ']' :: rest) = ']' :: rest :=
    dropBlank_blank_append hbehind (stops_cons (by decide))
  rw [readSegment?_bracket, dropBlank_blank_append hbefore hwritten, hread]
  simp only [Except.bind, hclose]

theorem readSubscript_string {k : String} {written : List Char} (hk : WrittenString k written)
    (rest : List Char) : readSubscript (written ++ rest) = .ok (.key k, rest) := by
  obtain ⟨quote, body, rfl, hquote, hread⟩ := hk.eq_cons
  simp only [List.cons_append, readSubscript, hquote, hread, decide_eq_true_eq, ← Bool.decide_or,
    if_true, Except.map, String.ofList_toList]

/-- Digits between brackets are an index if it fits sixty-four bits. -/
theorem readSubscript_digits {ds : List Char} (hdigits : ∀ d ∈ ds, d.isDigit) (hne : ds ≠ [])
    (hsize : digitsValue ds < Number.unsignedEnd) {rest : List Char}
    (hrest : Stops Char.isDigit rest) :
    readSubscript (ds ++ rest) = .ok (.index (digitsValue ds), rest) := by
  obtain ⟨htake, hdrop⟩ := Prod.mk.inj (spanWhile_append hdigits hrest)
  obtain ⟨d, ds, rfl⟩ := List.exists_cons_of_ne_nil hne
  have hd : d.isDigit := hdigits d List.mem_cons_self
  have hquote : ¬ (d = '"' ∨ d = '\'') := by
    rintro (rfl | rfl) <;> exact absurd hd (by decide)
  rw [List.cons_append] at htake hdrop ⊢
  simp only [readSubscript, hquote, hd, htake, hdrop, hsize, decide_eq_true_eq, ← Bool.decide_or,
    if_true, if_false]

theorem readSubscript_toDigits {i : Nat} (hi : i < Number.unsignedEnd) {rest : List Char}
    (hrest : Stops Char.isDigit rest) :
    readSubscript (Nat.toDigits 10 i ++ rest) = .ok (.index i, rest) := by
  have hvalue : digitsValue (Nat.toDigits 10 i) = i := digitsValue_toDigits i
  have hread := readSubscript_digits (fun _ => isDigit_of_mem_toDigits) Nat.toDigits_ne_nil
    (hvalue.symm ▸ hi) hrest
  rwa [hvalue] at hread

theorem stops_blank_quote {quote : Char} (hquote : quote = '"' ∨ quote = '\'')
    (rest : List Char) : Stops isBlank (quote :: rest) :=
  stops_cons (isBlank_of_quote (by simpa using hquote))

/-- A segment is read in front of what cannot be part of a name. -/
theorem readSegment?_written {s : Segment} {written rest : List Char}
    (hs : WrittenSegment s written) (hexpressible : ExpressibleSegment s)
    (hrest : Stops Name.isIdentChar rest) :
    readSegment? (written ++ rest) = .ok (some (s, rest)) := by
  cases hs with
  | @point k hk =>
    obtain ⟨c, part, hcons, hc, hall⟩ := isIdentifier_eq_cons hk
    have htake := takeIdent_append hall hrest
    have hname : String.ofList (c :: part) = k := by rw [← hcons, String.ofList_toList]
    rw [hcons] at htake ⊢
    rw [List.cons_append] at htake
    simp only [List.cons_append, readSegment?, hc, if_true, htake, hname]
  | @key k before written behind hbefore hk hbehind =>
    have hread := readSubscript_string hk (behind ++ ']' :: rest)
    obtain ⟨quote, body, rfl, hquote, -⟩ := hk.eq_cons
    simpa using readSegment?_brackets hbefore (stops_blank_quote hquote _) hbehind hread
  | @index before behind i hbefore hbehind =>
    obtain ⟨d, ds, hcons, hd⟩ := toDigits_eq_cons i
    have hblank : Stops isBlank (Nat.toDigits 10 i ++ (behind ++ ']' :: rest)) := by
      rw [hcons]
      exact stops_cons (isBlank_of_isDigit hd)
    have hdigits : Stops Char.isDigit (behind ++ ']' :: rest) := by
      cases behind with
      | nil => exact stops_cons (by decide)
      | cons b behind =>
        refine stops_cons ?_
        rw [Bool.eq_false_iff]
        intro h
        simpa [isBlank_of_isDigit h] using hbehind.head
    have hread := readSubscript_toDigits hexpressible hdigits
    simpa using readSegment?_brackets hbefore hblank hbehind hread

/-- A segment begins with a point or a bracket. -/
theorem WrittenSegment.eq_cons {s : Segment} {written : List Char} (h : WrittenSegment s written) :
    ∃ c cs, written = c :: cs ∧ Name.isIdentChar c = false := by
  cases h with
  | point => exact ⟨_, _, rfl, by decide⟩
  | key => exact ⟨_, _, rfl, by decide⟩
  | index => exact ⟨_, _, rfl, by decide⟩

section

variable {segments : List Segment} {spelt : List (List Char)}
  (hspelt : List.Forall₂ WrittenSegment segments spelt)

include hspelt

theorem stops_segments : Stops Name.isIdentChar spelt.flatten := by
  cases hspelt with
  | nil => exact stops_nil _
  | cons hs _ =>
    obtain ⟨c, cs, rfl, hc⟩ := hs.eq_cons
    exact stops_cons hc

theorem length_segments_le : segments.length ≤ spelt.flatten.length := by
  induction hspelt with
  | nil => exact Nat.le_refl 0
  | cons hs _ ih =>
    obtain ⟨c, cs, rfl, -⟩ := hs.eq_cons
    simp only [List.length_cons, List.flatten_cons, List.length_append]
    omega

theorem readSegments_written (hexpressible : ∀ s ∈ segments, ExpressibleSegment s) {fuel : Nat}
    (hfuel : segments.length < fuel) : readSegments fuel spelt.flatten = .ok (segments, []) := by
  induction hspelt generalizing fuel with
  | nil =>
    obtain ⟨fuel, rfl⟩ := Nat.exists_eq_add_one_of_ne_zero (Nat.ne_zero_of_lt hfuel)
    rfl
  | cons hs hspelt ih =>
    obtain ⟨fuel, rfl⟩ := Nat.exists_eq_add_one_of_ne_zero (Nat.ne_zero_of_lt hfuel)
    obtain ⟨hfirst, hothers⟩ := List.forall_mem_cons.1 hexpressible
    have hread := readSegment?_written hs hfirst (stops_segments hspelt)
    simp only [List.flatten_cons, readSegments, hread, ih hothers (Nat.lt_of_succ_lt_succ hfuel)]
    rfl

end

/-! ## Expressions -/

theorem readPrimary_string {s : String} {written : List Char} (hs : WrittenString s written) :
    readPrimary written = .ok (.literal (.string s), []) := by
  obtain ⟨quote, body, rfl, hquote, hread⟩ := hs.eq_cons
  have hbody := hread []
  rw [List.append_nil] at hbody
  simp only [readPrimary, hquote, hbody, decide_eq_true_eq, ← Bool.decide_or, if_true, Except.map,
    String.ofList_toList]

theorem isDigit_of_isIdentStart {c : Char} (h : Name.isIdentStart c) : c.isDigit = false := by
  simp only [Name.isIdentStart, Bool.or_eq_true, beq_iff_eq] at h
  rcases h with (halpha | rfl) | rfl
  · rw [Bool.eq_false_iff]
    intro hdigit
    have hdigit : 48 ≤ c.toNat ∧ c.toNat ≤ 57 := Char.isDigit_iff_toNat.1 hdigit
    have halpha := Text.toNat_of_isAlpha halpha
    omega
  · decide
  · decide

/-- A name is read as a literal if it is a word that stands for one, and else begins a path. -/
theorem readPrimary_name {name : String} (hname : Name.isIdentifier name) {rest : List Char}
    (hrest : Stops Name.isIdentChar rest) :
    readPrimary (name.toList ++ rest) =
      match keyword? name with
      | some v => .ok (.literal v, rest)
      | none => (readSegments (rest.length + 1) rest).map fun p => (.path name p.1, p.2) := by
  obtain ⟨c, part, hcons, hc, hall⟩ := isIdentifier_eq_cons hname
  have htake := takeIdent_append hall hrest
  have hquote : ¬ (c = '"' ∨ c = '\'') := by
    rintro (rfl | rfl) <;> exact absurd hc (by decide)
  have hminus : c ≠ '-' := by
    rintro rfl
    exact absurd hc (by decide)
  have hword : String.ofList (c :: part) = name := by rw [← hcons, String.ofList_toList]
  rw [hcons] at htake ⊢
  rw [List.cons_append] at htake ⊢
  cases hkeyword : keyword? name <;>
    simp only [readPrimary, hquote, isDigit_of_isIdentStart hc, hminus, hc, htake, hword, hkeyword,
      ← Bool.decide_or, decide_false, Bool.or_false, Bool.false_eq_true, if_true, if_false]

theorem keyword?_eq_none {name : String} (h : name ∉ keywords) : keyword? name = none := by
  simp only [keywords, List.mem_cons, List.not_mem_nil, or_false, not_or] at h
  simp [keyword?, h]

/-- A negation is in front of what is read behind it. -/
theorem readUnary_not {gap : List Char} (hgap : Blank gap) (cs : List Char) :
    readUnary ('!' :: (gap ++ cs)) = (readUnary cs).map fun p => (.not p.1, p.2) := by
  have hskip : readNegations (gap ++ cs) = readNegations cs := by
    rw [← readNegations_dropBlank, dropBlank, List.dropWhile_append_of_pos hgap]
    exact readNegations_dropBlank cs
  have hblank : isBlank '!' = false := by decide
  simp only [readUnary, readNegations, hblank, Bool.false_eq_true, if_false, if_true, hskip]
  cases readPrimary (readNegations cs).2 <;> rfl

/-- What is no negation is read as a literal or a path. -/
theorem readUnary_primary {c : Char} (hblank : isBlank c = false) (hnot : c ≠ '!')
    (cs : List Char) : readUnary (c :: cs) = readPrimary (c :: cs) := by
  simp only [readUnary, readNegations, hblank, hnot, Bool.false_eq_true, if_false]
  cases readPrimary (c :: cs) <;> rfl

theorem readUnary_name {name : String} (hname : Name.isIdentifier name) (rest : List Char) :
    readUnary (name.toList ++ rest) = readPrimary (name.toList ++ rest) := by
  obtain ⟨c, part, hcons, hc, -⟩ := isIdentifier_eq_cons hname
  rw [hcons, List.cons_append]
  refine readUnary_primary (isBlank_of_isIdentStart hc) ?_ _
  rintro rfl
  exact absurd hc (by decide)

/-- A word that stands for a literal. -/
theorem readUnary_keyword {name : String} {v : Value} (hname : Name.isIdentifier name)
    (hv : keyword? name = some v) : readUnary name.toList = .ok (.literal v, []) := by
  have hread := readPrimary_name hname (stops_nil _)
  have hskip := readUnary_name hname []
  rw [List.append_nil] at hread hskip
  rw [hskip, hread, hv]

theorem readUnary_written {e : Expr} {written : List Char} (he : WrittenBare e written)
    (hexpressible : e.Expressible) : readUnary written = .ok (e, []) := by
  induction he with
  | null => exact readUnary_keyword (by decide) rfl
  | bool b => cases b <;> exact readUnary_keyword (by decide) rfl
  | integer n =>
    have hread := readPrimary_integer hexpressible.1 hexpressible.2
    have hcons : ∃ c cs, (Number.int n).text.toList = c :: cs ∧ (c = '-' ∨ c.isDigit) := by
      obtain ⟨d, ds, hdigits, hd⟩ := toDigits_eq_cons n.natAbs
      rw [Number.text, String.toList_ofList, hdigits]
      by_cases hn : n < 0
      · rw [if_pos hn]
        exact ⟨_, _, rfl, .inl rfl⟩
      · rw [if_neg hn]
        exact ⟨_, _, rfl, .inr hd⟩
    obtain ⟨c, cs, hcons, hc⟩ := hcons
    rw [hcons] at hread ⊢
    rw [readUnary_primary _ _ cs, hread]
    · rcases hc with rfl | hc
      · decide
      · exact isBlank_of_isDigit hc
    · rintro rfl
      exact absurd hc (by decide)
  | string hs =>
    have hread := readPrimary_string hs
    obtain ⟨quote, body, rfl, hquote, -⟩ := hs.eq_cons
    rw [readUnary_primary _ _ body, hread]
    · exact isBlank_of_quote (by simpa using hquote)
    · rcases hquote with rfl | rfl <;> decide
  | path root hspelt =>
    obtain ⟨hroot, hkeyword, hsegments⟩ := hexpressible
    have hlength := length_segments_le hspelt
    rw [readUnary_name hroot, readPrimary_name hroot (stops_segments hspelt),
      keyword?_eq_none hkeyword, readSegments_written hspelt hsegments (Nat.lt_succ_of_le hlength)]
    rfl
  | not hgap _ ih =>
    rw [readUnary_not hgap, ih hexpressible]
    rfl

theorem Expressible.exists_written {e : Expr} (h : e.Expressible) : ∃ src, Written e src := by
  obtain ⟨written, he⟩ := h.exists_writtenBare
  exact ⟨String.ofList written, .spaced blank_nil he blank_nil (by simp)⟩

theorem parse_eq_ok_iff {src : String} {e : Expr} :
    parse src = .ok e ↔ readAll src.toList = .ok e := by
  have hread := toOption_parse src
  cases hparse : parse src <;> cases hall : readAll src.toList <;>
    simp_all [Except.toOption]

theorem parse_of_written {e : Expr} (h : e.Expressible) {src : String} (hw : Written e src) :
    parse src = .ok e := by
  obtain ⟨hbefore, he, hbehind, hsrc⟩ := hw
  rename_i before written behind
  have hread : readAll written = .ok e := by
    simp only [readAll, readUnary_written he h]
    rfl
  have hfollows := readAll_append hbehind written
  rw [hread] at hfollows
  rw [parse_eq_ok_iff, hsrc, ← readAll_dropBlank, dropBlank, List.dropWhile_append_of_pos hbefore,
    ← dropBlank, readAll_dropBlank]
  generalize readAll (written ++ behind) = long at hfollows
  cases hfollows
  rfl

/-- Every expression that can be written has a text, and each of its texts is read as that
expression. -/
theorem parse_written (e : Expr) (h : e.Expressible) :
    (∃ src, Written e src) ∧ ∀ src, Written e src → parse src = .ok e :=
  ⟨h.exists_written, fun _ => parse_of_written h⟩

/-- A negated path with a quote in a key, the greatest index and blanks of several kinds. -/
theorem parse_written_negatedPath :
    (Expr.not (.path "a" [.key "it's", .index 18446744073709551615])).Expressible ∧
      Written (.not (.path "a" [.key "it's", .index 18446744073709551615]))
        "\u00a0! a['it\\'s'][\t18446744073709551615 ]\n" ∧
      parse "\u00a0! a['it\\'s'][\t18446744073709551615 ]\n" =
        .ok (.not (.path "a" [.key "it's", .index 18446744073709551615])) := by
  have hexpressible :
      (Expr.not (.path "a" [.key "it's", .index 18446744073709551615])).Expressible := by
    refine ⟨by decide, by decide, List.forall_mem_cons.2 ⟨trivial, ?_⟩⟩
    exact List.forall_mem_singleton.2 (by decide : 18446744073709551615 < Number.unsignedEnd)
  have hblank (c : Char) (hc : isBlank c) : Blank [c] := List.forall_mem_singleton.2 hc
  have hkey : WrittenString "it's" ('\'' :: ([['i'], ['t'], ['\\', '\''], ['s']].flatten ++ ['\''])) :=
    .quoted (.inr rfl) <|
      .cons (.plain (by decide) (by decide)) <| .cons (.plain (by decide) (by decide)) <|
        .cons (.escaped (.inl rfl)) <| .cons (.plain (by decide) (by decide)) .nil
  have hwritten : Written (.not (.path "a" [.key "it's", .index 18446744073709551615]))
      "\u00a0! a['it\\'s'][\t18446744073709551615 ]\n" :=
    .spaced (hblank '\u00a0' (by decide))
      (.not (hblank ' ' (by decide)) <| .path "a" <|
        .cons (.key blank_nil hkey blank_nil) <|
          .cons (.index _ (hblank '\t' (by decide)) (hblank ' ' (by decide))) .nil)
      (hblank '\n' (by decide)) (by decide +kernel)
  exact ⟨hexpressible, hwritten, (parse_written _ hexpressible).2 _ hwritten⟩

end ViewTree.Expr
