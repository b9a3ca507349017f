import Mathlib.Data.List.Basic
import Mathlib.Data.List.TakeWhile
import ViewTree.Proofs.Template.Numerals
/-!
# Character references

A text may have characters written as references: by their number, in decimal or hexadecimal
digits, or by one of six names. Decoding gives back the characters, however each of them is
written, and leaves what only looks like a reference alone (`decodeText_written`). What a
reference stands for is not read again, and no reference reaches over an ampersand, so a reference
is decoded alike whatever text it stands in.
-/

namespace ViewTree.Template

/-- The names that stand for characters. -/
def characterNames : List (String × Char) :=
  [("lt", '<'), ("gt", '>'), ("amp", '&'), ("quot", '"'), ("apos", '\''), ("nbsp", '\u00a0')]

/-- What stands between the ampersand and the semicolon of a reference to the character. -/
inductive RefersTo (c : Char) : List Char → Prop where
  | decimal {ds : List Char} (h : WritesNumber 10 c.toNat ds) : RefersTo c ('#' :: ds)
  | hexadecimal {x : Char} {ds : List Char} (hx : x = 'x' ∨ x = 'X')
      (h : WritesNumber 16 c.toNat ds) : RefersTo c ('#' :: x :: ds)
  | named {name : String} (h : (name, c) ∈ characterNames) : RefersTo c name.toList

/-- A reference, from the ampersand to the semicolon. -/
def reference (body : List Char) : List Char :=
  '&' :: (body ++ [';'])

/-- The ways to write a character in a text: as it is, but for the ampersand, or as a reference. -/
inductive WritesChar (c : Char) : List Char → Prop where
  | literal (h : c ≠ '&') : WritesChar c [c]
  | reference {body : List Char} (h : RefersTo c body) : WritesChar c (reference body)

/-! ## What stands in a reference -/

/-- A name is made of letters. -/
theorem letters_of_mem_characterNames {name : String} {c : Char}
    (h : (name, c) ∈ characterNames) : name.toList ≠ [] ∧ ∀ d ∈ name.toList, d.isAlpha := by
  have hall : characterNames.all fun p => !p.1.toList.isEmpty && p.1.toList.all Char.isAlpha := by
    decide
  simpa using List.all_eq_true.1 hall _ h

theorem isHexDigit_of_writesNumber {base n : Nat} {ds : List Char} {d : Char} (hone : 1 < base)
    (hbase : base ≤ 16) (h : WritesNumber base n ds) (hd : d ∈ ds) : isHexDigit d :=
  (((writesNumber_iff hone hbase).1 h).2.1 d hd).1

/-- What the characters of a reference can be. -/
theorem RefersTo.mem {c d : Char} {body : List Char} (h : RefersTo c body) (hd : d ∈ body) :
    d ∈ ['#', 'x', 'X'] ∨ isHexDigit d ∨ d.isAlpha := by
  cases h with
  | decimal h =>
    rcases List.mem_cons.1 hd with rfl | hd
    · exact .inl (by decide)
    · exact .inr (.inl (isHexDigit_of_writesNumber (by omega) (by omega) h hd))
  | hexadecimal hx h =>
    rcases List.mem_cons.1 hd with rfl | hd
    · exact .inl (by decide)
    · rcases List.mem_cons.1 hd with rfl | hd
      · rcases hx with rfl | rfl
        · exact .inl (by decide)
        · exact .inl (by decide)
      · exact .inr (.inl (isHexDigit_of_writesNumber (by omega) (by omega) h hd))
  | named h => exact .inr (.inr ((letters_of_mem_characterNames h).2 d hd))

/-- Another reference begins only behind this one, and the first semicolon is its own. -/
theorem RefersTo.notMem {c : Char} {body : List Char} (h : RefersTo c body) :
    '&' ∉ body ∧ ';' ∉ body :=
  ⟨fun hd => absurd (h.mem hd) (by decide), fun hd => absurd (h.mem hd) (by decide)⟩

/-! ## Reading a reference -/

/-- Reads a run of characters up to a semicolon, if it has a value. -/
def readRun (p : Char → Bool) (value : List Char → Option Char) (cs : List Char) :
    Option (Char × List Char) :=
  let ds := cs.takeWhile p
  if ds.isEmpty then none
  else do
    let rest ← afterSemicolon? (cs.dropWhile p)
    let c ← value ds
    some (c, rest)

theorem entity?_eq (cs : List Char) :
    entity? cs =
      match cs with
      | '#' :: 'x' :: cs => readRun isHexDigit (fun ds => charOf? (digitsIn 16 ds)) cs
      | '#' :: 'X' :: cs => readRun isHexDigit (fun ds => charOf? (digitsIn 16 ds)) cs
      | '#' :: cs => readRun Char.isDigit (fun ds => charOf? (digitsIn 10 ds)) cs
      | cs => readRun Char.isAlpha (fun ds => namedChar? (String.ofList ds)) cs :=
  rfl

section

variable {p : Char → Bool} {value : List Char → Option Char} {cs ds rest : List Char} {c : Char}

theorem afterSemicolon?_eq_some_iff : afterSemicolon? cs = some rest ↔ cs = ';' :: rest := by
  unfold afterSemicolon?
  split
  · simp
  · rename_i hne
    exact iff_of_false nofun fun heq => hne rest heq

/-- What is read is a run with a value, and the semicolon behind it. -/
theorem readRun_eq_some_iff (hp : p ';' = false) :
    readRun p value cs = some (c, rest) ↔
      ∃ ds, ds ≠ [] ∧ (∀ d ∈ ds, p d) ∧ value ds = some c ∧ cs = ds ++ ';' :: rest := by
  constructor
  · intro h
    simp only [readRun, Option.ite_none_left_eq_some, Option.bind_eq_bind,
      Option.bind_eq_some_iff, List.isEmpty_iff, Option.some.injEq, Prod.mk.injEq,
      afterSemicolon?_eq_some_iff] at h
    obtain ⟨hne, rest, hrest, c, hvalue, rfl, rfl⟩ := h
    refine ⟨_, hne, fun d hd => List.mem_takeWhile_imp hd, hvalue, ?_⟩
    rw [← hrest, List.takeWhile_append_dropWhile]
  · rintro ⟨ds, hne, hds, hvalue, rfl⟩
    have hstop : ¬ p ';' := by simp [hp]
    have htake : (ds ++ ';' :: rest).takeWhile p = ds := by
      rw [List.takeWhile_append_of_pos hds, List.takeWhile_cons_of_neg hstop, List.append_nil]
    have hdrop : (ds ++ ';' :: rest).dropWhile p = ';' :: rest := by
      rw [List.dropWhile_append_of_pos hds, List.dropWhile_cons_of_neg hstop]
    simp [readRun, htake, hdrop, hne, hvalue, afterSemicolon?]

theorem charOf?_eq_some_iff {n : Nat} : charOf? n = some c ↔ c.toNat = n := by
  constructor
  · intro h
    obtain ⟨_, hchar⟩ := Option.dite_none_right_eq_some.1 h
    cases hchar
    rfl
  · rintro rfl
    exact dif_pos c.valid

theorem namedChar?_eq_some_iff {name : String} :
    namedChar? name = some c ↔ (name, c) ∈ characterNames := by
  constructor
  · intro h
    unfold namedChar? at h
    split at h
    case h_7 => cases h
    all_goals
      cases h
      simp [characterNames]
  · intro h
    simp only [characterNames, List.mem_cons, Prod.mk.injEq, List.not_mem_nil, or_false] at h
    rcases h with h | h | h | h | h | h
    all_goals
      obtain ⟨rfl, rfl⟩ := h
      rfl

/-- Where a run of digits is read, it is the number of a character. -/
theorem readRun_number {base : Nat} (hone : 1 < base) (hbase : base ≤ 16)
    (hp : ∀ {d}, IsDigitOf base d ↔ p d) :
    readRun p (fun ds => charOf? (digitsIn base ds)) cs = some (c, rest) ↔
      ∃ ds, WritesNumber base c.toNat ds ∧ cs = ds ++ ';' :: rest := by
  have hsemicolon : p ';' = false :=
    Bool.eq_false_iff.2 fun h => absurd (hp.2 h).1 (by decide)
  simp only [readRun_eq_some_iff hsemicolon, charOf?_eq_some_iff, writesNumber_iff hone hbase, hp,
    and_assoc, @eq_comm _ c.toNat]

/-- Where a run of letters is read, it is the name of a character. -/
theorem readRun_name :
    readRun Char.isAlpha (fun ds => namedChar? (String.ofList ds)) cs = some (c, rest) ↔
      ∃ name, (name, c) ∈ characterNames ∧ cs = name.toList ++ ';' :: rest := by
  simp only [readRun_eq_some_iff (p := Char.isAlpha) (by decide), namedChar?_eq_some_iff]
  constructor
  · rintro ⟨ds, -, -, hmem, rfl⟩
    exact ⟨_, hmem, by rw [String.toList_ofList]⟩
  · rintro ⟨name, hmem, rfl⟩
    obtain ⟨hne, hletters⟩ := letters_of_mem_characterNames hmem
    exact ⟨name.toList, hne, hletters, by rwa [String.ofList_toList], rfl⟩

theorem readRun_decimal :
    readRun Char.isDigit (fun ds => charOf? (digitsIn 10 ds)) cs = some (c, rest) ↔
      ∃ ds, WritesNumber 10 c.toNat ds ∧ cs = ds ++ ';' :: rest :=
  readRun_number (by omega) (by omega) isDigitOf_ten

theorem readRun_hexadecimal :
    readRun isHexDigit (fun ds => charOf? (digitsIn 16 ds)) cs = some (c, rest) ↔
      ∃ ds, WritesNumber 16 c.toNat ds ∧ cs = ds ++ ';' :: rest :=
  readRun_number (by omega) (by omega) isDigitOf_sixteen

theorem entity?_decimal (hlower : cs.head? ≠ some 'x') (hupper : cs.head? ≠ some 'X') :
    entity? ('#' :: cs) = readRun Char.isDigit (fun ds => charOf? (digitsIn 10 ds)) cs := by
  rw [entity?_eq]
  split
  · simp_all
  · simp_all
  · simp_all
  · simp_all

theorem entity?_named (h : cs.head? ≠ some '#') :
    entity? cs = readRun Char.isAlpha (fun ds => namedChar? (String.ofList ds)) cs := by
  rw [entity?_eq]
  split
  · simp at h
  · simp at h
  · simp at h
  · rfl

/-- A reference is read as the character that it refers to, and only a reference is. -/
theorem entity?_eq_some_iff :
    entity? cs = some (c, rest) ↔ ∃ body, RefersTo c body ∧ cs = body ++ ';' :: rest := by
  constructor
  · intro h
    rw [entity?_eq] at h
    split at h
    · obtain ⟨ds, hds, rfl⟩ := readRun_hexadecimal.1 h
      exact ⟨_, .hexadecimal (.inl rfl) hds, rfl⟩
    · obtain ⟨ds, hds, rfl⟩ := readRun_hexadecimal.1 h
      exact ⟨_, .hexadecimal (.inr rfl) hds, rfl⟩
    · obtain ⟨ds, hds, rfl⟩ := readRun_decimal.1 h
      exact ⟨_, .decimal hds, rfl⟩
    · obtain ⟨name, hname, rfl⟩ := readRun_name.1 h
      exact ⟨_, .named hname, rfl⟩
  · rintro ⟨body, hbody, rfl⟩
    cases hbody with
    | decimal h =>
      obtain ⟨hne, hds, -⟩ := (writesNumber_iff (by omega) (by omega)).1 h
      obtain ⟨d, ds, rfl⟩ := List.exists_cons_of_ne_nil hne
      have hd := isDigitOf_ten.1 (hds d List.mem_cons_self)
      rw [List.cons_append, entity?_decimal]
      · exact readRun_decimal.2 ⟨_, h, rfl⟩
      all_goals
        rintro ⟨⟩
        exact absurd hd (by decide)
    | hexadecimal hx h =>
      rcases hx with rfl | rfl
      · exact readRun_hexadecimal.2 ⟨_, h, rfl⟩
      · exact readRun_hexadecimal.2 ⟨_, h, rfl⟩
    | named h =>
      obtain ⟨hne, hletters⟩ := letters_of_mem_characterNames h
      obtain ⟨d, ds, hcons⟩ := List.exists_cons_of_ne_nil hne
      rw [entity?_named]
      · exact readRun_name.2 ⟨_, h, rfl⟩
      · rw [hcons]
        rintro ⟨⟩
        exact absurd (hletters '#' (hcons ▸ List.mem_cons_self)) (by decide)

theorem refersTo_iff {body : List Char} :
    RefersTo c body ↔ entity? (body ++ [';']) = some (c, []) := by
  rw [entity?_eq_some_iff]
  constructor
  · exact fun h => ⟨body, h, rfl⟩
  · rintro ⟨other, hother, heq⟩
    exact List.append_cancel_right heq ▸ hother

instance (c : Char) (body : List Char) : Decidable (RefersTo c body) :=
  decidable_of_iff _ refersTo_iff.symm

end

/-! ## Decoding -/

/-- The text with its references decoded. -/
def decoded (cs : List Char) : List Char :=
  decodeChars cs.length cs

theorem decodeText_eq (text : String) : decodeText text = String.ofList (decoded text.toList) :=
  rfl

section

variable {c : Char} {cs body : List Char}

/-- Enough fuel decodes the whole text. -/
theorem decodeChars_eq {m n : Nat} (hm : cs.length ≤ m) (hn : cs.length ≤ n) :
    decodeChars m cs = decodeChars n cs := by
  induction m generalizing n cs with
  | zero =>
    rw [List.length_eq_zero_iff.1 (Nat.le_zero.1 hm)]
    cases n <;> rfl
  | succ m ih =>
    cases cs with
    | nil => cases n <;> rfl
    | cons c cs =>
      obtain ⟨n, rfl⟩ := Nat.exists_eq_add_one.2 (Nat.lt_of_lt_of_le (Nat.succ_pos _) hn)
      have hm := Nat.le_of_succ_le_succ hm
      have hn := Nat.le_of_succ_le_succ hn
      rw [decodeChars, decodeChars, ih hm hn]
      cases hread : entity? cs with
      | none => rfl
      | some read =>
        obtain ⟨d, rest⟩ := read
        obtain ⟨body, -, rfl⟩ := entity?_eq_some_iff.1 hread
        rw [List.length_append, List.length_cons] at hm hn
        have hrest : decodeChars m rest = decodeChars n rest := ih (by omega) (by omega)
        simp only [hrest]

theorem decoded_cons (c : Char) (cs : List Char) :
    decoded (c :: cs) =
      if c = '&' then
        match entity? cs with
        | some (d, rest) => d :: decoded rest
        | none => c :: decoded cs
      else c :: decoded cs := by
  rw [decoded, List.length_cons, decodeChars]
  cases hread : entity? cs with
  | none => rfl
  | some read =>
    obtain ⟨d, rest⟩ := read
    obtain ⟨body, -, rfl⟩ := entity?_eq_some_iff.1 hread
    have hle : rest.length ≤ (body ++ ';' :: rest).length := by
      rw [List.length_append, List.length_cons]
      omega
    simp only [decodeChars_eq hle le_rfl, decoded]

theorem decoded_literal (h : c ≠ '&') (cs : List Char) : decoded (c :: cs) = c :: decoded cs := by
  rw [decoded_cons, if_neg h]

/-- Decoding goes on behind a reference. -/
theorem decoded_reference (h : RefersTo c body) (cs : List Char) :
    decoded (reference body ++ cs) = c :: decoded cs := by
  have hread : entity? (body ++ ';' :: cs) = some (c, cs) := entity?_eq_some_iff.2 ⟨body, h, rfl⟩
  rw [reference, List.cons_append, List.append_assoc, List.singleton_append, decoded_cons,
    if_pos rfl, hread]

theorem WritesChar.decoded_append {spelling : List Char} (h : WritesChar c spelling)
    (cs : List Char) : decoded (spelling ++ cs) = c :: decoded cs := by
  cases h with
  | literal h => exact decoded_literal h cs
  | reference h => exact decoded_reference h cs

theorem decoded_append_of_notMem {text : List Char} (h : '&' ∉ text) (cs : List Char) :
    decoded (text ++ cs) = text ++ decoded cs := by
  induction text with
  | nil => rfl
  | cons c text ih =>
    obtain ⟨hc, htext⟩ := not_or.1 (mt List.mem_cons.2 h)
    rw [List.cons_append, decoded_literal (Ne.symm hc), ih htext, List.cons_append]

theorem takeWhile_semicolon {text : List Char} (h : ';' ∉ text) (rest : List Char) :
    (text ++ ';' :: rest).takeWhile (· ≠ ';') = text := by
  have hall : ∀ d ∈ text, decide (d ≠ ';') := fun d hd =>
    decide_eq_true fun heq => h (heq ▸ hd)
  rw [List.takeWhile_append_of_pos hall, List.takeWhile_cons_of_neg (by decide), List.append_nil]

/-- What is no reference stays, and what stands behind it is decoded. -/
theorem decoded_unread (hamp : '&' ∉ body) (hsemicolon : ';' ∉ body)
    (h : ∀ c, ¬ RefersTo c body) (cs : List Char) :
    decoded (reference body ++ cs) = reference body ++ decoded cs := by
  have hread : entity? (body ++ ';' :: cs) = none := by
    rw [Option.eq_none_iff_forall_ne_some]
    rintro ⟨c, rest⟩ hread
    obtain ⟨other, hother, heq⟩ := entity?_eq_some_iff.1 hread
    -- Both bodies end at the first semicolon.
    have hbody := takeWhile_semicolon hother.notMem.2 rest
    rw [← heq, takeWhile_semicolon hsemicolon] at hbody
    exact h c (hbody ▸ hother)
  rw [reference, List.cons_append, List.append_assoc, List.singleton_append, decoded_cons,
    if_pos rfl, hread, decoded_append_of_notMem hamp, decoded_literal (by decide)]
  simp

/-- No reference reaches over an ampersand. -/
theorem entity?_append_ampersand (front cs : List Char) :
    entity? (front ++ '&' :: cs) =
      (entity? front).map fun (c, rest) => (c, rest ++ '&' :: cs) := by
  cases hread : entity? front with
  | some read =>
    obtain ⟨c, rest⟩ := read
    obtain ⟨body, hbody, rfl⟩ := entity?_eq_some_iff.1 hread
    exact entity?_eq_some_iff.2 ⟨body, hbody, by rw [List.append_assoc, List.cons_append]⟩
  | none =>
    have hnone {c : Char} {body : List Char} (hbody : RefersTo c body) (rest : List Char) :
        front ≠ (body ++ [';']) ++ rest := by
      rintro rfl
      rw [entity?_eq_some_iff.2 ⟨body, hbody, List.append_assoc ..⟩] at hread
      cases hread
    rw [Option.map_none, Option.eq_none_iff_forall_ne_some]
    rintro ⟨c, rest⟩ hlonger
    obtain ⟨body, hbody, heq⟩ := entity?_eq_some_iff.1 hlonger
    rw [List.append_cons body, List.append_eq_append_iff] at heq
    rcases heq with ⟨as, hspan, has⟩ | ⟨bs, hfront, -⟩
    · cases as with
      | nil => exact hnone hbody [] (by simp [hspan])
      | cons a as =>
        cases has
        have hmem : '&' ∈ body ++ [';'] := hspan ▸ by simp
        exact hbody.notMem.1 ((List.mem_append.1 hmem).resolve_right (by decide))
    · exact hnone hbody bs hfront

/-- What stands in front of an ampersand is decoded as if it stood alone. -/
theorem decoded_append_ampersand (front cs : List Char) :
    decoded (front ++ '&' :: cs) = decoded front ++ decoded ('&' :: cs) := by
  induction hlength : front.length using Nat.strongRecOn generalizing front with
  | ind n ih =>
    subst hlength
    cases front with
    | nil => rfl
    | cons c front =>
      have hfront := ih front.length (Nat.lt_succ_self _) front rfl
      rw [List.cons_append, decoded_cons, decoded_cons c front]
      split
      · rw [entity?_append_ampersand]
        cases hread : entity? front with
        | none => exact congrArg (c :: ·) hfront
        | some read =>
          obtain ⟨d, rest⟩ := read
          obtain ⟨body, -, rfl⟩ := entity?_eq_some_iff.1 hread
          have hlt : rest.length < (c :: (body ++ ';' :: rest)).length := by
            simp only [List.length_cons, List.length_append]
            omega
          exact congrArg (d :: ·) (ih _ hlt rest rfl)
      · exact congrArg (c :: ·) hfront

end

theorem decoded_spellings {cs : List Char} {spellings : List (List Char)}
    (h : List.Forall₂ WritesChar cs spellings) : decoded spellings.flatten = cs := by
  induction h with
  | nil => rfl
  | cons hc _ ih => rw [List.flatten_cons, hc.decoded_append, ih]

/-- However its characters are written, a text is read back; and what stands where a reference
might, but refers to nothing, is left as it is, with the texts on both its sides decoded as ever. -/
theorem decodeText_written :
    (∀ (s : String) (spellings : List (List Char)),
      List.Forall₂ WritesChar s.toList spellings →
        decodeText (String.ofList spellings.flatten) = s) ∧
    (∀ body : List Char, '&' ∉ body → ';' ∉ body → (∀ c, ¬ RefersTo c body) →
      ∀ before after : String,
        decodeText (before ++ String.ofList (reference body) ++ after) =
          decodeText before ++ String.ofList (reference body) ++ decodeText after) := by
  refine ⟨fun s spellings h => ?_, fun body hamp hsemicolon hnone before after => ?_⟩
  · rw [decodeText_eq, String.toList_ofList, decoded_spellings h, String.ofList_toList]
  · have hdecoded : decoded (before.toList ++ (reference body ++ after.toList)) =
        decoded before.toList ++ (reference body ++ decoded after.toList) :=
      calc decoded (before.toList ++ (reference body ++ after.toList))
        _ = decoded before.toList ++ decoded (reference body ++ after.toList) :=
          decoded_append_ampersand _ _
        _ = decoded before.toList ++ (reference body ++ decoded after.toList) := by
          rw [decoded_unread hamp hsemicolon hnone]
    simp only [decodeText_eq, String.toList_append, String.toList_ofList,
      hdecoded, String.ofList_append, String.append_assoc]

/-- An ampersand that is written as a reference begins none, and a surrogate is no character. -/
theorem decodeText_written_surrogate :
    decodeText "&amp;lt;&#X0000e9;" = "&lt;é" ∧
      decodeText ("&lt;" ++ "&#xD800;" ++ "&#38;gt;") =
        decodeText "&lt;" ++ "&#xD800;" ++ decodeText "&#38;gt;" := by
  have hspellings : List.Forall₂ WritesChar "&lt;é".toList
      [reference "amp".toList, ['l'], ['t'], [';'], reference "#X0000e9".toList] := by
    refine .cons (.reference ?_) (.cons (.literal ?_) (.cons (.literal ?_)
      (.cons (.literal ?_) (.cons (.reference ?_) .nil))))
    all_goals decide
  have hsurrogate (c : Char) : ¬ RefersTo c "#xD800".toList := by
    rw [refersTo_iff]
    exact nofun
  have hwritten : "&amp;lt;&#X0000e9;" = String.ofList
      [reference "amp".toList, ['l'], ['t'], [';'], reference "#X0000e9".toList].flatten := by
    rfl
  have hlookalike : "&#xD800;" = String.ofList (reference "#xD800".toList) := by
    rfl
  rw [hwritten, hlookalike]
  exact ⟨decodeText_written.1 _ _ hspellings,
    decodeText_written.2 "#xD800".toList (by decide) (by decide) hsurrogate _ _⟩

end ViewTree.Template
