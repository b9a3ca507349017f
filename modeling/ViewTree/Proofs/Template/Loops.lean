import ViewTree.Proofs.Markup.Scanning
import ViewTree.Proofs.Text.Separated
import ViewTree.Template.Loop
/-!
# Loop expressions, written and read

A loop expression has a list of names, a keyword and a source, with blanks around each of them
(`Writes`). What is read from it is what was written (`parse?_writes`).

The reader takes the first keyword with blanks around it. No name is one, so it gets past the names
(`Listed.passes`), and it never looks into the source. The commas are between the names only, so the
names are the pieces between them (`Joined.map_trimmed_splitOn`).
-/

namespace ViewTree.Template.LoopExpr

open Markup (Stops stops_cons stops_append stops_append_of_ne_nil dropWhile_of_stops)
open Text

/-! ## What is written -/

/-- The words between the names and the source. -/
def keywords : List String :=
  ["in", "of"]

/-- The characters that no name has. -/
def reserved : List Char :=
  [',', '[', ']', '\x7b', '\x7d', '(', ')']

/-- A name that a loop introduces. -/
structure IsName (name : String) : Prop where
  ne_empty : name ≠ ""
  nonblank : ∀ c ∈ name.toList, isBlank c = false
  unreserved : ∀ c ∈ name.toList, c ∉ reserved
  ne_keyword : name ∉ keywords

instance (name : String) : Decidable (IsName name) :=
  decidable_of_iff
    (name ≠ "" ∧ (name.toList.all fun c => !isBlank c) ∧ (name.toList.all fun c => c ∉ reserved) ∧
      name ∉ keywords) <| by
    simp only [List.all_eq_true, Bool.not_eq_true', decide_eq_true_eq]
    exact ⟨fun ⟨h₁, h₂, h₃, h₄⟩ => ⟨h₁, h₂, h₃, h₄⟩, fun ⟨h₁, h₂, h₃, h₄⟩ => ⟨h₁, h₂, h₃, h₄⟩⟩

theorem IsName.notMem {name : String} (h : IsName name) {c : Char} (hc : c ∈ reserved) :
    c ∉ name.toList :=
  fun hmem => h.unreserved c hmem hc

/-- Names with a comma between any two, and blanks around the commas. -/
inductive Joined : List String → List Char → Prop
  | one {name : String} (hname : IsName name) : Joined [name] name.toList
  | more {name : String} {names : List String} {front behind cs : List Char} (hname : IsName name)
      (hfront : Blank front) (hbehind : Blank behind) (h : Joined names cs) :
      Joined (name :: names) (name.toList ++ (front ++ ',' :: (behind ++ cs)))

/-- Names, with or without parentheses around them. -/
inductive Listed (names : List String) : List Char → Prop
  | bare {cs : List Char} (h : Joined names cs) : Listed names cs
  | parens {front cs behind : List Char} (hfront : Blank front) (h : Joined names cs)
      (hbehind : Blank behind) : Listed names ('(' :: (front ++ (cs ++ (behind ++ [')']))))

/-- The names that a loop introduces. -/
def names (l : LoopExpr) : List String :=
  l.item :: (l.key.toList ++ l.index.toList)

theorem Joined.isName {names : List String} {cs : List Char} (h : Joined names cs) :
    ∀ name ∈ names, IsName name := by
  induction h with
  | one hname => exact List.forall_mem_singleton.2 hname
  | more hname _ _ _ ih => exact List.forall_mem_cons.2 ⟨hname, ih⟩

theorem Listed.isName {names : List String} {cs : List Char} (h : Listed names cs) :
    ∀ name ∈ names, IsName name := by
  cases h with
  | bare h => exact h.isName
  | parens _ h => exact h.isName

/-- A loop expression with blanks around its parts, of which there are some on both sides of the
keyword. -/
structure Writes (l : LoopExpr) (expr : String) : Prop where
  index_key : l.index.isSome → l.key.isSome
  source_ne : l.source ≠ ""
  source_trimmed : Trimmed l.source.toList
  written : ∃ lead left before keyword after trail,
    expr.toList = lead ++ (left ++ (before ++
      (keyword.toList ++ (after ++ (l.source.toList ++ trail))))) ∧
    Listed l.names left ∧ keyword ∈ keywords ∧ before ≠ [] ∧ after ≠ [] ∧
      Blank lead ∧ Blank before ∧ Blank after ∧ Blank trail

/-! ## The keyword -/

theorem afterWord?_eq_some_iff {cs right : List Char} :
    afterWord? cs = some right ↔
      ∃ keyword ∈ keywords, ∃ b, isBlank b ∧ cs = keyword.toList ++ b :: right := by
  constructor
  · intro h
    unfold afterWord? at h
    split at h
    · rename_i c rest
      split at h
      · rename_i hc
        cases h
        exact ⟨"in", by decide, c, hc, rfl⟩
      · cases h
    · rename_i c rest
      split at h
      · rename_i hc
        cases h
        exact ⟨"of", by decide, c, hc, rfl⟩
      · cases h
    · cases h
  · rintro ⟨keyword, hkeyword, b, hb, rfl⟩
    rcases List.mem_pair.1 hkeyword with rfl | rfl
    · exact if_pos hb
    · exact if_pos hb

/-- A name is no keyword, whatever but a letter stands behind it. -/
theorem IsName.afterWord?_eq_none {name : String} (h : IsName name) {rest : List Char}
    (hrest : Stops Char.isAlpha rest) : afterWord? (name.toList ++ rest) = none := by
  have hletters : ∀ keyword ∈ keywords, keyword.toList.all Char.isAlpha := by decide
  rw [Option.eq_none_iff_forall_not_mem]
  intro right hright
  obtain ⟨keyword, hkeyword, b, hb, hcs⟩ := afterWord?_eq_some_iff.1 hright
  rcases List.append_eq_append_iff.1 hcs with ⟨tail, hword, htail⟩ | ⟨tail, hname, htail⟩
  · cases tail with
    | nil =>
      rw [List.append_nil, String.toList_inj] at hword
      exact h.ne_keyword (hword ▸ hkeyword)
    | cons c tail =>
      -- the keyword goes on behind the name, with a letter
      have hc : c.isAlpha :=
        List.all_eq_true.1 (hletters keyword hkeyword) c (hword ▸ List.mem_append_cons_self)
      have hstop : c.isAlpha = false := hrest c (by rw [htail]; rfl)
      rw [hc] at hstop
      cases hstop
  · cases tail with
    | nil =>
      rw [List.append_nil, String.toList_inj] at hname
      exact h.ne_keyword (hname ▸ hkeyword)
    | cons c tail =>
      -- the name goes on behind the keyword, with a blank
      obtain ⟨rfl, -⟩ := List.cons.inj htail
      have hstop := h.nonblank b (hname ▸ List.mem_append_cons_self)
      rw [hb] at hstop
      cases hstop

/-- The reader gets past a piece that a text begins with: it finds no keyword there. -/
def Passes (piece rest : List Char) : Prop :=
  sides? (piece ++ rest) = (sides? rest).map fun p => (piece ++ p.1, p.2)

section

variable {piece next rest : List Char}

theorem passes_nil : Passes [] rest := by
  simp [Passes]

theorem Passes.append (h : Passes piece (next ++ rest)) (hnext : Passes next rest) :
    Passes (piece ++ next) rest := by
  rw [Passes, List.append_assoc, h, hnext, Option.map_map]
  simp only [Function.comp_def, List.append_assoc]

theorem sides?_cons {c : Char} {cs : List Char}
    (h : isBlank c → afterWord? (dropBlank cs) = none) :
    sides? (c :: cs) = (sides? cs).map fun p => (c :: p.1, p.2) := by
  rw [sides?]
  by_cases hc : isBlank c
  · simp only [if_pos hc, h hc]
  · simp only [if_neg hc]

theorem passes_cons {c : Char} (hc : isBlank c = false) (h : Passes piece rest) :
    Passes (c :: piece) rest := by
  rw [Passes, List.cons_append, sides?_cons (by simp [hc]), h, Option.map_map]
  rfl

theorem passes_nonblank (hpiece : ∀ c ∈ piece, isBlank c = false) : Passes piece rest := by
  induction piece with
  | nil => exact passes_nil
  | cons c piece ih =>
    obtain ⟨hc, hpiece⟩ := List.forall_mem_cons.1 hpiece
    exact passes_cons hc (ih hpiece)

theorem passes_blank (hpiece : Blank piece) (hrest : afterWord? (dropBlank rest) = none) :
    Passes piece rest := by
  induction piece with
  | nil => exact passes_nil
  | cons b piece ih =>
    have hskip : afterWord? (dropBlank (piece ++ rest)) = none := by
      rw [dropBlank_padded hpiece.tail, hrest]
    rw [Passes, List.cons_append, sides?_cons fun _ => hskip, ih hpiece.tail, Option.map_map]
    rfl

end

theorem sides?_gap {gap rest right : List Char} (hne : gap ≠ []) (hgap : Blank gap)
    (h : afterWord? (dropBlank rest) = some right) : sides? (gap ++ rest) = some ([], right) := by
  obtain ⟨b, bs, rfl⟩ := List.exists_cons_of_ne_nil hne
  rw [List.cons_append, sides?]
  simp only [if_pos hgap.head, dropBlank_padded hgap.tail, h]

/-! ## The names -/

theorem stops_alpha {bs : List Char} (hbs : Blank bs) : Stops Char.isAlpha bs := by
  intro b hb
  have hblank : isBlank b := hbs b (List.mem_of_mem_head? hb)
  rw [Bool.eq_false_iff]
  intro hletter
  rw [isBlank_of_isAlpha hletter] at hblank
  cases hblank

/-- A text, not an empty one, with no blank at either end. -/
def Solid (cs : List Char) : Prop :=
  cs ≠ [] ∧ Stops isBlank cs ∧ Stops isBlank cs.reverse

theorem Solid.trimmed {cs : List Char} (h : Solid cs) : Trimmed cs := by
  obtain ⟨-, hhead, hlast⟩ := h
  rw [Trimmed, trimChars, dropBlank, dropWhile_of_stops hhead, dropBlankEnd, dropBlank,
    dropWhile_of_stops hlast, List.reverse_reverse]

theorem IsName.solid {name : String} (h : IsName name) : Solid name.toList := by
  refine ⟨mt String.toList_eq_nil_iff.1 h.ne_empty, ?_, ?_⟩
  · exact fun c hc => h.nonblank c (List.mem_of_mem_head? hc)
  · exact fun c hc => h.nonblank c (List.mem_reverse.1 (List.mem_of_mem_head? hc))

theorem Solid.stops {cs : List Char} (h : Solid cs) (rest : List Char) :
    Stops isBlank (cs ++ rest) :=
  stops_append_of_ne_nil h.1 h.2.1 rest

theorem Solid.dropBlank_eq {cs : List Char} (h : Solid cs) (rest : List Char) :
    dropBlank (cs ++ rest) = cs ++ rest :=
  dropWhile_of_stops (h.stops rest)

section

variable {names : List String} {cs : List Char}

theorem Joined.solid (h : Joined names cs) : Solid cs := by
  induction h with
  | one hname => exact hname.solid
  | @more name names front behind cs hname hfront hbehind h ih =>
    obtain ⟨hne, -, hlast⟩ := ih
    refine ⟨List.append_ne_nil_of_left_ne_nil hname.solid.1 _, hname.solid.stops _, ?_⟩
    have hreverse : (name.toList ++ (front ++ ',' :: (behind ++ cs))).reverse =
        cs.reverse ++ (name.toList ++ (front ++ ',' :: behind)).reverse := by
      simp
    rw [hreverse]
    exact stops_append_of_ne_nil (mt List.reverse_eq_nil_iff.1 hne) hlast _

/-- In front of the names, the reader finds no keyword. -/
theorem Joined.afterWord?_eq_none (h : Joined names cs) {rest : List Char}
    (hrest : Stops Char.isAlpha rest) : afterWord? (dropBlank (cs ++ rest)) = none := by
  cases h with
  | one hname =>
    rw [hname.solid.dropBlank_eq]
    exact hname.afterWord?_eq_none hrest
  | more hname hfront =>
    rw [List.append_assoc, hname.solid.dropBlank_eq]
    refine hname.afterWord?_eq_none ?_
    rw [List.append_assoc]
    exact stops_append (stops_alpha hfront) (stops_cons (by decide))

/-- The reader gets past names: behind each run of blanks, there is a comma or a name. -/
theorem Joined.passes (h : Joined names cs) {rest : List Char} (hrest : Stops Char.isAlpha rest) :
    Passes cs rest := by
  induction h with
  | one hname => exact passes_nonblank hname.nonblank
  | more hname hfront hbehind h ih =>
    refine (passes_nonblank hname.nonblank).append ?_
    refine (passes_blank hfront rfl).append (passes_cons (by decide) ?_)
    exact (passes_blank hbehind (h.afterWord?_eq_none hrest)).append ih

theorem Listed.solid (h : Listed names cs) : Solid cs := by
  cases h with
  | bare h => exact h.solid
  | @parens front cs behind =>
    refine ⟨List.cons_ne_nil _ _, stops_cons (by decide), ?_⟩
    have hreverse : ('(' :: (front ++ (cs ++ (behind ++ [')'])))).reverse =
        ')' :: ('(' :: (front ++ (cs ++ behind))).reverse := by
      simp
    rw [hreverse]
    exact stops_cons (by decide)

theorem Listed.passes (h : Listed names cs) {rest : List Char} (hrest : Stops Char.isAlpha rest) :
    Passes cs rest := by
  cases h with
  | bare h => exact h.passes hrest
  | @parens front cs behind hfront h hbehind =>
    have hclose : Stops Char.isAlpha (behind ++ [')'] ++ rest) := by
      rw [List.append_assoc]
      exact stops_append (stops_alpha hbehind) (stops_cons (by decide))
    refine passes_cons (by decide) (Passes.append (passes_blank hfront ?_) ?_)
    · rw [List.append_assoc]
      exact h.afterWord?_eq_none hclose
    · refine Passes.append (h.passes hclose) ?_
      exact Passes.append (passes_blank hbehind rfl) (passes_cons (by decide) passes_nil)

end

/-! ## Commas and parentheses -/

theorem blank_notMem {bs : List Char} (hbs : Blank bs) {c : Char} (hc : c ∈ reserved) : c ∉ bs := by
  have hsolid : (reserved.all fun c => !isBlank c) = true := by decide
  exact hbs.notMem (by simpa using List.all_eq_true.1 hsolid c hc)

/-- Of the reserved characters, only commas are between the names. -/
theorem Joined.notMem {names : List String} {cs : List Char} (h : Joined names cs) {c : Char}
    (hc : c ∈ reserved) (hcomma : c ≠ ',') : c ∉ cs := by
  induction h with
  | one hname => exact hname.notMem hc
  | more hname hfront hbehind h ih =>
    simp only [List.mem_append, List.mem_cons, not_or]
    exact ⟨hname.notMem hc, blank_notMem hfront hc, hcomma, blank_notMem hbehind hc, ih⟩

/-- A name with blanks around it is one piece. -/
theorem IsName.map_trimmed_splitOn {name : String} (h : IsName name) {front behind : List Char}
    (hfront : Blank front) (hbehind : Blank behind) :
    ((front ++ (name.toList ++ behind)).splitOn ',').map trimmed = [name] := by
  have hcomma : ',' ∈ reserved := by decide
  have hnone : ',' ∉ front ++ (name.toList ++ behind) := by
    simp only [List.mem_append, not_or]
    exact ⟨blank_notMem hfront hcomma, h.notMem hcomma, blank_notMem hbehind hcomma⟩
  rw [List.splitOn_eq_singleton hnone, List.map_singleton, trimmed,
    h.solid.trimmed.trimChars_eq hfront hbehind, String.ofList_toList]

/-- The pieces between the commas are the names. -/
theorem Joined.map_trimmed_splitOn {names : List String} {cs : List Char} (h : Joined names cs)
    {front behind : List Char} (hfront : Blank front) (hbehind : Blank behind) :
    ((front ++ (cs ++ behind)).splitOn ',').map trimmed = names := by
  induction h generalizing front with
  | one hname => exact hname.map_trimmed_splitOn hfront hbehind
  | @more name names front' behind' cs hname hfront' hbehind' h ih =>
    have hsplit : front ++ (name.toList ++ (front' ++ ',' :: (behind' ++ cs)) ++ behind) =
        (front ++ (name.toList ++ front')) ++ ',' :: (behind' ++ (cs ++ behind)) := by
      simp only [List.append_assoc, List.cons_append]
    rw [hsplit, List.splitOn_append_cons_self, List.map_append,
      hname.map_trimmed_splitOn hfront hfront', ih hbehind', List.singleton_append]

theorem dropParens_of_notMem {cs : List Char} (hopen : '(' ∉ cs) (hclose : ')' ∉ cs) :
    dropParens cs = cs := by
  rw [dropParens]
  · split
    · rename_i hlast
      exact absurd (List.mem_of_getLast? hlast) hclose
    · rfl
  · rintro rest rfl
    exact hopen List.mem_cons_self

/-- Dropping the parentheses leaves the names with blanks around them. -/
theorem Listed.dropParens_eq {names : List String} {cs : List Char} (h : Listed names cs) :
    ∃ front inner behind, Blank front ∧ Joined names inner ∧ Blank behind ∧
      dropParens cs = front ++ (inner ++ behind) := by
  cases h with
  | bare h =>
    refine ⟨[], cs, [], by decide, h, by decide, ?_⟩
    rw [List.nil_append, List.append_nil]
    exact dropParens_of_notMem (h.notMem (by decide) (by decide)) (h.notMem (by decide) (by decide))
  | @parens front cs behind hfront h hbehind =>
    refine ⟨front, cs, behind, hfront, h, hbehind, ?_⟩
    have hinner : front ++ (cs ++ (behind ++ [')'])) = front ++ (cs ++ behind) ++ [')'] := by
      simp only [List.append_assoc]
    simp only [dropParens, hinner, List.getLast?_concat, List.dropLast_concat]

/-- The names behind the item's name. -/
def further? : List (List Char) → Option (List Char × Option (List Char))
  | key :: index :: _ => some (key, some index)
  | [key] => some (key, none)
  | [] => none

section

variable {cs : List Char} (hbrace : '\x7d' ∉ cs) (hbracket : ']' ∉ cs)

include hbrace hbracket

theorem names?_eq (hlength : (cs.splitOn ',').length ≤ 2) :
    names? cs = further? (cs.splitOn ',') := by
  have hany : (cs.any fun c => c == '\x7d' || c == ']') = false := by
    rw [List.any_eq_false]
    intro c hc
    simp only [Bool.or_eq_true, beq_iff_eq, not_or]
    exact ⟨fun h => hbrace (h ▸ hc), fun h => hbracket (h ▸ hc)⟩
  have hne : cs.splitOn ',' ≠ [] := List.splitOn_ne_nil ',' cs
  rw [names?, hany, splitOnChar_eq_splitOn]
  match hpieces : cs.splitOn ',' with
  | [] => exact absurd hpieces hne
  | [key] => rfl
  | [key, index] => rfl
  | key :: index :: more :: rest =>
    rw [hpieces] at hlength
    simp only [List.length_cons] at hlength
    omega

/-- Without closing brackets, the first of up to three pieces is the item's name. -/
theorem splitNames_eq {item : List Char} {further : List (List Char)}
    (h : cs.splitOn ',' = item :: further) (hlength : further.length ≤ 2) :
    splitNames cs = (item, further? further) := by
  induction cs generalizing item with
  | nil =>
    cases h
    rfl
  | cons c cs ih =>
    rw [List.mem_cons, not_or] at hbrace hbracket
    rw [List.splitOn_cons_eq_if_modifyHead] at h
    rw [splitNames]
    by_cases hc : c = ','
    · rw [if_pos (beq_iff_eq.2 hc)] at h
      obtain ⟨rfl, rfl⟩ := List.cons.inj h
      rw [if_pos hc, names?_eq hbrace.2 hbracket.2 hlength]
      match hpieces : cs.splitOn ',' with
      | [] => exact absurd hpieces (List.splitOn_ne_nil ',' cs)
      | [key] => rfl
      | key :: index :: rest => rfl
    · rw [if_neg (mt beq_iff_eq.1 hc)] at h
      obtain ⟨first, rest, hpieces⟩ := List.exists_cons_of_ne_nil (List.splitOn_ne_nil ',' cs)
      rw [hpieces, List.modifyHead_cons] at h
      obtain ⟨rfl, rfl⟩ := List.cons.inj h
      rw [if_neg hc]
      simp only [ih hbrace.2 hbracket.2 hpieces]

end

/-- The names behind the item's name are read as the key and the index. -/
theorem further?_eq {further : List (List Char)} {key index : Option String}
    (h : further.map trimmed = key.toList ++ index.toList) (hindex : index.isSome → key.isSome) :
    (further? further).map (fun n => trimmed n.1) = key ∧
      ((further? further).bind (·.2)).map trimmed = index := by
  rcases key with - | key
  · rcases index with - | index
    · obtain rfl := List.map_eq_nil_iff.1 h
      exact ⟨rfl, rfl⟩
    · exact absurd (hindex rfl) Bool.false_ne_true
  · obtain ⟨k, rest, rfl, rfl, hrest⟩ := List.map_eq_cons_iff.1 h
    rcases index with - | index
    · obtain rfl := List.map_eq_nil_iff.1 hrest
      exact ⟨rfl, rfl⟩
    · obtain ⟨n, rest, rfl, rfl, -⟩ := List.map_eq_cons_iff.1 hrest
      exact ⟨rfl, rfl⟩

/-- The reader takes names apart at the commas, once the parentheses are gone. -/
theorem Listed.splitNames_eq {names : List String} {cs : List Char} (h : Listed names cs)
    (hlength : names.length ≤ 3) :
    ∃ item further, splitNames (dropParens cs) = (item, further? further) ∧
      (item :: further).map trimmed = names := by
  obtain ⟨front, inner, behind, hfront, hinner, hbehind, hparens⟩ := h.dropParens_eq
  have hpieces := hinner.map_trimmed_splitOn hfront hbehind
  obtain ⟨item, further, hsplit⟩ :=
    List.exists_cons_of_ne_nil (List.splitOn_ne_nil ',' (front ++ (inner ++ behind)))
  have hnone {c : Char} (hc : c ∈ reserved) (hcomma : c ≠ ',') :
      c ∉ front ++ (inner ++ behind) := by
    simp only [List.mem_append, not_or]
    exact ⟨blank_notMem hfront hc, hinner.notMem hc hcomma, blank_notMem hbehind hc⟩
  rw [hsplit] at hpieces
  refine ⟨item, further, ?_, hpieces⟩
  rw [hparens]
  refine LoopExpr.splitNames_eq (hnone (by decide) (by decide)) (hnone (by decide) (by decide))
    hsplit ?_
  have hcount := congrArg List.length hpieces
  simp only [List.length_map, List.length_cons] at hcount
  omega

/-! ## Reading what was written -/

theorem sides?_writes {names : List String} {lead left before after right : List Char}
    {keyword : String} (hleft : Listed names left) (hkeyword : keyword ∈ keywords)
    (hbefore : before ≠ []) (hafter : after ≠ []) (hlead' : Blank lead) (hbefore' : Blank before)
    (hafter' : Blank after) :
    sides? (dropBlank (lead ++ (left ++ (before ++ (keyword.toList ++ (after ++ right)))))) =
      some (left, after.tail ++ right) := by
  obtain ⟨b, bs, rfl⟩ := List.exists_cons_of_ne_nil hafter
  have hword : afterWord? (dropBlank (keyword.toList ++ (b :: bs ++ right))) =
      some (bs ++ right) := by
    have hstops : Stops isBlank (keyword.toList ++ (b :: bs ++ right)) := by
      rcases List.mem_pair.1 hkeyword with rfl | rfl
      · exact stops_cons (by decide)
      · exact stops_cons (by decide)
    rw [dropBlank, dropWhile_of_stops hstops]
    exact afterWord?_eq_some_iff.2 ⟨keyword, hkeyword, b, hafter'.head, rfl⟩
  have hgap : Stops Char.isAlpha (before ++ (keyword.toList ++ (b :: bs ++ right))) :=
    stops_append_of_ne_nil hbefore (stops_alpha hbefore') _
  rw [dropBlank_padded hlead', hleft.solid.dropBlank_eq, hleft.passes hgap,
    sides?_gap hbefore hbefore' hword, Option.map_some, List.append_nil]
  rfl

/-- What is read is what was written. -/
theorem parse?_writes {l : LoopExpr} {expr : String} (h : Writes l expr) :
    parse? expr = some l := by
  obtain ⟨hindex, hsource, htrimmed, lead, left, before, keyword, after, trail, hexpr, hleft,
    hkeyword, hbefore, hafter, hlead, hbefore', hafter', htrail⟩ := h
  have hlength : l.names.length ≤ 3 := by
    have hkey : l.key.toList.length ≤ 1 := Option.length_toList_le
    have hindex : l.index.toList.length ≤ 1 := Option.length_toList_le
    simp only [names, List.length_cons, List.length_append]
    omega
  obtain ⟨item, further, hnames, hread⟩ := hleft.splitNames_eq hlength
  obtain ⟨hitem, hfurther⟩ := List.cons.inj hread
  obtain ⟨hkey, hnumber⟩ := further?_eq hfurther hindex
  have hright : trimmed (after.tail ++ (l.source.toList ++ trail)) = l.source := by
    have htail : Blank after.tail := fun b hb => hafter' b (List.mem_of_mem_tail hb)
    rw [trimmed, htrimmed.trimChars_eq htail htrail, String.ofList_toList]
  have hleft' : trimChars left = left := hleft.solid.trimmed
  rw [parse?, hexpr, sides?_writes hleft hkeyword hbefore hafter hlead hbefore' hafter']
  simp only [Option.bind_eq_bind, Option.bind_some, hleft', hnames, hright, hitem, hkey, hnumber]
  have hne : l.item ≠ "" := (hleft.isName l.item List.mem_cons_self).ne_empty
  exact if_neg (by simp [hsource, hne])

/-- The source has a keyword and commas of its own. -/
theorem parse?_writes_index :
    Writes ⟨"k in [y, z]", "a", some "k", some "n"⟩ " ( a , k,n )\n of  k in [y, z] " ∧
      parse? " ( a , k,n )\n of  k in [y, z] " = some ⟨"k in [y, z]", "a", some "k", some "n"⟩ := by
  have hjoined : Joined ["a", "k", "n"] "a , k,n".toList :=
    .more (by decide) (by decide : Blank [' ']) (by decide : Blank [' '])
      (.more (by decide) (by decide : Blank []) (by decide : Blank []) (.one (by decide)))
  have hlisted : Listed ["a", "k", "n"] "( a , k,n )".toList :=
    .parens (by decide : Blank [' ']) hjoined (by decide : Blank [' '])
  have hwrites :
      Writes ⟨"k in [y, z]", "a", some "k", some "n"⟩ " ( a , k,n )\n of  k in [y, z] " :=
    ⟨fun _ => rfl, by decide, by decide, [' '], "( a , k,n )".toList, ['\n', ' '], "of", [' ', ' '],
      [' '], by decide, hlisted, by decide, by decide, by decide, by decide, by decide, by decide,
      by decide⟩
  exact ⟨hwrites, parse?_writes hwrites⟩

end ViewTree.Template.LoopExpr
