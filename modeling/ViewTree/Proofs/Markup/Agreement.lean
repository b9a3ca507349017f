import Mathlib.Data.List.Induction
import Mathlib.Data.List.TakeWhile
import ViewTree.Proofs.Markup.Offsets
import ViewTree.Proofs.Markup.RoundTrip
/-!
# Offsets and rests

The reader at offsets finds what the reader of rests finds (`stepAt_eq`): where the rest of a text
begins, no slice is out of range, no index of an open element either, and the loops over attributes
and over lone `<` end before their rounds are used up.
-/

namespace ViewTree.Markup

open Text (byteLength dropBytes? slice? indexOf? startsWith sub?)

/-! ## Closing -/

theorem unwind_here (frames : List OpenElement) (pos : Nat) (all : Bool) (span : Span) :
    unwind frames pos all span pos = some [] := by
  cases pos with
  | zero => rfl
  | succ i => rw [unwind, if_pos (Nat.lt_succ_self i)]

/-- The induction is on the elements inside of the one at the position, from the innermost. -/
theorem unwind_frames (outer : List OpenElement) (e : OpenElement) (inner more : List OpenElement)
    (all : Bool) (span : Span) :
    unwind (outer ++ e :: (inner ++ more)) outer.length all span (outer.length + 1 + inner.length) =
      some (inner.reverse.flatMap (OpenElements.implied span) ++
        if all then OpenElements.implied span e else [.stop e.tag span]) := by
  induction inner using List.reverseRecOn generalizing more with
  | nil =>
    have hframe : (outer ++ e :: more)[outer.length]? = some e := by simp
    simp [unwind, unwind_here]
  | append_singleton inner x ih =>
    have hframe : (outer ++ e :: (inner ++ x :: more))[outer.length + 1 + inner.length]? =
        some x := by
      rw [List.getElem?_append_right (by omega), show outer.length + 1 + inner.length -
        outer.length = inner.length + 1 by omega, List.getElem?_cons_succ]
      simp
    have hlength : outer.length + 1 + (inner ++ [x]).length =
        outer.length + 1 + inner.length + 1 := by simp; omega
    rw [hlength, unwind, if_neg (by omega), List.append_assoc, List.singleton_append, hframe,
      Option.bind_eq_bind, Option.bind_some, ih, Option.bind_eq_bind, Option.bind_some]
    have hinside : outer.length < outer.length + 1 + inner.length := by omega
    simp [hinside]

/-- Closing everything is in range. -/
theorem closeFrom_all (o : OpenElements) (span : Span) :
    closeFrom o 0 true span = some (o.closeAll span) := by
  obtain ⟨stack, last⟩ := o
  cases hframes : stack.reverse with
  | nil =>
    obtain rfl := List.reverse_eq_nil_iff.1 hframes
    rfl
  | cons e inner =>
    have hunwind := unwind_frames [] e inner [] true span
    simp only [List.nil_append, List.append_nil, List.length_nil, if_true] at hunwind
    have hlength : (e :: inner).length = 0 + 1 + inner.length := by simp; omega
    have hstack : stack = inner.reverse ++ [e] := by
      rw [← List.reverse_cons, ← hframes, List.reverse_reverse]
    simp only [closeFrom, hframes, hlength, hunwind]
    simp [hstack, OpenElements.closeAll, OpenElements.ofStack, OpenElements.none]

/-- What is closed is the nearest element of the tag and what is open inside it. -/
theorem closeAt_append {inside below : List OpenElement} {e : OpenElement} {tag : String}
    (hinside : ∀ x ∈ inside, Text.asciiLower x.tag ≠ Text.asciiLower tag)
    (he : Text.asciiLower e.tag = Text.asciiLower tag) (last : Option String) (span : Span) :
    closeAt ⟨inside ++ e :: below, last⟩ tag span =
      some (inside.flatMap (OpenElements.implied span) ++ [.stop e.tag span], .ofStack below) := by
  have hnone : inside.findIdx? (fun x => Text.asciiLower x.tag == Text.asciiLower tag) = none := by
    rw [List.findIdx?_eq_none_iff]
    exact fun x hx => beq_eq_false_iff_ne.2 (hinside x hx)
  have hfind : (inside ++ e :: below).findIdx?
      (fun x => Text.asciiLower x.tag == Text.asciiLower tag) = some inside.length := by
    rw [List.findIdx?_append, hnone, List.findIdx?_cons, beq_iff_eq.2 he]
    simp
  have hpos : (inside ++ e :: below).length - 1 - inside.length = below.length := by simp
  have hframes : (inside ++ e :: below).reverse = below.reverse ++ e :: inside.reverse := by simp
  have hcount : (below.reverse ++ e :: inside.reverse).length =
      below.length + 1 + inside.length := by simp; omega
  have hunwind := unwind_frames below.reverse e inside.reverse [] false span
  rw [List.append_nil, List.reverse_reverse, List.length_reverse, List.length_reverse] at hunwind
  simp only [closeAt, hfind, hpos, closeFrom, hframes, hcount, hunwind]
  simp

/-- Closing an element is in range, and does what it should. -/
theorem closeAt_eq (o : OpenElements) (tag : String) (span : Span) :
    closeAt o tag span = some (o.close tag span) := by
  obtain ⟨stack, last⟩ := o
  cases hfind : stack.find? fun x => Text.asciiLower x.tag == Text.asciiLower tag with
  | none =>
    have hnone : ∀ x ∈ stack, Text.asciiLower x.tag ≠ Text.asciiLower tag := by
      simpa using hfind
    have hindex : stack.findIdx? (fun x => Text.asciiLower x.tag == Text.asciiLower tag) =
        none := by
      rw [List.findIdx?_eq_none_iff]
      exact fun x hx => beq_eq_false_iff_ne.2 (hnone x hx)
    have hdrop : stack.dropWhile (fun x => Text.asciiLower x.tag != Text.asciiLower tag) = [] := by
      simpa using hnone
    simp only [closeAt, hindex, OpenElements.close, hdrop]
  | some e =>
    obtain ⟨he, inside, below, rfl, hinside⟩ := List.find?_eq_some_iff_append.1 hfind
    rw [beq_iff_eq] at he
    have hsame : (Text.asciiLower e.tag != Text.asciiLower tag) = false := by simp [he]
    have hinside : ∀ x ∈ inside, Text.asciiLower x.tag ≠ Text.asciiLower tag := by
      simpa using hinside
    have hdiffer : ∀ x ∈ inside, (Text.asciiLower x.tag != Text.asciiLower tag) = true :=
      fun x hx => bne_iff_ne.2 (hinside x hx)
    rw [closeAt_append hinside he, OpenElements.close]
    simp [List.takeWhile_append_of_pos hdiffer, List.dropWhile_append_of_pos hdiffer, hsame]

theorem closeIf_eq (closes : Bool) (o : OpenElements) (tag : String) (place : Nat) :
    closeIf closes o tag place =
      some (if closes then o.close tag ⟨place, place⟩ else ([], o)) := by
  cases closes with
  | true => exact closeAt_eq o tag ⟨place, place⟩
  | false => rfl

theorem closeImpliedAt_eq (d : Dialect) (o : OpenElements) (tag : String) (place : Nat) :
    closeImpliedAt d o tag place = some (closeImplied d o tag place) := by
  unfold closeImpliedAt closeImplied
  split
  · simp only [closeIf_eq]
    rfl
  · rfl

/-! ## Markup -/

/-- What a step finds, with the place where it ends in a text of `total` bytes. -/
def Progress.found (total : Nat) (p : Progress) : Found :=
  (p.events, ⟨offset total p.rest, p.opened⟩)

/-- The end of a comment is where the text of the comment and three more bytes end. -/
theorem commentClose_eq {cs : List Char} (hopen : startsWith ['<', '!', '-', '-'] cs) :
    (commentClose cs = some none ∧ comment? cs = none) ∨
      ∃ stop text rest, commentClose cs = some (some stop) ∧ comment? cs = some (text, rest) ∧
        taken cs rest = stop + 3 ∧ (slice? 4 stop cs).getD [] = text := by
  obtain ⟨body, rfl⟩ := Text.startsWith_iff.1 hopen
  have hbody : dropBytes? 4 (['<', '!', '-', '-'] ++ body) = some body :=
    Text.dropBytes?_append ['<', '!', '-', '-'] body
  simp only [commentClose, hbody, Option.bind_eq_bind, Option.bind_some]
  by_cases habrupt : startsWith ['>'] body
  · obtain ⟨rest, rfl⟩ := Text.startsWith_iff.1 habrupt
    refine .inr ⟨2, [], rest, by rw [if_pos habrupt], rfl, ?_, ?_⟩
    · exact taken_append ['<', '!', '-', '-', '>'] rest
    · simp [slice?, sub?]
  · by_cases hdash : startsWith ['-', '>'] body
    · obtain ⟨rest, rfl⟩ := Text.startsWith_iff.1 hdash
      refine .inr ⟨3, [], rest, by rw [if_neg habrupt, if_pos hdash], rfl, ?_, ?_⟩
      · exact taken_append ['<', '!', '-', '-', '-', '>'] rest
      · simp [slice?, sub?]
    · have hcomment : comment? (['<', '!', '-', '-'] ++ body) =
          Text.splitAt? ['-', '-', '>'] body := by
        simp only [List.cons_append, List.nil_append, comment?]
        split
        · exact absurd (Text.startsWith_iff.2 (List.prefix_append ['>'] _)) habrupt
        · exact absurd (Text.startsWith_iff.2 (List.prefix_append ['-', '>'] _)) hdash
        · rfl
      rw [if_neg habrupt, if_neg hdash, hcomment]
      cases hsplit : Text.splitAt? ['-', '-', '>'] body with
      | none => exact .inl ⟨by rw [Text.indexOf?_eq_none.2 hsplit]; rfl, rfl⟩
      | some found =>
        obtain ⟨text, rest⟩ := found
        have hcs := Text.eq_of_splitAt? hsplit
        refine .inr ⟨byteLength text + 4, text, rest, ?_, rfl, ?_, ?_⟩
        · rw [Text.indexOf?_of_splitAt? hsplit]
          rfl
        · rw [hcs, ← List.append_assoc, taken_append]
          have hopening : byteLength ['<', '!', '-', '-'] = 4 := rfl
          have hend : byteLength ['-', '-', '>'] = 3 := rfl
          simp only [Text.byteLength_append, hopening, hend]
          omega
        · rw [hcs, List.append_assoc] at hbody
          rw [hcs, Nat.add_comm, List.append_assoc, Text.slice?_of_dropBytes? hbody]
          rfl

section

variable {html cs : List Char} {n : Nat} (hplace : dropBytes? n html = some cs)
include hplace

theorem commentAt_eq (d : Dialect) (o : OpenElements) :
    commentAt d ⟨n, o⟩ cs = some ((comment? cs).map fun p =>
      let found := Event.comment (String.ofList p.1) (between (byteLength html) cs p.2)
      Progress.found (byteLength html) ⟨if d.keepComments then [found] else [], o, p.2⟩) := by
  by_cases hopen : startsWith ['<', '!', '-', '-'] cs
  · rw [commentAt, if_pos hopen]
    obtain ⟨hclose, hcomment⟩ | ⟨stop, text, rest, hclose, hcomment, htaken, htext⟩ :=
      commentClose_eq hopen
    · rw [hclose, hcomment]
      rfl
    · have hrest := comment?_suffix hcomment
      rw [hclose, hcomment]
      simp only [Option.bind_eq_bind, Option.bind_some, Option.map_some, Progress.found,
        between_of_suffix hrest hplace, offset_of_suffix hrest hplace, htaken, htext,
        Nat.add_assoc]
  · have hnone : comment? cs = none := by
      unfold comment?
      split
      · exact absurd (Text.startsWith_iff.2 (List.prefix_append ['<', '!', '-', '-'] _)) hopen
      · rfl
    rw [commentAt, if_neg hopen, hnone, Option.map_none]

theorem conditionalAt_eq (o : OpenElements) :
    conditionalAt ⟨n, o⟩ cs =
      (conditional? cs).map fun rest => Progress.found (byteLength html) ⟨[], o, rest⟩ := by
  unfold conditionalAt
  cases hcond : conditional? cs with
  | none =>
    rw [conditional?] at hcond
    split at hcond
    · rename_i hopen
      rw [if_pos hopen, Text.indexOf?_eq_none.2 (Option.map_eq_none_iff.1 hcond)]
      rfl
    · rename_i hopen
      rw [if_neg hopen]
      rfl
  | some rest =>
    have hrest := conditional?_suffix hcond
    rw [conditional?, Option.ite_none_right_eq_some] at hcond
    obtain ⟨hopen, hfound⟩ := hcond
    obtain ⟨⟨before, behind⟩, hsplit, rfl⟩ := Option.map_eq_some_iff.1 hfound
    have htaken : taken cs behind = byteLength before + 2 := by
      rw [Text.eq_of_splitAt? hsplit, taken_append, Text.byteLength_append]
      rfl
    rw [if_pos hopen, Text.indexOf?_of_splitAt? hsplit, Option.map_some, Option.map_some,
      Progress.found, offset_of_suffix hrest hplace, htaken]

theorem doctypeAt_eq (o : OpenElements) :
    doctypeAt ⟨n, o⟩ cs =
      (doctype? cs).map fun rest => Progress.found (byteLength html) ⟨[], o, rest⟩ := by
  unfold doctypeAt
  cases hdoctype : doctype? cs with
  | none => rfl
  | some rest =>
    simp only [Option.map_some, Progress.found,
      offset_of_suffix (doctype?_suffix hdoctype) hplace]

theorem endTagAt_eq (o : OpenElements) :
    endTagAt ⟨n, o⟩ cs = some ((endTag? cs).map fun p =>
      let closed := o.close p.1 (between (byteLength html) cs p.2)
      Progress.found (byteLength html) ⟨closed.1, closed.2, p.2⟩) := by
  unfold endTagAt
  cases hend : endTag? cs with
  | none => rfl
  | some found =>
    obtain ⟨tag, rest⟩ := found
    have hrest := endTag?_suffix hend
    simp only [closeAt_eq, Option.bind_eq_bind, Option.bind_some, Option.map_some,
      Progress.found, between_of_suffix hrest hplace, offset_of_suffix hrest hplace]

end

/-- The induction is on the rounds of the loop: with every attribute less is left to read. -/
theorem attributesAt_eq {html cs : List Char} {n : Nat} (hplace : dropBytes? n html = some cs)
    {fuel bound : Nat} (hfuel : cs.length < fuel) (hbound : cs.length < bound) :
    attributesAt html fuel n = some ((readAttributes (byteLength html) bound cs).map fun p =>
      (p.1, p.2.1, offset (byteLength html) p.2.2)) := by
  induction fuel generalizing bound n cs with
  | zero => exact absurd hfuel (Nat.not_lt_zero _)
  | succ fuel ih =>
    obtain ⟨bound, rfl⟩ := Nat.exists_eq_add_of_lt (Nat.zero_lt_of_lt hbound)
    rw [Nat.zero_add] at hbound ⊢
    rw [attributesAt, hplace, readAttributes]
    simp only [Option.bind_eq_bind, Option.bind_some]
    cases hclose : startTagClose? cs with
    | some found =>
      obtain ⟨slash, rest⟩ := found
      simp only [Option.map_some, offset_of_suffix (startTagClose?_suffix hclose) hplace]
    | none =>
      cases hattr : attribute? (Text.dropBlank cs) with
      | none => rfl
      | some found =>
        obtain ⟨name, value, rest⟩ := found
        obtain ⟨full, hne, hcs, hdrop⟩ := attribute?_extent hattr
        have hrest : rest <:+ cs := ⟨full, hcs.symm⟩
        have htaken : taken cs rest = byteLength full := by rw [hcs, taken_append]
        have hslice : slice? n (n + byteLength full) html = some full :=
          Text.slice?_of_dropBytes? (hcs ▸ hplace)
        have hblanks : sub? (byteLength full) (byteLength (Text.dropBlank full)) =
            some (taken cs (Text.dropBlank cs)) := by
          have hle := taken_add_byteLength (dropBlank_suffix full)
          rw [sub?, if_pos (by omega), hdrop, taken, hcs]
          simp only [Text.byteLength_append]
          congr 1
          omega
        have hshort : rest.length < cs.length := by
          have := List.length_pos_iff.2 hne
          rw [hcs, List.length_append]
          omega
        have hbehind : dropBytes? (n + byteLength full) html = some rest :=
          htaken ▸ dropBytes?_of_suffix hrest hplace
        have hspan : between (byteLength html) (Text.dropBlank cs) rest =
            ⟨n + taken cs (Text.dropBlank cs), n + byteLength full⟩ := by
          rw [between, offset_of_suffix (dropBlank_suffix cs) hplace,
            offset_of_suffix hrest hplace, htaken]
        simp only [Option.bind_some, htaken, hslice, hblanks, hspan,
          ih hbehind (by omega : rest.length < fuel) (by omega : rest.length < bound)]
        cases readAttributes (byteLength html) bound rest with
        | none => rfl
        | some more => rfl

section

variable {html cs : List Char} {n : Nat} (hplace : dropBytes? n html = some cs)
include hplace

omit hplace in
/-- Where the content of an element begins. -/
theorem offset_dropFirstNewline {rest : List Char} {m : Nat}
    (hrest : dropBytes? m html = some rest) (tag : String) :
    offset (byteLength html) (dropFirstNewline tag rest) =
      if (tag = "pre" || tag = "textarea") && startsWith ['\n'] rest then m + 1 else m := by
  unfold dropFirstNewline
  split
  · rename_i behind
    have hnewline : startsWith ['\n'] ('\n' :: behind) :=
      Text.startsWith_iff.2 ⟨behind, rfl⟩
    have hbehind : offset (byteLength html) behind = m + 1 := by
      rw [offset_of_suffix (List.suffix_cons _ behind) hrest]
      exact congrArg (m + ·) (taken_append ['\n'] behind)
    rw [hnewline, Bool.and_true]
    cases decide (tag = "pre") || decide (tag = "textarea") with
    | true => exact hbehind
    | false => exact offset_eq hrest
  · rename_i hother
    have hnewline : startsWith ['\n'] rest = false := by
      rw [Bool.eq_false_iff, Ne, Text.startsWith_iff]
      rintro ⟨behind, rfl⟩
      exact hother behind rfl
    rw [hnewline, Bool.and_false, if_neg Bool.false_ne_true, offset_eq hrest]

theorem openTagAt_eq (d : Dialect) (o : OpenElements) (t : StartTag) (hrest : t.rest <:+ cs) :
    openTagAt html d ⟨n, o⟩ t.tag t.attrs t.slash (offset (byteLength html) t.rest) =
      some ((openTag (byteLength html) d o cs t).found (byteLength html)) := by
  have hsub : sub? (n + taken cs t.rest) n = some (taken cs t.rest) := by
    rw [sub?, if_pos (by omega), Nat.add_sub_cancel_left]
  have hbehind := dropBytes?_of_suffix hrest hplace
  simp only [openTagAt, offset_of_suffix hrest hplace, hsub, closeImpliedAt_eq, hbehind,
    Option.bind_eq_bind, Option.bind_some, Progress.found, openTag,
    between_of_suffix hrest hplace, offset_dropFirstNewline hbehind]

theorem startTagAt_eq (d : Dialect) (o : OpenElements) {fuel : Nat} (hfuel : cs.length < fuel) :
    startTagAt html d fuel ⟨n, o⟩ cs = some ((startTag? (byteLength html) cs).map fun t =>
      (openTag (byteLength html) d o cs t).found (byteLength html)) := by
  unfold startTagAt startTag?
  cases hopen : startTagOpen? cs with
  | none => rfl
  | some found =>
    obtain ⟨name, behind⟩ := found
    have hbehind := startTagOpen?_suffix hopen
    have hle := hbehind.length_le
    have hattrs := attributesAt_eq (dropBytes?_of_suffix hbehind hplace)
      (by omega : behind.length < fuel) (Nat.lt_succ_self behind.length)
    simp only [hattrs, Option.bind_eq_bind, Option.bind_some]
    cases hread : readAttributes (byteLength html) (behind.length + 1) behind with
    | none => rfl
    | some p =>
      obtain ⟨attrs, slash, rest⟩ := p
      have hrest := (readAttributes_suffix hread).trans hbehind
      have htag := openTagAt_eq hplace d o ⟨String.ofList name, attrs, slash, rest⟩ hrest
      simp only [Option.map_some, Option.bind_some, htag]

/-! ## Text -/

omit hplace in
/-- The induction is on the rounds of the loop: behind every lone `<` less is left to read. -/
theorem textEnd_eq {fuel stop : Nat} {rest : List Char} (hfuel : ('<' :: rest).length < fuel) :
    textEnd fuel stop ('<' :: rest) = some (stop + byteLength (textRun ('<' :: rest)).1) := by
  induction fuel generalizing stop rest with
  | zero => exact absurd hfuel (Nat.not_lt_zero _)
  | succ fuel ih =>
    have hbehind : dropBytes? 1 ('<' :: rest) = some rest := Text.dropBytes?_append ['<'] rest
    rw [textEnd, hbehind]
    by_cases hopens : opensMarkup ('<' :: rest)
    · rw [if_pos hopens, textRun_of_endsText (.inr ⟨rfl, hopens⟩)]
      rfl
    · rw [if_neg hopens, Option.bind_eq_bind, Option.bind_some]
      obtain ⟨hindex, hnot⟩ | ⟨a, b, hindex, rfl, ha⟩ := Text.indexOf?_char '<' rest
      · have hrun : textRun ('<' :: rest) = ([], '<' :: rest) := by simp [textRun, hnot]
        rw [hindex, hrun]
        rfl
      · have hrun : textRun ('<' :: (a ++ '<' :: b)) =
            ('<' :: (a ++ (textRun ('<' :: b)).1), (textRun ('<' :: b)).2) := by
          rw [textRun, if_pos (by simp [hopens]), textRun_append ha]
        have hnext : dropBytes? (byteLength a + 1) ('<' :: (a ++ '<' :: b)) = some ('<' :: b) := by
          rw [Nat.add_comm]
          exact Text.dropBytes?_append ('<' :: a) ('<' :: b)
        have hshort : ('<' :: b).length < fuel := by
          simp only [List.length_cons, List.length_append] at hfuel ⊢
          omega
        have hangle : ('<' : Char).utf8Size = 1 := rfl
        simp only [hindex, hnext, Option.bind_some, ih hshort, hrun, Text.byteLength_cons,
          Text.byteLength_append, hangle]
        congr 1
        omega

theorem textFrom_eq {fuel : Nat} (hfuel : cs.length < fuel) :
    textFrom html fuel n cs = some (textRun cs).1 := by
  unfold textFrom
  obtain ⟨hindex, hnot⟩ | ⟨a, b, hindex, hcs, ha⟩ := Text.indexOf?_char '<' cs
  · have hrun := textRun_append hnot []
    rw [List.append_nil] at hrun
    rw [hindex, hrun]
    simp [textRun]
  · have hrun := textRun_append ha ('<' :: b)
    rw [← hcs] at hrun
    have hbehind : dropBytes? (byteLength a) cs = some ('<' :: b) := by
      rw [hcs, Text.dropBytes?_append]
    have hshort : ('<' :: b).length < fuel := by
      rw [hcs, List.length_append] at hfuel
      omega
    have hall := textRun_append_rest cs
    have hlength : byteLength a + byteLength (textRun ('<' :: b)).1 = byteLength (textRun cs).1 := by
      rw [hrun, Text.byteLength_append]
    simp only [hindex, hbehind, textEnd_eq hshort, hlength, Option.bind_eq_bind, Option.bind_some]
    exact Text.slice?_of_dropBytes? (hall ▸ hplace)

theorem textAt_eq (o : OpenElements) {fuel : Nat} (hfuel : cs.length < fuel) :
    textAt html fuel ⟨n, o⟩ cs =
      some ((textStep (byteLength html) o cs).found (byteLength html)) := by
  have hall := textRun_append_rest cs
  simp only [textAt, textFrom_eq hplace hfuel, Option.bind_eq_bind, Option.bind_some, textStep]
  generalize textRun cs = run at hall
  obtain ⟨text, rest⟩ := run
  obtain rfl := hall
  have htaken := taken_append text rest
  cases text with
  | nil =>
    have hrest : dropBytes? n html = some rest := hplace
    simp [Progress.found, offset_eq hrest]
  | cons c text =>
    have hrest : rest <:+ (c :: text) ++ rest := List.suffix_append _ rest
    simp only [Progress.found, between_of_suffix hrest hplace, offset_of_suffix hrest hplace,
      htaken, List.isEmpty_cons, Bool.false_eq_true, if_false]

/-! ## Steps -/

omit hplace in
theorem indexOf?_angle_eq_zero :
    indexOf? ['<'] cs = some 0 ↔ ∃ rest, cs = '<' :: rest := by
  obtain ⟨hindex, hnot⟩ | ⟨a, b, hindex, rfl, ha⟩ := Text.indexOf?_char '<' cs
  · rw [hindex]
    refine iff_of_false (by simp) ?_
    rintro ⟨rest, rfl⟩
    simp at hnot
  · rw [hindex, Option.some.injEq, Text.byteLength_eq_zero]
    constructor
    · rintro rfl
      exact ⟨b, rfl⟩
    · rintro ⟨rest, hcs⟩
      cases a with
      | nil => rfl
      | cons c a =>
        cases hcs
        simp at ha

theorem markupAt_eq (d : Dialect) (o : OpenElements) {fuel : Nat} (hfuel : cs.length < fuel) :
    markupAt html d fuel ⟨n, o⟩ =
      some ((markupStep (byteLength html) d o cs).found (byteLength html)) := by
  rw [markupAt, hplace, Option.bind_eq_bind, Option.bind_some]
  split
  · simp only [commentAt_eq hplace, conditionalAt_eq hplace, doctypeAt_eq hplace,
      endTagAt_eq hplace, startTagAt_eq hplace d o hfuel, textAt_eq hplace o hfuel,
      Option.bind_eq_bind, Option.bind_some]
    unfold markupStep
    cases comment? cs with
    | some found => rfl
    | none =>
      cases conditional? cs with
      | some rest => rfl
      | none =>
        cases doctype? cs with
        | some rest => rfl
        | none =>
          cases endTag? cs with
          | some found => rfl
          | none =>
            cases startTag? (byteLength html) cs with
            | some t => rfl
            | none => rfl
  · rename_i hangle
    have hstep : markupStep (byteLength html) d o cs = textStep (byteLength html) o cs := by
      cases cs with
      | nil => rfl
      | cons c cs =>
        refine markupStep_text _ o ?_ cs
        rintro rfl
        exact hangle (indexOf?_angle_eq_zero.2 ⟨cs, rfl⟩)
    rw [hstep, textAt_eq hplace o hfuel]

theorem rawAt_eq (o : OpenElements) (tag : String) :
    rawAt html ⟨n, o⟩ tag =
      some ((rawStep (byteLength html) o tag cs).found (byteLength html)) := by
  rw [rawAt, hplace, Option.bind_eq_bind, Option.bind_some]
  unfold rawStep
  dsimp only
  cases hraw : rawText? (Text.asciiLower tag).toList cs with
  | none => simp only [closeAt_eq, Option.bind_eq_bind, Option.bind_some, Progress.found,
      between, offset_eq hplace]
  | some found =>
    obtain ⟨content, fromEnd, rest⟩ := found
    obtain ⟨hcs, hend⟩ := rawText?_suffix hraw
    have hfromEnd : fromEnd <:+ cs := ⟨content, hcs.symm⟩
    have hrest := hend.trans hfromEnd
    have hcontent : taken cs fromEnd = byteLength content := by rw [hcs, taken_append]
    have htaken : taken cs rest = byteLength content + taken fromEnd rest := by
      have hall := taken_add_byteLength hrest
      have hsome := taken_add_byteLength hend
      have hlength : byteLength cs = byteLength content + byteLength fromEnd := by
        rw [hcs, Text.byteLength_append]
      omega
    have hstart : sub? (n + taken cs rest) (taken fromEnd rest) = some (n + taken cs fromEnd) := by
      rw [sub?, if_pos (by omega), hcontent]
      congr 1
      omega
    simp only [closeAt_eq, Option.bind_eq_bind, Option.bind_some, Progress.found, hstart, between,
      offset_eq hplace, offset_of_suffix hrest hplace, offset_of_suffix hfromEnd hplace, hcontent]

/-- Both readers take the same step. -/
theorem stepAt_eq (d : Dialect) (o : OpenElements) {fuel : Nat} (hfuel : cs.length < fuel) :
    stepAt html d fuel ⟨n, o⟩ =
      some ((step (byteLength html) d o cs).found (byteLength html)) := by
  unfold stepAt step
  dsimp only
  cases o.last.filter Platform.isRawText with
  | some tag => exact rawAt_eq hplace o tag
  | none => exact markupAt_eq hplace d o hfuel

end

end ViewTree.Markup
