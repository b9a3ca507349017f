import ViewTree.Proofs.Markup.Agreement
/-!
# Reading comes to an end

Every round of the reader gets on by at least one character, or it takes all that is left
(`reading_advances`). So reading ends, at the end of the text.
-/

namespace ViewTree.Markup

open Text (byteLength dropBytes?)

/-! ## Rests -/

section

variable (total : Nat) (d : Dialect) (o : OpenElements) (cs : List Char)

theorem openTag_suffix {t : StartTag} (h : t.rest <:+ cs) :
    (openTag total d o cs t).rest <:+ cs :=
  (dropFirstNewline_suffix t.tag t.rest).trans h

theorem startTag?_suffix {t : StartTag} (h : startTag? total cs = some t) : t.rest <:+ cs := by
  simp only [startTag?, Option.bind_eq_bind, Option.bind_eq_some_iff, Prod.exists] at h
  obtain ⟨name, behind, hopen, attrs, slash, rest, hread, heq⟩ := h
  cases heq
  exact (readAttributes_suffix hread).trans (startTagOpen?_suffix hopen)

theorem textStep_suffix : (textStep total o cs).rest <:+ cs := by
  have hall : (textRun cs).2 <:+ cs := ⟨_, textRun_append_rest cs⟩
  unfold textStep
  split
  · rename_i hrun
    rwa [hrun] at hall
  · rename_i hrun
    rwa [hrun] at hall

theorem markupStep_suffix : (markupStep total d o cs).rest <:+ cs := by
  unfold markupStep
  split
  · rename_i h
    exact comment?_suffix h
  · rename_i h
    exact conditional?_suffix h
  · rename_i h
    exact doctype?_suffix h
  · rename_i h
    exact endTag?_suffix h
  · rename_i h
    exact openTag_suffix total d o cs (startTag?_suffix total cs h)
  · exact textStep_suffix total o cs

theorem rawStep_suffix (tag : String) : (rawStep total o tag cs).rest <:+ cs := by
  unfold rawStep
  dsimp only
  split
  · rename_i h
    obtain ⟨hcs, hrest⟩ := rawText?_suffix h
    exact hrest.trans ⟨_, hcs.symm⟩
  · exact List.suffix_refl cs

theorem step_suffix : (step total d o cs).rest <:+ cs := by
  unfold step
  split
  · exact rawStep_suffix total o cs _
  · exact markupStep_suffix total d o cs

end

/-! ## Texts -/

namespace Event

/-- The event is a text. -/
def isText : Event → Bool
  | text _ _ => true
  | _ => false

/-- The event is a text or a comment. -/
def isAside : Event → Bool
  | text _ _ => true
  | comment _ _ => true
  | _ => false

end Event

theorem not_isAside_implied (span : Span) (es : List OpenElement) :
    ∀ x ∈ es.flatMap (OpenElements.implied span), x.isAside = false := by
  intro x hx
  obtain ⟨e, -, hx⟩ := List.mem_flatMap.1 hx
  have himplied : ∀ x ∈ OpenElements.implied span e, x.isAside = false :=
    List.forall_mem_cons.2 ⟨rfl, List.forall_mem_singleton.2 rfl⟩
  exact himplied x hx

/-- Closing elements finds tags and warnings only. -/
theorem not_isAside_close (o : OpenElements) (tag : String) (span : Span) :
    ∀ x ∈ (o.close tag span).1, x.isAside = false := by
  unfold OpenElements.close
  dsimp only
  split
  · unfold OpenElements.strayEnd
    split
    · exact List.forall_mem_singleton.2 rfl
    · split
      · exact List.forall_mem_cons.2 ⟨rfl, List.forall_mem_singleton.2 rfl⟩
      · exact List.forall_mem_nil _
  · exact List.forall_mem_append.2
      ⟨not_isAside_implied span _, List.forall_mem_singleton.2 rfl⟩

theorem not_isAside_closeImplied (d : Dialect) (o : OpenElements) (tag : String) (place : Nat) :
    ∀ x ∈ (closeImplied d o tag place).1, x.isAside = false := by
  have hone (closes : Bool) (o : OpenElements) (tag : String) :
      ∀ x ∈ (if closes then o.close tag ⟨place, place⟩ else ([], o)).1, x.isAside = false := by
    cases closes with
    | true => exact not_isAside_close o tag _
    | false => exact List.forall_mem_nil _
  unfold closeImplied
  split
  · exact List.forall_mem_append.2 ⟨hone _ o "p", hone _ _ tag⟩
  · exact List.forall_mem_nil _

/-- None of the events is a text. -/
def Textless (es : List Event) : Prop :=
  ∀ e ∈ es, e.isText = false

theorem textless_append {es fs : List Event} (hes : Textless es) (hfs : Textless fs) :
    Textless (es ++ fs) :=
  List.forall_mem_append.2 ⟨hes, hfs⟩

theorem textless_singleton {e : Event} (h : e.isText = false) : Textless [e] :=
  List.forall_mem_singleton.2 h

theorem textless_of_not_isAside {es : List Event} (h : ∀ x ∈ es, x.isAside = false) :
    Textless es := by
  intro x hx
  cases x with
  | text t span => cases h _ hx
  | _ => rfl

section

variable (total : Nat) (d : Dialect) (o : OpenElements) (cs : List Char)

theorem textless_textStep (h : ¬ (textStep total o cs).rest.length < cs.length) :
    Textless (textStep total o cs).events := by
  have hlength := congrArg List.length (textRun_append_rest cs)
  rw [List.length_append] at hlength
  unfold textStep at h ⊢
  split at h
  · exact List.forall_mem_nil _
  · rename_i text rest hne hrun
    rw [hrun] at hlength
    have hpos := List.length_pos_iff.2 hne
    dsimp only at h hlength
    omega

theorem textless_markupStep (h : ¬ (markupStep total d o cs).rest.length < cs.length) :
    Textless (markupStep total d o cs).events := by
  unfold markupStep at h ⊢
  split at h
  · dsimp only
    split
    · exact textless_singleton rfl
    · exact List.forall_mem_nil _
  · exact List.forall_mem_nil _
  · exact List.forall_mem_nil _
  · exact textless_of_not_isAside (not_isAside_close o _ _)
  · exact textless_append (textless_of_not_isAside (not_isAside_closeImplied d o _ _))
      (textless_singleton rfl)
  · exact textless_textStep total o cs h

theorem textless_rawStep (tag : String) (h : ¬ (rawStep total o tag cs).rest.length < cs.length) :
    Textless (rawStep total o tag cs).events := by
  unfold rawStep at h ⊢
  dsimp only at h ⊢
  split at h
  · rename_i content fromEnd rest hraw
    obtain ⟨hcs, hrest⟩ := rawText?_suffix hraw
    have hcontent : content = [] := by
      have hle := hrest.length_le
      rw [hcs, List.length_append] at h
      dsimp only at h
      exact List.length_eq_zero_iff.1 (by omega)
    subst hcontent
    have htext : (if Text.asciiLower tag = "textarea"
        then dropFirstNewline (Text.asciiLower tag) [] else []) = [] := by
      split
      · rfl
      · rfl
    simp only [htext]
    exact textless_of_not_isAside (not_isAside_close o _ _)
  · exact textless_of_not_isAside (not_isAside_close o _ _)

/-- A step that gets nowhere finds no text. -/
theorem textless_of_stuck (h : ¬ (step total d o cs).rest.length < cs.length) :
    Textless (step total d o cs).events := by
  unfold step at h ⊢
  split at h
  · exact textless_rawStep total o cs _ h
  · exact textless_markupStep total d o cs h

end

/-! ## Rounds -/

/-- The text can be cut at a byte offset: it is not behind the end, and not inside a character. -/
def IsBoundary (html : List Char) (n : Nat) : Prop :=
  ∃ front rest, html = front ++ rest ∧ byteLength front = n

/-- From a place on, every round ends further on at a boundary, where the next one begins, up to the
end of the text; only the last may get nowhere, and then its one text is all that is left. -/
inductive Advances (html : List Char) : Nat → List Round → Prop
  | ended : Advances html (byteLength html) []
  | onward {start stop : Nat} {events : List Event} {rounds : List Round}
      (hforward : start < stop) (hboundary : IsBoundary html stop)
      (hrounds : Advances html stop rounds) :
      Advances html start (⟨start, stop, events, false⟩ :: rounds)
  | stuck {front rest : List Char} {events : List Event} (hhtml : html = front ++ rest)
      (htext : events.filter Event.isText =
        [.text (String.ofList rest) ⟨byteLength front, byteLength html⟩]) :
      Advances html (byteLength front) [⟨byteLength front, byteLength html, events, true⟩]

theorem length_le_byteLength (cs : List Char) : cs.length ≤ byteLength cs := by
  induction cs with
  | nil => exact Nat.le_refl 0
  | cons c cs ih =>
    have hpos := c.utf8Size_pos
    rw [List.length_cons, Text.byteLength_cons]
    omega

/-- A place and the length of what is left there make up the whole text. -/
theorem place_add_byteLength {html cs : List Char} {n : Nat} (h : dropBytes? n html = some cs) :
    n + byteLength cs = byteLength html := by
  obtain ⟨front, rfl, rfl⟩ := Text.dropBytes?_eq_some.1 h
  exact (Text.byteLength_append front cs).symm

section

variable {html cs : List Char} {n fuel bound : Nat} {d : Dialect} {o : OpenElements} {p : Progress}
  (hplace : dropBytes? n html = some cs) (hrest : p.rest <:+ cs)
  (hstep : stepAt html d fuel ⟨n, o⟩ = some (p.found (byteLength html)))
include hplace hrest hstep

/-- A round that gets on is followed by the rounds from where it ends. -/
theorem roundsAt_onward (hshort : p.rest.length < cs.length) :
    roundsAt html d fuel (bound + 1) ⟨n, o⟩ =
      (roundsAt html d fuel bound ⟨n + taken cs p.rest, p.opened⟩).map fun more =>
        (⟨n, n + taken cs p.rest, p.events, false⟩ :: more.1, more.2) := by
  have htaken := (length_lt_iff_taken_pos hrest).1 hshort
  have hall := taken_add_byteLength hrest
  have hend := place_add_byteLength hplace
  have hinside : n < byteLength html := by omega
  have hnext : n + taken cs p.rest ≠ n := by omega
  rw [roundsAt, if_pos hinside, hstep]
  simp only [Option.bind_eq_bind, Option.bind_some, Progress.found,
    offset_of_suffix hrest hplace, if_neg hnext]
  cases roundsAt html d fuel bound ⟨n + taken cs p.rest, p.opened⟩ with
  | none => rfl
  | some more => rfl

omit hrest in
/-- A round that does not takes what is left. -/
theorem roundsAt_stuck (hcs : cs ≠ []) (hstuck : p.rest = cs) :
    roundsAt html d fuel (bound + 1) ⟨n, o⟩ =
      some ([⟨n, byteLength html, p.events ++ restEvents html ⟨n, p.opened⟩ cs, true⟩],
        ⟨byteLength html, p.opened⟩) := by
  have hpos : byteLength cs ≠ 0 := fun h => hcs (Text.byteLength_eq_zero.1 h)
  have hend := place_add_byteLength hplace
  have hinside : n < byteLength html := by omega
  have hnext : offset (byteLength html) p.rest = n := by rw [hstuck, offset_eq hplace]
  rw [roundsAt, if_pos hinside, hstep]
  simp only [Option.bind_eq_bind, Option.bind_some, Progress.found, hnext, if_true, hplace]

omit hplace hrest hstep in
theorem texts_restEvents (c : Cursor) (rest : List Char) :
    (restEvents html c rest).filter Event.isText =
      [.text (String.ofList rest) ⟨c.index, byteLength html⟩] := by
  rw [restEvents, List.filter_cons_of_pos rfl]
  split
  · rfl
  · rfl

omit hrest hstep in
/-- The rest is one text, and what the other reader takes in the end. -/
theorem restEvents_eq (o : OpenElements) :
    restEvents html ⟨n, o⟩ cs ++ (o.closeAll (between (byteLength html) [] [])).1 =
      tail (byteLength html) o cs := by
  have hspan : between (byteLength html) cs [] = ⟨n, byteLength html⟩ := by
    rw [between, offset_eq hplace]
    rfl
  rw [tail, hspan, offset_eq hplace]
  rfl

end

/-- Both readers find the same from a place on. The induction is that of the other reader. -/
theorem roundsAt_eq (d : Dialect) (o : OpenElements) {html cs : List Char} {n : Nat}
    (hplace : dropBytes? n html = some cs) :
    ∃ rounds last,
      (∀ fuel bound, byteLength html < fuel → byteLength cs < bound →
        roundsAt html d fuel bound ⟨n, o⟩ = some (rounds, ⟨byteLength html, last⟩)) ∧
      rounds.flatMap (·.events) ++ (last.closeAll (between (byteLength html) [] [])).1 =
        events (byteLength html) d o cs ∧
      Advances html n rounds := by
  fun_induction events (byteLength html) d o cs generalizing n with
  | case1 o =>
    have hend : n = byteLength html := place_add_byteLength hplace
    subst hend
    refine ⟨[], o, fun fuel bound _ hbound => ?_, rfl, .ended⟩
    obtain ⟨bound, rfl⟩ := Nat.exists_eq_add_of_lt hbound
    simp [roundsAt]
  | case2 o c cs p hshort =>
    rename_i ih
    have hrest : p.rest <:+ c :: cs := step_suffix _ d o (c :: cs)
    have hnext := dropBytes?_of_suffix hrest hplace
    obtain ⟨rounds, last, hrun, hevents, hadvances⟩ := ih hnext
    have htaken := (length_lt_iff_taken_pos hrest).1 hshort
    have hall := taken_add_byteLength hrest
    have hend := place_add_byteLength hplace
    have hlength := length_le_byteLength (c :: cs)
    refine ⟨⟨n, n + taken (c :: cs) p.rest, p.events, false⟩ :: rounds, last,
      fun fuel bound hfuel hbound => ?_, ?_, ?_⟩
    · obtain ⟨bound, rfl⟩ := Nat.exists_eq_add_of_lt (Nat.zero_lt_of_lt hbound)
      rw [Nat.zero_add] at hbound ⊢
      have hstep := stepAt_eq hplace d o (by omega : (c :: cs).length < fuel)
      rw [roundsAt_onward hplace hrest hstep hshort, hrun fuel bound hfuel (by omega)]
      rfl
    · rw [List.flatMap_cons, List.append_assoc, hevents]
    · obtain ⟨front, hhtml, hfront⟩ := Text.dropBytes?_eq_some.1 hnext
      have hforward : n < n + taken (c :: cs) p.rest := by omega
      exact .onward hforward ⟨front, p.rest, hhtml, hfront⟩ hadvances
  | case3 o c cs p =>
    rename_i hstuck
    have hrest : p.rest <:+ c :: cs := step_suffix _ d o (c :: cs)
    have hall : p.rest = c :: cs := hrest.eq_of_length_le (Nat.le_of_not_lt hstuck)
    have hlength := length_le_byteLength (c :: cs)
    have hend := place_add_byteLength hplace
    refine ⟨[⟨n, byteLength html, p.events ++ restEvents html ⟨n, p.opened⟩ (c :: cs), true⟩],
      p.opened, fun fuel bound hfuel hbound => ?_, ?_, ?_⟩
    · obtain ⟨bound, rfl⟩ := Nat.exists_eq_add_of_lt (Nat.zero_lt_of_lt hbound)
      have hstep := stepAt_eq hplace d o (by omega : (c :: cs).length < fuel)
      rw [Nat.zero_add, roundsAt_stuck hplace hstep (List.cons_ne_nil c cs) hall]
    · rw [hall, ← restEvents_eq hplace]
      simp
    · obtain ⟨front, hhtml, rfl⟩ := Text.dropBytes?_eq_some.1 hplace
      refine .stuck hhtml ?_
      have hfound : p.events.filter Event.isText = [] :=
        List.filter_eq_nil_iff.2 fun e he => by simp [textless_of_stuck _ d o _ hstuck e he]
      rw [List.filter_append, hfound, List.nil_append, texts_restEvents]

/-- However much longer the loops might go on, every text is read in the same rounds, which never
leave it, and to its end. -/
theorem reading_advances (d : Dialect) (html : String) :
    ∃ r : Reading, (∀ more, reading? d html (byteLength html.toList + 1 + more) = some r) ∧
      r.events = tokenize d html ∧ r.index = byteLength html.toList ∧
      Advances html.toList 0 r.rounds := by
  obtain ⟨rounds, last, hrun, hevents, hadvances⟩ :=
    roundsAt_eq d .none (Text.dropBytes?_zero html.toList)
  refine ⟨⟨rounds, (last.closeAll _).1, _⟩, fun more => ?_, hevents, rfl, hadvances⟩
  have hrounds := hrun (byteLength html.toList + 1 + more) (byteLength html.toList + 1 + more)
    (by omega) (by omega)
  simp only [reading?, hrounds, closeFrom_all, Option.bind_eq_bind, Option.bind_some]
  rfl

/-- A text, a comment that is closed at once, and a tag that never ends. -/
example : ((reading? .plain "é<!--><p" 12).map fun r =>
    r.rounds.map fun r => (r.start, r.stop, r.stuck)) =
      some [(0, 2, false), (2, 7, false), (7, 9, true)] := by decide +kernel

end ViewTree.Markup
