import Mathlib.Data.List.Chain
import ViewTree.Proofs.Markup.StartTags
/-!
# Implied closing

With the rules of the platform, a start tag ends a paragraph that cannot hold it, and an element of
its own kind that may be left open. Each rule is applied once, and what one of them closes shows
another element to both. Once is enough, since no open element stands directly inside one that its
start tag would have ended (`fitting_step`).
-/

namespace ViewTree.Markup

/-- The element may stand directly inside the other: it does not end it as a paragraph, nor as an
element of its own kind. -/
def MayStandIn (inner outer : String) : Prop :=
  ¬ (Platform.isNonPhrasing inner ∧ outer = "p") ∧ ¬ (Platform.canBeLeftOpen inner ∧ outer = inner)

/-- The dialect closes what the platform says that a start tag closes. -/
structure Dialect.ClosesImplied (d : Dialect) : Prop where
  html : d.expectHtml = true
  leftOpen : d.canBeLeftOpen = Platform.canBeLeftOpen

/-! ## Closing for one start tag -/

/-- The tags without the first one, if that is the given one and the rule applies. -/
def dropTop (applies : Bool) (name : String) (tags : List String) : List String :=
  if applies && tags.head? == some name then tags.tail else tags

theorem dropTop_suffix (applies : Bool) (name : String) (tags : List String) :
    dropTop applies name tags <:+ tags := by
  unfold dropTop
  split
  · exact List.tail_suffix tags
  · exact List.suffix_refl tags

section

variable {d : Dialect} {o : OpenElements}

theorem tags_close_when (ho : o.InStep) {closes applies : Bool} {name : String}
    (h : closes = (applies && o.last == some name)) (span : Span) :
    (if closes then o.close name span else ([], o)).2.tags = dropTop applies name o.tags := by
  rw [close_when ho (by simp +contextual [h]), dropTop, ← show o.last = o.tags.head? from ho, ← h]
  cases closes with
  | true => simp [OpenElements.ofStack, OpenElements.tags]
  | false => rfl

/-- A start tag takes at most one element off the stack for each rule. -/
theorem tags_closeImplied (hd : d.ClosesImplied) (ho : o.InStep) (tag : String) (place : Nat) :
    (closeImplied d o tag place).2.tags =
      dropTop (Platform.canBeLeftOpen tag) tag
        (dropTop (Platform.isNonPhrasing tag) "p" o.tags) := by
  have hfirst := tags_close_when ho
    (Bool.and_comm (o.last == some "p") (Platform.isNonPhrasing tag)) ⟨place, place⟩
  have hstep : (if o.last == some "p" && Platform.isNonPhrasing tag
      then o.close "p" ⟨place, place⟩ else ([], o)).2.InStep := by
    split
    · exact inStep_close ho _ _
    · exact ho
  rw [closeImplied, if_pos hd.html, hd.leftOpen]
  dsimp only
  rw [tags_close_when hstep rfl, hfirst]

end

/-- What stays open may hold the tag, as long as it could hold what it already does. The element
that a rule takes off the stack says what the one below it is not. -/
theorem mayStandIn_dropTop {tags : List String} (h : tags.IsChain MayStandIn) (tag : String) :
    ∀ outer ∈ (dropTop (Platform.canBeLeftOpen tag) tag
      (dropTop (Platform.isNonPhrasing tag) "p" tags)).head?, MayStandIn tag outer := by
  have hp : Platform.canBeLeftOpen "p" := by decide +kernel
  generalize hfirst : dropTop (Platform.isNonPhrasing tag) "p" tags = first
  have hchain : first.IsChain MayStandIn := h.suffix (hfirst ▸ dropTop_suffix _ _ _)
  have hparagraph : Platform.isNonPhrasing tag → first.head? ≠ some "p" := by
    intro hnon
    cases tags with
    | nil => simp [← hfirst, dropTop]
    | cons top tags =>
      by_cases htop : top = "p"
      · subst htop
        intro hagain
        have hout : "p" ∈ tags.head? := by simpa [← hfirst, dropTop, hnon] using hagain
        exact ((List.isChain_cons.1 h).1 "p" hout).2 ⟨hp, rfl⟩
      · simp [← hfirst, dropTop, htop]
  unfold dropTop
  split
  · rename_i hclosed
    simp only [Bool.and_eq_true, beq_iff_eq] at hclosed
    obtain ⟨below, rfl⟩ := List.head?_eq_some_iff.1 hclosed.2
    exact (List.isChain_cons.1 hchain).1
  · rename_i hopen
    intro outer houter
    refine ⟨?_, ?_⟩
    · rintro ⟨hnon, rfl⟩
      exact hparagraph hnon houter
    · rintro ⟨hleft, rfl⟩
      exact hopen (by simpa [hleft] using houter)

/-! ## All open elements -/

section

variable {d : Dialect} {o : OpenElements}

/-- Every open element may stand in the one around it. -/
def OpenElements.Fitting (o : OpenElements) : Prop :=
  o.tags.IsChain MayStandIn

theorem OpenElements.Fitting.below {inside below : List OpenElement} (h : o.Fitting)
    (hstack : o.stack = inside ++ below) : (OpenElements.ofStack below).Fitting := by
  have hchain : (o.stack.map (·.tag)).IsChain MayStandIn := h
  rw [hstack, List.map_append] at hchain
  exact hchain.right_of_append

theorem fitting_close (h : o.Fitting) (tag : String) (span : Span) :
    (o.close tag span).2.Fitting := by
  obtain hstray | ⟨inside, e, below, hstack, -, hclose⟩ := close_cases o tag span
  · rw [hstray]
    exact h
  · rw [hclose]
    rw [List.append_cons] at hstack
    exact h.below hstack

theorem fitting_closeImplied (hd : d.ClosesImplied) (ho : o.InStep) (h : o.Fitting) (tag : String)
    (place : Nat) :
    (closeImplied d o tag place).2.Fitting ∧
      ∀ outer ∈ (closeImplied d o tag place).2.tags.head?, MayStandIn tag outer := by
  unfold OpenElements.Fitting
  rw [tags_closeImplied hd ho]
  have hsuffix := (dropTop_suffix (Platform.canBeLeftOpen tag) tag
    (dropTop (Platform.isNonPhrasing tag) "p" o.tags)).trans (dropTop_suffix _ _ _)
  exact ⟨h.suffix hsuffix, mayStandIn_dropTop h tag⟩

variable (total : Nat)

theorem fitting_step (hd : d.ClosesImplied) (ho : o.InStep) (h : o.Fitting) (cs : List Char) :
    (step total d o cs).opened.Fitting := by
  have hturn := step_turn total d cs ho
  generalize step total d o cs = p at hturn
  cases hturn with
  | aside hes => exact h
  | stray hend => exact h
  | ended hend hstack htag =>
    rw [List.append_cons] at hstack
    exact h.below hstack
  | @opened t hstart =>
    obtain ⟨hbelow, htop⟩ := fitting_closeImplied hd ho h t.tag (offset total t.rest)
    simp only [openTag]
    split
    · exact hbelow
    · exact List.isChain_cons.2 ⟨htop, hbelow⟩
  | rawEnded hraw hstack hfound => exact h.below (hstack.trans List.singleton_append.symm)
  | rawUnended hraw hstack hfound => exact h.below (hstack.trans List.singleton_append.symm)

end

theorem Moment.fitting {d : Dialect} (hd : d.ClosesImplied) {html : String} {o : OpenElements}
    {cs : List Char} (h : Moment d html o cs) : o.InStep ∧ o.Fitting := by
  induction h with
  | start => exact ⟨inStep_none, List.isChain_nil⟩
  | step _ _ ih => exact ⟨inStep_step _ d ih.1 _, fitting_step _ hd ih.1 ih.2 _⟩
  | closing _ tag span ih => exact ⟨inStep_close ih.1 tag span, fitting_close ih.2 tag span⟩
  | ended => exact ⟨inStep_none, List.isChain_nil⟩

theorem Reads.moment {d : Dialect} {html : String} {o o' : OpenElements} {cs cs' : List Char}
    {es : List Event} (h : Reads (Text.byteLength html.toList) d o cs es o' cs')
    (ho : Moment d html o cs) : Moment d html o' cs' := by
  induction h with
  | here => exact ho
  | onward _ _ ih => exact ih (ho.step (List.cons_ne_nil _ _))

/-- Wherever the text has a start tag, what is open then may hold it when it is reported, and at
every moment each open element may stand in the one around it. -/
theorem implied_closed {d : Dialect} (hd : d.ClosesImplied) (html : String) :
    (∀ before tag attrs unary span after,
      tokenize d html = before ++ .start tag attrs unary span :: after →
      StartTagAt html.toList tag span →
      ∃ tags, nest [] before = some tags ∧
        (Platform.isNonPhrasing tag → tags.head? ≠ some "p") ∧
        (Platform.canBeLeftOpen tag → tags.head? ≠ some tag)) ∧
    ∀ o cs, Moment d html o cs →
      (o.stack.map (·.tag)).IsChain fun inner outer =>
        ¬ (Platform.isNonPhrasing inner ∧ outer = "p") ∧
          ¬ (Platform.canBeLeftOpen inner ∧ outer = inner) := by
  refine ⟨?_, fun o cs h => (h.fitting hd).2⟩
  intro before tag attrs unary span after htokens hsource
  obtain ⟨earlier, o, cs, t, hmet, rfl, -, -, rfl, -⟩ := exists_met htokens (.inl hsource)
  obtain ⟨ho, hfit⟩ := (hmet.reads.moment .start).fitting hd
  obtain ⟨-, htop⟩ := fitting_closeImplied hd ho hfit t.tag
    (offset (Text.byteLength html.toList) t.rest)
  have hnest := nest_trans hmet.reads.nest_eq (nest_closeImplied d o t.tag
    (offset (Text.byteLength html.toList) t.rest))
  exact ⟨_, hnest, fun hnon hp => (htop _ hp).1 ⟨hnon, rfl⟩,
    fun hleft hsame => (htop _ hsame).2 ⟨hleft, rfl⟩⟩

/-- Markup as the platform reads it. -/
def Dialect.web : Dialect :=
  ⟨true, Platform.isUnaryTag, Platform.canBeLeftOpen, false, false, false⟩

/-- A block right behind the start tag of a paragraph, and what is open then. -/
theorem implied_closed_paragraph :
    (∃ tags, nest [] [.start "p" [] false ⟨0, 3⟩, .stop "p" ⟨8, 8⟩] = some tags ∧
      tags.head? ≠ some "p") ∧
    ((step 8 .web (.push .none ⟨"p", ⟨0, 3⟩⟩) "<div>".toList).opened.stack.map (·.tag)).IsChain
      fun inner outer => ¬ (Platform.isNonPhrasing inner ∧ outer = "p") ∧
        ¬ (Platform.canBeLeftOpen inner ∧ outer = inner) := by
  obtain ⟨hstart, hstack⟩ := implied_closed (d := .web) ⟨rfl, rfl⟩ "<p><div>"
  obtain ⟨tags, hnest, hparagraph, -⟩ := hstart [.start "p" [] false ⟨0, 3⟩, .stop "p" ⟨8, 8⟩]
    "div" [] false ⟨3, 8⟩ [.warning (.unclosed "div" ⟨3, 8⟩), .stop "div" ⟨8, 8⟩]
    (by decide +kernel) ⟨['>'], by decide +kernel⟩
  refine ⟨⟨tags, hnest, hparagraph (by decide +kernel)⟩, ?_⟩
  have hfirst : Moment .web "<p><div>" (.push .none ⟨"p", ⟨0, 3⟩⟩) "<div>".toList :=
    Moment.step .start (by decide)
  exact hstack _ _ (hfirst.step (by decide))

end ViewTree.Markup
