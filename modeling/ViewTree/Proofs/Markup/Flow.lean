import ViewTree.Proofs.Markup.StartTags
import ViewTree.Proofs.Markup.Warnings
/-!
# How the places of tags follow one another

The ends of elements are reported in the order of their offsets (`tokenize_flows`), and every start
tag begins behind the last start tag and behind the last end, with one exception: what a start tag
closes ends where the start tag does.
-/

namespace ViewTree.Markup

/-- A start tag at the place can come where the last start tag ended at `n` and the last tag of all
at `k`: it begins behind both, unless it has closed what ended last. -/
structure Span.Begins (n k : Nat) (place : Span) : Prop where
  behind_start : n ≤ place.start
  forward : place.start < place.stop
  behind_end : k ≤ place.start ∨ k = place.stop

/-- The tags of events follow one another where the last start tag ended at `n` and the last tag of
all at `k`. -/
def Flows : Nat → Nat → List Event → Prop
  | _, _, [] => True
  | n, k, .start _ _ _ place :: es => place.Begins n k ∧ Flows place.stop place.stop es
  | n, k, .stop _ place :: es => k ≤ place.stop ∧ Flows n place.stop es
  | n, k, .text _ _ :: es => Flows n k es
  | n, k, .comment _ _ :: es => Flows n k es
  | n, k, .warning _ :: es => Flows n k es

theorem Span.Begins.mono {n m k l : Nat} {place : Span} (h : place.Begins m l) (hn : n ≤ m)
    (hk : k = l ∨ k ≤ m) : place.Begins n k := by
  obtain ⟨hstart, hforward, hend⟩ := h
  refine ⟨by omega, hforward, ?_⟩
  rcases hk with rfl | hk
  · exact hend
  · exact .inl (by omega)

/-- What has ended so far has ended before the start tag begins, or it ends with the start tag. -/
theorem Span.Begins.ended {n k stop : Nat} {place : Span} (h : place.Begins n k)
    (hstop : stop ≤ n ∨ stop = k) : stop ≤ place.start ∨ stop = place.stop := by
  obtain ⟨hstart, hforward, hend⟩ := h
  omega

section

variable {n m k l : Nat} {es fs : List Event}

theorem flows_cons_of_not_isTag {e : Event} (he : e.isTag = false) :
    Flows n k (e :: es) ↔ Flows n k es := by
  cases e with
  | start => cases he
  | stop => cases he
  | _ => exact Iff.rfl

/-- What can come later can come earlier. -/
theorem Flows.mono (h : Flows m l es) (hn : n ≤ m) (hk : k = l ∨ k ≤ m) (hle : k ≤ l) :
    Flows n k es := by
  induction es generalizing n m k l with
  | nil => trivial
  | cons e es ih =>
    cases e with
    | start tag attrs unary place => exact ⟨h.1.mono hn hk, h.2⟩
    | stop tag place => exact ⟨hle.trans h.1, ih h.2 hn (.inl rfl) (Nat.le_refl _)⟩
    | _ => exact ih h hn hk hle

theorem Flows.early (h : Flows m m es) (hn : n ≤ m) : Flows n n es :=
  h.mono hn (.inr hn) hn

theorem flows_asides (hes : ∀ x ∈ es, x.isAside) (h : Flows n k fs) : Flows n k (es ++ fs) := by
  induction es with
  | nil => exact h
  | cons x es ih =>
    obtain ⟨hx, hes⟩ := List.forall_mem_cons.1 hes
    have htag : x.isTag = false := by
      cases x with
      | start => cases hx
      | stop => cases hx
      | _ => rfl
    exact (flows_cons_of_not_isTag htag).2 (ih hes)

/-- Ends without end tags of their own come before what can come at any offset up to them. -/
theorem flows_implied {span : Span} (stack : List OpenElement) (hk : k ≤ span.stop)
    (h : ∀ l ≤ span.stop, Flows n l fs) :
    Flows n k (stack.flatMap (OpenElements.implied span) ++ fs) := by
  induction stack generalizing k with
  | nil => exact h k hk
  | cons e stack ih => exact ⟨hk, ih (Nat.le_refl _)⟩

end

/-! ## One step -/

section

variable {total : Nat} {d : Dialect} {o : OpenElements} {cs rest : List Char} {fs : List Event}

theorem between_begins (h : rest <:+ cs) (hshort : rest.length < cs.length)
    (htotal : Text.byteLength cs ≤ total) :
    (between total cs rest).Begins (offset total cs) (offset total cs) :=
  ⟨Nat.le_refl _, offset_lt h hshort htotal, .inl (Nat.le_refl _)⟩

theorem flows_strayEnd (tag : String) {n : Nat} {span : Span} (hspan : span.Begins n n)
    (h : Flows span.stop span.stop fs) : Flows n n (OpenElements.strayEnd tag span ++ fs) := by
  have hle : n ≤ span.stop := hspan.behind_start.trans (Nat.le_of_lt hspan.forward)
  unfold OpenElements.strayEnd
  split
  · exact ⟨hspan, h⟩
  · split
    · exact ⟨hspan, Nat.le_refl _, h⟩
    · exact h.early hle

/-- What a start tag closes ends where the start tag does, and the start tag comes all the same. -/
theorem flows_closeImplied (ho : o.InStep) (tag : String) {n k place : Nat} (hk : k ≤ place)
    (hhere : Flows n k fs) (hplace : Flows n place fs) :
    Flows n k ((closeImplied d o tag place).1 ++ fs) := by
  have hone {q : OpenElements} (hq : q.InStep) {closes : Bool} {name : String} {k : Nat}
      {fs : List Event} (h : closes → q.last = some name) (hk : k ≤ place) (hhere : Flows n k fs)
      (hplace : Flows n place fs) :
      Flows n k ((if closes then q.close name ⟨place, place⟩ else ([], q)).1 ++ fs) := by
    rw [close_when hq h]
    cases closes with
    | true => exact ⟨hk, hplace⟩
    | false => exact hhere
  unfold closeImplied
  split
  · have hq (closes : Bool) :
        (if closes then o.close "p" ⟨place, place⟩ else ([], o)).2.InStep := by
      cases closes with
      | true => exact inStep_close ho _ _
      | false => exact ho
    dsimp only
    rw [List.append_assoc]
    apply hone ho (by simp +contextual) hk
    · exact hone (hq _) (by simp +contextual) hk hhere hplace
    · exact hone (hq _) (by simp +contextual) (Nat.le_refl _) hplace hplace
  · exact hhere

theorem flows_openTag (ho : o.InStep) (htotal : Text.byteLength cs ≤ total) {t : StartTag}
    (hstart : startTag? total cs = some t)
    (h : Flows (offset total (openTag total d o cs t).rest)
      (offset total (openTag total d o cs t).rest) fs) :
    Flows (offset total cs) (offset total cs) ((openTag total d o cs t).events ++ fs) := by
  have hsuffix := startTag?_suffix total cs hstart
  have hbegins := between_begins hsuffix (startTag?_length hstart) htotal
  have hbehind : Flows (offset total t.rest) (offset total t.rest) fs :=
    h.early (offset_le (dropFirstNewline_suffix t.tag t.rest))
  simp only [openTag, List.append_assoc]
  apply flows_closeImplied ho _ (offset_le hsuffix)
  · exact ⟨hbegins, hbehind⟩
  · -- Behind an element that it closes, the start tag ends where that element ended.
    exact ⟨⟨Nat.le_refl _, hbegins.forward, .inr rfl⟩, hbehind⟩

/-- Whatever follows a step can follow its events. -/
theorem Turn.flows {p : Progress} (hp : Turn total d o cs p) (ho : o.InStep)
    (htotal : Text.byteLength cs ≤ total) (hsuffix : p.rest <:+ cs)
    (h : Flows (offset total p.rest) (offset total p.rest) fs) :
    Flows (offset total cs) (offset total cs) (p.events ++ fs) := by
  have hle : offset total cs ≤ offset total p.rest := offset_le hsuffix
  -- An end tag comes before what follows the step, however far the last tag reached.
  have hends (tag : String) : ∀ l ≤ offset total p.rest,
      Flows (offset total cs) l (.stop tag (between total cs p.rest) :: fs) := fun l hl =>
    ⟨hl, h.mono hle (.inr (Nat.le_refl _)) (Nat.le_refl _)⟩
  cases hp with
  | aside hes => exact flows_asides hes (h.early hle)
  | stray hend =>
    exact flows_strayEnd _ (between_begins hsuffix (endTag?_length hend) htotal) h
  | @ended tag rest inside below e hend hstack htag =>
    rw [List.append_assoc]
    exact flows_implied inside hle (hends e.tag)
  | opened hstart => exact flows_openTag ho htotal hstart h
  | @rawEnded content fromEnd rest below e hraw hstack hfound =>
    rw [List.append_assoc]
    exact flows_asides (isAside_textOf _ _) (hends e.tag _ hle)
  | rawUnended hraw hstack hfound => exact ⟨Nat.le_refl _, h⟩

theorem flows_closeAll {n k : Nat} (hk : k ≤ total) :
    Flows n k (o.closeAll (between total [] [])).1 := by
  have h : Flows n k (o.stack.flatMap (OpenElements.implied (between total [] [])) ++ []) :=
    flows_implied o.stack hk fun _ _ => trivial
  rwa [List.append_nil] at h

theorem flows_tail {n k : Nat} (hk : k ≤ total) : Flows n k (tail total o rest) := by
  have hclose : Flows n k (o.closeAll (between total [] [])).1 := flows_closeAll hk
  unfold tail
  dsimp only
  split
  · exact hclose
  · exact hclose

/-- The tags that are read from a place on, by induction on the steps. -/
theorem flows_events (ho : o.InStep) (htotal : Text.byteLength cs ≤ total) :
    Flows (offset total cs) (offset total cs) (events total d o cs) := by
  fun_induction events total d o cs with
  | case1 o => exact flows_closeAll (Nat.sub_le _ _)
  | case2 o c cs p hshort ih =>
    have hsuffix := step_suffix total d o (c :: cs)
    have hlater := ih (inStep_step total d ho _)
      ((byteLength_le_of_suffix hsuffix).trans htotal)
    exact (step_turn total d (c :: cs) ho).flows ho htotal hsuffix hlater
  | case3 o c cs p hstuck =>
    have hsuffix := step_suffix total d o (c :: cs)
    exact (step_turn total d (c :: cs) ho).flows ho htotal hsuffix (flows_tail (Nat.sub_le _ _))

end

theorem tokenize_flows (d : Dialect) (html : String) : Flows 0 0 (tokenize d html) :=
  (flows_events inStep_none (Nat.le_refl _)).early (Nat.zero_le _)

/-- The first item ends where the start tag of the second does. -/
example : tokenize { Dialect.plain with expectHtml := true, canBeLeftOpen := (· == "li") }
    "<ul><li>a<li>" =
      [.start "ul" [] false ⟨0, 4⟩, .start "li" [] false ⟨4, 8⟩, .text "a" ⟨8, 9⟩,
        .stop "li" ⟨13, 13⟩, .start "li" [] false ⟨9, 13⟩, .warning (.unclosed "li" ⟨9, 13⟩),
        .stop "li" ⟨13, 13⟩, .warning (.unclosed "ul" ⟨0, 4⟩), .stop "ul" ⟨13, 13⟩] := by
  decide +kernel

end ViewTree.Markup
