import ViewTree.Proofs.Component.Tracking
/-!
# Resolving is transparent

Options are merged again only when they are asked for, and what was merged before decides what is
carried over. `resolve_transparent_iff` says when that cannot be seen: however many resolutions are
put between the operations, every definition shows the same, and what its ancestors were given
last, exactly if the run is steady. What breaks it otherwise is an old value: a definition that was
resolved holds one when an inherited entry is bound anew, and carries it over from then on
(`resolve_keeps`).
-/

namespace ViewTree

variable {h : History} {cid : Cid}

/-! ## Runs -/

/-- All kinds of entries. -/
def anyKind : AssetKind → Prop :=
  fun _ => True

/-- The kind that valid operations always keep. -/
def nameKind : AssetKind → Prop :=
  fun k => k = .name

theorem tracks_run {w : World} (ht : Tracks anyKind w.definitions h) {ops : List Op}
    (hvalid : h.Along (fun h op => op.Valid h.ledger) ops)
    (hkept : h.Along (fun h op => ∀ k, op.Kept h k) ops) :
    Tracks anyKind (w.after ops).definitions (h.run ops) := by
  induction ops generalizing w h with
  | nil => exact ht
  | cons op ops ih =>
    exact ih (ht.step trivial hvalid.1 fun k _ => hkept.1 k) hvalid.2 hkept.2

/-- The runs make the same changes, in the same order. -/
def SameChanges (ops ops' : List Op) : Prop :=
  ops'.filter Op.isChange = ops.filter Op.isChange

section

variable {ops ops' : List Op}

theorem SameChanges.run_eq (hsame : SameChanges ops ops') : h.run ops' = h.run ops := by
  rw [← h.run_filter ops', ← h.run_filter ops, hsame]

theorem SameChanges.append (hsame : SameChanges ops ops') (more : List Op) :
    SameChanges (ops ++ more) (ops' ++ more) := by
  unfold SameChanges at *
  rw [List.filter_append, List.filter_append, hsame]

theorem SameChanges.valid (hsame : SameChanges ops ops') (hops : Valid ops) : Valid ops' := by
  have hresolve (h : History) (cid : Cid) : (Op.resolve cid).Valid h.ledger := trivial
  exact (History.along_filter hresolve).1 (hsame ▸ (History.along_filter hresolve).2 hops)

theorem SameChanges.steady (hsame : SameChanges ops ops') (hops : Steady ops) : Steady ops' := by
  have hresolve (h : History) (cid : Cid) (k : AssetKind) : (Op.resolve cid).Kept h k := trivial
  exact (History.along_filter hresolve).1 (hsame ▸ (History.along_filter hresolve).2 hops)

/-- A steady run is tracked, whatever is resolved on the way. -/
theorem tracks_steady (config : Config) (hvalid : Valid ops) (hsteady : Steady ops)
    (hsame : SameChanges ops ops') :
    Tracks anyKind ((World.start config).after ops').definitions (History.start.run ops) := by
  rw [← hsame.run_eq]
  exact tracks_run Tracks.start (hsame.valid hvalid) (hsame.steady hsteady)

/-- After a steady run, and whatever is resolved on the way, every definition shows its own entries
over those that its ancestors were given last. -/
theorem resolved_shown (config : Config) (hvalid : Valid ops) (hsteady : Steady ops)
    (hsame : SameChanges ops ops') (hlt : cid < (History.start.run ops).ledger.length)
    (k : AssetKind) :
    (((World.start config).after ops').resolved cid).find? k =
      (History.start.run ops).ledger.shown cid k :=
  (resolve_tracks trivial (tracks_steady config hvalid hsteady hsame) hlt).shown k trivial

end

/-! ## Old values -/

/-- A definition whose table is another than the one it was sealed with keeps showing an inherited
entry that it holds, whatever its ancestors say. -/
theorem resolve_keeps {w : World} (ht : Tracks nameKind w.definitions h) {d : Definition}
    {a : Account} {p : Cid} {k : AssetKind} {key : String} {v : k.Value}
    (hd : w.definitions[cid]? = some d) (ha : h.ledger[cid]? = some a)
    (hparent : a.parent = some p)
    (hself : selfEntry (h.ledger.name cid) cid k key = none)
    (hdiffers : (d.options.find? k).Differs (d.sealedOptions.find? k))
    (hv : d.options.find? k key = some v) : (w.resolved cid).find? k key = some v := by
  have hs := ht.stands cid d a hd ha
  have hplt := hs.parent_lt p hparent
  have hlt := (List.getElem?_eq_some_iff.1 ha).1
  have hK : nameKind .name := rfl
  have hr := resolve_tracks hK ht (Nat.lt_trans hplt hlt)
  have hd' := (hr.later hplt).trans hd
  have hname := remerged_name hK hr hd' ha hparent
  rw [World.resolved, resolve_child hd (hs.parent.trans hparent) hplt]
  dsimp only
  split
  · exact hv
  · obtain ⟨-, hfind, -⟩ :=
      remerge_spec hd' hs.options_sorted hs.extend_sorted hr.sorted
        ((((Run.resolveOptions p).run w).2.definitions[p]?).getD default).version
    -- A table that differs is carried whole, so the old value is laid over the parent's.
    have hcarried : (carryEdits d.options d.sealedOptions d.extendOptions).flat? k key = some v := by
      rw [flat?_carryEdits, not_same_of_differs hdiffers]
      exact Lookup.within_onto _ _ key v hv
    rw [hfind, Lookup.onto_eq_some]
    refine .inr ⟨?_, Lookup.within_onto _ _ key v hcarried⟩
    exact (congrArg (fun name => selfEntry name cid k key) hname).trans hself

/-- What a definition shows, it holds after another resolution. -/
theorem shown_held (config : Config) {ops : List Op} (hvalid : Valid ops) (hsteady : Steady ops)
    {k : AssetKind} {key : String} {v : k.Value}
    (hshown : (History.start.run ops).ledger.shown cid k key = some v) :
    ∃ ops', SameChanges ops ops' ∧
      ∃ d, ((World.start config).after ops').definitions[cid]? = some d ∧
        d.options.find? k key = some v := by
  have ht := tracks_steady config hvalid hsteady rfl
  have hlt : cid < (History.start.run ops).ledger.length := by
    apply Nat.lt_of_not_le
    intro hle
    rw [Ledger.shown_missing (List.getElem?_eq_none hle)] at hshown
    cases hshown
  have hr := resolve_tracks trivial ht hlt
  obtain ⟨d, hd, hoptions⟩ := hr.result
  refine ⟨ops ++ [.resolve cid], ?_, d, ?_, ?_⟩
  · simp [SameChanges, Op.isChange]
  · rw [World.after_append]
    exact hd
  · rw [hoptions, hr.shown k trivial]
    exact hshown

/-- A definition may hold what it is known to have shown. -/
def KnownHeld (config : Config) (ops : List Op) : Prop :=
  ∀ cid k key v, (History.start.run ops).known cid k key v →
    ∃ ops', SameChanges ops ops' ∧
      ∃ d, ((World.start config).after ops').definitions[cid]? = some d ∧
        d.options.find? k key = some v

theorem knownHeld_step {config : Config} {ops : List Op} (hheld : KnownHeld config ops) {op : Op}
    (hvalid : Valid (ops ++ [op])) (hsteady : Steady (ops ++ [op])) :
    KnownHeld config (ops ++ [op]) := by
  intro cid k key v hknown
  -- What is shown after the operation is held after another resolution.
  by_cases hshown : (History.start.run (ops ++ [op])).ledger.shown cid k key = some v
  · exact shown_held config hvalid hsteady hshown
  have hops := (History.along_append.1 hvalid).1
  have hops' := (History.along_append.1 hsteady).1
  rw [History.run_append] at hknown hshown
  cases op with
  | base =>
    obtain ⟨ops', hsame, d, hd, hv⟩ := hheld cid k key v (hknown.resolve_left hshown)
    refine ⟨ops' ++ [.base], hsame.append _, d, ?_, hv⟩
    rw [World.after_append]
    exact List.getElem?_append_left (List.getElem?_eq_some_iff.1 hd).1 ▸ hd
  | extend p options =>
    -- Only the definitions that are resolved on the way lose what they hold.
    obtain ⟨hmem, hknown⟩ := hknown.resolve_left hshown
    obtain ⟨ops', hsame, d, hd, hv⟩ := hheld cid k key v hknown
    refine ⟨ops' ++ [.extend p options], hsame.append _, d, ?_, hv⟩
    have ht := tracks_steady config hops hops' hsame
    obtain ⟨hlt, hoptions, -⟩ := (History.along_append.1 hvalid).2.1
    have hr := resolve_tracks trivial ht hlt
    obtain ⟨merged, -, -, hset⟩ := extendDefinition_spec hoptions hr.sorted
    have hd' := (hr.elsewhere cid hmem).trans hd
    rw [World.after_append]
    refine (congrArg (·[cid]?) hset).trans ?_
    rw [List.getElem?_append_left (List.getElem?_eq_some_iff.1 hd').1]
    exact hd'
  | edit c e =>
    obtain ⟨hnone, hknown⟩ := hknown.resolve_left hshown
    obtain ⟨ops', hsame, d, hd, hv⟩ := hheld cid k key v hknown
    refine ⟨ops' ++ [.edit c e], hsame.append _, ?_⟩
    have ht := tracks_steady config hops hops' hsame
    obtain ⟨hlt, hedit⟩ := (History.along_append.1 hvalid).2.1
    rw [World.after_append]
    by_cases heq : cid = c
    · subst heq
      obtain ⟨options, hfind, hd'⟩ := ht.edit_self hedit.proper hd
      refine ⟨_, hd', ?_⟩
      show options.find? k key = some v
      rw [hfind, Lookup.onto_eq_some]
      exact .inr ⟨hnone rfl, hv⟩
    · exact ⟨d, (ht.edit_elsewhere hlt hedit.proper heq).trans hd, hv⟩
  | resolve c =>
    -- The resolution is left out of the other run.
    obtain ⟨ops', hsame, hheld⟩ := hheld cid k key v hknown
    refine ⟨ops', ?_, hheld⟩
    rw [SameChanges, hsame, List.filter_append]
    exact (List.append_nil _).symm

theorem knownHeld_append {config : Config} {ops more : List Op} (hheld : KnownHeld config ops)
    (hvalid : Valid (ops ++ more)) (hsteady : Steady (ops ++ more)) :
    KnownHeld config (ops ++ more) := by
  induction more generalizing ops with
  | nil => rwa [List.append_nil]
  | cons op more ih =>
    rw [List.append_cons] at hvalid hsteady ⊢
    have hops := (History.along_append.1 hvalid).1
    exact ih (knownHeld_step hheld hops (History.along_append.1 hsteady).1) hvalid hsteady

/-- Whatever a definition is known to have shown, it may still hold. -/
theorem knownHeld (config : Config) {ops : List Op} (hvalid : Valid ops) (hsteady : Steady ops) :
    KnownHeld config ops := by
  have hstart : KnownHeld config [] := fun _ _ _ _ hknown => hknown.elim
  exact knownHeld_append hstart hvalid hsteady

/-- A valid change names nothing, so that it keeps all names. -/
theorem Edit.Valid.kept_name {c : Cid} {e : Edit} (hvalid : e.Valid h.ledger c) :
    e.Kept h c .name := by
  constructor
  · intro cid a p _ _ _ _ key v _ hv
    rwa [Ledger.shown_register_of_empty hvalid.nameless]
  · intro a p _ _ hnew
    rw [hvalid.nameless] at hnew
    exact absurd (fun _ _ hv => nomatch hv) hnew

/-- After a change, too, a definition keeps showing an inherited entry that it holds in a table that
is another than it was sealed with. -/
theorem edit_keeps {w : World} (ht : Tracks anyKind w.definitions h) {c : Cid} {e : Edit}
    (hlt : c < h.ledger.length) (hvalid : e.Valid h.ledger c) {a : Account} {p : Cid}
    (ha : h.ledger[cid]? = some a) (hparent : a.parent = some p) {d : Definition} {k : AssetKind}
    {key : String} {v : k.Value} (hd : ((e.run c).run w).2.definitions[cid]? = some d)
    (hown : a.own k key = none) (hdiffers : (d.options.find? k).Differs (d.sealedOptions.find? k))
    (hv : d.options.find? k key = some v) :
    (((e.run c).run w).2.resolved cid).find? k key = some v := by
  have hnames : Tracks nameKind ((e.run c).run w).2.definitions (h.step (.edit c e)) := by
    refine (ht.mono fun _ _ => trivial).edit hlt hvalid fun k hk => ?_
    cases hk
    exact hvalid.kept_name
  obtain ⟨a', ha', hparent'⟩ : ∃ a', (h.ledger.register c e.table)[cid]? = some a' ∧
      a'.parent = some p := by
    by_cases heq : cid = c
    · subst heq
      exact ⟨_, Ledger.getElem?_register_self ha, hparent⟩
    · exact ⟨a, (Ledger.getElem?_register_of_ne heq).trans ha, hparent⟩
  refine resolve_keeps hnames hd ha' hparent' ?_ hdiffers hv
  show selfEntry ((h.ledger.register c e.table).name cid) cid k key = none
  rw [Ledger.name_register hvalid.nameless]
  obtain ⟨d', hd'⟩ := ht.definition (List.getElem?_eq_some_iff.1 ha).1
  exact ((ht.stands cid d' a hd' ha).caches p hparent k trivial).naming_own.keysIn key hown

/-- Resolving cannot be seen after a run: every definition shows the same entries whatever was
resolved on the way, and under a key that it has not registered itself, what its ancestors were
given last. -/
structure Transparent (config : Config) (ops : List Op) : Prop where
  same : ∀ ops', SameChanges ops ops' → ∀ cid < (History.start.run ops).ledger.length, ∀ k,
    (((World.start config).after ops').resolved cid).find? k =
      (((World.start config).after ops).resolved cid).find? k
  last : ∀ cid a k key, (History.start.run ops).ledger[cid]? = some a → a.own k key = none →
    (((World.start config).after ops).resolved cid).find? k key =
      (History.start.run ops).ledger.shown cid k key

theorem Transparent.inherited {config : Config} {ops ops' : List Op} (h : Transparent config ops)
    (hsame : SameChanges ops ops') {a : Account} {k : AssetKind} {key : String}
    (ha : (History.start.run ops).ledger[cid]? = some a) (hown : a.own k key = none) :
    (((World.start config).after ops').resolved cid).find? k key =
      (History.start.run ops).ledger.shown cid k key := by
  rw [h.same ops' hsame cid (List.getElem?_eq_some_iff.1 ha).1]
  exact h.last cid a k key ha hown

section

variable {config : Config} {ops : List Op} {c : Cid} {e : Edit} {k : AssetKind}

theorem ledger_edit : (History.start.run (ops ++ [.edit c e])).ledger =
    (History.start.run ops).ledger.register c e.table := by
  rw [History.run_append]
  rfl

/-- If resolving cannot be seen after a change, then it binds nothing anew that a definition
inherits in a table that is another than it was made with: a definition that is resolved right
before the change would keep the old value. -/
theorem inherited_of_transparent (hvalid : Valid ops) (hsteady : Steady ops)
    (hedit : (Op.edit c e).Valid (History.start.run ops).ledger)
    (htransparent : Transparent config (ops ++ [.edit c e])) {a : Account} {p : Cid}
    (hne : cid ≠ c) (ha : (History.start.run ops).ledger[cid]? = some a)
    (hparent : a.parent = some p)
    (hdiffers : ((History.start.run ops).ledger.shown cid k).Differs (a.made k)) {key : String}
    {v : k.Value} (hown : a.own k key = none)
    (hv : (History.start.run ops).ledger.shown cid k key = some v) :
    ((History.start.run ops).ledger.register c e.table).shown cid k key = some v := by
  have ht := tracks_steady config hvalid hsteady rfl
  have hr := resolve_tracks trivial ht (List.getElem?_eq_some_iff.1 ha).1
  obtain ⟨d, hd, hoptions⟩ := hr.result
  have hd' := (hr.tracks.edit_elsewhere hedit.1 hedit.2.proper hne).trans hd
  have hfind : d.options.find? k = (History.start.run ops).ledger.shown cid k :=
    hoptions ▸ hr.shown k trivial
  have hsealed := ((hr.tracks.stands cid d a hd ha).caches p hparent k trivial).sealed_made
  have hkeeps := edit_keeps hr.tracks hedit.1 hedit.2 ha hparent hd' hown
    (by rwa [hfind, hsealed]) (by rwa [hfind])
  have hsame : SameChanges (ops ++ [.edit c e]) (ops ++ [.resolve cid, .edit c e]) := by
    simp [SameChanges, Op.isChange]
  have ha' : (History.start.run (ops ++ [.edit c e])).ledger[cid]? = some a := by
    rw [ledger_edit, Ledger.getElem?_register_of_ne hne, ha]
  have hnow := htransparent.inherited hsame ha' hown
  rw [World.after_append, ledger_edit] at hnow
  exact hnow.symm.trans hkeeps

/-- If resolving cannot be seen after a change, then the definition that entries are registered
with holds no old value of an inherited entry: one that was resolved when it last showed the value
would carry it over with what is registered. -/
theorem held_of_transparent (hvalid : Valid ops) (hsteady : Steady ops)
    (hedit : (Op.edit c e).Valid (History.start.run ops).ledger)
    (htransparent : Transparent config (ops ++ [.edit c e])) {a : Account} {p : Cid}
    (ha : (History.start.run ops).ledger[c]? = some a) (hparent : a.parent = some p)
    (hnew : ¬ (e.table k).Within (a.own k)) {key : String} {v : k.Value}
    (hnone : e.table k key = none)
    (hown : a.own k key = none) (hknown : (History.start.run ops).known c k key v) :
    (History.start.run ops).ledger.shown c k key = some v := by
  obtain ⟨ops', hsame, d, hd, hv⟩ := knownHeld config hvalid hsteady c k key v hknown
  have ht := tracks_steady config hvalid hsteady hsame
  obtain ⟨options, hfind, hd'⟩ := ht.edit_self hedit.2.proper hd
  have hcaches := (ht.stands c d a hd ha).caches p hparent k trivial
  have hdiffers : (options.find? k).Differs (d.sealedOptions.find? k) := by
    rw [hfind, hcaches.sealed_made]
    exact (hedit.2.differs a p k ha hparent hnew).mono (hcaches.own_latest.onto _)
  have hheld : options.find? k key = some v := by
    rw [hfind, Lookup.onto_eq_some]
    exact .inr ⟨hnone, hv⟩
  have hkeeps := edit_keeps ht hedit.1 hedit.2 ha hparent hd' hown hdiffers hheld
  have ha' : (History.start.run (ops ++ [.edit c e])).ledger[c]? =
      some { a with own := fun k => (e.table k).onto (a.own k) } := by
    rw [ledger_edit, Ledger.getElem?_register_self ha]
  have hnow := htransparent.inherited (hsame.append _) ha' (Lookup.onto_eq_none.2 ⟨hnone, hown⟩)
  rw [World.after_append, ledger_edit, Ledger.shown_register_self ha] at hnow
  rcases Lookup.onto_eq_some.1 (hnow.symm.trans hkeeps) with htable | ⟨-, hshown⟩
  · rw [hnone] at htable
    cases htable
  · exact hshown

theorem kept_of_transparent (hvalid : Valid ops) (hsteady : Steady ops)
    (hedit : (Op.edit c e).Valid (History.start.run ops).ledger)
    (htransparent : Transparent config (ops ++ [.edit c e])) :
    e.Kept (History.start.run ops) c k := by
  constructor
  · intro cid a p hne ha hparent hdiffers key v hown hv
    exact inherited_of_transparent hvalid hsteady hedit htransparent hne ha hparent hdiffers hown hv
  · intro a p ha hparent hnew key v hnone hown hknown
    exact held_of_transparent hvalid hsteady hedit htransparent ha hparent hnew hnone hown hknown

end

/-- Resolving cannot be seen anywhere along a run of valid operations exactly if the run is
steady. -/
theorem resolve_transparent_iff (config : Config) {ops : List Op} (hops : Valid ops) :
    (∀ before, before <+: ops → Transparent config before) ↔ Steady ops := by
  constructor
  · intro htransparent
    refine History.along_of_forall fun before op rest hsplit hsteady k => ?_
    -- Only what is registered can break the promise: take the run up to there.
    cases op with
    | edit c e =>
      have hsplit' : ops = (before ++ [.edit c e]) ++ rest := by
        rw [hsplit, List.append_cons]
      have hvalid := (History.along_append.1 (hsplit' ▸ hops)).1
      obtain ⟨hbefore, hedit, -⟩ := History.along_append.1 hvalid
      exact kept_of_transparent hbefore hsteady hedit (htransparent _ ⟨rest, hsplit'.symm⟩)
    | base => trivial
    | extend p options => trivial
    | resolve c => trivial
  · rintro hsteady before ⟨rest, rfl⟩
    have hvalid := (History.along_append.1 hops).1
    have hbefore := (History.along_append.1 hsteady).1
    constructor
    · intro ops' hsame cid hlt k
      rw [resolved_shown config hvalid hbefore hsame hlt,
        resolved_shown config hvalid hbefore rfl hlt]
    · intro cid a k key ha _
      rw [resolved_shown config hvalid hbefore rfl (List.getElem?_eq_some_iff.1 ha).1]

/-- A component is registered with a base definition that another has extended. However often the
two are resolved, the one that extends shows it. -/
theorem resolve_transparent_registered :
    Valid [.base, .extend 0 .empty, .edit 0 (.component "x-a" 0)] ∧
      ∀ before, before <+: [.base, .extend 0 .empty, .edit 0 (.component "x-a" 0)] →
        Transparent .default before := by
  have hvalid : Valid [.base, .extend 0 .empty, .edit 0 (.component "x-a" 0)] := by
    refine ⟨trivial, ⟨by decide, allSorted_empty, rfl⟩, ⟨by decide, trivial, rfl, ?_, ?_⟩, trivial⟩
    · intro key v u hv
      rw [Ledger.name, Ledger.shown_root rfl rfl] at hv
      cases hv
    · intro a p k ha hparent
      cases ha
      cases hparent
  have hsteady : Steady [.base, .extend 0 .empty, .edit 0 (.component "x-a" 0)] := by
    refine ⟨fun _ => trivial, fun _ => trivial, fun k => ⟨?_, ?_⟩, trivial⟩
    · intro c a p hne ha hparent hdiffers
      have hle : c ≤ 1 := Nat.le_of_lt_succ (List.getElem?_eq_some_iff.1 ha).1
      obtain rfl : c = 1 := Nat.le_antisymm hle (Nat.pos_of_ne_zero hne)
      cases ha
      have hlt : 0 < (History.start.step .base).ledger.length := by decide
      have hmade := Ledger.shown_extension .empty hlt (k := k)
      exact absurd (hmade ▸ hdiffers) (Lookup.not_differs_self _)
    · intro a p ha hparent
      cases ha
      cases hparent
  exact ⟨hvalid, (resolve_transparent_iff .default hvalid).2 hsteady⟩

/-- A component that a base definition binds anew is not the one that a definition extending it
shows, if that was resolved in between. -/
theorem resolve_not_transparent :
    ¬ ∀ ops ops', SameChanges ops ops' → ∀ cid k key,
      (((World.start .default).after ops').resolved cid).find? k key =
        (((World.start .default).after ops).resolved cid).find? k key := by
  intro h
  let edits : List Op :=
    [.base, .extend 0 .empty, .edit 0 (.component "x-a" 0), .edit 0 (.component "x-a" 1)]
  let resolving : List Op :=
    [.base, .extend 0 .empty, .edit 0 (.component "x-a" 0), .resolve 1,
      .edit 0 (.component "x-a" 1)]
  have hsame : (((World.start .default).after resolving).resolved 1).components.get? "x-a" =
      (((World.start .default).after edits).resolved 1).components.get? "x-a" :=
    h edits resolving rfl 1 .component "x-a"
  revert hsame
  decide +kernel

end ViewTree
