import Mathlib.Logic.Relation
import ViewTree.Proofs.Component.Lineage
/-!
# Resolving brings a lineage up to date

Every definition keeps the version of its parent that it was last merged with, and resolving trusts
these numbers. `Linked` is what makes them right: versions of a definition only grow, and the
version that a definition was merged with, if it is still there, has the options that it was merged
with. `resolve_refreshes` says what resolving does then: it merges again some definitions of the
lineage, leaves all others, and nothing of the lineage is behind any more.
-/

namespace ViewTree

/-! ## Links -/

/-- Every definition comes behind its parent. It was merged with a version that the parent has had;
if the parent still has it, then with the options that the parent has. -/
structure Linked (ds : List Definition) : Prop where
  parent_lt : ∀ {cid p : Cid} {d : Definition}, ds[cid]? = some d → d.parent = some p → p < cid
  version_le : ∀ {cid p : Cid} {d dp : Definition}, ds[cid]? = some d → d.parent = some p →
    ds[p]? = some dp → d.superVersion ≤ dp.version
  merged : ∀ {cid p : Cid} {d dp : Definition}, ds[cid]? = some d → d.parent = some p →
    ds[p]? = some dp → d.superVersion = dp.version → d.superOptions = some dp.options

/-- The definition was merged with its parent as that is now. -/
def Definition.Current (ds : List Definition) (d : Definition) : Prop :=
  ∀ p, d.parent = some p →
    ∃ dp, ds[p]? = some dp ∧ d.superVersion = dp.version ∧ d.superOptions = some dp.options

section

variable {ds ds' : List Definition} {cid c p : Cid} {d d' dp : Definition}

theorem linked_nil : Linked [] :=
  ⟨nofun, nofun, nofun⟩

/-- One definition is replaced by one of a later version. -/
theorem Linked.set (hl : Linked ds) (hd : ds[cid]? = some d) (hparent : d'.parent = d.parent)
    (hversion : d.version < d'.version)
    (hnew : ∀ p dp, d.parent = some p → ds[p]? = some dp → d'.superVersion ≤ dp.version ∧
      (d'.superVersion = dp.version → d'.superOptions = some dp.options)) :
    Linked (ds.set cid d') := by
  have hlt := (List.getElem?_eq_some_iff.1 hd).1
  have hlink {c : Cid} {dc : Definition} {p : Cid} {dp : Definition}
      (hdc : (ds.set cid d')[c]? = some dc) (hp : dc.parent = some p)
      (hdp : (ds.set cid d')[p]? = some dp) : dc.superVersion ≤ dp.version ∧
        (dc.superVersion = dp.version → dc.superOptions = some dp.options) := by
    rcases getElem?_set_cases hlt hdc with ⟨rfl, rfl⟩ | ⟨-, hkept⟩ <;>
      rcases getElem?_set_cases hlt hdp with ⟨rfl, rfl⟩ | ⟨-, hpkept⟩
    · exact absurd (hl.parent_lt hd (hparent ▸ hp)) (Nat.lt_irrefl _)
    · exact hnew p dp (hparent ▸ hp) hpkept
    · -- The children of the one replaced were merged with an earlier version of it.
      have hle := hl.version_le hkept hp hd
      exact ⟨by omega, fun hsame => by omega⟩
    · exact ⟨hl.version_le hkept hp hpkept, hl.merged hkept hp hpkept⟩
  refine ⟨fun {c dc p} hdc hp => ?_, fun hdc hp hdp => (hlink hdc hp hdp).1,
    fun hdc hp hdp => (hlink hdc hp hdp).2⟩
  rcases getElem?_set_cases hlt hdc with ⟨rfl, rfl⟩ | ⟨-, hdc⟩
  · exact hl.parent_lt hd (hparent ▸ hp)
  · exact hl.parent_lt hdc hp

/-- One definition is added. -/
theorem Linked.concat (hl : Linked ds) (hlt : ∀ p, d.parent = some p → p < ds.length)
    (hnew : d.Current ds) : Linked (ds ++ [d]) := by
  have hparent {c : Cid} {dc : Definition} {p : Cid} (hdc : (ds ++ [d])[c]? = some dc)
      (hp : dc.parent = some p) : p < c ∧ p < ds.length := by
    rcases getElem?_concat_cases hdc with ⟨rfl, rfl⟩ | ⟨hc, hdc⟩
    · exact ⟨hlt p hp, hlt p hp⟩
    · have hpc := hl.parent_lt hdc hp
      exact ⟨hpc, Nat.lt_trans hpc hc⟩
  have hlink {c : Cid} {dc : Definition} {p : Cid} {dp : Definition}
      (hdc : (ds ++ [d])[c]? = some dc) (hp : dc.parent = some p)
      (hdp : (ds ++ [d])[p]? = some dp) : dc.superVersion ≤ dp.version ∧
        (dc.superVersion = dp.version → dc.superOptions = some dp.options) := by
    rw [List.getElem?_append_left (hparent hdc hp).2] at hdp
    rcases getElem?_concat_cases hdc with ⟨-, rfl⟩ | ⟨-, hdc⟩
    · obtain ⟨dq, hdq, hversion, hoptions⟩ := hnew p hp
      cases hdp.symm.trans hdq
      exact ⟨Nat.le_of_eq hversion, fun _ => hoptions⟩
    · exact ⟨hl.version_le hdc hp hdp, hl.merged hdc hp hdp⟩
  exact ⟨fun hdc hp => (hparent hdc hp).1, fun hdc hp hdp => (hlink hdc hp hdp).1,
    fun hdc hp hdp => (hlink hdc hp hdp).2⟩

/-! ## What is behind -/

/-- An ancestor that is behind puts the definition behind. -/
theorem Behind.of_ancestor (hc : c ∈ lineage (parentsOf ds) cid) (h : Behind ds c) :
    Behind ds cid := by
  obtain ⟨c', hc', hoff⟩ := h
  exact ⟨c', lineage_subset hc hc', hoff⟩

/-- Whether a definition is behind depends on nothing but its lineage. -/
theorem Linked.behind_congr (hl : Linked ds)
    (h : ∀ c ∈ lineage (parentsOf ds) cid, ds'[c]? = ds[c]?) : Behind ds' cid ↔ Behind ds cid := by
  have hlineage : lineage (parentsOf ds') cid = lineage (parentsOf ds) cid := by
    apply lineage_congr_of_mem
    intro c hc
    rw [parentsOf, parentsOf, List.getElem?_map, List.getElem?_map, h c hc]
  have hparent {c p : Cid} {d : Definition} (hc : c ∈ lineage (parentsOf ds) cid)
      (hd : ds[c]? = some d) (hp : d.parent = some p) : ds'[p]? = ds[p]? := by
    refine h p (lineage_subset hc ?_)
    rw [lineage_child (getElem?_parentsOf hd hp) (hl.parent_lt hd hp)]
    exact List.mem_cons_of_mem c (self_mem_lineage _ p)
  unfold Behind
  rw [hlineage]
  constructor
  · rintro ⟨c, hc, d, hd, p, hp, dp, hdp, hne⟩
    have hd' : ds[c]? = some d := (h c hc).symm.trans hd
    exact ⟨c, hc, d, hd', p, hp, dp, (hparent hc hd' hp).symm.trans hdp, hne⟩
  · rintro ⟨c, hc, d, hd, p, hp, dp, hdp, hne⟩
    exact ⟨c, hc, d, (h c hc).trans hd, p, hp, dp, (hparent hc hd hp).trans hdp, hne⟩

/-- Where nothing of a lineage is behind, every definition of it was merged with its parent as that
is now. -/
theorem Linked.current (hl : Linked ds) (hbehind : ¬ Behind ds cid)
    (hc : c ∈ lineage (parentsOf ds) cid) (hd : ds[c]? = some d) : d.Current ds := by
  intro p hp
  have hplt : p < ds.length :=
    Nat.lt_trans (hl.parent_lt hd hp) (List.getElem?_eq_some_iff.1 hd).1
  have hdp : ds[p]? = some ds[p] := List.getElem?_eq_getElem hplt
  have hsame : d.superVersion = ds[p].version := by
    by_contra hne
    exact hbehind ⟨c, hc, d, hd, p, hp, ds[p], hdp, hne⟩
  exact ⟨ds[p], hdp, hsame, hl.merged hd hp hdp hsame⟩

end

/-! ## Merging again -/

/-- The options that a definition brings to its next merge. -/
def Definition.carries (d : Definition) : ComponentOptions :=
  carryEdits d.options d.sealedOptions d.extendOptions

/-- The definition after it was merged again over a parent, with some options. -/
def Definition.remerged (d parent : Definition) (options : ComponentOptions) : Definition :=
  { d with
    version := d.version + 1, options := options, superVersion := parent.version
    superOptions := some parent.options, extendOptions := d.carries }

/-- One definition, whose parent is another than it was last merged with, is merged again: what it
carries is laid over the options of the parent, and it stands there under its name. -/
inductive Remerges : List Definition → List Definition → Prop
  | merge {ds : List Definition} {cid p : Cid} {d dp : Definition} {merged : ComponentOptions}
      (w : World) (hd : ds[cid]? = some d) (hparent : d.parent = some p) (hdp : ds[p]? = some dp)
      (hmoved : d.superVersion ≠ dp.version)
      (hmerged : merged = ((Run.mergeOptions dp.options d.carries false).run w).1) :
      Remerges ds (ds.set cid (d.remerged dp (merged.withSelf merged.name cid)))

section

variable {ds ds' : List Definition} {w : World} {cid c p : Cid} {d dp : Definition}

theorem Remerges.parents (h : Remerges ds ds') : parentsOf ds' = parentsOf ds := by
  cases h with
  | merge w hd hparent hdp hmoved hmerged => exact parentsOf_set hd rfl

theorem Remerges.linked (h : Remerges ds ds') (hl : Linked ds) : Linked ds' := by
  cases h with
  | merge w hd hparent hdp hmoved hmerged =>
    refine hl.set hd rfl (Nat.lt_succ_self _) fun q dq hq hdq => ?_
    cases hparent.symm.trans hq
    cases hdp.symm.trans hdq
    exact ⟨Nat.le_refl _, fun _ => rfl⟩

/-- What merging again keeps, merging any number of times keeps. -/
theorem steps_induct {P : List Definition → Prop} (h : Relation.ReflTransGen Remerges ds ds')
    (hstep : ∀ {ds ds'}, Remerges ds ds' → P ds → P ds') (hstart : P ds) : P ds' := by
  induction h with
  | refl => exact hstart
  | tail _ hlast ih => exact hstep hlast ih

theorem parents_steps (h : Relation.ReflTransGen Remerges ds ds') :
    parentsOf ds' = parentsOf ds :=
  steps_induct (P := fun ds' => parentsOf ds' = parentsOf ds) h
    (fun hstep hds => hstep.parents.trans hds) rfl

theorem Linked.steps (hl : Linked ds) (h : Relation.ReflTransGen Remerges ds ds') : Linked ds' :=
  steps_induct h Remerges.linked hl

/-- What resolving a definition comes to: some definitions of its lineage are merged again, the
others stay as they are, and nothing of the lineage is behind any more. If nothing was, then nothing
happens at all; otherwise the definition itself has moved on. -/
structure Refreshes (w : World) (cid : Cid) (r : ComponentOptions × World) : Prop where
  steps : Relation.ReflTransGen Remerges w.definitions r.2.definitions
  result : ∃ d, r.2.definitions[cid]? = some d ∧ d.options = r.1
  fresh : ¬ Behind r.2.definitions cid
  elsewhere : ∀ c, c ∉ lineage (parentsOf w.definitions) cid →
    r.2.definitions[c]? = w.definitions[c]?
  unmoved : ¬ Behind w.definitions cid → r.2 = w
  moved : ∀ {d d' : Definition}, w.definitions[cid]? = some d → r.2.definitions[cid]? = some d' →
    Behind w.definitions cid → d.version < d'.version

theorem Refreshes.parents {r : ComponentOptions × World} (h : Refreshes w cid r) :
    parentsOf r.2.definitions = parentsOf w.definitions :=
  parents_steps h.steps

theorem Refreshes.linked {r : ComponentOptions × World} (h : Refreshes w cid r)
    (hl : Linked w.definitions) : Linked r.2.definitions :=
  hl.steps h.steps

theorem Refreshes.length {r : ComponentOptions × World} (h : Refreshes w cid r) :
    r.2.definitions.length = w.definitions.length :=
  length_of_parents h.parents

theorem Refreshes.later {r : ComponentOptions × World} (h : Refreshes w p r) (hlt : p < c) :
    r.2.definitions[c]? = w.definitions[c]? :=
  h.elsewhere c fun hc => absurd (le_of_mem_lineage hc) (Nat.not_le.2 hlt)

theorem refreshes_root (hd : w.definitions[cid]? = some d) (hparent : d.parent = none) :
    Refreshes w cid ((Run.resolveOptions cid).run w) := by
  rw [resolve_root hd hparent]
  have hbehind := not_behind_root hd hparent
  exact ⟨.refl, ⟨d, hd, rfl⟩, hbehind, fun _ _ => rfl, fun _ => rfl, fun _ _ h => absurd h hbehind⟩

variable {r : ComponentOptions × World}

/-- A definition that has the version of its resolved parent was not behind, nor was the parent. -/
theorem Refreshes.not_behind (hr : Refreshes w p r) (hl : Linked w.definitions)
    (hd : w.definitions[cid]? = some d) (hparent : d.parent = some p)
    (hdp : r.2.definitions[p]? = some dp) (hsame : dp.version = d.superVersion) :
    ¬ Behind w.definitions p ∧ ¬ Behind w.definitions cid := by
  have hlt := hl.parent_lt hd hparent
  have hplt := Nat.lt_trans hlt (List.getElem?_eq_some_iff.1 hd).1
  have hdq : w.definitions[p]? = some w.definitions[p] := List.getElem?_eq_getElem hplt
  have hp : ¬ Behind w.definitions p := by
    intro hbehind
    have hmoved := hr.moved hdq hdp hbehind
    have hle := hl.version_le hd hparent hdq
    omega
  refine ⟨hp, ?_⟩
  rw [hr.unmoved hp, hdq] at hdp
  cases hdp
  rw [behind_child hd hparent hlt hdq]
  simp [hsame, hp]

/-- A definition that has the version of its resolved parent stays as it is. -/
theorem Refreshes.child_unmoved (hr : Refreshes w p r) (hl : Linked w.definitions)
    (hd : w.definitions[cid]? = some d) (hparent : d.parent = some p)
    (hdp : r.2.definitions[p]? = some dp) (hsame : dp.version = d.superVersion) :
    Refreshes w cid (d.options, r.2) := by
  have hlt := hl.parent_lt hd hparent
  have hd' := (hr.later hlt).trans hd
  obtain ⟨hp, hcid⟩ := hr.not_behind hl hd hparent hdp hsame
  refine ⟨hr.steps, ⟨d, hd', rfl⟩, ?_, ?_, fun _ => hr.unmoved hp, fun _ _ h => absurd h hcid⟩
  · rw [behind_child hd' hparent hlt hdp]
    simp [hsame, hr.fresh]
  · intro c hc
    rw [lineage_child (getElem?_parentsOf hd hparent) hlt, List.mem_cons, not_or] at hc
    exact hr.elsewhere c hc.2

/-- A definition whose resolved parent has moved on is merged again over it. -/
theorem Refreshes.child_moved (hr : Refreshes w p r) (hl : Linked w.definitions)
    (hd : w.definitions[cid]? = some d) (hparent : d.parent = some p) (hlt : p < cid)
    (hdp : r.2.definitions[p]? = some dp) (hoptions : dp.options = r.1)
    (hmoved : dp.version ≠ d.superVersion) :
    Refreshes w cid ((Run.remerge cid d r.1 dp.version).run r.2) := by
  have hd' := (hr.later hlt).trans hd
  have hlineage := lineage_child (getElem?_parentsOf hd hparent) hlt
  obtain ⟨w', merged, hmerged, hresult, hset⟩ := remerge_run hd' r.1 dp.version
  generalize (Run.remerge cid d r.1 dp.version).run r.2 = r' at hresult hset ⊢
  have hset' : r'.2.definitions =
      r.2.definitions.set cid (d.remerged dp (merged.withSelf merged.name cid)) := by
    rw [hset, hresult, ← hoptions]
    rfl
  have hstep : Remerges r.2.definitions r'.2.definitions :=
    hset' ▸ .merge w' hd' hparent hdp (Ne.symm hmoved) (hoptions ▸ hmerged)
  have hself : r'.2.definitions[cid]? = some (d.remerged dp (merged.withSelf merged.name cid)) := by
    rw [hset', List.getElem?_set_self (List.getElem?_eq_some_iff.1 hd').1]
  have hother {c : Cid} (hne : c ≠ cid) : r'.2.definitions[c]? = r.2.definitions[c]? := by
    rw [hset', List.getElem?_set_ne (Ne.symm hne)]
  refine ⟨hr.steps.tail hstep, ⟨_, hself, hresult.symm⟩, ?_, ?_, ?_, ?_⟩
  · have hp := (hr.linked hl).behind_congr fun c (hc : c ∈ lineage _ p) =>
      hother (Nat.ne_of_lt (Nat.lt_of_le_of_lt (le_of_mem_lineage hc) hlt))
    rw [behind_child hself hparent hlt ((hother (Nat.ne_of_lt hlt)).trans hdp), hp]
    simp [Definition.remerged, hr.fresh]
  · intro c hc
    rw [hlineage, List.mem_cons, not_or] at hc
    rw [hother hc.1, hr.elsewhere c hc.2]
  · -- Nothing was behind, so the parent cannot have moved on.
    intro hbehind
    have hp : ¬ Behind w.definitions p := fun hp => by
      refine hbehind (hp.of_ancestor ?_)
      rw [hlineage]
      exact List.mem_cons_of_mem cid (self_mem_lineage _ p)
    rw [hr.unmoved hp] at hdp
    rw [behind_child hd hparent hlt hdp, not_or, not_not] at hbehind
    exact absurd hbehind.1.symm hmoved
  · intro dc dc' hdc hdc' _
    cases hd.symm.trans hdc
    cases hself.symm.trans hdc'
    exact Nat.lt_succ_self _

/-- Resolving brings the lineage of a definition up to date. -/
theorem resolve_refreshes (hl : Linked w.definitions) (hlt : cid < w.definitions.length) :
    Refreshes w cid ((Run.resolveOptions cid).run w) := by
  -- A parent is defined before those that extend it, so the induction is on the definition.
  induction cid using Nat.strongRecOn with
  | ind cid ih =>
    have hd : w.definitions[cid]? = some w.definitions[cid] := List.getElem?_eq_getElem hlt
    cases hparent : w.definitions[cid].parent with
    | none => exact refreshes_root hd hparent
    | some p =>
      have hplt := hl.parent_lt hd hparent
      have hr := ih p hplt (Nat.lt_trans hplt hlt)
      obtain ⟨dp, hdp, hoptions⟩ := hr.result
      rw [resolve_child hd hparent hplt]
      dsimp only
      rw [hdp, Option.getD_some]
      split
      · rename_i hsame
        exact hr.child_unmoved hl hd hparent hdp hsame
      · rename_i hmoved
        exact hr.child_moved hl hd hparent hplt hdp hoptions hmoved

/-- A definition that is behind is merged again: what it carries is laid over the parent as that is
resolved. -/
theorem resolve_remerged (hl : Linked w.definitions) (hd : w.definitions[cid]? = some d)
    (hparent : d.parent = some p) (hbehind : Behind w.definitions cid) :
    ∃ (w' : World) (dp : Definition) (merged : ComponentOptions),
      ((Run.resolveOptions p).run w).2.definitions[p]? = some dp ∧ d.superVersion ≠ dp.version ∧
      merged = ((Run.mergeOptions dp.options d.carries false).run w').1 ∧
      ((Run.resolveOptions cid).run w).2.definitions[cid]? =
        some (d.remerged dp (merged.withSelf merged.name cid)) := by
  have hlt := hl.parent_lt hd hparent
  have hr := resolve_refreshes hl (Nat.lt_trans hlt (List.getElem?_eq_some_iff.1 hd).1)
  have hd' := (hr.later hlt).trans hd
  obtain ⟨dp, hdp, hoptions⟩ := hr.result
  rw [resolve_child hd hparent hlt]
  dsimp only
  rw [hdp, Option.getD_some]
  split
  · rename_i hsame
    exact absurd hbehind (hr.not_behind hl hd hparent hdp hsame).2
  · rename_i hmoved
    obtain ⟨w', merged, hmerged, hresult, hset⟩ := remerge_run hd'
      ((Run.resolveOptions p).run w).1 dp.version
    refine ⟨w', dp, merged, rfl, Ne.symm hmoved, hoptions ▸ hmerged, ?_⟩
    rw [hset, List.getElem?_set_self (List.getElem?_eq_some_iff.1 hd').1, hresult, ← hoptions]
    rfl

/-- A definition that is behind comes out of resolving as what it carries, over the parent as that
is resolved. -/
theorem resolve_behind (hl : Linked w.definitions) (hd : w.definitions[cid]? = some d)
    (hparent : d.parent = some p) (hbehind : Behind w.definitions cid) :
    ∃ (w' : World) (merged : ComponentOptions),
      merged =
        ((Run.mergeOptions ((Run.resolveOptions p).run w).1 d.carries false).run w').1 ∧
      ((Run.resolveOptions cid).run w).1 = merged.withSelf merged.name cid := by
  have hlt := (List.getElem?_eq_some_iff.1 hd).1
  have hplt := Nat.lt_trans (hl.parent_lt hd hparent) hlt
  obtain ⟨w', dp, merged, hdp, -, hmerged, hself⟩ := resolve_remerged hl hd hparent hbehind
  obtain ⟨d', hd', hoptions⟩ := (resolve_refreshes hl hlt).result
  obtain ⟨dq, hdq, hsuper⟩ := (resolve_refreshes hl hplt).result
  cases hself.symm.trans hd'
  cases hdp.symm.trans hdq
  exact ⟨w', merged, hsuper ▸ hmerged, hoptions.symm⟩

/-- A definition is resolved on top of its parent: nothing but itself changes then. -/
theorem resolve_parent (hl : Linked w.definitions) (hd : w.definitions[cid]? = some d)
    (hparent : d.parent = some p) (hne : c ≠ cid) :
    ((Run.resolveOptions cid).run w).2.definitions[c]? =
      ((Run.resolveOptions p).run w).2.definitions[c]? := by
  have hlt := hl.parent_lt hd hparent
  have hplt := Nat.lt_trans hlt (List.getElem?_eq_some_iff.1 hd).1
  have hd' := ((resolve_refreshes hl hplt).later hlt).trans hd
  rw [resolve_child hd hparent hlt]
  dsimp only
  split
  · rfl
  · obtain ⟨w', merged, -, -, hset⟩ := remerge_run hd'
      ((Run.resolveOptions p).run w).1
      ((((Run.resolveOptions p).run w).2.definitions[p]?).getD default).version
    rw [hset, List.getElem?_set_ne (Ne.symm hne)]

/-- Resolving a definition leaves every ancestor as it is when that alone is resolved. -/
theorem resolve_ancestor (hl : Linked w.definitions) (hlt : cid < w.definitions.length)
    (hc : c ∈ lineage (parentsOf w.definitions) cid) :
    ((Run.resolveOptions cid).run w).2.definitions[c]? =
      ((Run.resolveOptions c).run w).2.definitions[c]? := by
  induction cid using Nat.strongRecOn with
  | ind cid ih =>
    by_cases heq : c = cid
    · rw [heq]
    · have hd : w.definitions[cid]? = some w.definitions[cid] := List.getElem?_eq_getElem hlt
      cases hparent : w.definitions[cid].parent with
      | none =>
        rw [lineage_root (getElem?_parentsOf hd hparent), List.mem_singleton] at hc
        exact absurd hc heq
      | some p =>
        have hplt := hl.parent_lt hd hparent
        rw [lineage_child (getElem?_parentsOf hd hparent) hplt, List.mem_cons] at hc
        rw [resolve_parent hl hd hparent heq]
        exact ih p hplt (Nat.lt_trans hplt hlt) (hc.resolve_left heq)

end

end ViewTree
