import Mathlib.Data.List.Nodup
import ViewTree.Proofs.Component.Resolution
/-!
# Definitions and their ancestors

The definitions that one comes from are its lineage. A definition is behind if it, or one of its
lineage, was merged with another version of its parent than there is now. Callbacks are registered
with definitions, and what is registered along a lineage should be found with the last of it.
-/

namespace ViewTree

/-! ## Lineages -/

/-- The parents of definitions. -/
def parentsOf (ds : List Definition) : List (Option Cid) :=
  ds.map (·.parent)

/-- A definition and its ancestors. -/
def lineage (parents : List (Option Cid)) (cid : Cid) : List Cid :=
  match parents[cid]?.join with
  | none => [cid]
  | some p => if p < cid then cid :: lineage parents p else [cid]
termination_by cid

section

variable {parents parents' : List (Option Cid)} {cid c p : Cid}

theorem lineage_root (h : parents[cid]? = some none) : lineage parents cid = [cid] := by
  rw [lineage, h]
  rfl

theorem lineage_child (h : parents[cid]? = some (some p)) (hlt : p < cid) :
    lineage parents cid = cid :: lineage parents p := by
  rw [lineage, h]
  exact if_pos hlt

theorem self_mem_lineage (parents : List (Option Cid)) (cid : Cid) :
    cid ∈ lineage parents cid := by
  rw [lineage]
  split
  · exact List.mem_singleton_self cid
  · split
    · exact List.mem_cons_self
    · exact List.mem_singleton_self cid

theorem le_of_mem_lineage (h : c ∈ lineage parents cid) : c ≤ cid := by
  induction cid using Nat.strongRecOn with
  | ind cid ih =>
    rw [lineage] at h
    split at h
    · exact Nat.le_of_eq (List.mem_singleton.1 h)
    · split at h
      · rename_i hlt
        rcases List.mem_cons.1 h with rfl | h
        · exact Nat.le_refl c
        · exact Nat.le_trans (ih _ hlt h) (Nat.le_of_lt hlt)
      · exact Nat.le_of_eq (List.mem_singleton.1 h)

/-- The lineage of an ancestor is the end of the lineage. -/
theorem lineage_suffix (h : c ∈ lineage parents cid) :
    lineage parents c <:+ lineage parents cid := by
  induction cid using Nat.strongRecOn with
  | ind cid ih =>
    by_cases heq : c = cid
    · subst heq
      exact List.suffix_refl _
    · rw [lineage] at h
      split at h
      · exact absurd (List.mem_singleton.1 h) heq
      · rename_i p hparent
        split at h
        · rename_i hlt
          rw [lineage_child (Option.join_eq_some_iff.1 hparent) hlt]
          have hmem := (List.mem_cons.1 h).resolve_left heq
          exact (ih p hlt hmem).trans (List.suffix_cons cid _)
        · exact absurd (List.mem_singleton.1 h) heq

theorem lineage_subset (h : c ∈ lineage parents cid) :
    lineage parents c ⊆ lineage parents cid :=
  (lineage_suffix h).subset

/-- A lineage is the same if its definitions have the same parents. -/
theorem lineage_congr_of_mem (h : ∀ c ∈ lineage parents cid, parents'[c]? = parents[c]?) :
    lineage parents' cid = lineage parents cid := by
  induction cid using Nat.strongRecOn with
  | ind cid ih =>
    rw [lineage, h cid (self_mem_lineage parents cid)]
    split
    · rename_i hroot
      rw [lineage, hroot]
    · rename_i p hparent
      split
      · rename_i hlt
        have hchild := lineage_child (Option.join_eq_some_iff.1 hparent) hlt
        rw [hchild] at h ⊢
        rw [ih p hlt fun c hc => h c (List.mem_cons_of_mem cid hc)]
      · rename_i hlt
        rw [lineage, hparent]
        exact (if_neg hlt).symm

theorem lineage_congr (h : ∀ c ≤ cid, parents[c]? = parents'[c]?) :
    lineage parents cid = lineage parents' cid :=
  (lineage_congr_of_mem fun c hc => (h c (le_of_mem_lineage hc)).symm).symm

theorem lineage_append (hlt : cid < parents.length) (more : List (Option Cid)) :
    lineage (parents ++ more) cid = lineage parents cid :=
  lineage_congr fun _ hc => List.getElem?_append_left (Nat.lt_of_le_of_lt hc hlt)

end

/-! ## Definitions that are behind -/

/-- The options of a definition as they are, resolved or not. -/
def World.latest (w : World) (cid : Cid) : ComponentOptions :=
  ((w.definitions[cid]?).getD default).options

/-- The definition was merged with another version of its parent than there is now. -/
def Definition.Outdated (ds : List Definition) (d : Definition) : Prop :=
  ∃ p ∈ d.parent, ∃ dp ∈ ds[p]?, d.superVersion ≠ dp.version

/-- The definition or an ancestor was merged with another version of its parent than there is
now. -/
def Behind (ds : List Definition) (cid : Cid) : Prop :=
  ∃ c ∈ lineage (parentsOf ds) cid, ∃ d ∈ ds[c]?, d.Outdated ds

instance (ds : List Definition) (d : Definition) : Decidable (d.Outdated ds) :=
  inferInstanceAs (Decidable (∃ p ∈ d.parent, ∃ dp ∈ ds[p]?, d.superVersion ≠ dp.version))

instance (ds : List Definition) (cid : Cid) : Decidable (Behind ds cid) :=
  inferInstanceAs (Decidable (∃ c ∈ lineage (parentsOf ds) cid, ∃ d ∈ ds[c]?, d.Outdated ds))

section

variable {ds : List Definition} {cid c p : Cid} {d d' dp : Definition}

theorem getElem?_parentsOf {parent : Option Cid} (hd : ds[cid]? = some d)
    (hparent : d.parent = parent) : (parentsOf ds)[cid]? = some parent := by
  rw [parentsOf, List.getElem?_map, hd, ← hparent]
  rfl

theorem lineage_parentsOf_append (hlt : cid < ds.length) :
    lineage (parentsOf (ds ++ [d])) cid = lineage (parentsOf ds) cid := by
  rw [parentsOf, List.map_append]
  exact lineage_append ((List.length_map _).symm ▸ hlt) _

/-- What is found after one definition is replaced is that one or was there. -/
theorem getElem?_set_cases {dc : Definition} (hlt : cid < ds.length)
    (h : (ds.set cid d')[c]? = some dc) : c = cid ∧ dc = d' ∨ c ≠ cid ∧ ds[c]? = some dc := by
  by_cases heq : c = cid
  · subst heq
    rw [List.getElem?_set_self hlt] at h
    exact .inl ⟨rfl, (Option.some.inj h).symm⟩
  · rw [List.getElem?_set_ne (Ne.symm heq)] at h
    exact .inr ⟨heq, h⟩

/-- What is found after one definition is added is that one or was there. -/
theorem getElem?_concat_cases {dc : Definition} (h : (ds ++ [d])[c]? = some dc) :
    c = ds.length ∧ dc = d ∨ c < ds.length ∧ ds[c]? = some dc := by
  by_cases hc : c < ds.length
  · rw [List.getElem?_append_left hc] at h
    exact .inr ⟨hc, h⟩
  · have hle := (List.getElem?_eq_some_iff.1 h).1
    rw [List.length_append, List.length_singleton] at hle
    obtain rfl : c = ds.length := Nat.le_antisymm (Nat.le_of_lt_succ hle) (Nat.not_lt.1 hc)
    rw [List.getElem?_concat_length] at h
    exact .inl ⟨rfl, (Option.some.inj h).symm⟩

theorem not_behind_root (hd : ds[cid]? = some d) (hparent : d.parent = none) :
    ¬ Behind ds cid := by
  rintro ⟨c, hc, d', hd', p, hp, -⟩
  rw [lineage_root (getElem?_parentsOf hd hparent),
    List.mem_singleton] at hc
  subst hc
  cases hd.symm.trans hd'
  cases hparent.symm.trans hp

theorem parent_of_behind (hd : ds[cid]? = some d) (hbehind : Behind ds cid) :
    ∃ p, d.parent = some p :=
  Option.ne_none_iff_exists'.1 fun hparent => not_behind_root hd hparent hbehind

theorem behind_child (hd : ds[cid]? = some d) (hparent : d.parent = some p) (hlt : p < cid)
    (hdp : ds[p]? = some dp) : Behind ds cid ↔ d.superVersion ≠ dp.version ∨ Behind ds p := by
  unfold Behind
  rw [lineage_child (getElem?_parentsOf hd hparent) hlt,
    List.exists_mem_cons_iff]
  refine or_congr_left ⟨?_, fun hne => ⟨d, hd, p, hparent, dp, hdp, hne⟩⟩
  rintro ⟨d', hd', q, hq, dq, hdq, hne⟩
  cases hd.symm.trans hd'
  cases hparent.symm.trans hq
  cases hdp.symm.trans hdq
  exact hne

theorem length_of_parents {ds' : List Definition} (h : parentsOf ds' = parentsOf ds) :
    ds'.length = ds.length := by
  simpa [parentsOf] using congrArg List.length h

theorem parentsOf_set (hd : ds[cid]? = some d) (hparent : d'.parent = d.parent) :
    parentsOf (ds.set cid d') = parentsOf ds := by
  apply List.ext_getElem?
  intro c
  by_cases heq : cid = c
  · subst heq
    have hlt := (List.getElem?_eq_some_iff.1 hd).1
    rw [getElem?_parentsOf hd rfl, getElem?_parentsOf (List.getElem?_set_self hlt) hparent]
  · rw [parentsOf, List.map_set, List.getElem?_set_ne heq, parentsOf]

end

/-! ## Registered callbacks -/

/-- Handlers of one expression, each with the definition that it is registered with. -/
abbrev Registered := List (Cid × CallbackId)

/-- The handlers that are registered with a definition. -/
def handlersOf (regs : Registered) (cid : Cid) : List CallbackId :=
  (regs.filter fun e => e.1 = cid).map (·.2)

/-- The handlers that are registered with a definition and its ancestors. -/
def handlersAlong (parents : List (Option Cid)) (regs : Registered) (cid : Cid) :
    List CallbackId :=
  (lineage parents cid).flatMap (handlersOf regs)

section

variable {parents parents' : List (Option Cid)} {regs regs' : Registered} {cid c p : Cid}
  {id : CallbackId}

theorem mem_handlersOf : id ∈ handlersOf regs cid ↔ (cid, id) ∈ regs := by
  unfold handlersOf
  constructor
  · intro h
    obtain ⟨e, he, rfl⟩ := List.mem_map.1 h
    obtain ⟨hmem, heq⟩ := List.mem_filter.1 he
    rwa [← of_decide_eq_true heq]
  · intro h
    exact List.mem_map.2 ⟨(cid, id), List.mem_filter.2 ⟨h, decide_eq_true rfl⟩, rfl⟩

theorem mem_handlersAlong :
    id ∈ handlersAlong parents regs cid ↔ ∃ c ∈ lineage parents cid, (c, id) ∈ regs := by
  simp only [handlersAlong, List.mem_flatMap, mem_handlersOf]

theorem handlersOf_append (regs regs' : Registered) (cid : Cid) :
    handlersOf (regs ++ regs') cid = handlersOf regs cid ++ handlersOf regs' cid := by
  simp only [handlersOf, List.filter_append, List.map_append]

theorem map_registered (cid : Cid) (ids : List CallbackId) :
    (ids.map fun id => (cid, id)).map (·.2) = ids := by
  rw [List.map_map]
  exact List.map_id ids

theorem handlersOf_self (ids : List CallbackId) (cid : Cid) :
    handlersOf (ids.map fun id => (cid, id)) cid = ids := by
  induction ids with
  | nil => rfl
  | cons id ids ih =>
    rw [handlersOf, List.map_cons, List.filter_cons_of_pos (by simp), List.map_cons]
    exact congrArg (id :: ·) ih

theorem handlersOf_eq_nil (h : ∀ e ∈ regs, e.1 ≠ cid) : handlersOf regs cid = [] := by
  rw [handlersOf, List.filter_eq_nil_iff.2 fun e he => by simpa using h e he]
  rfl

theorem handlersOf_of_ne (hne : c ≠ cid) (ids : List CallbackId) :
    handlersOf (ids.map fun id => (cid, id)) c = [] := by
  refine handlersOf_eq_nil fun e he => ?_
  obtain ⟨id, -, rfl⟩ := List.mem_map.1 he
  exact hne.symm

theorem handlersAlong_root (h : parents[cid]? = some none) :
    handlersAlong parents regs cid = handlersOf regs cid := by
  rw [handlersAlong, lineage_root h, List.flatMap_singleton]

theorem handlersAlong_child (h : parents[cid]? = some (some p)) (hlt : p < cid) :
    handlersAlong parents regs cid = handlersOf regs cid ++ handlersAlong parents regs p := by
  rw [handlersAlong, lineage_child h hlt, List.flatMap_cons]
  rfl

theorem handlersAlong_subset (parents : List (Option Cid)) (regs : Registered) (cid : Cid) :
    handlersAlong parents regs cid ⊆ regs.map (·.2) := by
  intro id hid
  obtain ⟨c, -, hmem⟩ := mem_handlersAlong.1 hid
  exact List.mem_map.2 ⟨(c, id), hmem, rfl⟩

theorem handlersOf_subset_along (parents : List (Option Cid)) (regs : Registered) (cid : Cid) :
    handlersOf regs cid ⊆ handlersAlong parents regs cid :=
  fun _ hid => mem_handlersAlong.2 ⟨cid, self_mem_lineage parents cid, mem_handlersOf.1 hid⟩

theorem handlersAlong_mono (parents : List (Option Cid)) (h : regs ⊆ regs') (cid : Cid) :
    handlersAlong parents regs cid ⊆ handlersAlong parents regs' cid := by
  intro id hid
  obtain ⟨c, hc, hmem⟩ := mem_handlersAlong.1 hid
  exact mem_handlersAlong.2 ⟨c, hc, h hmem⟩

/-- Handlers that are registered once are registered once along a lineage. -/
theorem nodup_handlersAlong (h : (regs.map (·.2)).Nodup) (cid : Cid) :
    (handlersAlong parents regs cid).Nodup := by
  have hown (c : Cid) : (handlersOf regs c).Nodup :=
    h.sublist (List.filter_sublist.map _)
  induction cid using Nat.strongRecOn with
  | ind cid ih =>
    have hroot : (handlersAlong parents regs cid).Nodup ∨
        ∃ p, p < cid ∧ handlersAlong parents regs cid =
          handlersOf regs cid ++ handlersAlong parents regs p := by
      rw [handlersAlong, lineage]
      split
      · rw [List.flatMap_singleton]
        exact .inl (hown cid)
      · split
        · rename_i p _ hlt
          exact .inr ⟨p, hlt, List.flatMap_cons⟩
        · rw [List.flatMap_singleton]
          exact .inl (hown cid)
    obtain hroot | ⟨p, hlt, heq⟩ := hroot
    · exact hroot
    · rw [heq, List.nodup_append]
      refine ⟨hown cid, ih p hlt, ?_⟩
      rintro id hid _ hid' rfl
      -- An ancestor is another definition, so the handler would be registered twice.
      obtain ⟨c, hc, hmem⟩ := mem_handlersAlong.1 hid'
      have hsame := List.inj_on_of_nodup_map h (mem_handlersOf.1 hid) hmem rfl
      obtain rfl : cid = c := congrArg Prod.fst hsame
      exact absurd hlt (Nat.not_lt.2 (le_of_mem_lineage hc))

end

end ViewTree
