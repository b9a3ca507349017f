import Mathlib.Data.List.Induction
import ViewTree.Proofs.Component.Operations
/-!
# Staying up to date

The options of a definition are what later changes of it have made of its last merge: of the one it
was made with, or of one that an operation made because the parent had moved on. `FromMerge` tells
which, and `fromMerge_after` that every run has one for every definition.

A lineage that is not behind was last merged over the options that the parents have now. It is
resolved without doing anything, and nothing but a change of one of its definitions puts it behind
again (`resolve_upToDate`).
-/

namespace ViewTree

/-! ## Merged and changed -/

/-- The change that an operation makes to a definition. -/
def Op.editOf? (cid : Cid) : Op → Option Edit
  | edit c e => if c = cid then some e else none
  | _ => none

/-- The changes to a definition in a run, in order. -/
def editsOf (cid : Cid) (ops : List Op) : List Edit :=
  ops.filterMap (Op.editOf? cid)

/-- What changes make of a definition, one after the other. -/
inductive Definition.Becomes : List Edit → Definition → Definition → Prop
  | none (d : Definition) : Becomes [] d d
  | edit {es : List Edit} {d d' : Definition} (h : Becomes es d d') (e : Edit) (w : World) :
      Becomes (es ++ [e]) d (d'.withOptions (e.apply d'.options w))

/-- The definition that a merge within an operation gives, where the parent is one of `ds`: a new
one, empty or merged over the parent, or an older one whose parent has moved on. The older one is
merged again with what it carries. -/
inductive Op.Merges (w : World) (ds : List Definition) (cid : Cid) : Op → Definition → Prop
  | base (hnew : cid = w.definitions.length) :
      Merges w ds cid .base ⟨none, 0, .empty, 0, none, .empty, .empty⟩
  | extend {p : Cid} {options merged : ComponentOptions} {dp : Definition} (w' : World)
      (hnew : cid = w.definitions.length) (hdp : ds[p]? = some dp)
      (hmerged : merged = ((Run.mergeOptions dp.options options false).run w').1) :
      Merges w ds cid (.extend p options) (.extension p dp options
        (merged.withSelf (options.name <|> dp.options.name) cid))
  | again {op : Op} {p : Cid} {d dp : Definition} {merged : ComponentOptions} (w' : World)
      (hop : ∀ e, op ≠ .edit cid e) (hd : w.definitions[cid]? = some d)
      (hparent : d.parent = some p) (hdp : ds[p]? = some dp) (hmoved : d.superVersion ≠ dp.version)
      (hmerged : merged = ((Run.mergeOptions dp.options d.carries false).run w').1) :
      Merges w ds cid op (d.remerged dp (merged.withSelf merged.name cid))

/-- The definition is what the changes of it in a run have made of its last merge. -/
def FromMerge (w : World) (ops : List Op) (ds : List Definition) (cid : Cid) (d : Definition) :
    Prop :=
  ∃ (before later : List Op) (op : Op) (merged : Definition), ops = before ++ op :: later ∧
    op.Merges (w.after before) ds cid merged ∧ merged.Becomes (editsOf cid later) d

section

variable {w : World} {cid p : Cid} {op : Op} {ops : List Op} {ds ds' : List Definition}
  {d d' d'' : Definition} {es es' : List Edit}

theorem editsOf_append (cid : Cid) (ops ops' : List Op) :
    editsOf cid (ops ++ ops') = editsOf cid ops ++ editsOf cid ops' :=
  List.filterMap_append

theorem editsOf_other (h : ∀ e, op ≠ .edit cid e) : editsOf cid [op] = [] := by
  cases op with
  | edit c e =>
    have hne : c ≠ cid := fun heq => h e (heq ▸ rfl)
    simp [editsOf, Op.editOf?, hne]
  | _ => rfl

theorem Definition.Becomes.append (h : d.Becomes es d') (h' : d'.Becomes es' d'') :
    d.Becomes (es ++ es') d'' := by
  induction h' with
  | none => rwa [List.append_nil]
  | edit _ e w ih =>
    rw [← List.append_assoc]
    exact .edit (ih h) e w

/-- Changes leave a definition with the parent that it was merged with. -/
theorem Definition.Becomes.kept (h : d.Becomes es d') :
    d'.parent = d.parent ∧ d'.superVersion = d.superVersion ∧ d'.superOptions = d.superOptions := by
  induction h with
  | none => exact ⟨rfl, rfl, rfl⟩
  | edit _ e w ih => exact ih

/-- Resolving a definition merges it again or leaves it as it is. -/
theorem resolve_merges (hl : Linked w.definitions) (hop : ∀ e, op ≠ .edit cid e)
    (hd : w.definitions[cid]? = some d)
    (hd' : ((Run.resolveOptions cid).run w).2.definitions[cid]? = some d') :
    (∃ ds, op.Merges w ds cid d') ∨ d' = d := by
  by_cases hbehind : Behind w.definitions cid
  · obtain ⟨p, hparent⟩ := parent_of_behind hd hbehind
    obtain ⟨w', dp, merged, hdp, hmoved, hmerged, hself⟩ :=
      resolve_remerged hl hd hparent hbehind
    cases hself.symm.trans hd'
    exact .inl ⟨_, .again w' hop hd hparent hdp hmoved hmerged⟩
  · rw [(resolve_refreshes hl (List.getElem?_eq_some_iff.1 hd).1).unmoved hbehind] at hd'
    exact .inr (Option.some.inj (hd'.symm.trans hd))

/-- A definition that was not there before comes from the merge that it is made with. -/
theorem Op.merges_new (hl : Linked w.definitions) (hop : op.OnExisting w)
    (hnew : w.definitions.length ≤ cid)
    (hd : (op.run.run w).2.definitions[cid]? = some d) : ∃ ds, op.Merges w ds cid d := by
  have hleads := op.leads hl hop
  generalize (op.run.run w).2.definitions = after at hleads hd
  cases hleads with
  | base =>
    rcases getElem?_concat_cases hd with ⟨rfl, rfl⟩ | ⟨hlt, -⟩
    · exact ⟨[], .base rfl⟩
    · exact absurd hlt (Nat.not_lt.2 hnew)
  | @extend p options merged ds dp w' hsteps hdp hmerged =>
    have hsame : ds.length = w.definitions.length := length_of_parents (parents_steps hsteps)
    rcases getElem?_concat_cases hd with ⟨rfl, rfl⟩ | ⟨hlt, -⟩
    · exact ⟨ds, hmerged ▸ .extend w' hsame hdp rfl⟩
    · exact absurd (hsame ▸ hlt) (Nat.not_lt.2 hnew)
  | edit w' hdc =>
    have hlt := (List.getElem?_eq_some_iff.1 hd).1
    rw [List.length_set] at hlt
    exact absurd hlt (Nat.not_lt.2 hnew)
  | resolve hsteps =>
    have hlt := (List.getElem?_eq_some_iff.1 hd).1
    rw [length_of_parents (parents_steps hsteps)] at hlt
    exact absurd hlt (Nat.not_lt.2 hnew)

/-- An operation leaves a definition as a merge has made it, or as a change of it. -/
theorem Op.merges_or_becomes (hl : Linked w.definitions) (hop : op.OnExisting w)
    (hd' : (op.run.run w).2.definitions[cid]? = some d') :
    (∃ ds, op.Merges w ds cid d') ∨
      ∃ d, w.definitions[cid]? = some d ∧ d.Becomes (editsOf cid [op]) d' := by
  by_cases hlt : cid < w.definitions.length
  · have hd : w.definitions[cid]? = some w.definitions[cid] := List.getElem?_eq_getElem hlt
    have hacts := op.actsOn hl hop hd
    generalize (op.run.run w).2.definitions[cid]? = after at hacts hd'
    cases hacts with
    | edits e w' =>
      cases hd'
      have hedit : editsOf cid [.edit cid e] = [e] := by
        simp [editsOf, Op.editOf?]
      exact .inr ⟨_, hd, hedit ▸ .edit (.none _) e w'⟩
    | resolves hother =>
      refine (resolve_merges hl hother hd hd').imp_right fun hsame => ⟨_, hd, ?_⟩
      rw [hsame, editsOf_other hother]
      exact .none _
    | leaves hother =>
      cases hd'
      exact .inr ⟨_, hd, editsOf_other hother ▸ .none _⟩
  · exact .inl (Op.merges_new hl hop (Nat.not_lt.1 hlt) hd')

/-- Every definition of a running application comes from its last merge. -/
theorem fromMerge_after {config : Config} (hops : (World.start config).Along Op.OnExisting ops)
    (hd : ((World.start config).after ops).definitions[cid]? = some d) :
    ∃ ds, FromMerge (World.start config) ops ds cid d := by
  -- The last merge counts, so the induction takes operations off the end.
  induction ops using List.reverseRecOn generalizing d with
  | nil => cases hd
  | append_singleton ops op ih =>
    obtain ⟨hbefore, hop, -⟩ := World.along_append.1 hops
    rw [World.after_append] at hd
    rcases op.merges_or_becomes (linked_after linked_nil hbefore) hop hd with
      ⟨ds, hmerges⟩ | ⟨d', hd', hbecomes⟩
    · exact ⟨ds, ops, [], op, d, rfl, hmerges, .none d⟩
    · obtain ⟨ds, before, later, op', merged, rfl, hmerges, hlater⟩ := ih hbefore hd'
      refine ⟨ds, before, later ++ [op], op', merged, ?_, hmerges, ?_⟩
      · rw [List.append_assoc, List.cons_append]
      · rw [editsOf_append]
        exact hlater.append hbecomes

theorem extension_congr {dp dq : Definition} (hversion : dp.version = dq.version)
    (hoptions : dp.options = dq.options) :
    Definition.extension p dp = Definition.extension p dq := by
  funext options merged
  rw [Definition.extension, hversion, hoptions, Definition.extension]

theorem remerged_congr {dp dq : Definition} (hversion : dp.version = dq.version)
    (hoptions : dp.options = dq.options) : d.remerged dp = d.remerged dq := by
  funext options
  rw [Definition.remerged, hversion, hoptions, Definition.remerged]

/-- A definition that was merged with its parent as that is now comes from a merge over that. -/
theorem FromMerge.current (h : FromMerge w ops ds cid d) (hcurrent : d.Current ds') :
    FromMerge w ops ds' cid d := by
  obtain ⟨before, later, op, merged, hops, hmerges, hbecomes⟩ := h
  refine ⟨before, later, op, merged, hops, ?_, hbecomes⟩
  obtain ⟨hparent, hversion, hoptions⟩ := hbecomes.kept
  rw [Definition.Current, hparent, hversion, hoptions] at hcurrent
  -- Of the parent, a merge takes its options and its version, and both are still the same.
  cases hmerges with
  | base hnew => exact .base hnew
  | @extend p options made dp w' hnew hdp hmade =>
    obtain ⟨dq, hdq, hsame, hsuper⟩ := hcurrent p rfl
    have hversion : dp.version = dq.version := hsame
    have hoptions : dp.options = dq.options := Option.some.inj hsuper
    rw [hoptions] at hmade
    rw [extension_congr hversion hoptions, hoptions]
    exact .extend w' hnew hdq hmade
  | @again _ p d dp made w' hop hd hlink hdp hmoved hmade =>
    obtain ⟨dq, hdq, hsame, hsuper⟩ := hcurrent p hlink
    have hversion : dp.version = dq.version := hsame
    have hoptions : dp.options = dq.options := Option.some.inj hsuper
    rw [hoptions] at hmade
    rw [remerged_congr hversion hoptions]
    exact .again w' hop hd hlink hdq (hversion ▸ hmoved) hmade

end

/-! ## Staying up to date -/

section

variable {w : World} {cid c : Cid} {op : Op} {ops : List Op}

/-- A definition that is not behind is changed by nothing but a change of its own. -/
theorem fresh_kept_op (hl : Linked w.definitions) (hop : op.OnExisting w)
    (hlt : c < w.definitions.length) (hfresh : ¬ Behind w.definitions c)
    (hother : ∀ e, op ≠ .edit c e) :
    (op.run.run w).2.definitions[c]? = w.definitions[c]? := by
  have hd : w.definitions[c]? = some w.definitions[c] := List.getElem?_eq_getElem hlt
  have hacts := op.actsOn hl hop hd
  generalize (op.run.run w).2.definitions[c]? = after at hacts ⊢
  cases hacts with
  | edits e w' => exact absurd rfl (hother e)
  | resolves => rw [(resolve_refreshes hl hlt).unmoved hfresh]
  | leaves => exact hd.symm

/-- A lineage that is not behind stays as it is, as long as none of its definitions is changed. -/
theorem fresh_kept (hl : Linked w.definitions) (hops : w.Along Op.OnExisting ops)
    (hlt : cid < w.definitions.length) (hfresh : ¬ Behind w.definitions cid)
    (hother : ∀ c ∈ lineage (parentsOf w.definitions) cid, ∀ e, Op.edit c e ∉ ops) :
    ∀ c ∈ lineage (parentsOf w.definitions) cid,
      (w.after ops).definitions[c]? = w.definitions[c]? := by
  induction ops generalizing w with
  | nil => exact fun _ _ => rfl
  | cons op ops ih =>
    let w' := (op.run.run w).2
    have hkept : ∀ c ∈ lineage (parentsOf w.definitions) cid,
        w'.definitions[c]? = w.definitions[c]? := by
      intro c hc
      refine fresh_kept_op hl hops.1 (Nat.lt_of_le_of_lt (le_of_mem_lineage hc) hlt) ?_ ?_
      · exact fun h => hfresh (h.of_ancestor hc)
      · exact fun e heq => hother c hc e (heq ▸ List.mem_cons_self)
    -- The lineage is read off its own definitions, so that it is still the same one.
    have hlineage : lineage (parentsOf w'.definitions) cid =
        lineage (parentsOf w.definitions) cid := by
      apply lineage_congr_of_mem
      intro c hc
      rw [parentsOf, parentsOf, List.getElem?_map, List.getElem?_map, hkept c hc]
    have hlt' : cid < w'.definitions.length := by
      have hself := hkept cid (self_mem_lineage _ cid)
      rw [List.getElem?_eq_getElem hlt] at hself
      exact (List.getElem?_eq_some_iff.1 hself).1
    have hrest := ih (w := w') (hl.op hops.1) hops.2 hlt' (by rwa [hl.behind_congr hkept])
      (fun c hc e he => hother c (hlineage ▸ hc) e (List.mem_cons_of_mem op he))
    intro c hc
    exact (hrest c (hlineage ▸ hc)).trans (hkept c hc)

/-- A definition is as given, comes from a merge over its parent as that is now, and has noted that.
Resolving it gives its options as they are and does nothing else. -/
structure UpToDate (w : World) (ops : List Op) (c : Cid) (d : Definition) : Prop where
  kept : (w.after ops).definitions[c]? = some d
  current : d.Current (w.after ops).definitions
  merged : FromMerge w ops (w.after ops).definitions c d
  resolved : (Run.resolveOptions c).run (w.after ops) = (d.options, w.after ops)

theorem upToDate_of_fresh {config : Config} (hops : (World.start config).Along Op.OnExisting ops)
    {d : Definition} (hd : ((World.start config).after ops).definitions[c]? = some d)
    (hfresh : ¬ Behind ((World.start config).after ops).definitions c) :
    UpToDate (World.start config) ops c d := by
  have hl := linked_after linked_nil hops
  have hr := resolve_refreshes hl (List.getElem?_eq_some_iff.1 hd).1
  have hworld := hr.unmoved hfresh
  have hcurrent := hl.current hfresh (self_mem_lineage _ c) hd
  obtain ⟨ds, hmerge⟩ := fromMerge_after hops hd
  obtain ⟨d', hd', hoptions⟩ := hr.result
  rw [hworld] at hd'
  cases hd.symm.trans hd'
  exact ⟨hd, hcurrent, hmerge.current hcurrent, Prod.ext hoptions.symm hworld⟩

/-- After a definition is resolved, it and all its ancestors are up to date. Whatever is done next,
they stay so and keep the options that they have, as long as none of them is changed. -/
theorem resolve_upToDate {config : Config} {later : List Op}
    (hops : (World.start config).Along Op.OnExisting (ops ++ .resolve cid :: later))
    (hlt : cid < ((World.start config).after ops).definitions.length)
    (hother : ∀ c ∈ lineage (parentsOf ((World.start config).after ops).definitions) cid,
      ∀ e, Op.edit c e ∉ later) :
    let start := World.start config
    let w := start.after ops
    let r := (Run.resolveOptions cid).run w
    (∃ d, r.2.definitions[cid]? = some d ∧ d.options = r.1) ∧
      ∀ c ∈ lineage (parentsOf w.definitions) cid, ∃ d,
        UpToDate start (ops ++ [.resolve cid]) c d ∧
        UpToDate start (ops ++ .resolve cid :: later) c d := by
  intro start w r
  obtain ⟨hbefore, hafter⟩ := World.along_append.1 hops
  have hlw := linked_after linked_nil hbefore
  have hr : Refreshes w cid r := resolve_refreshes hlw hlt
  have hl := hr.linked hlw
  have hresolved : start.after (ops ++ [.resolve cid]) = r.2 := World.after_append start ops _
  have hlast : start.after (ops ++ .resolve cid :: later) = r.2.after later :=
    World.after_append start ops _
  have hlength := hr.length
  rw [← hr.parents] at hother ⊢
  refine ⟨hr.result, fun c hc => ?_⟩
  have hclt : c < r.2.definitions.length :=
    hlength ▸ Nat.lt_of_le_of_lt (le_of_mem_lineage hc) hlt
  have hd : r.2.definitions[c]? = some r.2.definitions[c] := List.getElem?_eq_getElem hclt
  have hfresh : ¬ Behind r.2.definitions c := fun h => hr.fresh (h.of_ancestor hc)
  have hkept := fresh_kept hl hafter.2 hclt hfresh fun c' hc' => hother c' (lineage_subset hc hc')
  refine ⟨r.2.definitions[c], upToDate_of_fresh ?_ ?_ ?_, upToDate_of_fresh hops ?_ ?_⟩
  · exact World.along_append.2 ⟨hbefore, hafter.1, trivial⟩
  · rwa [hresolved]
  · rwa [hresolved]
  · rw [hlast]
    exact (hkept c (self_mem_lineage _ c)).trans hd
  · rwa [hlast, hl.behind_congr hkept]

end

/-- A filter is registered with a definition that was extended twice, one upon the other. -/
def filterBelow : List Op :=
  [.base, .extend 0 .empty, .extend 1 .empty, .edit 0 (.filter "money" 7)]

/-- The last definition is extended, and the new one is given a filter and resolved. -/
def filterAbove : List Op :=
  [.extend 2 .empty, .edit 3 (.filter "date" 8), .resolve 3]

/-- Resolving the last definition of `filterBelow` brings its lineage up to date, so that it has the
filter of the first one, and `filterAbove` leaves it so. -/
theorem resolve_upToDate_filterBelow :
    let start := World.start .default
    let w := start.after filterBelow
    let r := (Run.resolveOptions 2).run w
    start.Along Op.OnExisting (filterBelow ++ .resolve 2 :: filterAbove) ∧
      2 < w.definitions.length ∧
      (∀ c ∈ lineage (parentsOf w.definitions) 2, ∀ e, Op.edit c e ∉ filterAbove) ∧
      r.1.filters.get? "money" = some 7 ∧
      (∃ d, r.2.definitions[2]? = some d ∧ d.options = r.1) ∧
        ∀ c ∈ lineage (parentsOf w.definitions) 2, ∃ d,
          UpToDate start (filterBelow ++ [.resolve 2]) c d ∧
          UpToDate start (filterBelow ++ .resolve 2 :: filterAbove) c d := by
  intro start w r
  have hops : start.Along Op.OnExisting (filterBelow ++ .resolve 2 :: filterAbove) := by
    decide +kernel
  have hlt : 2 < w.definitions.length := by decide +kernel
  have hother : ∀ c ∈ lineage (parentsOf w.definitions) 2, ∀ e, Op.edit c e ∉ filterAbove := by
    intro c hc e he
    simp only [filterAbove, List.mem_cons, reduceCtorEq, Op.edit.injEq, List.not_mem_nil, or_false,
      false_or] at he
    obtain ⟨rfl, -⟩ := he
    exact absurd (le_of_mem_lineage hc) (by decide)
  have hmoney : r.1.filters.get? "money" = some 7 := by decide +kernel
  exact ⟨hops, hlt, hother, hmoney, resolve_upToDate hops hlt hother⟩

end ViewTree
