import Mathlib.Data.List.Induction
import Mathlib.Data.List.Infix
import ViewTree.Proofs.Component.Operations
/-!
# Late edits survive

An edit of a definition should stay in force until the next edit of the same key, however often the
definition is merged again over ancestors that change. What a definition carries over to a merge is
found by comparing its tables with those it was made with. An edit that brings a table back to what
it was then is not carried, and what the extension or the parent holds under the key comes up
(`World.Forgets`). `lastEdit_shown_iff` says that edits survive exactly where that does not happen.
-/

namespace ViewTree

/-! ## Sorted entries -/

/-- The change to some options keeps their entries sorted. -/
def Edit.KeepsSorted (o : ComponentOptions) : Edit → Prop
  | mixin layer => layer.AllSorted
  | modify f => (f o).Sorted
  | _ => True

/-- The operation brings sorted entries and keeps those that there are sorted. -/
def Op.KeepsSorted (w : World) : Op → Prop
  | extend _ options => options.AllSorted
  | edit cid e => e.KeepsSorted (w.latest cid)
  | _ => True

/-- The entries of a definition are sorted, and so are those it extends its parent with. -/
structure Definition.Sorted (d : Definition) : Prop where
  options : d.options.Sorted
  extendOptions : d.extendOptions.AllSorted

section

variable {ds ds' : List Definition} {w : World} {ops : List Op}

theorem Edit.sorted_apply {e : Edit} {o : ComponentOptions} (h : e.KeepsSorted o) (ho : o.Sorted)
    (w : World) : (e.apply o w).Sorted := by
  cases e with
  | mixin layer => exact (mergeOptions_spec ho h false w).2.1
  | component name target => exact (puts_component name target).sorted o ho
  | directive name hooks => exact (puts_directive name hooks).sorted o ho
  | filter name id => exact (puts_filter name id).sorted o ho
  | modify f => exact h

theorem sorted_remerges (hstep : Remerges ds ds') (h : ∀ d ∈ ds, d.Sorted) :
    ∀ d ∈ ds', d.Sorted := by
  cases hstep with
  | @merge cid p d dp merged w hd hparent hdp hmoved hmerged =>
    intro d' hmem
    rcases List.mem_or_eq_of_mem_set hmem with hmem | rfl
    · exact h d' hmem
    · have hself := h d (List.mem_of_getElem? hd)
      have hcarries := allSorted_carryEdits hself.options hself.extendOptions d.sealedOptions
      have hsuper := (h dp (List.mem_of_getElem? hdp)).options
      have hsorted := (mergeOptions_spec hsuper hcarries false w).2.1
      exact ⟨sorted_withSelf (hmerged ▸ hsorted) _ _, hcarries⟩

/-- Every operation that brings sorted entries leaves all entries sorted. -/
theorem sorted_op (h : ∀ d ∈ w.definitions, d.Sorted) (hl : Linked w.definitions) {op : Op}
    (hop : op.OnExisting w) (hsorted : op.KeepsSorted w) :
    ∀ d ∈ (op.run.run w).2.definitions, d.Sorted := by
  have hleads := op.leads hl hop
  generalize (op.run.run w).2.definitions = after at hleads ⊢
  cases hleads with
  | base =>
    intro d hmem
    rcases List.mem_append.1 hmem with hmem | hmem
    · exact h d hmem
    · rw [List.mem_singleton.1 hmem]
      exact ⟨sorted_empty, allSorted_empty⟩
  | @extend p options merged ds dp w' hsteps hdp hmerged =>
    have hds : ∀ d ∈ ds, d.Sorted := steps_induct hsteps sorted_remerges h
    intro d hmem
    rcases List.mem_append.1 hmem with hmem | hmem
    · exact hds d hmem
    · rw [List.mem_singleton.1 hmem]
      have hsuper := (hds dp (List.mem_of_getElem? hdp)).options
      have hmade := (mergeOptions_spec hsuper hsorted false w').2.1
      exact ⟨hmerged ▸ sorted_withSelf hmade _ _, hsorted⟩
  | @edit cid e d w' hd =>
    have hlatest : w.latest cid = d.options := by
      rw [World.latest, hd]
      rfl
    intro d' hmem
    rcases List.mem_or_eq_of_mem_set hmem with hmem | rfl
    · exact h d' hmem
    · have hself := h d (List.mem_of_getElem? hd)
      have hkeeps : e.KeepsSorted d.options := hlatest ▸ hsorted
      exact ⟨Edit.sorted_apply hkeeps hself.options w', hself.extendOptions⟩
  | resolve hsteps => exact steps_induct hsteps sorted_remerges h

theorem sorted_after (h : ∀ d ∈ w.definitions, d.Sorted) (hl : Linked w.definitions)
    (hops : w.Along Op.OnExisting ops) (hsorted : w.Along Op.KeepsSorted ops) :
    ∀ d ∈ (w.after ops).definitions, d.Sorted := by
  induction ops generalizing w with
  | nil => exact h
  | cons op ops ih => exact ih (sorted_op h hl hops.1 hsorted.1) (hl.op hops.1) hops.2 hsorted.2

end

/-! ## Edits that are forgotten -/

/-- What an operation puts into the options of a definition itself. -/
def Op.edits (cid : Cid) : Op → Table
  | edit c e => if c = cid then e.table else fun _ => .empty
  | _ => fun _ => .empty

/-- What was put last under each key by edits of a definition. -/
def lastEdits (cid : Cid) (ops : List Op) : Table :=
  ops.foldl (fun table op k => (op.edits cid k).onto (table k)) fun _ => .empty

/-- The next merge of a definition has another value under a key: an ancestor has changed, the table
of that kind is again as it was made, so that it is not carried over, and the extension over the
parent holds something else. -/
structure Definition.Forgets (w : World) (cid p : Cid) (d : Definition) (k : AssetKind)
    (key : String) (v : k.Value) : Prop where
  parent : d.parent = some p
  behind : Behind w.definitions cid
  returned : d.options.entries k == d.sealedOptions.entries k
  other : (d.extendOptions.flat? k).onto ((w.resolved p).find? k) key ≠ some v

/-- A definition will not show a value that it has. -/
def World.Forgets (w : World) (cid : Cid) (k : AssetKind) (key : String) (v : k.Value) : Prop :=
  ∃ d ∈ w.definitions[cid]?, ∃ p, d.Forgets w cid p k key v

section

variable {w : World} {cid : Cid} {d : Definition} {k : AssetKind} {key : String} {v : k.Value}

theorem lastEdits_append (cid : Cid) (ops : List Op) (op : Op) (k : AssetKind) :
    lastEdits cid (ops ++ [op]) k = (op.edits cid k).onto (lastEdits cid ops k) := by
  rw [lastEdits, List.foldl_append]
  rfl

theorem withSelf_name (o : ComponentOptions) (name : Option String) (cid : Cid) :
    (o.withSelf name cid).name = o.name := by
  cases name <;> rfl

/-- A definition that has a value shows it when it is resolved, unless it forgets it. -/
theorem resolved_iff (hl : Linked w.definitions) (hs : ∀ d ∈ w.definitions, d.Sorted)
    (hd : w.definitions[cid]? = some d) (hv : d.options.find? k key = some v)
    (hname : k = .component → (w.resolved cid).name ≠ some key) :
    (w.resolved cid).find? k key = some v ↔ ¬ w.Forgets cid k key v := by
  have hlt := (List.getElem?_eq_some_iff.1 hd).1
  by_cases hbehind : Behind w.definitions cid
  · obtain ⟨p, hparent⟩ := parent_of_behind hd hbehind
    have hplt := Nat.lt_trans (hl.parent_lt hd hparent) hlt
    obtain ⟨w', merged, hmerged, hresult⟩ := resolve_behind hl hd hparent hbehind
    have hself := hs d (List.mem_of_getElem? hd)
    have hsuper : (w.resolved p).Sorted := by
      have hr := resolve_refreshes hl hplt
      obtain ⟨dp, hdp, hoptions⟩ := hr.result
      have hsteps : ∀ d ∈ ((Run.resolveOptions p).run w).2.definitions, d.Sorted :=
        steps_induct hr.steps sorted_remerges hs
      rw [World.resolved, ← hoptions]
      exact (hsteps dp (List.mem_of_getElem? hdp)).options
    obtain ⟨-, hsorted, hfind⟩ := mergeOptions_spec hsuper
      (allSorted_carryEdits hself.options hself.extendOptions d.sealedOptions) false w'
    -- The definition stands under its name, and under the other keys as it was merged.
    have hnone : selfEntry merged.name cid k key = none := by
      have heq : (w.resolved cid).name = merged.name := by
        rw [World.resolved, hresult, withSelf_name]
      cases k with
      | component =>
        have hne := heq ▸ hname rfl
        simp [selfEntry, hne]
      | _ => rfl
    have hshown : (w.resolved cid).find? k key =
        (d.carries.flat? k).onto ((w.resolved p).find? k) key := by
      rw [World.resolved, hresult, find?_withSelf _ (hmerged ▸ hsorted), Lookup.onto, hnone,
        Option.none_or, hmerged]
      exact congrFun (hfind k) key
    rw [hshown, Definition.carries, flat?_carryEdits]
    split
    · rename_i hreturned
      constructor
      · rintro hshows ⟨d', hd', p', hforgets⟩
        cases hd.symm.trans hd'
        cases hparent.symm.trans hforgets.parent
        exact hforgets.other hshows
      · intro hforgets
        by_contra hother
        exact hforgets ⟨d, hd, p, hparent, hbehind, hreturned, hother⟩
    · rename_i hedited
      refine iff_of_true (Lookup.onto_eq_some.2 (.inl (Lookup.onto_eq_some.2 (.inl hv)))) ?_
      rintro ⟨d', hd', p', hforgets⟩
      cases hd.symm.trans hd'
      exact hedited hforgets.returned
  · have hr := resolve_refreshes hl hlt
    obtain ⟨d', hd', hoptions⟩ := hr.result
    rw [hr.unmoved hbehind, hd] at hd'
    cases hd'
    refine iff_of_true ?_ ?_
    · rw [World.resolved, ← hoptions]
      exact hv
    · rintro ⟨d', -, p, hforgets⟩
      exact hbehind hforgets.behind

end

/-! ## Runs -/

/-- After a run, a definition shows what edits of it have put last under a key. -/
def World.ShowsLast (w : World) (ops : List Op) (cid : Cid) (k : AssetKind) (key : String) : Prop :=
  ∀ v, lastEdits cid ops k key = some v → ((w.after ops).resolved cid).find? k key = some v

section

variable {w : World} {ops : List Op} {cid : Cid} {k : AssetKind} {key : String} {v : k.Value}

/-- One operation on a definition that shows a value when it is resolved leaves it with the value,
or with the one that is put over it. -/
theorem held_op (hl : Linked w.definitions) (hs : ∀ d ∈ w.definitions, d.Sorted) {op : Op}
    (hop : op.OnExisting w) (hproper : ∀ e, op = .edit cid e → e.Proper) {d : Definition}
    (hd : w.definitions[cid]? = some d) (hvalue : op.edits cid k key = some v ∨
      op.edits cid k key = none ∧ d.options.find? k key = some v ∧
        (w.resolved cid).find? k key = some v) :
    ∃ d', (op.run.run w).2.definitions[cid]? = some d' ∧ d'.options.find? k key = some v := by
  have hacts := op.actsOn hl hop hd
  generalize (op.run.run w).2.definitions[cid]? = after at hacts ⊢
  have hnothing (hother : ∀ e, op ≠ .edit cid e) : op.edits cid k key = none := by
    cases op with
    | edit c e =>
      have hne : c ≠ cid := fun heq => hother e (heq ▸ rfl)
      simp [Op.edits, hne, Lookup.empty]
    | _ => rfl
  cases hacts with
  | edits e w' =>
    refine ⟨_, rfl, ?_⟩
    have happly := (Edit.apply_spec (hproper e rfl) (hs d (List.mem_of_getElem? hd)).options w').2 k
    have htable : Op.edits cid (.edit cid e) k key = e.table k key := by
      simp [Op.edits]
    show (e.apply d.options w').find? k key = some v
    rw [happly, Lookup.onto_eq_some, ← htable]
    exact hvalue.imp_right fun h => ⟨h.1, h.2.1⟩
  | resolves hother =>
    obtain ⟨d', hd', hoptions⟩ := (resolve_refreshes hl (List.getElem?_eq_some_iff.1 hd).1).result
    have hkept := hvalue.resolve_left (by simp [hnothing hother])
    exact ⟨d', hd', hoptions ▸ hkept.2.2⟩
  | leaves hother =>
    have hkept := hvalue.resolve_left (by simp [hnothing hother])
    exact ⟨d, rfl, hkept.2.1⟩

variable (hl : Linked w.definitions) (hs : ∀ d ∈ w.definitions, d.Sorted)
  (hops : w.Along Op.OnExisting ops) (hsorted : w.Along Op.KeepsSorted ops)
  (hproper : ∀ e, .edit cid e ∈ ops → e.Proper)

include hl hs hops hsorted hproper

/-- As long as a definition has shown what its edits have put last, it has that. -/
theorem held_after (hshown : ∀ before, before <+: ops → before ≠ ops →
      w.ShowsLast before cid k key) (hlast : lastEdits cid ops k key = some v) :
    ∃ d, (w.after ops).definitions[cid]? = some d ∧ d.options.find? k key = some v := by
  induction ops using List.reverseRecOn generalizing v with
  | nil => cases hlast
  | append_singleton ops op ih =>
    obtain ⟨hops, hop, -⟩ := World.along_append.1 hops
    obtain ⟨hsorted, -, -⟩ := World.along_append.1 hsorted
    have hproper' : ∀ e, .edit cid e ∈ ops → e.Proper :=
      fun e he => hproper e (List.mem_append_left _ he)
    have hshown' := hshown ops (List.prefix_append _ _) (by simp)
    have hall {v : k.Value} := ih (v := v) hops hsorted hproper' fun before hbefore hne =>
      hshown before (hbefore.trans (List.prefix_append _ _)) fun heq => by
        rw [heq] at hbefore
        exact absurd hbefore.length_le (by simp)
    rw [lastEdits_append, Lookup.onto_eq_some] at hlast
    -- The definition exists if it is edited now or has been edited before.
    obtain ⟨d, hd⟩ : ∃ d, (w.after ops).definitions[cid]? = some d := by
      rcases hlast with hnow | ⟨-, hlast⟩
      · cases op with
        | edit c e =>
          by_cases heq : c = cid
          · subst heq
            exact ⟨_, List.getElem?_eq_getElem hop⟩
          · simp [Op.edits, heq, Lookup.empty] at hnow
        | _ => cases hnow
      · obtain ⟨d, hd, -⟩ := hall hlast
        exact ⟨d, hd⟩
    rw [World.after_append]
    refine held_op (linked_after hl hops) (sorted_after hs hl hops hsorted) hop
      (fun e he => hproper e (he ▸ by simp)) hd (hlast.imp_right fun ⟨hnone, hlast⟩ => ?_)
    obtain ⟨d', hd', hv⟩ := hall hlast
    cases hd.symm.trans hd'
    exact ⟨hnone, hv, hshown' v hlast⟩

/-- All along a run, a definition shows what its edits have put last under a key, exactly if it never
comes to forget it. -/
theorem shown_iff (hname : k = .component → ∀ before, before <+: ops →
      ((w.after before).resolved cid).name ≠ some key) :
    (∀ before, before <+: ops → w.ShowsLast before cid k key) ↔
      ∀ before, before <+: ops → ∀ v, lastEdits cid before k key = some v →
        ¬ (w.after before).Forgets cid k key v := by
  -- What the two sides say about one state is the same, if all was shown before.
  have hstate {before : List Op} (hbefore : before <+: ops)
      (hshown : ∀ earlier, earlier <+: before → earlier ≠ before →
        w.ShowsLast earlier cid k key) {v : k.Value}
      (hlast : lastEdits cid before k key = some v) :
      ((w.after before).resolved cid).find? k key = some v ↔
        ¬ (w.after before).Forgets cid k key v := by
    have hname' := fun hk => hname hk before hbefore
    obtain ⟨rest, rfl⟩ := hbefore
    have hops' := (World.along_append.1 hops).1
    have hsorted' := (World.along_append.1 hsorted).1
    obtain ⟨d, hd, hv⟩ := held_after hl hs hops' hsorted'
      (fun e he => hproper e (List.mem_append_left _ he)) hshown hlast
    exact resolved_iff (linked_after hl hops') (sorted_after hs hl hops' hsorted') hd hv hname'
  constructor
  · intro hshown before hbefore v hlast
    have hearlier := fun earlier (h : earlier <+: before) (_ : earlier ≠ before) =>
      hshown earlier (h.trans hbefore)
    exact (hstate hbefore hearlier hlast).1 (hshown before hbefore v hlast)
  · intro hkept before hbefore
    induction hlength : before.length using Nat.strongRecOn generalizing before with
    | ind n ih =>
      intro v hlast
      refine (hstate hbefore (fun earlier h hne => ?_) hlast).2 (hkept before hbefore v hlast)
      have hlt : earlier.length < n :=
        hlength ▸ Nat.lt_of_le_of_ne h.length_le fun heq => hne (h.eq_of_length heq)
      exact ih earlier.length hlt earlier (h.trans hbefore) rfl

end

/-- Definitions are made, changed and resolved in any order; edits of one of them put entries. All
along the run, that one shows under a key what its edits have put last, exactly if it never comes to
forget it: behind a changed ancestor, with the table of that kind as it was when the definition was
made, and with another value in its extension or, if that has none, its parent. -/
theorem lastEdit_shown_iff (config : Config) {ops : List Op} {cid : Cid} {k : AssetKind}
    {key : String} (hops : (World.start config).Along Op.OnExisting ops)
    (hsorted : (World.start config).Along Op.KeepsSorted ops)
    (hproper : ∀ e, .edit cid e ∈ ops → e.Proper)
    (hname : k = .component → ∀ before, before <+: ops →
      (((World.start config).after before).resolved cid).name ≠ some key) :
    (∀ before, before <+: ops → ∀ v, lastEdits cid before k key = some v →
        (((World.start config).after before).resolved cid).find? k key = some v) ↔
      ∀ before, before <+: ops → ∀ v, lastEdits cid before k key = some v →
        ¬ ((World.start config).after before).Forgets cid k key v :=
  shown_iff linked_nil nofun hops hsorted hproper hname

/-- A table that differs from the sealed one is carried over. -/
theorem not_forgets_of_differs {w : World} {cid : Cid} {k : AssetKind} {key : String} {v : k.Value}
    (h : ∀ d ∈ w.definitions[cid]?, (d.options.entries k == d.sealedOptions.entries k) = false) :
    ¬ w.Forgets cid k key v := by
  rintro ⟨d, hd, p, hforgets⟩
  have hreturned := hforgets.returned
  rw [h d hd] at hreturned
  cases hreturned

/-- A layer with one component. -/
def naming (name : String) (target : Cid) : ComponentOptions :=
  { ComponentOptions.empty with components := [(name, target)] }

theorem allSorted_naming (name : String) (target : Cid) : (naming name target).AllSorted := by
  refine (allSorted_iff _).2 ⟨fun k => ?_, trivial, trivial⟩
  cases k with
  | component => exact List.pairwise_singleton _ _
  | name => exact .nil
  | template => exact .nil
  | _ => exact .nil

/-- A definition is extended by one that has a component under a name. That is given another
component under the name, and is resolved after its parent has changed. -/
def renamed : List Op :=
  [.base, .base, .base, .extend 0 (naming "x-a" 1), .edit 3 (.component "x-a" 2),
    .edit 0 (.filter "money" 7), .resolve 3]

/-- All along `renamed`, the component that was given last is shown. -/
theorem lastEdit_shown_renamed :
    (World.start .default).Along Op.OnExisting renamed ∧
      (World.start .default).Along Op.KeepsSorted renamed ∧
      (∀ e, .edit 3 e ∈ renamed → e.Proper) ∧
      (∀ before, before <+: renamed →
        (((World.start .default).after before).resolved 3).name ≠ some "x-a") ∧
      lastEdits 3 renamed .component "x-a" = some (2 : Cid) ∧
      ∀ before, before <+: renamed → ∀ v, lastEdits 3 before .component "x-a" = some v →
        (((World.start .default).after before).resolved 3).find? .component "x-a" = some v := by
  have hops : (World.start .default).Along Op.OnExisting renamed := by decide +kernel
  have hsorted : (World.start .default).Along Op.KeepsSorted renamed :=
    ⟨trivial, trivial, trivial, allSorted_naming "x-a" 1, trivial, trivial, trivial, trivial⟩
  have hproper : ∀ e, .edit 3 e ∈ renamed → e.Proper := by
    intro e he
    simp only [renamed, List.mem_cons, reduceCtorEq, Op.edit.injEq, List.not_mem_nil, or_false,
      false_or] at he
    rcases he with ⟨-, rfl⟩ | ⟨-, rfl⟩ <;> trivial
  have hname : ∀ before, before <+: renamed →
      (((World.start .default).after before).resolved 3).name ≠ some "x-a" := by
    intro before hbefore
    rw [← List.mem_inits] at hbefore
    revert before
    decide +kernel
  refine ⟨hops, hsorted, hproper, hname, rfl, ?_⟩
  refine (lastEdit_shown_iff .default hops hsorted hproper fun _ => hname).2
    fun before hbefore v hlast => not_forgets_of_differs ?_
  rw [← List.mem_inits] at hbefore
  have hedited : ∀ before ∈ renamed.inits, (lastEdits 3 before .component "x-a").isSome →
      ∀ d ∈ ((World.start .default).after before).definitions[3]?,
        (d.options.components == d.sealedOptions.components) = false := by
    decide +kernel
  exact hedited before hbefore (by rw [hlast]; rfl)

/-- The definition of `renamed` is given the component back that it was made with, and is resolved
after its parent has changed again. -/
def renamedBack : List Op :=
  renamed ++ [.edit 3 (.component "x-a" 1), .edit 0 (.filter "date" 8), .resolve 3]

/-- After `renamedBack`, the definition does not show the component that it was given last. -/
theorem lastEdit_not_shown :
    ¬ ∀ ops, (World.start .default).Along Op.OnExisting ops →
      (World.start .default).Along Op.KeepsSorted ops → (∀ e, .edit 3 e ∈ ops → e.Proper) →
      (∀ before, before <+: ops →
        (((World.start .default).after before).resolved 3).name ≠ some "x-a") →
      ∀ v, lastEdits 3 ops .component "x-a" = some v →
        (((World.start .default).after ops).resolved 3).find? .component "x-a" = some v := by
  intro h
  have hops : (World.start .default).Along Op.OnExisting renamedBack := by decide +kernel
  have hsorted : (World.start .default).Along Op.KeepsSorted renamedBack :=
    ⟨trivial, trivial, trivial, allSorted_naming "x-a" 1, trivial, trivial, trivial, trivial, trivial,
      trivial, trivial⟩
  have hproper : ∀ e, .edit 3 e ∈ renamedBack → e.Proper := by
    intro e he
    simp only [renamedBack, renamed, List.cons_append, List.nil_append, List.mem_cons, reduceCtorEq,
      Op.edit.injEq, List.not_mem_nil, or_false, false_or] at he
    rcases he with ⟨-, rfl⟩ | ⟨-, rfl⟩ | ⟨-, rfl⟩ | ⟨-, rfl⟩ <;> trivial
  have hname : ∀ before, before <+: renamedBack →
      (((World.start .default).after before).resolved 3).name ≠ some "x-a" := by
    intro before hbefore
    rw [← List.mem_inits] at hbefore
    revert before
    decide +kernel
  have hshown : (((World.start .default).after renamedBack).resolved 3).components.get? "x-a" =
      some 1 :=
    h renamedBack hops hsorted hproper hname (1 : Cid) rfl
  revert hshown
  decide +kernel

end ViewTree
