import ViewTree.Proofs.Component.Freshness
/-!
# What operations come to

An operation changes one definition, makes one or resolves some. `Op.leads` says what that comes to
for all definitions, `Op.actsOn` for one that there is, and `linked_after` that the definitions of a
running application stay linked.
-/

namespace ViewTree

/-- A condition holds of every operation of a run, in the state that it finds. -/
def World.Along (P : World → Op → Prop) (w : World) : List Op → Prop
  | [] => True
  | op :: ops => P w op ∧ World.Along P (op.run.run w).2 ops

/-- The operation is on a definition that exists. -/
def Op.OnExisting (w : World) : Op → Prop
  | extend parent _ => parent < w.definitions.length
  | edit cid _ => cid < w.definitions.length
  | _ => True

instance (w : World) : (op : Op) → Decidable (op.OnExisting w)
  | .base => .isTrue trivial
  | .extend parent _ => inferInstanceAs (Decidable (parent < w.definitions.length))
  | .edit cid _ => inferInstanceAs (Decidable (cid < w.definitions.length))
  | .resolve _ => .isTrue trivial

instance World.decidableAlong (P : World → Op → Prop) [∀ w op, Decidable (P w op)] :
    (w : World) → (ops : List Op) → Decidable (w.Along P ops)
  | _, [] => .isTrue trivial
  | w, op :: ops =>
    have := decidableAlong P (op.run.run w).2 ops
    inferInstanceAs (Decidable (P w op ∧ World.Along P (op.run.run w).2 ops))

/-- A definition that extends another, as it is made. -/
def Definition.extension (p : Cid) (parent : Definition) (options merged : ComponentOptions) :
    Definition :=
  ⟨some p, 0, merged, parent.version, some parent.options, options, merged⟩

/-- What an operation does to a definition: it changes it, resolves it, or leaves it as it is. -/
inductive Op.ActsOn (w : World) (cid : Cid) (d : Definition) : Op → Option Definition → Prop
  | edits (e : Edit) (w' : World) :
      ActsOn w cid d (.edit cid e) (some (d.withOptions (e.apply d.options w')))
  | resolves {op : Op} (hop : ∀ e, op ≠ .edit cid e) :
      ActsOn w cid d op ((Run.resolveOptions cid).run w).2.definitions[cid]?
  | leaves {op : Op} (hop : ∀ e, op ≠ .edit cid e) : ActsOn w cid d op (some d)

/-- What an operation does to all definitions: merging some again, adding one, changing one. -/
inductive Op.Leads (w : World) : Op → List Definition → Prop
  | base : Leads w .base (w.definitions ++ [⟨none, 0, .empty, 0, none, .empty, .empty⟩])
  | extend {p : Cid} {options merged : ComponentOptions} {ds : List Definition} {dp : Definition}
      (w' : World) (hsteps : Relation.ReflTransGen Remerges w.definitions ds)
      (hdp : ds[p]? = some dp)
      (hmerged : merged = ((Run.mergeOptions dp.options options false).run w').1.withSelf
        (options.name <|> dp.options.name) ds.length) :
      Leads w (.extend p options) (ds ++ [Definition.extension p dp options merged])
  | edit {cid : Cid} {e : Edit} {d : Definition} (w' : World) (hd : w.definitions[cid]? = some d) :
      Leads w (.edit cid e) (w.definitions.set cid (d.withOptions (e.apply d.options w')))
  | resolve {cid : Cid} {ds : List Definition}
      (hsteps : Relation.ReflTransGen Remerges w.definitions ds) : Leads w (.resolve cid) ds

section

variable {w : World} {cid p : Cid} {d : Definition}

/-- A definition that extends another is added behind the others, once that one is resolved. -/
theorem extendDefinition_added (hl : Linked w.definitions) (hlt : p < w.definitions.length)
    (options : ComponentOptions) :
    let s := (Run.resolveOptions p).run w
    ∃ (w' : World) (dp : Definition) (merged : ComponentOptions),
      s.2.definitions[p]? = some dp ∧ dp.options = s.1 ∧
      merged = ((Run.mergeOptions dp.options options false).run w').1.withSelf
        (options.name <|> dp.options.name) w.definitions.length ∧
      ((Run.extendDefinition p options).run w).2.definitions =
        s.2.definitions ++ [Definition.extension p dp options merged] := by
  intro s
  have hr : Refreshes w p s := resolve_refreshes hl hlt
  obtain ⟨dp, hdp, hoptions⟩ := hr.result
  obtain ⟨w', merged, hmerged, hset⟩ := extendDefinition_made w p options
  refine ⟨w', dp, merged, hdp, hoptions, ?_, ?_⟩
  · rw [hmerged, hoptions, ← hr.length]
  · rw [hset, hdp, ← hoptions]
    rfl

/-- Resolving brings one definition of those that there are up to date, or leaves it. -/
theorem resolve_actsOn (hl : Linked w.definitions) (hd : w.definitions[cid]? = some d) (c : Cid) :
    ((Run.resolveOptions c).run w).2.definitions[cid]? =
        ((Run.resolveOptions cid).run w).2.definitions[cid]? ∨
      ((Run.resolveOptions c).run w).2.definitions[cid]? = some d := by
  by_cases hlt : c < w.definitions.length
  · by_cases hmem : cid ∈ lineage (parentsOf w.definitions) c
    · exact .inl (resolve_ancestor hl hlt hmem)
    · exact .inr (((resolve_refreshes hl hlt).elsewhere cid hmem).trans hd)
  · rw [resolve_missing (List.getElem?_eq_none (Nat.not_lt.1 hlt))]
    exact .inr hd

/-- Whatever is done, a definition is changed, resolved or left as it is. -/
theorem Op.actsOn (hl : Linked w.definitions) {op : Op} (hop : op.OnExisting w)
    (hd : w.definitions[cid]? = some d) :
    op.ActsOn w cid d (op.run.run w).2.definitions[cid]? := by
  have hlt := (List.getElem?_eq_some_iff.1 hd).1
  cases op with
  | base =>
    have hkept : (Run.defineBase.run w).2.definitions[cid]? = some d := by
      rw [defineBase_spec, List.getElem?_append_left hlt, hd]
    exact hkept ▸ .leaves nofun
  | extend p options =>
    obtain ⟨-, dp, merged, -, -, -, hset⟩ := extendDefinition_added hl hop options
    have hkept : ((Run.extendDefinition p options).run w).2.definitions[cid]? =
        ((Run.resolveOptions p).run w).2.definitions[cid]? := by
      rw [hset, List.getElem?_append_left ((resolve_refreshes hl hop).length ▸ hlt)]
    show (Op.extend p options).ActsOn w cid d
      ((Run.extendDefinition p options).run w).2.definitions[cid]?
    rw [hkept]
    -- Extending resolves the parent, which may bring the definition up to date on the way.
    rcases resolve_actsOn hl hd p with h | h
    · exact h ▸ .resolves nofun
    · exact h ▸ .leaves nofun
  | edit c e =>
    obtain ⟨dc, hdc⟩ : ∃ dc, w.definitions[c]? = some dc := ⟨_, List.getElem?_eq_getElem hop⟩
    obtain ⟨w', hset⟩ := edit_run e hdc
    show (Op.edit c e).ActsOn w cid d ((e.run c).run w).2.definitions[cid]?
    rw [hset]
    by_cases heq : cid = c
    · subst heq
      cases hd.symm.trans hdc
      rw [List.getElem?_set_self hlt]
      exact .edits e w'
    · rw [List.getElem?_set_ne (Ne.symm heq), hd]
      exact .leaves fun e' h => heq (Op.edit.inj h).1.symm
  | resolve c =>
    show (Op.resolve c).ActsOn w cid d ((Run.resolveOptions c).run w).2.definitions[cid]?
    rcases resolve_actsOn hl hd c with h | h
    · exact h ▸ .resolves nofun
    · exact h ▸ .leaves nofun

theorem Op.leads (hl : Linked w.definitions) {op : Op} (hop : op.OnExisting w) :
    op.Leads w (op.run.run w).2.definitions := by
  cases op with
  | base => exact .base
  | extend p options =>
    have hr := resolve_refreshes hl hop
    obtain ⟨w', dp, merged, hdp, -, hmerged, hset⟩ := extendDefinition_added hl hop options
    show (Op.extend p options).Leads w ((Run.extendDefinition p options).run w).2.definitions
    rw [hset]
    exact .extend w' hr.steps hdp (hr.length ▸ hmerged)
  | edit c e =>
    obtain ⟨dc, hdc⟩ : ∃ dc, w.definitions[c]? = some dc := ⟨_, List.getElem?_eq_getElem hop⟩
    obtain ⟨w', hset⟩ := edit_run e hdc
    show (Op.edit c e).Leads w ((e.run c).run w).2.definitions
    rw [hset]
    exact .edit w' hdc
  | resolve c =>
    show (Op.resolve c).Leads w ((Run.resolveOptions c).run w).2.definitions
    by_cases hlt : c < w.definitions.length
    · exact .resolve (resolve_refreshes hl hlt).steps
    · rw [resolve_missing (List.getElem?_eq_none (Nat.not_lt.1 hlt))]
      exact .resolve .refl

/-- Every operation keeps the definitions linked. -/
theorem Linked.op (hl : Linked w.definitions) {op : Op} (hop : op.OnExisting w) :
    Linked (op.run.run w).2.definitions := by
  have hleads := op.leads hl hop
  generalize (op.run.run w).2.definitions = after at hleads ⊢
  cases hleads with
  | base => exact hl.concat nofun nofun
  | extend w' hsteps hdp hmerged =>
    refine (hl.steps hsteps).concat ?_ ?_
    · rintro q ⟨⟩
      exact (List.getElem?_eq_some_iff.1 hdp).1
    · rintro q ⟨⟩
      exact ⟨_, hdp, rfl, rfl⟩
  | edit w' hd =>
    refine hl.set hd rfl (Nat.lt_succ_self _) fun p dp hp hdp => ?_
    have hle := hl.version_le hd hp hdp
    have hmerged := hl.merged hd hp hdp
    exact ⟨hle, hmerged⟩
  | resolve hsteps => exact hl.steps hsteps

end

section

variable {P : World → Op → Prop} {w : World} {ops ops' : List Op}

theorem World.along_append : w.Along P (ops ++ ops') ↔ w.Along P ops ∧ (w.after ops).Along P ops' := by
  induction ops generalizing w with
  | nil => simp [World.Along, World.after]
  | cons op ops ih =>
    have hafter : w.after (op :: ops) = ((op.run.run w).2).after ops := rfl
    simp [World.Along, ih, hafter, and_assoc]

/-- The definitions of a running application are linked. -/
theorem linked_after (hl : Linked w.definitions) (hops : w.Along Op.OnExisting ops) :
    Linked (w.after ops).definitions := by
  induction ops generalizing w with
  | nil => exact hl
  | cons op ops ih => exact ih (hl.op hops.1) hops.2

end

end ViewTree
