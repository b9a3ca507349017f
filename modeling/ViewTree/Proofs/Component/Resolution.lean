import ViewTree.Proofs.Component.Ledger
/-!
# What operations do to the definitions

Every operation on definitions is described by the definitions it leaves behind. Warnings and the
numbers of data sources play no part in that. A definition that is resolved first has its parent
resolved, and is merged again only if the parent has moved on (`resolve_child`).
-/

namespace ViewTree

/-! ## Reports -/

/-- The definitions stay as they are. -/
def KeepsDefinitions {α : Type} (act : Run α) : Prop :=
  ∀ w, (act.run w).2.definitions = w.definitions

theorem keepsDefinitions_pure {α : Type} (a : α) : KeepsDefinitions (pure a) :=
  fun _ => rfl

theorem KeepsDefinitions.bind {α β : Type} {act : Run α} {rest : α → Run β}
    (hact : KeepsDefinitions act) (hrest : ∀ a, KeepsDefinitions (rest a)) :
    KeepsDefinitions (act >>= rest) := by
  intro w
  exact (hrest _ _).trans (hact w)

theorem keepsDefinitions_warn (message : String) (vm : Option Uid) :
    KeepsDefinitions (Run.warn message vm) := by
  intro w
  unfold Run.warn
  simp only [StateT.run_bind, StateT.run_get, pure_bind]
  split
  · split
    · rfl
    · rfl
  · rfl

theorem keepsDefinitions_warnAll (messages : List String) :
    KeepsDefinitions (Run.warnAll messages) := by
  induction messages with
  | nil => exact keepsDefinitions_pure ()
  | cons message messages ih => exact (keepsDefinitions_warn message none).bind fun _ => ih

theorem keepsDefinitions_validateComponentName (name : String) :
    KeepsDefinitions (Run.validateComponentName name) := by
  unfold Run.validateComponentName
  split
  · exact (keepsDefinitions_warn _ none).bind fun _ => keepsDefinitions_pure false
  · exact keepsDefinitions_pure true

/-! ## Putting entries -/

theorem get?_insert_eq_or {α : Type} (d : Dict α) (name : String) (v : α) (key : String) :
    (d.insert name v).get? key = (Dict.get? [(name, v)] key).or (d.get? key) := by
  rw [Dict.get?_insert]
  by_cases heq : name = key
  · simp [Dict.get?, heq]
  · simp [Dict.get?, heq]

/-- Registering one component, directive or filter is putting it into the options. -/
theorem puts_component (name : String) (target : Cid) :
    Edit.Puts fun o => { o with components := o.components.insert name target } := by
  constructor
  · intro o ho k
    cases k with
    | component => exact (ho .component).insert name target
    | _ => exact ho _
  · intro o _ k
    cases k with
    | component =>
      funext key
      exact get?_insert_eq_or o.components name target key
    | _ => rfl

theorem puts_directive (name : String) (hooks : DirectiveHooks) :
    Edit.Puts fun o => { o with directives := o.directives.insert name hooks } := by
  constructor
  · intro o ho k
    cases k with
    | directive => exact (ho .directive).insert name hooks
    | _ => exact ho _
  · intro o _ k
    cases k with
    | directive =>
      funext key
      exact get?_insert_eq_or o.directives name hooks key
    | _ => rfl

theorem puts_filter (name : String) (id : CallbackId) :
    Edit.Puts fun o => { o with filters := o.filters.insert name id } := by
  constructor
  · intro o ho k
    cases k with
    | filter => exact (ho .filter).insert name id
    | _ => exact ho _
  · intro o _ k
    cases k with
    | filter =>
      funext key
      exact get?_insert_eq_or o.filters name id key
    | _ => rfl

/-! ## Merging -/

theorem mergeOptions_definitions (parent child : ComponentOptions) (forInstance : Bool)
    (w : World) :
    ((Run.mergeOptions parent child forInstance).run w).2.definitions = w.definitions :=
  keepsDefinitions_warnAll _ _

/-- Merging leaves the definitions as they are and lays the child over its parent. -/
theorem mergeOptions_spec {parent child : ComponentOptions} (hparent : parent.Sorted)
    (hchild : child.AllSorted) (forInstance : Bool) (w : World) :
    ((Run.mergeOptions parent child forInstance).run w).2.definitions = w.definitions ∧
      ((Run.mergeOptions parent child forInstance).run w).1.Sorted ∧
      ∀ k, ((Run.mergeOptions parent child forInstance).run w).1.find? k =
        (child.flat? k).onto (parent.find? k) := by
  refine ⟨mergeOptions_definitions parent child forInstance w, ?_⟩
  exact mergeLayers_laysOver forInstance child hchild parent hparent ⟨w.nextSource, []⟩

theorem find?_name (o : ComponentOptions) : o.find? .name "" = o.name := by
  show (Dict.single o.name).get? "" = o.name
  cases o.name with
  | none => rfl
  | some name => rfl

/-- The options with a component that stands for the definition itself. -/
def ComponentOptions.withSelf (o : ComponentOptions) (name : Option String) (cid : Cid) :
    ComponentOptions :=
  match name with
  | some name => { o with components := o.components.insert name cid }
  | none => o

theorem find?_withSelf (o : ComponentOptions) (ho : o.Sorted) (name : Option String) (cid : Cid)
    (k : AssetKind) :
    (o.withSelf name cid).find? k = (selfEntry name cid k).onto (o.find? k) := by
  cases name with
  | none => cases k <;> rfl
  | some name =>
    refine ((puts_component name cid).find? o ho k).trans ?_
    cases k with
    | component =>
      funext key
      simp [Lookup.onto, selfEntry, ComponentOptions.find?, ComponentOptions.entries,
        ComponentOptions.empty, Dict.insert, Dict.get?]
    | _ => rfl

theorem sorted_withSelf {o : ComponentOptions} (h : o.Sorted) (name : Option String) (cid : Cid) :
    (o.withSelf name cid).Sorted := by
  cases name with
  | none => exact h
  | some name => exact (puts_component name cid).sorted o h

/-! ## Resolving -/

section

variable {w : World} {cid : Cid} {d : Definition}

theorem resolve_root (h : w.definitions[cid]? = some d) (hparent : d.parent = none) :
    (Run.resolveOptions cid).run w = (d.options, w) := by
  unfold Run.resolveOptions
  simp only [StateT.run_bind, Run.defn, StateT.run_get, StateT.run_pure, pure_bind,
    World.definition?, h, hparent, Option.getD_some]
  rfl

/-- Resolving what does not exist does nothing. -/
theorem resolve_missing (h : w.definitions[cid]? = none) :
    ((Run.resolveOptions cid).run w).2 = w := by
  unfold Run.resolveOptions
  simp only [StateT.run_bind, Run.defn, StateT.run_get, StateT.run_pure, pure_bind,
    World.definition?, h, Option.getD_none]
  rfl

/-- Merges the options of a definition again, over those of a parent that has moved on. -/
def Run.remerge (cid : Cid) (d : Definition) (superOptions : ComponentOptions)
    (parentVersion : Nat) : Run ComponentOptions := do
  let extended := carryEdits d.options d.sealedOptions d.extendOptions
  updateDefn cid fun d =>
    { d with superVersion := parentVersion, superOptions := some superOptions
             extendOptions := extended }
  let merged ← mergeOptions superOptions extended false
  replaceOptions cid (merged.withSelf merged.name cid)
  pure (merged.withSelf merged.name cid)

theorem resolve_child {p : Cid} (h : w.definitions[cid]? = some d) (hparent : d.parent = some p)
    (hlt : p < cid) :
    (Run.resolveOptions cid).run w =
      let r := (Run.resolveOptions p).run w
      if ((r.2.definitions[p]?).getD default).version = d.superVersion then (d.options, r.2)
      else (Run.remerge cid d r.1 ((r.2.definitions[p]?).getD default).version).run r.2 := by
  rw [Run.resolveOptions]
  simp only [StateT.run_bind, Run.defn, StateT.run_get, StateT.run_pure, pure_bind,
    World.definition?, h, hparent, hlt, Option.getD_some, if_true, beq_iff_eq]
  show StateT.run (if _ then _ else _) _ = _
  split
  · rfl
  · rfl

/-- A definition that is merged again has the result of the merge with itself in it, of the next
version. -/
theorem remerge_run (h : w.definitions[cid]? = some d) (superOptions : ComponentOptions)
    (parentVersion : Nat) :
    let extended := carryEdits d.options d.sealedOptions d.extendOptions
    let r := (Run.remerge cid d superOptions parentVersion).run w
    ∃ w' : World, ∃ merged : ComponentOptions,
      merged = ((Run.mergeOptions superOptions extended false).run w').1 ∧
      r.1 = merged.withSelf merged.name cid ∧
      r.2.definitions = w.definitions.set cid
        { d with
          version := d.version + 1, options := r.1, superVersion := parentVersion
          superOptions := some superOptions, extendOptions := extended } := by
  intro extended r
  let w' : World := { w with definitions := w.definitions.modify cid fun d =>
    { d with superVersion := parentVersion, superOptions := some superOptions
             extendOptions := extended } }
  let m := (Run.mergeOptions superOptions extended false).run w'
  refine ⟨w', m.1, rfl, rfl, ?_⟩
  show m.2.definitions.modify cid (Definition.withOptions · r.1) = _
  rw [mergeOptions_definitions]
  show (w.definitions.modify cid _).modify cid _ = _
  rw [List.modify_modify_eq, List.modify_eq_set, h]
  rfl

/-- A definition that is merged again has what is carried over its parent's options, and stands
under its name. -/
theorem remerge_spec {superOptions : ComponentOptions} (h : w.definitions[cid]? = some d)
    (hlatest : d.options.Sorted) (hextend : d.extendOptions.AllSorted)
    (hsuper : superOptions.Sorted) (parentVersion : Nat) :
    let extended := carryEdits d.options d.sealedOptions d.extendOptions
    let merged : Table := fun k => (extended.flat? k).onto (superOptions.find? k)
    let r := (Run.remerge cid d superOptions parentVersion).run w
    r.1.Sorted ∧ (∀ k, r.1.find? k = (selfEntry (merged .name "") cid k).onto (merged k)) ∧
      r.2.definitions = w.definitions.set cid
        { d with
          version := d.version + 1, options := r.1, superVersion := parentVersion
          superOptions := some superOptions, extendOptions := extended } := by
  intro extended merged r
  obtain ⟨w', m, hm, hresult, hset⟩ := remerge_run h superOptions parentVersion
  obtain ⟨hsorted, hfind⟩ : m.Sorted ∧ ∀ k, m.find? k = merged k :=
    hm ▸ (mergeOptions_spec hsuper (allSorted_carryEdits hlatest hextend d.sealedOptions) false w').2
  have hname : m.name = merged .name "" := (find?_name m).symm.trans (congrFun (hfind .name) "")
  refine ⟨hresult ▸ sorted_withSelf hsorted _ cid, fun k => ?_, hset⟩
  rw [hresult, find?_withSelf _ hsorted, hname, hfind]

/-! ## Making and changing -/

theorem defineBase_spec :
    (Run.defineBase.run w).2.definitions =
      w.definitions ++ [⟨none, 0, .empty, 0, none, .empty, .empty⟩] :=
  rfl

/-- Makes a definition that extends one with resolved options, under a name. -/
def Run.extendResolved (p : Cid) (options superOptions : ComponentOptions)
    (name : Option String) : Run Cid := do
  let merged ← mergeOptions superOptions options false
  let version := (← defn p).version
  let cid := (← get).definitions.length
  define (some p) (merged.withSelf name cid) options version (some superOptions)

theorem extendDefinition_run (w : World) (p : Cid) (options : ComponentOptions) :
    let s := (Run.resolveOptions p).run w
    ∃ w' : World, w'.definitions = s.2.definitions ∧
      (Run.extendDefinition p options).run w =
        (Run.extendResolved p options s.1 (options.name <|> s.1.name)).run w' := by
  intro s
  unfold Run.extendDefinition
  cases hname : options.name <|> s.1.name with
  | none =>
    refine ⟨s.2, rfl, ?_⟩
    simp only [StateT.run_bind]
    show StateT.run (match options.name <|> s.1.name with | some name => _ | none => _) s.2 = _
    rw [hname]
    rfl
  | some name =>
    refine ⟨((Run.validateComponentName name).run s.2).2,
      keepsDefinitions_validateComponentName name s.2, ?_⟩
    simp only [StateT.run_bind]
    show StateT.run (match options.name <|> s.1.name with | some name => _ | none => _) s.2 = _
    rw [hname]
    rfl

/-- A definition that extends another is added behind the others, with the result of the merge and
itself in it. -/
theorem extendDefinition_made (w : World) (p : Cid) (options : ComponentOptions) :
    let s := (Run.resolveOptions p).run w
    ∃ w' : World, ∃ merged : ComponentOptions,
      merged = ((Run.mergeOptions s.1 options false).run w').1.withSelf
        (options.name <|> s.1.name) s.2.definitions.length ∧
      ((Run.extendDefinition p options).run w).2.definitions = s.2.definitions ++
        [⟨some p, 0, merged, (s.2.definitions[p]?.getD default).version, some s.1, options,
          merged⟩] := by
  intro s
  obtain ⟨w', hw, hrun⟩ := extendDefinition_run w p options
  let name := options.name <|> s.1.name
  let m := (Run.mergeOptions s.1 options false).run w'
  have hkept : m.2.definitions = s.2.definitions :=
    (mergeOptions_definitions s.1 options false w').trans hw
  refine ⟨w', _, rfl, ?_⟩
  have hmade : ((Run.extendResolved p options s.1 name).run w').2.definitions =
      m.2.definitions ++ [⟨some p, 0, m.1.withSelf name m.2.definitions.length,
        (m.2.definitions[p]?.getD default).version, some s.1, options,
        m.1.withSelf name m.2.definitions.length⟩] := rfl
  rw [hrun, hmade, hkept]

/-- A definition that extends another has its options over those of the parent as they are
resolved, and stands under its name. -/
theorem extendDefinition_spec {p : Cid} {options : ComponentOptions}
    (hoptions : options.AllSorted) :
    let s := (Run.resolveOptions p).run w
    s.1.Sorted →
    ∃ merged : ComponentOptions, merged.Sorted ∧
      (∀ k, merged.find? k =
        (selfEntry (options.name <|> s.1.name) s.2.definitions.length k).onto
          ((options.flat? k).onto (s.1.find? k))) ∧
      ((Run.extendDefinition p options).run w).2.definitions = s.2.definitions ++
        [⟨some p, 0, merged, (s.2.definitions[p]?.getD default).version, some s.1, options,
          merged⟩] := by
  intro s hs
  obtain ⟨w', merged, hmerged, hset⟩ := extendDefinition_made w p options
  obtain ⟨-, hsorted, hfind⟩ := mergeOptions_spec hs hoptions false w'
  refine ⟨merged, hmerged ▸ sorted_withSelf hsorted _ _, fun k => ?_, hset⟩
  rw [hmerged, find?_withSelf _ hsorted, hfind]

theorem modifyOptions_spec (h : w.definitions[cid]? = some d)
    (f : ComponentOptions → ComponentOptions) :
    ((Run.modifyOptions cid f).run w).2.definitions =
      w.definitions.set cid (d.withOptions (f d.options)) := by
  unfold Run.modifyOptions
  simp only [StateT.run_bind, Run.defn, StateT.run_get, StateT.run_pure, pure_bind,
    World.definition?, h, Option.getD_some]
  show w.definitions.modify cid _ = _
  rw [List.modify_eq_set, h]
  rfl

theorem mixin_spec (h : w.definitions[cid]? = some d) (layer : ComponentOptions) :
    ((Run.mixin cid layer).run w).2.definitions = w.definitions.set cid
      (d.withOptions ((Run.mergeOptions d.options layer false).run w).1) := by
  let m := (Run.mergeOptions d.options layer false).run w
  have hrun : (Run.mixin cid layer).run w = (Run.replaceOptions cid m.1).run m.2 := by
    unfold Run.mixin
    simp only [StateT.run_bind, Run.defn, StateT.run_get, StateT.run_pure, pure_bind,
      World.definition?, h, Option.getD_some]
    rfl
  rw [hrun]
  show m.2.definitions.modify cid _ = _
  rw [mergeOptions_definitions, List.modify_eq_set, h]
  rfl

/-- The options that a change makes of some. Merging a layer takes numbers for data sources from the
running application. -/
def Edit.apply (o : ComponentOptions) (w : World) : Edit → ComponentOptions
  | .mixin layer => ((Run.mergeOptions o layer false).run w).1
  | .component name target => { o with components := o.components.insert name target }
  | .directive name hooks => { o with directives := o.directives.insert name hooks }
  | .filter name id => { o with filters := o.filters.insert name id }
  | .modify f => f o

/-- A change replaces the options of its definition and moves it on. -/
theorem edit_run (e : Edit) (h : w.definitions[cid]? = some d) :
    ∃ w' : World, ((e.run cid).run w).2.definitions =
      w.definitions.set cid (d.withOptions (e.apply d.options w')) := by
  cases e with
  | mixin layer => exact ⟨w, mixin_spec h layer⟩
  | component name target =>
    let w' := ((Run.validateComponentName name).run w).2
    have hw : w'.definitions = w.definitions := keepsDefinitions_validateComponentName name w
    refine ⟨w, ?_⟩
    rw [← hw] at h ⊢
    exact modifyOptions_spec (w := w') h fun o =>
      { o with components := o.components.insert name target }
  | directive name hooks =>
    exact ⟨w, modifyOptions_spec h fun o =>
      { o with directives := o.directives.insert name hooks }⟩
  | filter name id =>
    exact ⟨w, modifyOptions_spec h fun o => { o with filters := o.filters.insert name id }⟩
  | modify f => exact ⟨w, modifyOptions_spec h f⟩

/-- A change puts its entries over options and keeps them sorted. -/
theorem Edit.apply_spec {e : Edit} (hproper : e.Proper) {o : ComponentOptions} (ho : o.Sorted)
    (w : World) :
    (e.apply o w).Sorted ∧ ∀ k, (e.apply o w).find? k = (e.table k).onto (o.find? k) := by
  have hputs {f : ComponentOptions → ComponentOptions} (hf : Edit.Puts f) :
      (f o).Sorted ∧ ∀ k, (f o).find? k = ((f .empty).find? k).onto (o.find? k) :=
    ⟨hf.sorted o ho, hf.find? o ho⟩
  cases e with
  | mixin layer => exact (mergeOptions_spec ho hproper false w).2
  | component name target => exact hputs (puts_component name target)
  | directive name hooks => exact hputs (puts_directive name hooks)
  | filter name id => exact hputs (puts_filter name id)
  | modify f => exact hputs hproper

/-- A change puts its entries over the options of its definition, and moves it on. -/
theorem edit_spec {e : Edit} (hproper : e.Proper) (h : w.definitions[cid]? = some d)
    (hoptions : d.options.Sorted) :
    ∃ options : ComponentOptions, options.Sorted ∧
      (∀ k, options.find? k = (e.table k).onto (d.options.find? k)) ∧
      ((e.run cid).run w).2.definitions = w.definitions.set cid (d.withOptions options) := by
  obtain ⟨w', hset⟩ := edit_run e h
  obtain ⟨hsorted, hfind⟩ := Edit.apply_spec hproper hoptions w'
  exact ⟨_, hsorted, hfind, hset⟩

end

/-! ## Runs -/

namespace World

/-- The state after some operations. -/
def after (w : World) (ops : List Op) : World :=
  ops.foldl (fun w op => (op.run.run w).2) w

/-- The options of a definition as they are resolved. -/
def resolved (w : World) (cid : Cid) : ComponentOptions :=
  ((Run.resolveOptions cid).run w).1

theorem after_append (w : World) (ops ops' : List Op) :
    w.after (ops ++ ops') = (w.after ops).after ops' :=
  List.foldl_append

end World

end ViewTree
