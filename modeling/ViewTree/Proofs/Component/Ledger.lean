import ViewTree.Proofs.Component.Caching
/-!
# What operations register

Definitions are made, extended, given further entries and resolved. The ledger keeps what each
definition has been given itself, and from it what each shows with its ancestors (`Ledger.shown`).
Nothing in it is cached, so that resolving leaves it as it is.

Besides the ledger, a history keeps which values a definition may still hold although an ancestor
has bound them anew: all that it has shown since it was made or last extended. A run of operations
is steady (`Op.Kept`) if no inherited entry is bound anew in a table that is another than the one
the definition was made with, and if no definition registers entries of a kind while it may hold an
old value of an inherited entry of that kind.
-/

namespace ViewTree

/-- Entries of every kind. -/
abbrev Table := (k : AssetKind) → Lookup k.Value

/-- A definition as a component under its name, if it has one. -/
def selfEntry (name : Option String) (cid : Cid) : Table
  | .component, key => if name = some key then some cid else none
  | _, _ => none

/-! ## Operations -/

/-- A change to the options of one definition. -/
inductive Edit where
  | mixin (layer : ComponentOptions)
  | component (name : String) (target : Cid)
  | directive (name : String) (hooks : DirectiveHooks)
  | filter (name : String) (id : CallbackId)
  | modify (f : ComponentOptions → ComponentOptions)

namespace Edit

/-- Makes the change. -/
def run (cid : Cid) : Edit → Run Unit
  | mixin layer => Run.mixin cid layer
  | component name target => Run.registerComponent cid name target
  | directive name hooks => Run.registerDirective cid name hooks
  | filter name id => Run.registerFilter cid name id
  | modify f => Run.modifyOptions cid f

/-- The entries that the change puts into the options. -/
def table : Edit → Table
  | mixin layer => fun k => layer.flat? k
  | component name target =>
    ComponentOptions.find? { ComponentOptions.empty with components := [(name, target)] }
  | directive name hooks =>
    ComponentOptions.find? { ComponentOptions.empty with directives := [(name, hooks)] }
  | filter name id =>
    ComponentOptions.find? { ComponentOptions.empty with filters := [(name, id)] }
  | modify f => (f .empty).find?

/-- A modification puts the same entries into any options. -/
structure Puts (f : ComponentOptions → ComponentOptions) : Prop where
  sorted : ∀ o : ComponentOptions, o.Sorted → (f o).Sorted
  find? : ∀ o : ComponentOptions, o.Sorted → ∀ k,
    (f o).find? k = ((f .empty).find? k).onto (o.find? k)

/-- The change only puts entries into options. -/
def Proper : Edit → Prop
  | mixin layer => layer.AllSorted
  | modify f => Puts f
  | _ => True

end Edit

/-- An operation on the definitions. -/
inductive Op where
  | base
  | extend (parent : Cid) (options : ComponentOptions)
  | edit (cid : Cid) (e : Edit)
  | resolve (cid : Cid)

namespace Op

/-- Performs the operation. -/
def run : Op → Run Unit
  | base => discard Run.defineBase
  | extend parent options => discard (Run.extendDefinition parent options)
  | edit cid e => e.run cid
  | resolve cid => discard (Run.resolveOptions cid)

/-- The operation is no resolution. -/
def isChange : Op → Bool
  | resolve _ => false
  | _ => true

end Op

/-! ## The ledger -/

/-- What a definition has been given itself, and what it showed when it was made. -/
structure Account where
  parent : Option Cid
  own : Table
  made : Table

/-- The accounts of all definitions. -/
abbrev Ledger := List Account

namespace Ledger

/-- What a definition shows: what it has itself, over what its parent shows. -/
def shown (ℓ : Ledger) (cid : Cid) (k : AssetKind) : Lookup k.Value :=
  match ℓ[cid]? with
  | none => .empty
  | some a =>
    match a.parent with
    | none => a.own k
    | some p => if p < cid then (a.own k).onto (shown ℓ p k) else a.own k
termination_by cid

/-- A definition and its ancestors. -/
def chain (ℓ : Ledger) (cid : Cid) : List Cid :=
  match ℓ[cid]?.bind (·.parent) with
  | none => [cid]
  | some p => if p < cid then cid :: chain ℓ p else [cid]
termination_by cid

/-- The name that a definition shows. -/
def name (ℓ : Ledger) (cid : Cid) : Option String :=
  ℓ.shown cid .name ""

/-- The account of a definition that extends another. -/
def extension (ℓ : Ledger) (parent : Cid) (options : ComponentOptions) : Account :=
  let own : Table := fun k =>
    (selfEntry (options.name <|> ℓ.name parent) ℓ.length k).onto (options.flat? k)
  ⟨some parent, own, fun k => (own k).onto (ℓ.shown parent k)⟩

/-- Puts entries to a definition's own. -/
def register (ℓ : Ledger) (cid : Cid) (table : Table) : Ledger :=
  ℓ.modify cid fun a => { a with own := fun k => (table k).onto (a.own k) }

section

variable {ℓ ℓ' : Ledger} {cid : Cid} {a : Account} {k : AssetKind}

theorem shown_missing (h : ℓ[cid]? = none) : ℓ.shown cid k = .empty := by
  rw [shown, h]

theorem shown_root (h : ℓ[cid]? = some a) (hparent : a.parent = none) :
    ℓ.shown cid k = a.own k := by
  rw [shown, h]
  simp only [hparent]

theorem shown_child {p : Cid} (h : ℓ[cid]? = some a) (hparent : a.parent = some p)
    (hlt : p < cid) : ℓ.shown cid k = (a.own k).onto (ℓ.shown p k) := by
  rw [shown, h]
  simp only [hparent, hlt, if_true]

theorem own_within_shown (h : ℓ[cid]? = some a) : (a.own k).Within (ℓ.shown cid k) := by
  rw [shown, h]
  simp only
  split
  · exact fun _ _ hv => hv
  · split
    · exact Lookup.within_onto _ _
    · exact fun _ _ hv => hv

theorem chain_root (h : ℓ[cid]? = some a) (hparent : a.parent = none) : ℓ.chain cid = [cid] := by
  rw [chain, h]
  simp only [Option.bind_some, hparent]

theorem chain_child {p : Cid} (h : ℓ[cid]? = some a) (hparent : a.parent = some p)
    (hlt : p < cid) : ℓ.chain cid = cid :: ℓ.chain p := by
  rw [chain, h]
  simp only [Option.bind_some, hparent, hlt, if_true]

theorem le_of_mem_chain {c : Cid} (h : c ∈ ℓ.chain cid) : c ≤ cid := by
  induction cid using Nat.strongRecOn with
  | ind cid ih =>
    rw [chain] at h
    split at h
    · exact Nat.le_of_eq (List.mem_singleton.1 h)
    · split at h
      · rename_i hlt
        rcases List.mem_cons.1 h with rfl | h
        · exact Nat.le_refl c
        · exact Nat.le_trans (ih _ hlt h) (Nat.le_of_lt hlt)
      · exact Nat.le_of_eq (List.mem_singleton.1 h)

/-- What a definition shows depends on no later one. -/
theorem shown_congr (h : ∀ c ≤ cid, ℓ[c]? = ℓ'[c]?) : ℓ.shown cid k = ℓ'.shown cid k := by
  induction cid using Nat.strongRecOn with
  | ind cid ih =>
    rw [shown, shown, ← h cid (Nat.le_refl cid)]
    split
    · rfl
    · split
      · rfl
      · split
        · rename_i hlt
          rw [ih _ hlt fun c hc => h c (Nat.le_trans hc (Nat.le_of_lt hlt))]
        · rfl

theorem shown_append {b : Account} (hlt : cid < ℓ.length) :
    (ℓ ++ [b]).shown cid k = ℓ.shown cid k := by
  apply shown_congr
  intro c hc
  exact List.getElem?_append_left (Nat.lt_of_le_of_lt hc hlt)

theorem name_append {b : Account} (hlt : cid < ℓ.length) : (ℓ ++ [b]).name cid = ℓ.name cid :=
  congrFun (shown_append hlt) ""

/-- A new definition shows what it is made with. -/
theorem shown_extension {p : Cid} (options : ComponentOptions) (hlt : p < ℓ.length) :
    (ℓ ++ [ℓ.extension p options]).shown ℓ.length k = (ℓ.extension p options).made k := by
  rw [shown_child List.getElem?_concat_length rfl hlt, shown_append hlt]
  rfl

theorem name_extension {p : Cid} {options : ComponentOptions} (hlt : p < ℓ.length)
    (hname : options.flat? .name "" = options.name) :
    (ℓ ++ [ℓ.extension p options]).name ℓ.length = (options.name <|> ℓ.name p) := by
  rw [name, shown_extension options hlt]
  show (options.flat? .name "").or (ℓ.name p) = _
  rw [hname]
  cases options.name with
  | none => rfl
  | some name => rfl

/-! ### Registering -/

variable {c : Cid} {table : Table}

theorem getElem?_register_self (h : ℓ[cid]? = some a) :
    (ℓ.register cid table)[cid]? = some { a with own := fun k => (table k).onto (a.own k) } := by
  simp [register, h]

theorem getElem?_register_of_ne (hne : c ≠ cid) : (ℓ.register cid table)[c]? = ℓ[c]? := by
  simp [register, hne.symm]

theorem length_register : (ℓ.register cid table).length = ℓ.length := by
  simp [register]

theorem shown_register_of_lt (hlt : c < cid) :
    (ℓ.register cid table).shown c k = ℓ.shown c k := by
  apply shown_congr
  intro c' hc'
  exact getElem?_register_of_ne (Nat.ne_of_lt (Nat.lt_of_le_of_lt hc' hlt))

theorem shown_register_self (h : ℓ[cid]? = some a) :
    (ℓ.register cid table).shown cid k = (table k).onto (ℓ.shown cid k) := by
  rw [shown, getElem?_register_self h, shown, h]
  simp only
  split
  · rfl
  · split
    · rename_i hlt
      rw [shown_register_of_lt hlt, Lookup.onto_assoc]
    · rfl

/-- A definition that has entries over those of its parent shows what both make of a change. -/
theorem shown_register_of_ne (hne : c ≠ cid) (h : ℓ[c]? = some a) :
    (ℓ.register cid table).shown c k =
      match a.parent with
      | none => a.own k
      | some p => if p < c then (a.own k).onto ((ℓ.register cid table).shown p k) else a.own k := by
  rw [shown, getElem?_register_of_ne hne, h]

/-- Registering takes no keys away. -/
theorem keysIn_register : (ℓ.shown c k).KeysIn ((ℓ.register cid table).shown c k) := by
  induction c using Nat.strongRecOn with
  | ind c ih =>
    cases h : ℓ[c]? with
    | none =>
      rw [shown_missing h]
      exact fun _ _ => rfl
    | some a =>
      by_cases heq : c = cid
      · subst heq
        rw [shown_register_self h]
        exact Lookup.keysIn_onto _ _
      · rw [shown_register_of_ne heq h, shown, h]
        simp only
        split
        · exact fun _ hnone => hnone
        · split
          · rename_i hlt
            exact Lookup.KeysIn.onto (fun _ hnone => hnone) (ih _ hlt)
          · exact fun _ hnone => hnone

/-- Registering nothing of a kind changes nothing of it. -/
theorem shown_register_of_empty (hempty : table k = .empty) :
    (ℓ.register cid table).shown c k = ℓ.shown c k := by
  induction c using Nat.strongRecOn with
  | ind c ih =>
    cases h : ℓ[c]? with
    | none => rw [shown_missing h, shown_missing (by simp [register, List.getElem?_modify, h])]
    | some a =>
      by_cases heq : c = cid
      · subst heq
        rw [shown_register_self h, hempty, Lookup.empty_onto]
      · rw [shown_register_of_ne heq h, shown, h]
        simp only
        split
        · rfl
        · split
          · rename_i hlt
            rw [ih _ hlt]
          · rfl

theorem name_register (hnameless : table .name = .empty) (c : Cid) :
    (ℓ.register cid table).name c = ℓ.name c :=
  congrFun (shown_register_of_empty hnameless) ""

end

end Ledger

/-- The ledger, and the values that a definition may hold under a kind and key: what it shows, or
has shown since its options were last merged for sure. -/
structure History where
  ledger : Ledger
  known : Cid → (k : AssetKind) → String → k.Value → Prop

namespace History

/-- Before any operation. -/
def start : History where
  ledger := []
  known := fun _ _ _ _ => False

/-- What an operation adds. Extending a definition resolves it and its ancestors. -/
def step (h : History) : Op → History
  | .base =>
    let ledger := h.ledger ++ [⟨none, fun _ => .empty, fun _ => .empty⟩]
    ⟨ledger, fun c k key v => ledger.shown c k key = some v ∨ h.known c k key v⟩
  | .extend parent options =>
    let ledger := h.ledger ++ [h.ledger.extension parent options]
    ⟨ledger, fun c k key v =>
      ledger.shown c k key = some v ∨ c ∉ h.ledger.chain parent ∧ h.known c k key v⟩
  | .edit cid e =>
    let ledger := h.ledger.register cid e.table
    ⟨ledger, fun c k key v =>
      ledger.shown c k key = some v ∨ (c = cid → e.table k key = none) ∧ h.known c k key v⟩
  | .resolve _ => h

/-- What operations add one after the other. -/
def run (h : History) (ops : List Op) : History :=
  ops.foldl step h

/-- A condition holds of every operation of a run. -/
def Along (P : History → Op → Prop) : History → List Op → Prop
  | _, [] => True
  | h, op :: ops => P h op ∧ Along P (h.step op) ops

end History

/-! ## What operations may do -/

/-- A change only puts entries into options. It gives no name and takes no definition's name from
it. If it gives a definition that extends another anything new, then what the definition has itself
is no longer just what it was made with. -/
structure Edit.Valid (ℓ : Ledger) (cid : Cid) (e : Edit) : Prop where
  proper : e.Proper
  nameless : e.table .name = .empty
  respects : ∀ key v u, selfEntry (ℓ.name cid) cid .component key = some v →
    e.table .component key = some u → u = v
  differs : ∀ a p k, ℓ[cid]? = some a → a.parent = some p → ¬ (e.table k).Within (a.own k) →
    ((e.table k).onto (a.own k)).Differs (a.made k)

/-- An operation is on a definition that exists, options come as they do from a program, and a
definition's name is given by its own options, not by a layer below them. -/
def Op.Valid (ℓ : Ledger) : Op → Prop
  | base => True
  | extend parent options =>
    parent < ℓ.length ∧ options.AllSorted ∧ options.flat? .name "" = options.name
  | edit cid e => cid < ℓ.length ∧ e.Valid ℓ cid
  | resolve _ => True

/-- A change binds nothing anew that a definition inherits in a table of the kind that is another
than it was made with, and finds no old value of an inherited entry where it registers. -/
structure Edit.Kept (h : History) (cid : Cid) (e : Edit) (k : AssetKind) : Prop where
  inherited : ∀ c a p, c ≠ cid → h.ledger[c]? = some a → a.parent = some p →
    (h.ledger.shown c k).Differs (a.made k) → ∀ key v, a.own k key = none →
      h.ledger.shown c k key = some v → (h.ledger.register cid e.table).shown c k key = some v
  held : ∀ a p, h.ledger[cid]? = some a → a.parent = some p → ¬ (e.table k).Within (a.own k) →
    ∀ key v, e.table k key = none → a.own k key = none → h.known cid k key v →
      h.ledger.shown cid k key = some v

/-- The operation, if it is a change, keeps what is inherited. -/
def Op.Kept (h : History) (k : AssetKind) : Op → Prop
  | edit cid e => e.Kept h cid k
  | _ => True

/-- Every operation of the run is valid. -/
def Valid (ops : List Op) : Prop :=
  History.start.Along (fun h op => op.Valid h.ledger) ops

/-- Every operation of the run keeps what is inherited. -/
def Steady (ops : List Op) : Prop :=
  History.start.Along (fun h op => ∀ k, op.Kept h k) ops

/-! ## Runs -/

namespace History

theorem run_filter (h : History) (ops : List Op) : h.run (ops.filter Op.isChange) = h.run ops := by
  induction ops generalizing h with
  | nil => rfl
  | cons op ops ih =>
    cases op with
    | resolve cid => exact ih h
    | base => exact ih (h.step .base)
    | extend parent options => exact ih (h.step (.extend parent options))
    | edit cid e => exact ih (h.step (.edit cid e))

theorem run_append (h : History) (ops ops' : List Op) : h.run (ops ++ ops') = (h.run ops).run ops' :=
  List.foldl_append

variable {P : History → Op → Prop}

theorem along_append {h : History} {ops ops' : List Op} :
    h.Along P (ops ++ ops') ↔ h.Along P ops ∧ (h.run ops).Along P ops' := by
  induction ops generalizing h with
  | nil => simp [Along, run]
  | cons op ops ih => simp [Along, run, ih, and_assoc]

/-- A condition holds along a run if every operation fulfils it behind those that do. -/
theorem along_of_forall {h : History} {ops : List Op}
    (hops : ∀ before op rest, ops = before ++ op :: rest → h.Along P before →
      P (h.run before) op) : h.Along P ops := by
  induction ops generalizing h with
  | nil => trivial
  | cons op ops ih =>
    have hop : P h op := hops [] op ops rfl trivial
    refine ⟨hop, ih fun before op' rest hsplit halong => ?_⟩
    exact hops (op :: before) op' rest (by rw [hsplit]; rfl) ⟨hop, halong⟩

/-- What holds of every resolution holds along a run if it does along the changes. -/
theorem along_filter (hresolve : ∀ h cid, P h (.resolve cid)) {h : History} {ops : List Op} :
    h.Along P (ops.filter Op.isChange) ↔ h.Along P ops := by
  induction ops generalizing h with
  | nil => exact Iff.rfl
  | cons op ops ih =>
    cases op with
    | resolve cid => exact ih.trans (and_iff_right (hresolve h cid)).symm
    | base => exact and_congr_right fun _ => ih
    | extend parent options => exact and_congr_right fun _ => ih
    | edit cid e => exact and_congr_right fun _ => ih

end History

end ViewTree
