import Mathlib.Logic.Function.Basic
import ViewTree.Proofs.Instance.Destroying
import ViewTree.Proofs.Instance.SettingUp
/-!
# What instances provide

An instance keeps its parent and its options, what was injected into it, and what it provides to its
descendants. `Supplied` says what is known of that for some instances. Code that is called does not
change it, nor does it let go of instances that are kept alive (`KeepsSupplies`). The living
ancestors of an instance can then be told from what is known, and with them the nearest one that
provides a key.
-/

namespace ViewTree

/-- What an instance gets from above and provides to those below. -/
structure Supply where
  parent : Option Uid
  options : ComponentOptions
  injections : Dict Value
  provided : Dict Value

/-- What an instance gets from above and provides to those below. -/
def Instance.supply (i : Instance) : Supply :=
  ⟨i.parent, i.options, i.injections, i.provided⟩

/-- What some instances get and provide. -/
abbrev Supplies := Uid → Option Supply

namespace World

/-- What an instance gets and provides, if it exists. -/
def supply? (w : World) (u : Uid) : Option Supply :=
  (w.instance? u).map Instance.supply

/-- An instance is kept alive by the application, or as a child of one that is. -/
inductive Kept (w : World) : Uid → Prop
  | named {u : Uid} : w.Names u → Kept w u
  | listed {p u : Uid} {i j : Instance} : Kept w p → w.instance? p = some i →
    w.instance? u = some j → j.parent = some p → p < u → u ∈ i.children → Kept w u

/-- It is known what some instances get and provide, and some are kept alive. -/
structure Supplied (K : Supplies) (H : Uid → Prop) (w : World) : Prop where
  known : ∀ u s, K u = some s → w.supply? u = some s
  kept : ∀ u, H u → w.Kept u

end World

/-- The code of an application leaves what instances get and provide alone, and lets go of none that
are kept alive. -/
def Application.KeepsSupplies (app : Application) : Prop :=
  ∀ K H, app.Preserves (World.Supplied K H)

/-! ## Instances that are kept alive -/

section

variable {w w' : World} {u : Uid}

theorem World.Kept.alive (h : w.Kept u) : w.alive u := by
  induction h with
  | named hname => exact hname.alive
  | @listed p u i j hp hi hj hparent hlt hmem ih =>
    have hlisted : ((w.instance? p).map (·.children.contains u)).getD false = true := by
      rw [hi]
      exact List.contains_iff_mem.2 hmem
    rw [World.alive, hj, Option.bind_some, hparent]
    dsimp only
    rw [if_pos hlt, hlisted, ih, Bool.true_and, Bool.or_true]

/-- Instances are kept alive as long as names are kept, and instances keep their parents and their
children. -/
theorem World.Kept.mono (h : w.Kept u) (hnames : ∀ v, w.Names v → w'.Names v)
    (hsame : ∀ v i, w.instance? v = some i →
      ∃ i', w'.instance? v = some i' ∧ i'.parent = i.parent ∧ i.children ⊆ i'.children) :
    w'.Kept u := by
  induction h with
  | named hname => exact .named (hnames _ hname)
  | listed hp hi hj hparent hlt hmem ih =>
    obtain ⟨i', hi', -, hsub⟩ := hsame _ _ hi
    obtain ⟨j', hj', hparent', -⟩ := hsame _ _ hj
    exact .listed ih hi' hj' (hparent'.trans hparent) hlt (hsub hmem)

/-- A change that leaves the parent and the children of an instance keeps all alive. -/
theorem World.Kept.update (h : w.Kept u) {v : Uid} {f : Instance → Instance}
    (hf : ∀ i, w.instance? v = some i → (f i).parent = i.parent ∧ i.children ⊆ (f i).children) :
    ((Run.update v f).run w).2.Kept u := by
  refine h.mono (fun _ hname => hname) fun v' i hi => ?_
  by_cases hv : v = v'
  · subst hv
    exact ⟨f i, by rw [instance?_update_self, hi, Option.map_some], hf i hi⟩
  · exact ⟨i, (instance?_update_of_ne hv f w).trans hi, rfl, List.Subset.refl _⟩

/-- An instance that exists stands where it is when another one is added. -/
theorem instance?_add {i j : Instance} (hi : w.instance? u = some i) :
    (w.add j).instance? u = some i := by
  have hlt : u < w.instances.length := (List.getElem?_eq_some_iff.1 hi).1
  rw [World.instance?, World.add, List.getElem?_append_left hlt]
  exact hi

theorem instance?_add_self (w : World) (i : Instance) :
    (w.add i).instance? w.instances.length = some i :=
  List.getElem?_concat_length

end

/-! ## What is known -/

section

variable {K : Supplies} {H : Uid → Prop} {w w' : World} {u : Uid} {s : Supply}

theorem World.Supplied.mono (h : w.Supplied K H) {K' : Supplies} {H' : Uid → Prop}
    (hK : ∀ v t, K' v = some t → K v = some t) (hH : ∀ v, H' v → H v) : w.Supplied K' H' :=
  ⟨fun v t ht => h.known v t (hK v t ht), fun v hv => h.kept v (hH v hv)⟩

theorem supplied_onInstances : World.OnInstances (World.Supplied K H) := by
  intro w w' hinstances hnames h
  have hsame (v : Uid) : w'.instance? v = w.instance? v := by
    rw [World.instance?, World.instance?, hinstances]
  refine ⟨fun v t ht => ?_, fun v hv => ?_⟩
  · rw [World.supply?, hsame]
    exact h.known v t ht
  · refine (h.kept v hv).mono (fun v hname => ?_) fun v i hi => ?_
    · rw [World.Names, hnames]
      exact hname
    · exact ⟨i, (hsame v).trans hi, rfl, List.Subset.refl _⟩

theorem supply?_update_of_ne {v : Uid} (hne : u ≠ v) (f : Instance → Instance) (w : World) :
    ((Run.update u f).run w).2.supply? v = w.supply? v := by
  rw [World.supply?, instance?_update_of_ne hne]
  rfl

/-- The instance is changed, and what is known of it then. -/
theorem World.Supplied.update (h : w.Supplied K H) (hu : K u = some s) (s' : Supply)
    {f : Instance → Instance} (hf : ∀ i, i.supply = s →
      (f i).supply = s' ∧ (f i).parent = i.parent ∧ i.children ⊆ (f i).children) :
    ((Run.update u f).run w).2.Supplied (Function.update K u (some s')) H := by
  obtain ⟨i, hi, hsupply⟩ := Option.map_eq_some_iff.1 (h.known u s hu)
  refine ⟨fun v t ht => ?_, fun v hv => (h.kept v hv).update fun j hj => ?_⟩
  · by_cases hv : u = v
    · subst hv
      rw [Function.update_self] at ht
      rw [World.supply?, instance?_update_self, hi, Option.map_some, Option.map_some,
        (hf i hsupply).1, ht]
    · rw [Function.update_of_ne (Ne.symm hv)] at ht
      rw [supply?_update_of_ne hv]
      exact h.known v t ht
  · rw [hi] at hj
    cases hj
    exact (hf i hsupply).2

/-- The instance is changed otherwise, and goes on to have its children. -/
def Instance.SuppliesAs (i i' : Instance) : Prop :=
  i'.supply = i.supply ∧ i'.children = i.children

/-- What is known stays as it is when an instance is changed otherwise. -/
theorem supplied_permits (u : Uid) :
    World.Permits (World.Supplied K H) u Instance.SuppliesAs := by
  intro w f hf h
  refine ⟨fun v t ht => ?_, fun v hv => (h.kept v hv).update fun i hi => ?_⟩
  · by_cases hv : u = v
    · subst hv
      obtain ⟨i, hi, hsupply⟩ := Option.map_eq_some_iff.1 (h.known u t ht)
      rw [World.supply?, instance?_update_self, hi, Option.map_some, Option.map_some,
        (hf i hi).1, hsupply]
    · rw [supply?_update_of_ne hv]
      exact h.known v t ht
  · obtain ⟨hsupply, hchildren⟩ := hf i hi
    exact ⟨congrArg Supply.parent hsupply, hchildren ▸ List.Subset.refl _⟩

theorem fillsIn_suppliesAs : Instance.FillsIn Instance.SuppliesAs where
  events _ _ _ := ⟨rfl, rfl⟩
  el _ _ := ⟨rfl, rfl⟩
  tree _ _ _ := ⟨rfl, rfl⟩
  scopedSlots _ _ _ := ⟨rfl, rfl⟩
  props _ _ := ⟨rfl, rfl⟩
  methods _ _ := ⟨rfl, rfl⟩
  data _ _ := ⟨rfl, rfl⟩
  computed _ _ := ⟨rfl, rfl⟩
  watchers _ _ _ := ⟨rfl, rfl⟩

/-- What is known of an instance that exists. -/
theorem World.Supplied.lt_length (h : w.Supplied K H) (hu : K u = some s) :
    u < w.instances.length := by
  obtain ⟨i, hi, -⟩ := Option.map_eq_some_iff.1 (h.known u s hu)
  exact (List.getElem?_eq_some_iff.1 hi).1

theorem World.Supplied.add (h : w.Supplied K H) (i : Instance) :
    (w.add i).Supplied (Function.update K w.instances.length (some i.supply)) H := by
  refine ⟨fun v t ht => ?_, fun v hv => (h.kept v hv).mono (fun _ hname => hname) fun v j hj => ?_⟩
  · by_cases hv : v = w.instances.length
    · subst hv
      rw [Function.update_self] at ht
      rw [World.supply?, instance?_add_self, Option.map_some, ht]
    · rw [Function.update_of_ne hv] at ht
      obtain ⟨j, hj, hsupply⟩ := Option.map_eq_some_iff.1 (h.known v t ht)
      rw [World.supply?, instance?_add hj, Option.map_some, hsupply]
  · exact ⟨j, instance?_add hj, rfl, List.Subset.refl _⟩

end

/-! ## The nearest provider -/

namespace Supplies

/-- An instance and its ancestors as far as they are known, the nearest first. -/
def lineage (K : Supplies) (u : Uid) : List Uid :=
  match K u with
  | none => []
  | some s =>
    u :: match s.parent with
      | none => []
      | some p => if p < u then lineage K p else []
termination_by u

/-- The value under a key in the nearest object that has it, among those that a parent and its
ancestors provide. -/
def nearest (K : Supplies) (parent : Option Uid) (key : String) : Option Value :=
  (parent.elim [] K.lineage).findSome? fun a => (K a).bind (·.provided.get? key)

/-- Parents are older than their children, and known where these are. -/
def Closed (K : Supplies) : Prop :=
  ∀ u s p, K u = some s → s.parent = some p → p < u ∧ ∃ sp, K p = some sp

/-- It is known what the instance gets and provides. -/
def Known (K : Supplies) (u : Uid) : Prop :=
  ∃ s, K u = some s

/-- All that is known in the one is known in the other. -/
def Within (K K' : Supplies) : Prop :=
  ∀ u s, K u = some s → K' u = some s

end Supplies

section

variable {K : Supplies} {w : World} {u p : Uid} {s : Supply}

theorem findSome?_congr {α β : Type} {l : List α} {f g : α → Option β}
    (h : ∀ a ∈ l, f a = g a) : l.findSome? f = l.findSome? g := by
  rw [← List.head?_filterMap, ← List.head?_filterMap, List.filterMap_congr h]

theorem World.Supplied.parent?_eq {H : Uid → Prop} (h : w.Supplied K H) (hu : K u = some s) :
    w.parent? u = s.parent.filter w.alive := by
  obtain ⟨i, hi, rfl⟩ := Option.map_eq_some_iff.1 (h.known u s hu)
  rw [World.parent?, hi]
  rfl

theorem Supplies.known_of_mem_lineage {a : Uid} (ha : a ∈ K.lineage u) : K.Known a := by
  -- The induction is on the number, since parents are older than their children.
  induction u using Nat.strongRecOn with
  | ind u ih =>
    rw [lineage] at ha
    cases hu : K u with
    | none =>
      rw [hu] at ha
      cases ha
    | some s =>
      rw [hu] at ha
      rcases List.mem_cons.1 ha with rfl | ha
      · exact ⟨s, hu⟩
      · cases hp : s.parent with
        | none =>
          rw [hp] at ha
          cases ha
        | some p =>
          rw [hp] at ha
          dsimp only at ha
          split at ha
          · rename_i hlt
            exact ih p hlt ha
          · cases ha

theorem Supplies.Within.lineage_eq {K' : Supplies} (h : K.Within K') (hclosed : K.Closed)
    (hu : K.Known u) : K'.lineage u = K.lineage u := by
  -- The induction is on the number, since parents are older than their children.
  induction u using Nat.strongRecOn with
  | ind u ih =>
    obtain ⟨s, hs⟩ := hu
    rw [Supplies.lineage, Supplies.lineage, hs, h u s hs]
    dsimp only
    cases hp : s.parent with
    | none => rfl
    | some p =>
      obtain ⟨hlt, hknown⟩ := hclosed u s p hs hp
      dsimp only
      rw [if_pos hlt, if_pos hlt, ih p hlt hknown]

/-- What is found above a parent stays the same when more becomes known. -/
theorem Supplies.Within.nearest_eq {K' : Supplies} (h : K.Within K') (hclosed : K.Closed)
    {parent : Option Uid} (hparent : ∀ p, parent = some p → K.Known p) :
    K'.nearest parent = K.nearest parent := by
  funext key
  cases parent with
  | none => rfl
  | some p =>
    have hlineage : K'.lineage p = K.lineage p := h.lineage_eq hclosed (hparent p rfl)
    have hsame : ∀ a ∈ K.lineage p,
        (K' a).bind (·.provided.get? key) = (K a).bind (·.provided.get? key) := by
      intro a ha
      obtain ⟨s, hs⟩ := Supplies.known_of_mem_lineage ha
      rw [hs, h a s hs]
    rw [Supplies.nearest, Supplies.nearest, Option.elim_some, Option.elim_some, hlineage,
      findSome?_congr hsame]

/-- The living ancestors of an instance are those that are known, if they are kept alive. -/
theorem World.Supplied.lineage_eq (h : w.Supplied K K.Known) (hclosed : K.Closed)
    (hu : K u = some s) : K.lineage u = u :: w.ancestors u := by
  -- The induction is on the number, since parents are older than their children.
  induction u using Nat.strongRecOn generalizing s with
  | ind u ih =>
    rw [Supplies.lineage, hu, World.ancestors, h.parent?_eq hu]
    dsimp only
    cases hp : s.parent with
    | none => rfl
    | some p =>
      obtain ⟨hlt, sp, hsp⟩ := hclosed u s p hu hp
      rw [Option.filter_some, if_pos (h.kept p ⟨sp, hsp⟩).alive]
      dsimp only
      rw [if_pos hlt, if_pos hlt, ih p hlt hsp]

/-- A key is looked up where the nearest instance above provides it. -/
theorem World.Supplied.provided?_eq (h : w.Supplied K K.Known) (hclosed : K.Closed)
    {parent : Option Uid} (hu : (w.supply? u).map (·.parent) = some parent)
    (hparent : ∀ p, parent = some p → p < u ∧ K.Known p) (key : String) :
    w.provided? key (w.ancestors u) = K.nearest parent key := by
  obtain ⟨s, hs, hsparent⟩ := Option.map_eq_some_iff.1 hu
  obtain ⟨i, hi, rfl⟩ := Option.map_eq_some_iff.1 hs
  have hancestors : w.ancestors u = parent.elim [] K.lineage := by
    have hparent? : w.parent? u = parent.filter w.alive := by
      rw [World.parent?, hi, ← hsparent]
      rfl
    rw [World.ancestors, hparent?]
    cases parent with
    | none => rfl
    | some p =>
      obtain ⟨hlt, sp, hsp⟩ := hparent p rfl
      rw [Option.filter_some, if_pos (h.kept p ⟨sp, hsp⟩).alive]
      dsimp only
      rw [if_pos hlt, Option.elim_some, h.lineage_eq hclosed hsp]
  have hsame : ∀ a ∈ parent.elim [] K.lineage, (w.instance? a).bind (·.provided.get? key) =
      (K a).bind (·.provided.get? key) := by
    intro a ha
    obtain ⟨sa, hsa⟩ : K.Known a := by
      cases parent with
      | none => cases ha
      | some p => exact Supplies.known_of_mem_lineage ha
    obtain ⟨j, hj, rfl⟩ := Option.map_eq_some_iff.1 (h.known a sa hsa)
    rw [hj, hsa]
    rfl
  rw [hancestors, World.provided?, Supplies.nearest, findSome?_congr hsame]

end

end ViewTree
