import Mathlib.Logic.Function.Basic
import ViewTree.Proofs.Instance.Preserving
/-!
# How instances are linked

An instance knows its parent, its root and its children, and how far it is torn down. `LinkedAs`
says what is known of these links. Setting up an instance, and all that happens to it later until it
is torn down, leaves them as they are, if the code that is called does (`Calm`); making an instance
adds a link.
-/

namespace ViewTree

/-- How an instance is linked to others. -/
structure Link where
  parent : Option Uid
  root : Option Uid
  children : List Uid
  beingDestroyed : Bool
  destroyed : Bool
deriving DecidableEq

/-- The link of an instance without relatives. -/
def Link.detached : Link :=
  ⟨none, none, [], false, false⟩

/-- How an instance is linked. -/
def Instance.link (i : Instance) : Link :=
  ⟨i.parent, i.root, i.children, i.beingDestroyed, i.destroyed⟩

/-- The links of some instances. -/
abbrev Links := Uid → Option Link

namespace World

/-- The links of all instances. -/
def links (w : World) : Links :=
  fun u => (w.instance? u).map Instance.link

/-- The application keeps the instance under a name. -/
def Names (w : World) (u : Uid) : Prop :=
  u ∈ w.instanceNames.values

/-- Some instances are linked in a certain way, and there are no others but detached ones; some are
kept under names. -/
structure LinkedAs (L : Links) (H : Uid → Prop) (w : World) : Prop where
  linked : ∀ u l, L u = some l → w.links u = some l
  detached : ∀ u l, L u = none → w.links u = some l → l = .detached
  kept : ∀ u, H u → w.Names u

end World

/-- The code of an application leaves the links of instances alone and keeps the names that
instances are kept under. Instances that it adds are detached. -/
def Application.Calm (app : Application) : Prop :=
  ∀ L H, app.Preserves (World.LinkedAs L H)

section

variable {L : Links} {H : Uid → Prop} {w w' : World} {u : Uid}

theorem World.linkedAs_self (w : World) : w.LinkedAs w.links w.Names :=
  ⟨fun _ _ hl => hl, fun _ _ hnone hl => (nomatch hnone.symm.trans hl), fun _ hu => hu⟩

theorem linkedAs_onInstances : World.OnInstances (World.LinkedAs L H) := by
  intro w w' hinstances hnames h
  have hlinks : w'.links = w.links := by
    funext u
    rw [World.links, World.links, World.instance?, World.instance?, hinstances]
  refine ⟨fun u l hl => ?_, fun u l hnone hl => ?_, fun u hu => ?_⟩
  · rw [hlinks]
    exact h.linked u l hl
  · rw [hlinks] at hl
    exact h.detached u l hnone hl
  · rw [World.Names, hnames]
    exact h.kept u hu

theorem links_update_self (w : World) (u : Uid) (f : Instance → Instance) :
    ((Run.update u f).run w).2.links u = (w.instance? u).map fun i => (f i).link := by
  rw [World.links, instance?_update_self, Option.map_map]
  rfl

theorem links_update_of_ne {v : Uid} (hne : u ≠ v) (w : World) (f : Instance → Instance) :
    ((Run.update u f).run w).2.links v = w.links v := by
  rw [World.links, instance?_update_of_ne hne]
  rfl

/-- The instance is changed, and its link is known then. -/
theorem World.LinkedAs.update (h : w.LinkedAs L H) {l l' : Link} (hl : L u = some l)
    {f : Instance → Instance} (hf : ∀ i, i.link = l → (f i).link = l') :
    ((Run.update u f).run w).2.LinkedAs (Function.update L u (some l')) H := by
  refine ⟨fun v k hk => ?_, fun v k hnone hk => ?_, h.kept⟩
  · by_cases hv : u = v
    · subst hv
      rw [Function.update_self] at hk
      obtain ⟨i, hi, hlink⟩ := Option.map_eq_some_iff.1 (h.linked u l hl)
      rw [links_update_self, hi, Option.map_some, hf i hlink, hk]
    · rw [Function.update_of_ne (Ne.symm hv)] at hk
      rw [links_update_of_ne hv]
      exact h.linked v k hk
  · by_cases hv : u = v
    · subst hv
      rw [Function.update_self] at hnone
      cases hnone
    · rw [Function.update_of_ne (Ne.symm hv)] at hnone
      rw [links_update_of_ne hv] at hk
      exact h.detached v k hnone hk

/-- Links are known to stay as they are when an instance is changed otherwise. -/
theorem linkedAs_permits (u : Uid) :
    World.Permits (World.LinkedAs L H) u fun i i' => i'.link = i.link := by
  intro w f hf h
  have hsame : ((Run.update u f).run w).2.links = w.links := by
    funext v
    by_cases hv : u = v
    · subst hv
      rw [links_update_self, World.links]
      cases hi : w.instance? u with
      | none => rfl
      | some i => exact congrArg some (hf i hi)
    · exact links_update_of_ne hv w f
  exact ⟨fun v k hk => hsame ▸ h.linked v k hk,
    fun v k hnone hk => h.detached v k hnone (hsame ▸ hk),
    h.kept⟩

/-- The state with one more instance. -/
def World.add (w : World) (i : Instance) : World :=
  { w with instances := w.instances ++ [i] }

theorem World.LinkedAs.add (h : w.LinkedAs L H) (i : Instance) :
    (w.add i).LinkedAs (Function.update L w.instances.length (some i.link)) H := by
  have hself : (w.add i).links w.instances.length = some i.link := by
    rw [World.links, World.instance?, World.add, List.getElem?_concat_length]
    rfl
  have hother {v : Uid} (hv : v ≠ w.instances.length) : (w.add i).links v = w.links v := by
    rw [World.links, World.links, World.instance?, World.instance?, World.add,
      List.getElem?_append]
    split
    · rfl
    · rename_i hlt
      have hle : w.instances.length ≤ v := Nat.le_of_not_lt hlt
      rw [List.getElem?_eq_none hle, List.getElem?_eq_none]
      exact Nat.sub_pos_of_lt (Nat.lt_of_le_of_ne hle (Ne.symm hv))
  refine ⟨fun v k hk => ?_, fun v k hnone hk => ?_, h.kept⟩
  · by_cases hv : v = w.instances.length
    · subst hv
      rw [Function.update_self] at hk
      rw [hself, hk]
    · rw [Function.update_of_ne hv] at hk
      rw [hother hv]
      exact h.linked v k hk
  · by_cases hv : v = w.instances.length
    · subst hv
      rw [Function.update_self] at hnone
      cases hnone
    · rw [Function.update_of_ne hv] at hnone
      rw [hother hv] at hk
      exact h.detached v k hnone hk

end

end ViewTree
