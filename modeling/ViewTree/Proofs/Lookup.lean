/-!
# What is found under keys

A lookup gives what is found under every key. One can be laid over another, and one can be within
another.
-/

namespace ViewTree

/-- What is found under every key. -/
abbrev Lookup (α : Type) := String → Option α

namespace Lookup

variable {α : Type}

/-- Nothing is found. -/
def empty : Lookup α :=
  fun _ => none

/-- The entries of `upper` laid over those of `lower`. -/
def onto (upper lower : Lookup α) : Lookup α :=
  fun key => (upper key).or (lower key)

/-- Everything that is found in the first is found in the second. -/
def Within (t t' : Lookup α) : Prop :=
  ∀ key v, t key = some v → t' key = some v

/-- The first has no keys that the second lacks. -/
def KeysIn (t t' : Lookup α) : Prop :=
  ∀ key, t' key = none → t key = none

/-- The first holds something that compares as different from what the second holds. -/
def Differs [BEq α] (t t' : Lookup α) : Prop :=
  ∃ key v, t key = some v ∧ ∀ u, t' key = some u → (v == u) = false

theorem not_differs_self [BEq α] [ReflBEq α] (t : Lookup α) : ¬ t.Differs t := by
  rintro ⟨key, v, hv, hother⟩
  have hne := hother v hv
  rw [BEq.rfl] at hne
  cases hne

theorem Differs.mono [BEq α] {t t' t'' : Lookup α} (h : t.Differs t'') (hwithin : t.Within t') :
    t'.Differs t'' := by
  obtain ⟨key, v, hv, hother⟩ := h
  exact ⟨key, v, hwithin key v hv, hother⟩

theorem onto_eq_some {upper lower : Lookup α} {key : String} {v : α} :
    upper.onto lower key = some v ↔ upper key = some v ∨ upper key = none ∧ lower key = some v :=
  Option.or_eq_some_iff

theorem onto_eq_none {upper lower : Lookup α} {key : String} :
    upper.onto lower key = none ↔ upper key = none ∧ lower key = none :=
  Option.or_eq_none_iff

theorem onto_assoc (t t' t'' : Lookup α) : (t.onto t').onto t'' = t.onto (t'.onto t'') := by
  funext key
  exact Option.or_assoc

theorem empty_onto (t : Lookup α) : empty.onto t = t := by
  funext key
  rfl

theorem within_onto (upper lower : Lookup α) : upper.Within (upper.onto lower) :=
  fun _ _ hv => onto_eq_some.2 (.inl hv)

theorem Within.keysIn {t t' : Lookup α} (h : t.Within t') : t.KeysIn t' := by
  intro key hnone
  cases ht : t key with
  | none => rfl
  | some v =>
    rw [h key v ht] at hnone
    cases hnone

theorem Within.trans {t t' t'' : Lookup α} (h : t.Within t') (h' : t'.Within t'') :
    t.Within t'' :=
  fun key v hv => h' key v (h key v hv)

theorem KeysIn.trans {t t' t'' : Lookup α} (h : t.KeysIn t') (h' : t'.KeysIn t'') :
    t.KeysIn t'' :=
  fun key hnone => h key (h' key hnone)

theorem keysIn_onto (upper lower : Lookup α) : lower.KeysIn (upper.onto lower) :=
  fun _ hnone => (onto_eq_none.1 hnone).2

theorem KeysIn.onto {upper upper' lower lower' : Lookup α} (hupper : upper.KeysIn upper')
    (hlower : lower.KeysIn lower') : (upper.onto lower).KeysIn (upper'.onto lower') := by
  intro key hnone
  rw [onto_eq_none] at hnone ⊢
  exact ⟨hupper key hnone.1, hlower key hnone.2⟩

theorem Within.onto {lower lower' : Lookup α} (upper : Lookup α) (h : lower.Within lower') :
    (upper.onto lower).Within (upper.onto lower') := by
  intro key v hv
  rw [onto_eq_some] at hv ⊢
  exact hv.imp_right fun ⟨hupper, hlower⟩ => ⟨hupper, h key v hlower⟩

/-- Nothing changes when entries are laid over a table that has them. -/
theorem Within.onto_eq {upper lower : Lookup α} (h : upper.Within lower) :
    upper.onto lower = lower := by
  funext key
  unfold Lookup.onto
  cases hkey : upper key with
  | none => rfl
  | some v => exact (h key v hkey).symm

/-- Nothing changes when a table is laid over entries under keys that it has. -/
theorem KeysIn.onto_eq {upper lower : Lookup α} (h : lower.KeysIn upper) :
    upper.onto lower = upper := by
  funext key
  unfold Lookup.onto
  cases hkey : upper key with
  | none => rw [h key hkey, Option.none_or]
  | some v => rfl

end Lookup

end ViewTree
