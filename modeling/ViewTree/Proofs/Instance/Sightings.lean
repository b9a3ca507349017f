import ViewTree.Proofs.Component.Assets
/-!
# What watchers see

A watcher sees the value of its expression when it is registered, and then the changes that its
handler is told of. The changes should form a chain: each is a change, and begins where the one
before ended. A pass over the watchers compares with values taken when it began, so that it may tell
a watcher of a change that the watcher has been told of meanwhile (`Sighting.Repeats`). Where
sightings are accounted for by their passes, that is the only way in which a chain can break
(`chained_iff`).
-/

namespace ViewTree

/-- What a watcher sees: the value of its expression when it is registered, or a change that its
handler is told of by a pass that began after some number of sightings. -/
inductive Sighting where
  | registered (vm : Uid) (id : Nat) (value : Value)
  | told (vm : Uid) (id : Nat) (new old : Value) (start : Nat)

/-- The value that a watcher sees. -/
def Sighting.seenBy (vm : Uid) (id : Nat) : Sighting → Option Value
  | registered vm' id' value => if vm' = vm ∧ id' = id then some value else none
  | told vm' id' new _ _ => if vm' = vm ∧ id' = id then some new else none

/-- The value that a watcher has seen last. -/
def lastSeen (vm : Uid) (id : Nat) : List Sighting → Option Value
  | [] => none
  | s :: after => (lastSeen vm id after).or (s.seenBy vm id)

theorem lastSeen_append (vm : Uid) (id : Nat) (before after : List Sighting) :
    lastSeen vm id (before ++ after) = (lastSeen vm id after).or (lastSeen vm id before) := by
  induction before with
  | nil => rw [List.nil_append, lastSeen, Option.or_none]
  | cons s before ih => rw [List.cons_append, lastSeen, ih, lastSeen, Option.or_assoc]

namespace Sighting

/-- What a watcher is told is a change. -/
def IsChange : Sighting → Prop
  | registered _ _ _ => True
  | told _ _ new old _ => (new == old) = false

/-- What a watcher is told is a change from the value that it has seen last. -/
def Follows (before : List Sighting) : Sighting → Prop
  | registered _ _ _ => True
  | told vm id new old _ => (new == old) = false ∧ ∃ v ∈ lastSeen vm id before, (old == v) = true

/-- A watcher is told of a change from a value that is not the last one it has seen since the pass
began: another pass, made by a handler that this one called, has told it of a change already. -/
def Repeats (before : List Sighting) : Sighting → Prop
  | registered _ _ _ => False
  | told vm id _ old start => ∃ v ∈ lastSeen vm id (before.drop start), (old == v) = false

/-- A watcher is told of a change by a pass that knows what the watcher had seen when it began. -/
def Accounted (before : List Sighting) : Sighting → Prop
  | registered _ _ _ => True
  | told vm id new old start => (new == old) = false ∧ ∃ v ∈ lastSeen vm id before,
      lastSeen vm id (before.drop start) = none → old = v

instance (before : List Sighting) : (s : Sighting) → Decidable (s.Follows before)
  | registered _ _ _ => .isTrue trivial
  | told vm id new old _ => inferInstanceAs (Decidable ((new == old) = false ∧
      ∃ v ∈ lastSeen vm id before, (old == v) = true))

instance (before : List Sighting) : (s : Sighting) → Decidable (s.Repeats before)
  | registered _ _ _ => .isFalse id
  | told vm id _ old start => inferInstanceAs (Decidable
      (∃ v ∈ lastSeen vm id (before.drop start), (old == v) = false))

/-- A condition holds of every sighting and those before it. -/
def Along (P : List Sighting → Sighting → Prop) (before : List Sighting) : List Sighting → Prop
  | [] => True
  | s :: after => P before s ∧ Along P (before ++ [s]) after

instance decidableAlong (P : List Sighting → Sighting → Prop) [∀ before s, Decidable (P before s)] :
    (before sightings : List Sighting) → Decidable (Along P before sightings)
  | _, [] => .isTrue trivial
  | before, s :: after =>
    have := decidableAlong P (before ++ [s]) after
    inferInstanceAs (Decidable (P before s ∧ Along P (before ++ [s]) after))

section

variable {P Q : List Sighting → Sighting → Prop} {before sightings : List Sighting} {s : Sighting}

theorem along_concat :
    Along P before (sightings ++ [s]) ↔ Along P before sightings ∧ P (before ++ sightings) s := by
  induction sightings generalizing before with
  | nil => simp [Along]
  | cons t sightings ih => simp [Along, ih, and_assoc]

/-- What comes to the same at sightings of some kind comes to the same along them. -/
theorem Along.congr {R : List Sighting → Sighting → Prop} (h : Along R before sightings)
    (hPQ : ∀ before s, R before s → (P before s ↔ Q before s)) :
    Along P before sightings ↔ Along Q before sightings := by
  induction sightings generalizing before with
  | nil => exact Iff.rfl
  | cons s sightings ih => exact and_congr (hPQ before s h.1) (ih h.2)

theorem Along.forall_mem {R : Sighting → Prop} (h : Along P before sightings)
    (hR : ∀ before s, P before s → R s) : ∀ s ∈ sightings, R s := by
  induction sightings generalizing before with
  | nil => exact fun _ hs => absurd hs List.not_mem_nil
  | cons t sightings ih => exact List.forall_mem_cons.2 ⟨hR before t h.1, ih h.2⟩

theorem Accounted.isChange (h : s.Accounted before) : s.IsChange := by
  cases s with
  | registered vm id value => trivial
  | told vm id new old start => exact h.1

/-- Where a pass accounts for a change, the change follows what was seen last unless it repeats
what another pass has told. -/
theorem Accounted.follows_iff (h : s.Accounted before) :
    s.Follows before ↔ ¬ s.Repeats before := by
  cases s with
  | registered vm id value => exact iff_of_true trivial not_false
  | told vm id new old start =>
    obtain ⟨hchange, v, hv, hsame⟩ := h
    cases hsince : lastSeen vm id (before.drop start) with
    | none =>
      obtain rfl := hsame hsince
      refine iff_of_true ⟨hchange, old, hv, BEq.rfl⟩ ?_
      rintro ⟨u, hu, -⟩
      rw [hsince] at hu
      cases hu
    | some u =>
      -- What was seen since the pass began was seen last.
      have hlast : lastSeen vm id before = some u := by
        rw [← List.take_append_drop start before, lastSeen_append, hsince, Option.some_or]
      simp only [Follows, Repeats, hchange, true_and, hlast, hsince, Option.mem_some_iff,
        exists_eq_left', Bool.not_eq_false]

end

end Sighting

/-- Every watcher is told of changes only, and each begins where the one before it ended, the first
with the value that the watcher was registered with. -/
def Chained (sightings : List Sighting) : Prop :=
  Sighting.Along Sighting.Follows [] sightings

theorem chained_iff {sightings : List Sighting}
    (h : Sighting.Along Sighting.Accounted [] sightings) :
    Chained sightings ↔ Sighting.Along (fun before s => ¬ s.Repeats before) [] sightings :=
  h.congr fun _ _ hs => hs.follows_iff

end ViewTree
