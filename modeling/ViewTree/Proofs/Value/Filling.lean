import ViewTree.Proofs.Dict
import ViewTree.Value.Basic
/-!
# Filling in what a value lacks

A value that is filled from another one is laid over it, path by path (`fill_overlays`): it keeps
all that it has, and takes what it lacks wherever the objects above are its own or are lacking too.
One level is said once, for the field of a key (`field?_fill`); a path goes down level by level.
-/

namespace ViewTree.Value

/-! ## Objects in key order -/

/-- Every object in the value has its fields in key order, each key once. -/
def Sorted (v : Value) : Prop :=
  ∀ u ∈ v.everything, ∀ fields ∈ u.fields?, Dict.Sorted fields

instance (v : Value) : Decidable v.Sorted :=
  inferInstanceAs (Decidable (∀ u ∈ v.everything, ∀ fields ∈ u.fields?, List.Pairwise _ fields))

theorem Sorted.fields {fields : Dict Value} (h : (object fields).Sorted) : fields.Sorted :=
  h (object fields) List.mem_cons_self fields rfl

theorem mem_everythingIn {fields : Dict Value} {key : String} {v u : Value}
    (hv : (key, v) ∈ fields) (hu : u ∈ v.everything) : u ∈ everythingIn fields := by
  induction fields with
  | nil => cases hv
  | cons e fields ih =>
    rw [everythingIn, List.mem_append]
    rcases List.mem_cons.1 hv with rfl | hv
    · exact .inl hu
    · exact .inr (ih hv)

theorem Sorted.mem {fields : Dict Value} (h : (object fields).Sorted) {key : String} {v : Value}
    (hv : (key, v) ∈ fields) : v.Sorted :=
  fun inner hinner => h inner (List.mem_cons_of_mem _ (mem_everythingIn hv hinner))

/-! ## One level -/

/-- A field that is put in: what is there under its key is filled from it. -/
def filledField (own : Option Value) (value : Value) : Value :=
  match own with
  | none => value
  | some own => fill own value

theorem fillFields_eq_foldl (fields other : Dict Value) :
    fillFields fields other =
      other.foldl (fun d e => d.insert e.1 (filledField (d.get? e.1) e.2)) fields := by
  induction other generalizing fields with
  | nil => rfl
  | cons e other ih => exact ih _

/-- The fields of the other object come to those that are there: what both have is filled, and what
one of them has alone is taken as it is. -/
theorem get?_fillFields (fields : Dict Value) {other : Dict Value} (hother : other.Sorted)
    (key : String) :
    Dict.get? (fillFields fields other) key =
      Option.merge fill (fields.get? key) (other.get? key) := by
  rw [fillFields_eq_foldl]
  exact Dict.get?_foldl_insert filledField (fun _ => rfl) (fun _ _ => rfl) fields hother key

theorem sorted_fillFields {fields : Dict Value} (h : fields.Sorted) (other : Dict Value) :
    Dict.Sorted (fillFields fields other) := by
  rw [fillFields_eq_foldl]
  exact h.foldl_insert _ other

theorem field?_fill (fields : Dict Value) {other : Dict Value} (hother : other.Sorted)
    (key : String) :
    (fill (object fields) (object other)).field? key =
      Option.merge fill (fields.get? key) (other.get? key) :=
  get?_fillFields fields hother key

/-- An object. -/
def isObject : Value → Bool
  | object _ => true
  | _ => false

/-- Only an object is filled, and only from an object. -/
theorem fill_of_not_object {v other : Value} (h : v.isObject = false ∨ other.isObject = false) :
    v.fill other = v := by
  unfold fill
  split
  · rcases h with h | h
    · cases h
    · cases h
  · rfl

theorem exists_fields {v : Value} (h : v.isObject) : ∃ fields, v = object fields := by
  cases v with
  | object fields => exact ⟨fields, rfl⟩
  | _ => cases h

mutual

/-- Nothing is lacking of what a value has itself. -/
theorem fill_self : (v : Value) → v.Sorted → v.fill v = v
  | object fields, h => by
    have hfields := h.fields
    have hvalues := fill_self_fields fields fun key v hv => h.mem hv
    rw [fill]
    congr 1
    refine (sorted_fillFields hfields fields).ext hfields fun key => ?_
    rw [get?_fillFields fields hfields]
    cases hv : Dict.get? fields key with
    | none => rfl
    | some v => exact congrArg some (hvalues key v (Dict.mem_of_get? hv))
  | null, _ => rfl
  | bool _, _ => rfl
  | number _, _ => rfl
  | string _, _ => rfl
  | array _, _ => rfl

theorem fill_self_fields : (fields : List (String × Value)) →
    (∀ key v, (key, v) ∈ fields → v.Sorted) → ∀ key v, (key, v) ∈ fields → v.fill v = v
  | [], _, _, _, hv => nomatch hv
  | (k, u) :: fields, h, key, v, hv => by
    rcases List.mem_cons.1 hv with heq | hv
    · cases heq
      exact fill_self u (h k u List.mem_cons_self)
    · exact fill_self_fields fields (fun key v hv => h key v (List.mem_cons_of_mem _ hv)) key v hv

end

/-! ## Paths -/

/-- What stands at the end of a path of keys. -/
def at? (v : Value) : List String → Option Value
  | [] => some v
  | key :: path => (v.field? key).bind fun u => u.at? path

/-- There is an object at the end of the path. -/
def HasObject (v : Value) (path : List String) : Prop :=
  ∃ u, v.at? path = some u ∧ u.isObject

/-- In front of the path's end, all that the value has on the way are objects. -/
def OpenAlong (v : Value) (path : List String) : Prop :=
  ∀ front, front <+: path → front ≠ path → ∀ u, v.at? front = some u → u.isObject

theorem at?_cons (fields : Dict Value) (key : String) (path : List String) :
    (object fields).at? (key :: path) = (fields.get? key).bind fun u => u.at? path :=
  rfl

theorem at?_cons_of_not_object {v : Value} (h : v.isObject = false) (key : String)
    (path : List String) : v.at? (key :: path) = none := by
  cases v with
  | object fields => cases h
  | _ => rfl

theorem OpenAlong.isObject {v : Value} {key : String} {path : List String}
    (h : v.OpenAlong (key :: path)) : v.isObject :=
  h [] List.nil_prefix (List.cons_ne_nil key path).symm v rfl

theorem openAlong_cons (fields : Dict Value) (key : String) (path : List String) :
    (object fields).OpenAlong (key :: path) ↔
      ∀ v, fields.get? key = some v → v.OpenAlong path := by
  constructor
  · intro h v hv front hfront hne u hu
    refine h (key :: front) ((List.prefix_cons_inj key).2 hfront) (by simpa using hne) u ?_
    rw [at?_cons, hv, Option.bind_some, hu]
  · intro h front hfront hne u hu
    cases front with
    | nil =>
      cases hu
      rfl
    | cons k front =>
      obtain ⟨rfl, hrest⟩ := List.cons_prefix_cons.1 hfront
      obtain ⟨v, hv, hu⟩ := Option.bind_eq_some_iff.1 hu
      exact h v hv front hrest (fun heq => hne (heq ▸ rfl)) u hu

/-! ## Path by path -/

/-- What a value that is laid over another one comes to at a path. -/
structure OverlaidAt (v other merged : Value) (path : List String) : Prop where
  /-- What the value has stays, but for an object where the other has one as well. -/
  kept : ∀ u, v.at? path = some u → u.isObject = false ∨ ¬ other.HasObject path →
    merged.at? path = some u
  /-- What only the other has comes in, where nothing but objects is in the way. -/
  filled : ∀ u, other.at? path = some u → v.at? path = none → v.OpenAlong path →
    merged.at? path = some u
  /-- Where both have objects, there is an object. -/
  both : v.HasObject path → other.HasObject path → merged.HasObject path
  /-- There is nothing else. -/
  absent : v.at? path = none → (other.at? path = none ∨ ¬ v.OpenAlong path) →
    merged.at? path = none

section

variable {v other merged : Value} {path : List String}

/-- A value that is left as it is lies over one that is no object, or over anything if it is none
itself. -/
theorem overlaidAt_of_not_object (h : v.isObject = false ∨ other.isObject = false)
    (path : List String) : OverlaidAt v other v path where
  kept _ hu _ := hu
  filled u hu hnone hopen := by
    cases path with
    | nil => cases hnone
    | cons key path =>
      rcases h with h | h
      · rw [hopen.isObject] at h
        cases h
      · rw [at?_cons_of_not_object h] at hu
        cases hu
  both hv _ := hv
  absent hnone _ := hnone

theorem overlaidAt_nil (fields other : Dict Value) :
    OverlaidAt (object fields) (object other) (fill (object fields) (object other)) [] where
  kept u hu hother := by
    cases hu
    rcases hother with hother | hother
    · cases hother
    · exact absurd ⟨object other, rfl, rfl⟩ hother
  filled _ _ hnone _ := nomatch hnone
  both _ _ := ⟨_, rfl, rfl⟩
  absent hnone _ := nomatch hnone

/-- Under a key that both have, the value is overlaid as the one in the field is. -/
theorem OverlaidAt.cons {fields others : Dict Value} {key : String} {merged : Value} {a b c : Value}
    (ha : fields.get? key = some a) (hb : others.get? key = some b)
    (hc : merged.field? key = some c) (h : OverlaidAt a b c path) :
    OverlaidAt (object fields) (object others) merged (key :: path) := by
  have hown : (object fields).at? (key :: path) = a.at? path := by
    rw [at?_cons, ha, Option.bind_some]
  have hother : (object others).at? (key :: path) = b.at? path := by
    rw [at?_cons, hb, Option.bind_some]
  have hmerged : merged.at? (key :: path) = c.at? path := by
    rw [at?, hc, Option.bind_some]
  have hopen : (object fields).OpenAlong (key :: path) ↔ a.OpenAlong path := by
    simp [openAlong_cons, ha]
  constructor
  · simpa only [HasObject, hown, hother, hmerged] using h.kept
  · simpa only [hown, hother, hmerged, hopen] using h.filled
  · simpa only [HasObject, hown, hother, hmerged] using h.both
  · simpa only [hown, hother, hmerged, hopen] using h.absent

/-- A key that one of them lacks leads to what the other has. -/
theorem overlaidAt_of_missing {fields others : Dict Value} {key : String} {merged : Value}
    (hmissing : fields.get? key = none ∨ others.get? key = none)
    (hmerged : merged.field? key = (fields.get? key).or (others.get? key)) :
    OverlaidAt (object fields) (object others) merged (key :: path) := by
  rcases hmissing with hnone | hnone
  · have hown : (object fields).at? (key :: path) = none := by
      rw [at?_cons, hnone, Option.bind_none]
    have hopen : (object fields).OpenAlong (key :: path) := by
      simp [openAlong_cons, hnone]
    have htaken : merged.at? (key :: path) = (object others).at? (key :: path) := by
      rw [at?, hmerged, hnone, Option.none_or, at?_cons]
    constructor
    · intro u hu
      cases hown.symm.trans hu
    · intro u hu _ _
      exact htaken.trans hu
    · rintro ⟨u, hu, -⟩
      cases hown.symm.trans hu
    · rintro - (hother | hblocked)
      · exact htaken.trans hother
      · exact absurd hopen hblocked
  · have hother : (object others).at? (key :: path) = none := by
      rw [at?_cons, hnone, Option.bind_none]
    have hkept : merged.at? (key :: path) = (object fields).at? (key :: path) := by
      rw [at?, hmerged, hnone, Option.or_none, at?_cons]
    constructor
    · intro u hu _
      exact hkept.trans hu
    · intro u hu
      cases hother.symm.trans hu
    · rintro - ⟨u, hu, -⟩
      cases hother.symm.trans hu
    · intro hnone _
      exact hkept.trans hnone

/-- A value that is filled is laid over the other one at every path. -/
theorem overlaidAt_fill (v : Value) {other : Value} (hother : other.Sorted) (path : List String) :
    OverlaidAt v other (v.fill other) path := by
  by_cases hobjects : v.isObject = true ∧ other.isObject = true
  · obtain ⟨⟨fields, rfl⟩, ⟨others, rfl⟩⟩ := hobjects.imp exists_fields exists_fields
    have hfield := field?_fill fields hother.fields
    cases path with
    | nil => exact overlaidAt_nil fields others
    | cons key path =>
      cases ha : Dict.get? fields key with
      | none =>
        refine overlaidAt_of_missing (.inl ha) ?_
        rw [hfield, ha, Option.merge_none_left, Option.none_or]
      | some a =>
        cases hb : Dict.get? others key with
        | none =>
          refine overlaidAt_of_missing (.inr hb) ?_
          rw [hfield, hb, Option.merge_none_right, Option.or_none]
        | some b =>
          have hfilled := overlaidAt_fill a (hother.mem (Dict.mem_of_get? hb)) path
          refine OverlaidAt.cons ha hb ?_ hfilled
          rw [hfield, ha, hb, Option.merge_some_some]
  · have hone : v.isObject = false ∨ other.isObject = false := by
      rwa [Decidable.not_and_iff_or_not, Bool.not_eq_true, Bool.not_eq_true] at hobjects
    rw [fill_of_not_object hone]
    exact overlaidAt_of_not_object hone path

end

/-- Filling a value from another one lays it over the other at every path of keys: what it has
stays, what only the other has comes in where nothing but objects is in the way, objects that both
have are one object, and there is nothing else. So nothing is lost or changed but objects on both
sides, and a value lacks nothing that it has itself. -/
theorem fill_overlays {v other : Value} (hv : v.Sorted) (hother : other.Sorted) :
    (∀ path, OverlaidAt v other (v.fill other) path) ∧
      (∀ path u, v.at? path = some u → (v.fill other).at? path = some u ∨
        u.isObject ∧ other.HasObject path ∧ (v.fill other).HasObject path) ∧
      v.fill v = v := by
  have hover := overlaidAt_fill v hother
  refine ⟨hover, fun path u hu => ?_, fill_self v hv⟩
  by_cases hobjects : u.isObject = true ∧ other.HasObject path
  · exact .inr ⟨hobjects.1, hobjects.2, (hover path).both ⟨u, hu, hobjects.1⟩ hobjects.2⟩
  · refine .inl ((hover path).kept u hu ?_)
    by_cases hobject : u.isObject = true
    · exact .inr fun hother => hobjects ⟨hobject, hother⟩
    · exact .inl (Bool.eq_false_iff.2 hobject)

/-- Two values with objects under one key, one of which has a number where the other has an
object. -/
def lacking : Value :=
  object [("a", int 1), ("b", object [("x", int 1), ("z", int 0)])]

def filling : Value :=
  object [("a", object [("y", int 2)]), ("b", object [("x", int 2), ("y", int 3)]), ("c", null)]

/-- What is missing comes in below `b`, and nothing below the number under `a`. -/
theorem fill_overlays_lacking :
    lacking.Sorted ∧ filling.Sorted ∧
      (lacking.fill filling).at? ["b", "y"] = some (int 3) ∧
      (lacking.fill filling).at? ["b", "x"] = some (int 1) ∧
      (lacking.fill filling).at? ["a", "y"] = none ∧ lacking.fill lacking = lacking := by
  have hlacking : lacking.Sorted := by decide +kernel
  have hfilling : filling.Sorted := by decide +kernel
  obtain ⟨hover, -, hself⟩ := fill_overlays hlacking hfilling
  have hopen : lacking.OpenAlong ["b", "y"] := by
    simp [lacking, openAlong_cons, Dict.get?]
  have hblocked : ¬ lacking.OpenAlong ["a", "y"] := fun hopen =>
    Bool.false_ne_true (hopen ["a"] (by decide) (by decide) (int 1) rfl)
  exact ⟨hlacking, hfilling, (hover ["b", "y"]).filled _ rfl rfl hopen,
    (hover ["b", "x"]).kept _ rfl (.inl rfl), (hover ["a", "y"]).absent rfl (.inr hblocked), hself⟩

end ViewTree.Value
