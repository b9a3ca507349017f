import ViewTree.Dict
/-!
# Sorted dictionaries

A dictionary that is sorted by key is determined by the values of its keys, stays sorted when
entries are put into it, and can be laid over another one key by key.
-/

namespace ViewTree.Dict

variable {α : Type}

/-- The keys come in strict order, so that each is there once. -/
def Sorted (d : Dict α) : Prop :=
  d.Pairwise fun e f => e.1 < f.1

theorem sorted_nil : Sorted ([] : Dict α) :=
  .nil

theorem Sorted.tail {e : String × α} {d : Dict α} (h : Sorted (e :: d)) : Sorted d :=
  (List.pairwise_cons.1 h).2

theorem lt_of_not_lt {a b : String} (hne : a ≠ b) (h : ¬ a < b) : b < a := by
  have hle : b ≤ a := String.not_lt.1 h
  rcases Decidable.em (b < a) with hlt | hlt
  · exact hlt
  · exact absurd (String.le_antisymm (String.not_lt.1 hlt) hle) hne

/-- A key in front of all others is not there. -/
theorem get?_eq_none_of_lt {d : Dict α} {key : String} (h : ∀ e ∈ d, key < e.1) :
    d.get? key = none := by
  induction d with
  | nil => rfl
  | cons e d ih =>
    have hne : e.1 ≠ key := fun heq => String.lt_irrefl key (heq ▸ h e List.mem_cons_self)
    rw [get?, if_neg hne]
    exact ih fun f hf => h f (List.mem_cons_of_mem e hf)

theorem mem_of_get? {d : Dict α} {key : String} {value : α} (h : d.get? key = some value) :
    (key, value) ∈ d := by
  induction d with
  | nil => cases h
  | cons e d ih =>
    rw [get?] at h
    split at h
    · rename_i heq
      cases h
      exact heq ▸ List.mem_cons_self
    · exact List.mem_cons_of_mem e (ih h)

theorem mem_keys_of_get? {d : Dict α} {key : String} {value : α} (h : d.get? key = some value) :
    key ∈ d.keys :=
  List.mem_map_of_mem (mem_of_get? h)

theorem Sorted.head_not_mem {e : String × α} {d : Dict α} (h : Sorted (e :: d)) :
    d.get? e.1 = none :=
  get?_eq_none_of_lt (List.pairwise_cons.1 h).1

theorem Sorted.nodup_keys {d : Dict α} (h : d.Sorted) : d.keys.Nodup := by
  refine List.pairwise_map.2 (h.imp fun {e f} hlt heq => ?_)
  rw [heq] at hlt
  exact String.lt_irrefl f.1 hlt

theorem Sorted.get?_of_mem {d : Dict α} (h : d.Sorted) {e : String × α} (he : e ∈ d) :
    d.get? e.1 = some e.2 := by
  induction d with
  | nil => cases he
  | cons f d ih =>
    rw [get?]
    rcases List.mem_cons.1 he with rfl | he
    · rw [if_pos rfl]
    · have hlt := (List.pairwise_cons.1 h).1 e he
      rw [if_neg fun heq : f.1 = e.1 => String.lt_irrefl e.1 (heq ▸ hlt)]
      exact ih h.tail he

theorem Sorted.get?_filter {d : Dict α} (h : d.Sorted) (p : α → Bool) (key : String) :
    Dict.get? (d.filter fun e => p e.2) key = (d.get? key).filter p := by
  induction d with
  | nil => rfl
  | cons e d ih =>
    have ih := ih h.tail
    rw [List.filter_cons, get?]
    by_cases heq : e.1 = key
    · rw [if_pos heq, Option.filter_some]
      split
      · rw [get?, if_pos heq]
      · -- The key is not there again.
        rw [ih, ← heq, h.head_not_mem, Option.filter_none]
    · rw [if_neg heq, ← ih]
      split
      · rw [get?, if_neg heq]
      · rfl

theorem mem_insert {d : Dict α} {key : String} {value : α} {e : String × α}
    (he : e ∈ d.insert key value) : e = (key, value) ∨ e ∈ d := by
  induction d with
  | nil => exact .inl (List.mem_singleton.1 he)
  | cons f d ih =>
    unfold insert at he
    split at he
    · rcases List.mem_cons.1 he with he | he
      · exact .inl he
      · exact .inr (List.mem_cons_of_mem f he)
    · split at he
      · rcases List.mem_cons.1 he with he | he
        · exact .inl he
        · exact .inr he
      · rcases List.mem_cons.1 he with rfl | he
        · exact .inr List.mem_cons_self
        · exact (ih he).imp_right (List.mem_cons_of_mem f)

theorem mem_insert_self (d : Dict α) (key : String) (value : α) :
    (key, value) ∈ d.insert key value :=
  mem_of_get? ((get?_insert d key key value).trans (if_pos rfl))

/-- What is put in under a new key replaces nothing. -/
theorem mem_insert_of_mem {d : Dict α} {key : String} (hkey : d.get? key = none) (value : α)
    {e : String × α} (he : e ∈ d) : e ∈ d.insert key value := by
  induction d with
  | nil => cases he
  | cons f d ih =>
    rw [get?] at hkey
    split at hkey
    · cases hkey
    · rename_i hne
      unfold insert
      rw [if_neg (Ne.symm hne)]
      split
      · exact List.mem_cons_of_mem _ he
      · rcases List.mem_cons.1 he with rfl | he
        · exact List.mem_cons_self
        · exact List.mem_cons_of_mem f (ih hkey he)

theorem Sorted.insert {d : Dict α} (h : d.Sorted) (key : String) (value : α) :
    (d.insert key value).Sorted := by
  induction d with
  | nil => exact List.pairwise_singleton _ _
  | cons e d ih =>
    obtain ⟨hfront, hd⟩ := List.pairwise_cons.1 h
    unfold Dict.insert
    split
    · rename_i heq
      exact List.pairwise_cons.2 ⟨fun f hf => heq ▸ hfront f hf, hd⟩
    · split
      · rename_i hlt
        refine List.pairwise_cons.2 ⟨fun f hf => ?_, h⟩
        rcases List.mem_cons.1 hf with rfl | hf
        · exact hlt
        · exact String.lt_trans hlt (hfront f hf)
      · rename_i hne hlt
        refine List.pairwise_cons.2 ⟨fun f hf => ?_, ih hd⟩
        rcases mem_insert hf with rfl | hf
        · exact lt_of_not_lt hne hlt
        · exact hfront f hf

theorem Sorted.foldl_insert {base : Dict α} (h : base.Sorted) (value : Dict α → String × α → α)
    (upper : Dict α) : Sorted (upper.foldl (fun d e => d.insert e.1 (value d e)) base) := by
  induction upper generalizing base with
  | nil => exact h
  | cons e upper ih => exact ih (h.insert e.1 _)

/-- Entries that are put in one after the other are merged with what is there, key by key. -/
theorem get?_foldl_insert (combine : Option α → α → α) {merge : α → α → α}
    (hnew : ∀ value, combine none value = value)
    (hown : ∀ own value, combine (some own) value = merge own value) (base : Dict α)
    {upper : Dict α} (h : upper.Sorted) (key : String) :
    Dict.get? (upper.foldl (fun d e => d.insert e.1 (combine (d.get? e.1) e.2)) base) key =
      Option.merge merge (base.get? key) (upper.get? key) := by
  induction upper generalizing base with
  | nil => exact Option.merge_none_right.symm
  | cons e upper ih =>
    rw [List.foldl_cons, ih _ h.tail, get?_insert, get?]
    by_cases heq : e.1 = key
    · -- No later entry has the key again.
      subst heq
      rw [if_pos rfl, if_pos rfl, h.head_not_mem, Option.merge_none_right]
      cases base.get? e.1 with
      | none => rw [hnew, Option.merge_none_left]
      | some own => rw [hown, Option.merge_some_some]
    · rw [if_neg heq, if_neg heq]

theorem Sorted.overlay {base : Dict α} (h : base.Sorted) (upper : Dict α) :
    (base.overlay upper).Sorted :=
  h.foldl_insert (fun _ e => e.2) upper

/-- The entries laid over others win. -/
theorem get?_overlay (base : Dict α) {upper : Dict α} (h : upper.Sorted) (key : String) :
    (base.overlay upper).get? key = (upper.get? key).or (base.get? key) := by
  have hfold := get?_foldl_insert (fun _ value => value) (fun _ => rfl) (fun _ _ => rfl) base h key
  refine hfold.trans ?_
  cases upper.get? key with
  | none => exact Option.merge_none_right
  | some value =>
    cases base.get? key with
    | none => rfl
    | some own => rfl

/-- The first key of a sorted dictionary is not less than that of one with the same keys. -/
theorem Sorted.not_lt_of_keys {e e' : String × α} {d d' : Dict α} (h' : Sorted (e' :: d'))
    (hkeys : ∀ key, get? (e' :: d') key = none → get? (e :: d) key = none) : ¬ e.1 < e'.1 := by
  intro hlt
  have hnone : get? (e' :: d') e.1 = none := by
    refine get?_eq_none_of_lt fun f hf => ?_
    rcases List.mem_cons.1 hf with rfl | hf
    · exact hlt
    · exact String.lt_trans hlt ((List.pairwise_cons.1 h').1 f hf)
  have hsome := hkeys e.1 hnone
  rw [get?, if_pos rfl] at hsome
  cases hsome

/-- Sorted dictionaries with the same keys have the same first one. -/
theorem Sorted.head_eq {e e' : String × α} {d d' : Dict α} (h : Sorted (e :: d))
    (h' : Sorted (e' :: d')) (hkeys : ∀ key, get? (e :: d) key = none ↔ get? (e' :: d') key = none) :
    e.1 = e'.1 := by
  have hle := String.not_lt.1 (h'.not_lt_of_keys fun key => (hkeys key).2)
  have hge := String.not_lt.1 (h.not_lt_of_keys fun key => (hkeys key).1)
  exact String.le_antisymm hge hle

theorem Sorted.get?_tail {e : String × α} {d : Dict α} (h : Sorted (e :: d)) (key : String) :
    d.get? key = if e.1 = key then none else get? (e :: d) key := by
  by_cases heq : e.1 = key
  · rw [if_pos heq, ← heq, h.head_not_mem]
  · rw [if_neg heq, get?, if_neg heq]

/-- Sorted dictionaries with the same keys compare as equal if their values do. -/
theorem Sorted.beq [BEq α] {d d' : Dict α} (h : d.Sorted) (h' : d'.Sorted)
    (hkeys : ∀ key, d.get? key = none ↔ d'.get? key = none)
    (hvalues : ∀ key v u, d.get? key = some v → d'.get? key = some u → v == u) : d == d' := by
  induction d generalizing d' with
  | nil =>
    cases d' with
    | nil => rfl
    | cons e d' =>
      have hnone := (hkeys e.1).1 rfl
      simp [get?] at hnone
  | cons e d ih =>
    cases d' with
    | nil =>
      have hnone := (hkeys e.1).2 rfl
      simp [get?] at hnone
    | cons e' d' =>
      -- Both begin with the least of their keys.
      have hkey := h.head_eq h' hkeys
      have hvalue : e.2 == e'.2 := by
        apply hvalues e.1
        · rw [get?, if_pos rfl]
        · rw [get?, if_pos hkey.symm]
      have htail : d == d' := by
        apply ih h.tail h'.tail
        · intro key
          rw [h.get?_tail, h'.get?_tail, hkey]
          by_cases heq : e'.1 = key
          · simp [heq]
          · simpa [heq] using hkeys key
        · intro key v u hv hu
          rw [h.get?_tail] at hv
          rw [h'.get?_tail, ← hkey] at hu
          by_cases heq : e.1 = key
          · simp [heq] at hv
          · rw [if_neg heq] at hv hu
            exact hvalues key v u hv hu
      show (e.1 == e'.1 && e.2 == e'.2 && d == d') = true
      simp [hkey, hvalue, htail]

/-- Sorted dictionaries with the same values are the same. -/
theorem Sorted.ext {d d' : Dict α} (h : d.Sorted) (h' : d'.Sorted)
    (hget : ∀ key, d.get? key = d'.get? key) : d = d' := by
  induction d generalizing d' with
  | nil =>
    cases d' with
    | nil => rfl
    | cons e d' =>
      have hnone := hget e.1
      simp [get?] at hnone
  | cons e d ih =>
    cases d' with
    | nil =>
      have hnone := hget e.1
      simp [get?] at hnone
    | cons e' d' =>
      have hkey : e.1 = e'.1 := h.head_eq h' fun key => by rw [hget key]
      have hvalue : e.2 = e'.2 := by
        have hsome := hget e.1
        rw [get?, get?, if_pos rfl, if_pos hkey.symm] at hsome
        exact Option.some.inj hsome
      have htail : d = d' := by
        apply ih h.tail h'.tail
        intro key
        rw [h.get?_tail, h'.get?_tail, hkey, hget key]
      rw [htail, Prod.ext hkey hvalue]

/-- Entries may be laid over each other in any grouping. -/
theorem overlay_assoc {d d' d'' : Dict α} (h : d.Sorted) (h' : d'.Sorted) (h'' : d''.Sorted) :
    (d.overlay d').overlay d'' = d.overlay (d'.overlay d'') := by
  refine ((h.overlay d').overlay d'').ext (h.overlay _) fun key => ?_
  rw [get?_overlay _ h'', get?_overlay d h', get?_overlay d (h'.overlay d''), get?_overlay d' h'',
    Option.or_assoc]

theorem nil_overlay {d : Dict α} (h : d.Sorted) : overlay [] d = d := by
  refine (sorted_nil.overlay d).ext h fun key => ?_
  rw [get?_overlay [] h, get?_nil, Option.or_none]

/-- Dictionaries that compare as equal have values that do, under the same keys. -/
theorem get?_of_beq [BEq α] {d d' : Dict α} (h : d == d') {key : String} {v : α}
    (hv : d.get? key = some v) : ∃ v', d'.get? key = some v' ∧ v == v' := by
  induction d generalizing d' with
  | nil => cases hv
  | cons e d ih =>
    cases d' with
    | nil => cases h
    | cons e' d' =>
      obtain ⟨hhead, htail⟩ : (e == e') = true ∧ (d == d') = true := by
        simpa using h
      obtain ⟨hkey, hvalue⟩ : e.1 = e'.1 ∧ (e.2 == e'.2) = true := by
        simpa [BEq.beq, instBEqProd] using hhead
      rw [get?] at hv
      rw [get?, ← hkey]
      split at hv
      · cases hv
        rename_i heq
        exact ⟨e'.2, if_pos heq, hvalue⟩
      · rename_i heq
        rw [if_neg heq]
        exact ih htail hv

end ViewTree.Dict
