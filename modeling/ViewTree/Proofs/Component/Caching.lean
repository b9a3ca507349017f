import ViewTree.Proofs.Component.Assets
/-!
# What a definition caches

A definition keeps its merged options, the ones it was sealed with and the ones it extends its
parent with. `Caches` says, for one kind of entries, when these three stand for what the definition
has itself and for what it shows with its ancestors. It holds of a new definition (`Caches.sealed`),
after another merge (`Caches.remerged`), after a registration (`Caches.registered`), and while an
ancestor changes (`Caches.elsewhere`), as long as no inherited entry is bound anew once the table
is another than the one the definition was made with.
-/

namespace ViewTree

variable {k : AssetKind}

/-- What the next merge puts over the parent's options: the carried options, and the definition
itself under its name. -/
def carried (naming : Lookup k.Value) (latest sealedOptions extended : ComponentOptions) :
    Lookup k.Value :=
  naming.onto ((carryEdits latest sealedOptions extended).flat? k)

section

variable {naming : Lookup k.Value} {latest sealedOptions extended : ComponentOptions}

theorem carried_of_same (h : latest.entries k == sealedOptions.entries k) :
    carried naming latest sealedOptions extended = naming.onto (extended.flat? k) := by
  funext key
  simp only [carried, Lookup.onto, flat?_carryEdits, h, if_true]

theorem carried_of_not_same (h : (latest.entries k == sealedOptions.entries k) = false) :
    carried naming latest sealedOptions extended =
      naming.onto ((latest.find? k).onto (extended.nested? k)) := by
  funext key
  simp only [carried, Lookup.onto, flat?_carryEdits, h, Bool.false_eq_true, if_false]

/-- Sorted options that hold the same have the same table. -/
theorem entries_eq {o o' : ComponentOptions} (ho : o.Sorted) (ho' : o'.Sorted)
    (h : o.find? k = o'.find? k) : o.entries k = o'.entries k :=
  (ho k).ext (ho' k) (congrFun h)

/-- Sorted options that nothing tells apart, and that have the same keys, are the same to a
merge. -/
theorem same_of_not_differs {o o' : ComponentOptions} (ho : o.Sorted) (ho' : o'.Sorted)
    (h : ¬ (o.find? k).Differs (o'.find? k)) (hkeys : (o'.find? k).KeysIn (o.find? k)) :
    o.entries k == o'.entries k := by
  have hsame (key : String) (v : k.Value) (hv : o.find? k key = some v) :
      ∃ u, o'.find? k key = some u ∧ v == u := by
    apply Classical.byContradiction
    intro hnone
    refine h ⟨key, v, hv, fun u hu => ?_⟩
    rw [← Bool.not_eq_true]
    exact fun heq => hnone ⟨u, hu, heq⟩
  apply (ho k).beq (ho' k)
  · refine fun key => ⟨fun hnone => hkeys key hnone, fun hnone => ?_⟩
    cases hv : o.find? k key with
    | none => exact hv
    | some v =>
      obtain ⟨u, hu, -⟩ := hsame key v hv
      rw [ComponentOptions.find?, hnone] at hu
      cases hu
  · intro key v u hv hu
    obtain ⟨u', hu', heq⟩ := hsame key v hv
    cases hu.symm.trans hu'
    exact heq

theorem not_same_of_differs {o o' : ComponentOptions} (h : (o.find? k).Differs (o'.find? k)) :
    (o.entries k == o'.entries k) = false := by
  obtain ⟨key, v, hv, hdiffers⟩ := h
  rw [← Bool.not_eq_true]
  intro hsame
  obtain ⟨u, hu, heq⟩ := Dict.get?_of_beq hsame hv
  rw [hdiffers u hu] at heq
  cases heq

end

/-- The three layers of options that a definition keeps stand for the tables of what it has itself,
what it showed when it was made, and what it shows. The merged options hold only what is known
to have been shown since they were last merged. -/
structure Caches (latest sealedOptions extended : ComponentOptions)
    (naming own made shown : Lookup k.Value) (known : String → k.Value → Prop) : Prop where
  sealed_made : sealedOptions.find? k = made
  naming_own : naming.Within own
  nested_own : Lookup.KeysIn (extended.nested? k) own
  own_latest : own.Within (latest.find? k)
  own_carried : own.Within (carried naming latest sealedOptions extended)
  carried_shown : (carried naming latest sealedOptions extended).Within shown
  latest_known : ∀ key v, latest.find? k key = some v → known key v
  shown_known : ∀ key v, shown key = some v → known key v
  untouched : ¬ shown.Differs made →
    ∀ key, own key = none → carried naming latest sealedOptions extended key = none
  made_shown : made.KeysIn shown

namespace Caches

variable {latest sealedOptions extended : ComponentOptions} {naming own made shown : Lookup k.Value}
  {known : String → k.Value → Prop}

theorem own_shown (h : Caches latest sealedOptions extended naming own made shown known) :
    own.Within shown :=
  h.own_carried.trans h.carried_shown

/-- A new definition is sealed with the options it has. -/
theorem sealed {options layer : ComponentOptions} (naming below : Lookup k.Value)
    (hfind : options.find? k = (naming.onto (layer.flat? k)).onto below) :
    Caches options options layer naming (naming.onto (layer.flat? k)) (options.find? k)
      (options.find? k) fun key v => options.find? k key = some v := by
  have hcarried : carried naming options options layer = naming.onto (layer.flat? k) :=
    carried_of_same BEq.rfl
  have hown : (naming.onto (layer.flat? k)).Within (options.find? k) := by
    rw [hfind]
    exact Lookup.within_onto _ _
  refine ⟨rfl, Lookup.within_onto _ _, ?_, hown, ?_, ?_, fun _ _ hv => hv, fun _ _ hv => hv, ?_,
    fun _ hnone => hnone⟩
  · intro key hnone
    simp only [Lookup.onto, flat?_eq, Option.or_eq_none_iff] at hnone
    exact hnone.2.2
  · rw [hcarried]
    exact fun _ _ hv => hv
  · rw [hcarried]
    exact hown
  · rw [hcarried]
    exact fun _ _ hnone => hnone

/-! ## Merging again -/

/-- What the next merge makes is what the definition shows. -/
theorem merged_eq (h : Caches latest sealedOptions extended naming own made shown known)
    {below : Lookup k.Value} (hshown : shown = own.onto below) :
    (carried naming latest sealedOptions extended).onto below = shown := by
  funext key
  rw [Lookup.onto]
  cases hcarried : carried naming latest sealedOptions extended key with
  | some v => exact (h.carried_shown key v hcarried).symm
  | none => rw [hshown, Lookup.onto, h.own_carried.keysIn key hcarried]

/-- A merge that carries the whole table over carries what is shown. -/
theorem carried_of_shown (h : Caches latest sealedOptions extended naming own made shown known) :
    naming.onto (shown.onto (extended.nested? k)) = shown := by
  have hnested := h.nested_own.trans h.own_shown.keysIn
  rw [hnested.onto_eq]
  exact (h.naming_own.trans h.own_shown).onto_eq

/-- A merge that makes what is shown leaves the definition caching the same. -/
theorem remerged (h : Caches latest sealedOptions extended naming own made shown known)
    (hsealed : sealedOptions.Sorted) {options : ComponentOptions} (hoptions : options.Sorted)
    (hmerged : options.find? k = shown) :
    Caches options sealedOptions (carryEdits latest sealedOptions extended)
      naming own made shown known := by
  -- The next merge carries what this one did, or all that is shown now.
  have hcarried :
      carried naming options sealedOptions (carryEdits latest sealedOptions extended) =
          carried naming latest sealedOptions extended ∨
      carried naming options sealedOptions (carryEdits latest sealedOptions extended) = shown := by
    cases hsame : options.entries k == sealedOptions.entries k with
    | true => exact .inl (carried_of_same hsame)
    | false =>
      refine .inr ?_
      rw [carried_of_not_same hsame, hmerged]
      exact h.carried_of_shown
  refine ⟨h.sealed_made, h.naming_own, h.nested_own, hmerged ▸ h.own_shown, ?_, ?_,
    hmerged ▸ h.shown_known, h.shown_known, ?_, h.made_shown⟩
  · rcases hcarried with hcarried | hcarried
    · rw [hcarried]
      exact h.own_carried
    · rw [hcarried]
      exact h.own_shown
  · rcases hcarried with hcarried | hcarried
    · rw [hcarried]
      exact h.carried_shown
    · rw [hcarried]
      exact fun _ _ hv => hv
  · intro hagree
    have hsame : options.entries k == sealedOptions.entries k := by
      apply same_of_not_differs hoptions hsealed
      · rwa [hmerged, h.sealed_made]
      · rw [hmerged, h.sealed_made]
        exact h.made_shown
    rw [carried_of_same hsame]
    exact h.untouched hagree

theorem weaken (h : Caches latest sealedOptions extended naming own made shown known)
    {known' : String → k.Value → Prop} (hknown : ∀ key v, known key v → known' key v) :
    Caches latest sealedOptions extended naming own made shown known' :=
  { h with
    latest_known := fun key v hv => hknown key v (h.latest_known key v hv)
    shown_known := fun key v hv => hknown key v (h.shown_known key v hv) }

/-- Once the options are merged, nothing else is known of. -/
theorem current (h : Caches latest sealedOptions extended naming own made shown known)
    (hlatest : latest.find? k = shown) :
    Caches latest sealedOptions extended naming own made shown
      fun key v => shown key = some v :=
  { h with
    latest_known := fun _ _ hv => hlatest ▸ hv
    shown_known := fun _ _ hv => hv }

/-! ## Changes -/

/-- A definition caches the same while its ancestors change, as long as what it inherits is not
bound anew once its table is another than it was made with. -/
theorem elsewhere (h : Caches latest sealedOptions extended naming own made shown known)
    {shown' : Lookup k.Value} (hown : own.Within shown') (hgrown : shown.KeysIn shown')
    (hkept : shown.Differs made → ∀ key v, own key = none → shown key = some v →
      shown' key = some v) :
    Caches latest sealedOptions extended naming own made shown'
      fun key v => shown' key = some v ∨ known key v := by
  have hcarried : (carried naming latest sealedOptions extended).Within shown' := by
    intro key v hv
    cases hkey : own key with
    | some u =>
      rw [h.own_carried key u hkey] at hv
      cases hv
      exact hown key v hkey
    | none =>
      by_cases hdiffers : shown.Differs made
      · exact hkept hdiffers key v hkey (h.carried_shown key v hv)
      · rw [h.untouched hdiffers key hkey] at hv
        cases hv
  -- A table that is another than it was made with stays so.
  have hstays (hdiffers : shown.Differs made) : shown'.Differs made := by
    obtain ⟨key, v, hv, hother⟩ := hdiffers
    refine ⟨key, v, ?_, hother⟩
    cases hkey : own key with
    | some u =>
      rw [h.own_shown key u hkey] at hv
      exact hv ▸ hown key u hkey
    | none => exact hkept ⟨key, v, hv, hother⟩ key v hkey hv
  exact ⟨h.sealed_made, h.naming_own, h.nested_own, h.own_latest, h.own_carried, hcarried,
    fun key v hv => .inr (h.latest_known key v hv), fun _ _ hv => .inl hv,
    fun hagree => h.untouched fun hdiffers => hagree (hstays hdiffers),
    h.made_shown.trans hgrown⟩

/-- A registration of what the definition has itself changes nothing. -/
theorem registered_within (h : Caches latest sealedOptions extended naming own made shown known)
    {entry : Lookup k.Value} {options : ComponentOptions} (hlatest : latest.Sorted)
    (hoptions : options.Sorted) (hfind : options.find? k = entry.onto (latest.find? k))
    (hentry : entry.Within own) :
    Caches options sealedOptions extended naming (entry.onto own) made (entry.onto shown)
      fun key v => entry.onto shown key = some v ∨ entry key = none ∧ known key v := by
  rw [(hentry.trans h.own_latest).onto_eq] at hfind
  rw [hentry.onto_eq, (hentry.trans h.own_shown).onto_eq]
  have hcarried :
      carried naming options sealedOptions extended =
        carried naming latest sealedOptions extended := by
    rw [carried, carried, flat?_carryEdits, flat?_carryEdits, entries_eq hoptions hlatest hfind,
      hfind]
  refine ⟨h.sealed_made, h.naming_own, h.nested_own, ?_, ?_, ?_, ?_, fun _ _ hv => .inl hv, ?_,
    h.made_shown⟩
  · exact hfind ▸ h.own_latest
  · exact hcarried ▸ h.own_carried
  · exact hcarried ▸ h.carried_shown
  · intro key v hv
    rw [hfind] at hv
    cases hkey : entry key with
    | none => exact .inr ⟨rfl, h.latest_known key v hv⟩
    | some u =>
      have hown := hentry key u hkey
      rw [h.own_latest key u hown] at hv
      exact .inl (hv ▸ h.own_shown key u hown)
  · exact hcarried ▸ h.untouched

/-- A registration with the definition itself is kept if it makes a change from the table that the
definition was made with, and what is known of the inherited entries is what is shown. -/
theorem registered (h : Caches latest sealedOptions extended naming own made shown known)
    {entry : Lookup k.Value} {options : ComponentOptions}
    (hfind : options.find? k = entry.onto (latest.find? k))
    (hnaming : ∀ key v u, naming key = some v → entry key = some u → u = v)
    (hdiffers : (entry.onto own).Differs made)
    (hkept : ∀ key v, entry key = none → own key = none → known key v → shown key = some v) :
    Caches options sealedOptions extended naming (entry.onto own) made (entry.onto shown)
      fun key v => entry.onto shown key = some v ∨ entry key = none ∧ known key v := by
  have hown : (entry.onto own).Within (options.find? k) :=
    hfind ▸ h.own_latest.onto entry
  have hdiffers' : (options.find? k).Differs (sealedOptions.find? k) :=
    h.sealed_made ▸ hdiffers.mono hown
  have hnaming' : naming.Within (entry.onto own) := by
    intro key v hv
    cases hkey : entry key with
    | none => exact Lookup.onto_eq_some.2 (.inr ⟨hkey, h.naming_own key v hv⟩)
    | some u => exact Lookup.onto_eq_some.2 (.inl (hnaming key v u hv hkey ▸ hkey))
  have hnested : (extended.nested? k).KeysIn (entry.onto own) :=
    h.nested_own.trans (Lookup.keysIn_onto entry own)
  -- The next merge carries all that the definition has now.
  have hcarried : carried naming options sealedOptions extended = options.find? k := by
    rw [carried_of_not_same (not_same_of_differs hdiffers'), (hnested.trans hown.keysIn).onto_eq]
    exact (hnaming'.trans hown).onto_eq
  have hshown : (options.find? k).Within (entry.onto shown) := by
    intro key v hv
    rw [hfind, Lookup.onto_eq_some] at hv
    rw [Lookup.onto_eq_some]
    refine hv.imp_right fun ⟨hkey, hlatest⟩ => ⟨hkey, ?_⟩
    cases hkey' : own key with
    | some u =>
      rw [h.own_latest key u hkey'] at hlatest
      exact h.own_shown key v (hlatest ▸ hkey')
    | none => exact hkept key v hkey hkey' (h.latest_known key v hlatest)
  refine ⟨h.sealed_made, hnaming', hnested, hown, hcarried ▸ hown, hcarried ▸ hshown,
    fun key v hv => .inl (hshown key v hv), fun _ _ hv => .inl hv, ?_,
    h.made_shown.trans (Lookup.keysIn_onto entry shown)⟩
  intro hagree
  exact absurd (hdiffers.mono (h.own_shown.onto entry)) hagree

end Caches

end ViewTree
