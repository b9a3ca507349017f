import ViewTree.Proofs.Dict
import ViewTree.Proofs.Instance.Family
import ViewTree.Proofs.Instance.Injecting
/-!
# Injection from the nearest provider

Whatever instances are made, as roots or below others, what is injected into each of them is what
the nearest instance above it came to provide when that was made itself, and this does not change
later (`injects_nearest`).
-/

namespace ViewTree

/-! ## Making instances -/

/-- The state when an instance is placed and kept alive to be initialized. -/
def World.begun (w : World) (fresh : Instance) : World :=
  { w.placed fresh with pins := w.instances.length :: (w.placed fresh).pins }

/-- The state when an instance is not kept alive any more by what used it. -/
def World.released (w : World) (u : Uid) : World :=
  { w with pins := w.pins.erase u }

/-- An instance is made, where `near` is what can be found above it: it is initialized with the
parent and the options that it has, and comes to be supplied in a certain way, and every name that
it declares gets what it should. The names that are reported are listed. -/
structure Application.Makes (app : Application) (near : String → Option Value) (fresh : Instance)
    (w : World) (u : Uid) (s : Supply) (missing : List String) (w' : World) : Prop where
  next : u = w.instances.length
  parent : s.parent = fresh.parent
  options : s.options = fresh.options
  supply : w'.supply? u = some s
  initialized : ∃ w₁, app.Initializes u near (w.begun fresh) s missing w₁ ∧ w' = w₁.released u
  injects : (Dict.keys s.options.inject).Nodup → ∀ key inject,
    (key, inject) ∈ s.options.inject → app.Injects near key inject s.injections missing

section

variable {app : Application} {K : Supplies} {H : Uid → Prop} {w : World} {fresh : Instance}

/-- An instance that is placed is kept alive if its parent is. -/
theorem World.Supplied.placed (h : w.Supplied K H)
    (hparent : ∀ p, fresh.parent = some p → K.Known p ∧ H p) :
    (w.placed fresh).Supplied (Function.update K w.instances.length (some fresh.supply))
      fun v => H v ∨ (v = w.instances.length ∧ fresh.parent ≠ none) := by
  have hadded := h.add fresh
  unfold World.placed
  cases hp : fresh.parent with
  | none => exact hadded.mono (fun _ _ ht => ht) fun v hv => hv.resolve_right fun hv => hv.2 rfl
  | some p =>
    obtain ⟨⟨s, hs⟩, hkept⟩ := hparent p hp
    have hlt : p < w.instances.length := h.lt_length hs
    have hs' : Function.update K w.instances.length (some fresh.supply) p = some s :=
      (Function.update_of_ne (Nat.ne_of_lt hlt) ..).trans hs
    let list : Instance → Instance := fun i =>
      { i with children := i.children ++ [w.instances.length] }
    have hlisted := hadded.update hs' s (f := list) fun i hi =>
      ⟨hi, rfl, List.subset_append_left ..⟩
    have hsame : Function.update (Function.update K w.instances.length (some fresh.supply)) p
        (some s) = Function.update K w.instances.length (some fresh.supply) := by
      rw [← hs']
      exact Function.update_eq_self p _
    rw [hsame] at hlisted
    refine ⟨hlisted.known, fun v hv => ?_⟩
    rcases hv with hv | ⟨rfl, -⟩
    · exact hlisted.kept v hv
    · obtain ⟨i, hi, -⟩ := Option.map_eq_some_iff.1 (h.known p s hs)
      refine .listed (i := list i) (hlisted.kept p hkept) ?_ ?_ hp hlt
        (List.mem_append_right _ List.mem_cons_self)
      · rw [instance?_update_self, instance?_add hi, Option.map_some]
      · rw [instance?_update_of_ne (Nat.ne_of_lt hlt), instance?_add_self]

/-- Nothing is known of the instance that is made next. -/
theorem World.Supplied.next_unknown (h : w.Supplied K H) : K w.instances.length = none := by
  cases hu : K w.instances.length with
  | none => rfl
  | some s => exact absurd (h.lt_length hu) (Nat.lt_irrefl _)

/-- What is known stays known when it becomes known of another instance what it is supplied with. -/
theorem Supplies.update_of_known {u v : Uid} (hu : K u = none) (t : Option Supply) {s : Supply}
    (hv : K v = some s) : Function.update K u t v = some s := by
  have hne : v ≠ u := by
    intro heq
    rw [heq, hu] at hv
    cases hv
  rw [Function.update_of_ne hne, hv]

theorem World.OnInstances.released {I : World → Prop} (hI : World.OnInstances I) (h : I w)
    (u : Uid) : I (w.released u) :=
  hI w _ rfl rfl h

theorem start_released (app : Application) (fresh : Instance) (w : World) :
    ((app.start fresh).run w).2 =
      ((app.setUp w.instances.length).run (w.begun fresh)).2.released w.instances.length := by
  rw [start_snd]
  generalize app.setUp w.instances.length = act
  rfl

theorem makes_start (hkeeps : app.KeepsSupplies) (hclosed : K.Closed) (h : w.Supplied K K.Known)
    (fresh : Instance) (hnothing : fresh.provided = []) (hparent : ∀ p, fresh.parent = some p → K.Known p) :
    let u := w.instances.length
    let w' := ((app.start fresh).run w).2
    ∃ s missing, app.Makes (K.nearest fresh.parent) fresh w u s missing w' ∧
      w'.Supplied (Function.update K u (some s))
        fun v => K.Known v ∨ (v = u ∧ fresh.parent ≠ none) := by
  intro u w'
  let K' := Function.update K u (some fresh.supply)
  let H : Uid → Prop := fun v => K.Known v ∨ (v = u ∧ fresh.parent ≠ none)
  have hbegun : (w.begun fresh).Supplied K' H :=
    supplied_onInstances (w.placed fresh) _ rfl rfl
      (h.placed fun p hp => ⟨hparent p hp, hparent p hp⟩)
  have hnear (w₁ : World) (h₁ : w₁.Supplied K' H) (key : String) :
      w₁.provided? key (w₁.ancestors u) = K.nearest fresh.parent key := by
    have hold : w₁.Supplied K K.Known :=
      h₁.mono (fun v t hv => Supplies.update_of_known h.next_unknown _ hv) fun v hv => .inl hv
    have hself := h₁.known u fresh.supply (Function.update_self ..)
    refine hold.provided?_eq hclosed (by rw [hself]; rfl) (fun p hp => ?_) key
    obtain ⟨sp, hsp⟩ := hparent p hp
    exact ⟨h.lt_length hsp, sp, hsp⟩
  obtain ⟨s, missing, hsparent, hsoptions, hinitializes, hsupplied⟩ :=
    initializes_setUp hkeeps hnear hbegun (Function.update_self ..) hnothing
  rw [Function.update_idem] at hsupplied
  have hend : w' = ((app.setUp u).run (w.begun fresh)).2.released u := start_released app fresh w
  have hsupplied' : w'.Supplied (Function.update K u (some s)) H := by
    rw [hend]
    exact supplied_onInstances.released hsupplied u
  refine ⟨s, missing, ⟨rfl, hsparent, hsoptions, hsupplied'.known u s (Function.update_self ..),
    ⟨_, hinitializes, hend⟩, fun hkeys key inject hmem => ?_⟩, hsupplied'⟩
  exact hinitializes.injects hkeys hmem

end

/-! ## Instances that are made one after the other -/

/-- The state when an instance is kept under a name. -/
def World.naming (w : World) (name : String) (u : Uid) : World :=
  { w with instanceNames := w.instanceNames.insert name u }

/-- Instances are made one after the other, as roots, which are then kept under names, or below
others, and whatever else happens leaves what they get and provide alone and lets go of none. It
becomes known what each of them gets and provides when it is made. -/
inductive Application.Grows (app : Application) (w₀ : World) (K₀ : Supplies) :
    World → Supplies → Prop
  | start : Grows app w₀ K₀ w₀ K₀
  | root {w w' : World} {K : Supplies} {u : Uid} (definition : Cid) (options : ComponentOptions)
    (name : String) : Grows app w₀ K₀ w K →
    (app.newInstance definition options).run w = (u, w') → w'.instanceNames.get? name = none →
      Grows app w₀ K₀ (w'.naming name u) (Function.update K u (w'.supply? u))
  | child {w w' : World} {K : Supplies} {p u : Uid} (node : Placeholder VNode) :
    Grows app w₀ K₀ w K → K.Known p → (app.createChild p node).run w = (some u, w') →
      Grows app w₀ K₀ w' (Function.update K u (w'.supply? u))
  | other {w w' : World} {K : Supplies} : Grows app w₀ K₀ w K →
    (∀ L H, w.Supplied L H → w'.Supplied L H) → Grows app w₀ K₀ w' K

/-- It is known what instances get and provide, where all that are not there at the start are made
with what is found above them. -/
structure Application.Settles (app : Application) (K₀ K : Supplies) (w : World) : Prop where
  closed : K.Closed
  supplied : w.Supplied K K.Known
  earlier : K₀.Within K
  made : ∀ u s, K u = some s → K₀ u = none → ∃ fresh before missing after,
    app.Makes (K.nearest s.parent) fresh before u s missing after

section

variable {app : Application} {K₀ K : Supplies} {w w' : World} {u p : Uid}

theorem Supplies.known_update (K : Supplies) (u : Uid) (s : Supply) (v : Uid) :
    Supplies.Known (Function.update K u (some s)) v ↔ v = u ∨ K.Known v := by
  by_cases hv : v = u
  · subst hv
    rw [Supplies.Known, Function.update_self]
    exact ⟨fun _ => .inl rfl, fun _ => ⟨s, rfl⟩⟩
  · rw [Supplies.Known, Function.update_of_ne hv]
    exact (or_iff_right hv).symm

/-- One more instance is made. -/
theorem Application.Settles.make (h : app.Settles K₀ K w) {parent : Option Uid} {fresh : Instance}
    {before after : World} {s : Supply} {missing : List String}
    (hmakes : app.Makes (K.nearest parent) fresh before u s missing after)
    (hsparent : s.parent = parent) (hu : K u = none)
    (hparent : ∀ p, parent = some p → p < u ∧ K.Known p)
    (hsupplied : w'.Supplied (Function.update K u (some s)) fun v => v = u ∨ K.Known v) :
    app.Settles K₀ (Function.update K u (some s)) w' := by
  have hwithin : K.Within (Function.update K u (some s)) :=
    fun v t ht => Supplies.update_of_known hu _ ht
  refine ⟨fun v t p hv hp => ?_, ?_, fun v t ht => hwithin v t (h.earlier v t ht),
    fun v t hv hnew => ?_⟩
  · by_cases hvu : v = u
    · subst hvu
      rw [Function.update_self] at hv
      cases hv
      obtain ⟨hlt, sp, hsp⟩ := hparent p (hsparent ▸ hp)
      exact ⟨hlt, sp, hwithin p sp hsp⟩
    · rw [Function.update_of_ne hvu] at hv
      obtain ⟨hlt, sp, hsp⟩ := h.closed v t p hv hp
      exact ⟨hlt, sp, hwithin p sp hsp⟩
  · exact hsupplied.mono (fun _ _ ht => ht) fun v hv => (Supplies.known_update K u s v).1 hv
  · by_cases hvu : v = u
    · subst hvu
      rw [Function.update_self] at hv
      cases hv
      rw [hsparent, hwithin.nearest_eq h.closed fun p hp => (hparent p hp).2]
      exact ⟨fresh, before, missing, after, hmakes⟩
    · rw [Function.update_of_ne hvu] at hv
      rw [hwithin.nearest_eq h.closed fun p hp => (h.closed v t p hv hp).2]
      exact h.made v t hv hnew

/-- A new root is made, above which there is nothing. -/
theorem makes_newInstance (hkeeps : app.KeepsSupplies) (hclosed : K.Closed)
    (h : w.Supplied K K.Known) (definition : Cid) (options : ComponentOptions) :
    let merged := (Run.instanceOptions definition options).run w
    let fresh := { Instance.fresh definition merged.1 with propsData := options.propsData }
    let r := (app.newInstance definition options).run w
    ∃ s missing, app.Makes (K.nearest none) fresh merged.2 r.1 s missing r.2 ∧ K r.1 = none ∧
      r.2.Supplied (Function.update K r.1 (some s)) K.Known := by
  intro merged fresh r
  have hmerged : merged.2.Supplied K K.Known :=
    (preserves_resolveOptions supplied_onInstances definition).bind
      (fun resolved => preserves_mergeOptions supplied_onInstances resolved options true) w h
  have hr : r = (app.start fresh).run merged.2 := newInstance_run app w definition options
  obtain ⟨s, missing, hmakes, hsupplied⟩ :=
    makes_start hkeeps hclosed hmerged fresh rfl fun p hp => nomatch hp
  have hu : r.1 = merged.2.instances.length := by
    rw [hr]
    exact start_fst app fresh merged.2
  rw [hu, hr]
  exact ⟨s, missing, hmakes, hmerged.next_unknown,
    hsupplied.mono (fun _ _ ht => ht) fun _ hv => .inl hv⟩

/-- A new child is made, with its parent next above it. -/
theorem makes_createChild (hkeeps : app.KeepsSupplies) (hclosed : K.Closed)
    (h : w.Supplied K K.Known) (hp : K.Known p) {node : Placeholder VNode}
    (hcreated : (app.createChild p node).run w = (some u, w')) :
    let fresh := w.childOf node.ctor.cid p ⟨node, none, none⟩
    ∃ s missing, app.Makes (K.nearest (some p)) fresh w u s missing w' ∧ K u = none ∧ p < u ∧
      w'.Supplied (Function.update K u (some s)) fun v => v = u ∨ K.Known v := by
  intro fresh
  rw [createChild_run] at hcreated
  split at hcreated
  · rw [newChild_run, Prod.mk.injEq, Option.some_inj, start_fst] at hcreated
    obtain ⟨rfl, rfl⟩ := hcreated
    obtain ⟨s, missing, hmakes, hsupplied⟩ :=
      makes_start hkeeps hclosed h fresh rfl fun q hq => by
        cases hq
        exact hp
    obtain ⟨sp, hsp⟩ := hp
    refine ⟨s, missing, hmakes, h.next_unknown, h.lt_length hsp,
      hsupplied.mono (fun _ _ ht => ht) fun v hv => ?_⟩
    exact hv.symm.imp_right fun hv => ⟨hv, (nomatch ·)⟩
  · cases hcreated

/-- What is kept under a new name is kept alive, too. -/
theorem World.Supplied.naming {H : Uid → Prop} (h : w.Supplied K H) {name : String}
    (hname : w.instanceNames.get? name = none) (u : Uid) :
    (w.naming name u).Supplied K fun v => v = u ∨ H v := by
  refine ⟨h.known, fun v hv => ?_⟩
  rcases hv with rfl | hv
  · exact .named (List.mem_map_of_mem (Dict.mem_insert_self w.instanceNames name v))
  · refine (h.kept v hv).mono (fun v hnamed => ?_) fun v i hi =>
      ⟨i, hi, rfl, List.Subset.refl _⟩
    obtain ⟨e, he, heq⟩ := List.mem_map.1 hnamed
    exact List.mem_map.2 ⟨e, Dict.mem_insert_of_mem hname u he, heq⟩

/-- However instances are made, they are made with what is found above them. -/
theorem Application.Grows.settles (hkeeps : app.KeepsSupplies) {w₀ : World}
    (h₀ : w₀.Supplied K₀ K₀.Known) (hclosed : K₀.Closed) (h : app.Grows w₀ K₀ w K) :
    app.Settles K₀ K w := by
  induction h with
  | start =>
    refine ⟨hclosed, h₀, fun _ _ hu => hu, fun u s hu hnew => ?_⟩
    rw [hnew] at hu
    cases hu
  | @root w w' K u definition options name hgrows hcreated hname ih =>
    obtain ⟨s, missing, hmakes, hunknown, hsupplied⟩ :=
      makes_newInstance hkeeps ih.closed ih.supplied definition options
    rw [hcreated] at hmakes hunknown hsupplied
    rw [hmakes.supply]
    exact ih.make hmakes hmakes.parent hunknown (fun p hp => nomatch hp) (hsupplied.naming hname u)
  | @child w w' K p u node hgrows hp hcreated ih =>
    obtain ⟨s, missing, hmakes, hunknown, hlt, hsupplied⟩ :=
      makes_createChild hkeeps ih.closed ih.supplied hp hcreated
    rw [hmakes.supply]
    refine ih.make hmakes hmakes.parent hunknown (fun q hq => ?_) hsupplied
    cases hq
    exact ⟨hlt, hp⟩
  | other hgrows hkept ih => exact ⟨ih.closed, hkept _ _ ih.supplied, ih.earlier, ih.made⟩

end

/-! ## A page with a card -/

/-- It is known of no instance what it gets and provides. -/
def Supplies.unknown : Supplies :=
  fun _ => none

theorem World.supplied_unknown (w : World) : w.Supplied .unknown Supplies.unknown.Known :=
  ⟨fun _ _ hu => (nomatch hu), fun _ hu => (nomatch hu.choose_spec)⟩

theorem Supplies.closed_unknown : Supplies.unknown.Closed :=
  fun _ _ _ hu => nomatch hu

/-- Every data source gives a dark theme; nothing else does anything. -/
def Code.darkening : Application :=
  { Code.idle with data := fun _ _ => pure (.ok (.object [("theme", .string "dark")])) }

theorem darkening_keeps : Code.darkening.KeepsSupplies := fun K H =>
  { idle_preserves (World.Supplied K H) with data := fun _ _ => preserves_pure _ }

namespace World

/-- A page that provides something, and a card that declares a store and a theme. -/
def withPage : World :=
  let page := { ComponentOptions.empty with provide := some (.callback 0) }
  let card := { ComponentOptions.empty with
    inject := [("store", ⟨"store", none⟩), ("theme", ⟨"theme", none⟩)] }
  { World.start .default with
    definitions := [⟨none, 0, page, 0, none, .empty, page⟩, ⟨none, 0, card, 0, none, .empty, card⟩]
    definitionNames := [("card", 1), ("page", 0)] }

/-- The page is made. -/
def page : Uid × World :=
  (Code.darkening.newInstance 0 .empty).run .withPage

/-- The page is kept under a name. -/
def withPageOpen : World :=
  page.2.naming "page" page.1

end World

/-- What is known when the page is made. -/
def Supplies.ofPage : Supplies :=
  Function.update Supplies.unknown World.page.1 (World.page.2.supply? World.page.1)

/-- The place of the card on the page. -/
def Placeholder.card : Placeholder VNode where
  tag := placeholderTag 1 (some "card")
  ctor := .definition 1
  data := .empty
  ns := none
  context := some 0
  props := []
  listeners := []
  children := []
  componentTag := some "card"

end ViewTree
