import ViewTree.Proofs.Instance.Supplies
/-!
# Injections come before the state, provided values after it

An instance that is initialized gets under every name that it declares what can be found above it,
or a default (`Resolves`). Then it gets its state, and then it provides the object that its own
source gives, if that gives one (`Provides`). So what it provides itself is not injected into it.
-/

namespace ViewTree

namespace Application

/-- How the injections of an instance are resolved one after the other, where `near` is what can be
found above it. A name for which nothing is found and that has no default is reported; these names
are listed. -/
inductive Resolves (app : Application) (u : Uid) (near : String → Option Value) :
    Dict InjectOptions → World → Dict Value → List String → World → Prop
  | done {w : World} : Resolves app u near [] w [] [] w
  | found {key : String} {inject : InjectOptions} {rest : Dict InjectOptions} {v : Value}
    {values : Dict Value} {missing : List String} {w w' : World} :
    near inject.source = some v → Resolves app u near rest w values missing w' →
      Resolves app u near ((key, inject) :: rest) w ((key, v) :: values) missing w'
  | default {key : String} {inject : InjectOptions} {rest : Dict InjectOptions} {d : DefaultValue}
    {v : Value} {values : Dict Value} {missing : List String} {w w₁ w' : World} :
    near inject.source = none → inject.default = some d → (app.produce d).run w = (v, w₁) →
    Resolves app u near rest w₁ values missing w' →
      Resolves app u near ((key, inject) :: rest) w ((key, v) :: values) missing w'
  | missing {key : String} {inject : InjectOptions} {rest : Dict InjectOptions}
    {values : Dict Value} {missing : List String} {w w' : World} :
    near inject.source = none → inject.default = none →
    Resolves app u near rest ((Run.warn s!"Injection \"{key}\" not found" (some u)).run w).2 values
      missing w' →
      Resolves app u near ((key, inject) :: rest) w values (key :: missing) w'

/-- A name gets the value that is found for it, else its default, else it is absent and reported
once. -/
def Injects (app : Application) (near : String → Option Value) (key : String)
    (inject : InjectOptions) (values : Dict Value) (missing : List String) : Prop :=
  match near inject.source, inject.default with
  | some v, _ => values.get? key = some v ∧ missing.count key = 0
  | none, some d =>
    (∃ w, values.get? key = some ((app.produce d).run w).1) ∧ missing.count key = 0
  | none, none => values.get? key = none ∧ missing.count key = 1

/-- What an instance comes to provide: the object that its source gives. It is nothing without a
source, and if the source fails or gives something else, which is reported. -/
inductive Provides (app : Application) (u : Uid) :
    Option DataSource → World → Dict Value → World → Prop
  | nothing {w : World} : Provides app u none w [] w
  | object {source : DataSource} {fields : Dict Value} {w w₁ : World} :
    (app.runSource u source).run w = (.ok (.object fields), w₁) →
      Provides app u (some source) w fields
        ((Run.update u fun i => { i with provided := fields }).run w₁).2
  | other {source : DataSource} {v : Value} {w w₁ : World} :
    (app.runSource u source).run w = (.ok v, w₁) → (∀ fields, v ≠ .object fields) →
      Provides app u (some source) w []
        ((Run.warn "provide functions should return an object." (some u)).run w₁).2
  | failed {source : DataSource} {f : Failure} {w w₁ : World} :
    (app.runSource u source).run w = (.error f, w₁) →
      Provides app u (some source) w [] ((app.handleFailure f (some u) "provide()").run w₁).2

/-- What happens to an instance before anything is injected into it. -/
def beforeInjections (app : Application) (u : Uid) : Run Unit := do
  Run.attach u (← Run.inst u).parentListeners
  initRender u
  app.callHook u .beforeCreate

/-- What happens to an instance between its injections and what it provides. -/
def withInjections (app : Application) (u : Uid) (injections : Dict Value) : Run Unit := do
  Run.update u fun i => { i with injections := injections }
  app.initState u

/-- How an instance is initialized that comes to be supplied in a certain way, where `near` is what
can be found above it, and the names that are reported. -/
inductive Initializes (app : Application) (u : Uid) (near : String → Option Value) (w : World) :
    Supply → List String → World → Prop
  | intro {s : Supply} {missing : List String} {w₁ w₂ : World} :
    app.Resolves u near s.options.inject ((app.beforeInjections u).run w).2 s.injections missing
      w₁ →
    app.Provides u s.options.provide ((app.withInjections u s.injections).run w₁).2 s.provided w₂ →
      Initializes app u near w s missing ((app.whenProvided u w.config.performance).run w₂).2

end Application

/-! ## Injected values -/

section

variable {app : Application} {u : Uid} {near : String → Option Value} {entries : Dict InjectOptions}
  {values values' : Dict Value} {missing missing' : List String} {w w' : World} {key : String}
  {inject : InjectOptions}

/-- Looking up injections resolves them, as long as what can be found above stays the same. -/
theorem resolves_injectedValues {I : World → Prop} (h : app.Preserves I)
    (hI : World.OnInstances I)
    (hnear : ∀ w, I w → ∀ key, w.provided? key (w.ancestors u) = near key)
    (entries : Dict InjectOptions) (hw : I w) :
    ∃ missing, app.Resolves u near entries w ((app.injectedValues u entries).run w).1 missing
      ((app.injectedValues u entries).run w).2 := by
  induction entries generalizing w with
  | nil => exact ⟨[], .done⟩
  | cons entry rest ih =>
    obtain ⟨key, inject⟩ := entry
    rw [Application.injectedValues, run_get_bind, hnear w hw]
    cases hfound : near inject.source with
    | some v =>
      obtain ⟨missing, hrest⟩ := ih hw
      exact ⟨missing, .found hfound hrest⟩
    | none =>
      cases hdefault : inject.default with
      | some d =>
        obtain ⟨missing, hrest⟩ := ih (preserves_produce h d w hw)
        exact ⟨missing, .default hfound hdefault rfl hrest⟩
      | none =>
        obtain ⟨missing, hrest⟩ := ih (preserves_warn hI _ _ w hw)
        exact ⟨key :: missing, .missing hfound hdefault hrest⟩

/-- What becomes of a name only depends on what it is given and how often it is reported. -/
theorem Application.Injects.congr (h : app.Injects near key inject values missing)
    (hvalues : values'.get? key = values.get? key)
    (hmissing : missing'.count key = missing.count key) :
    app.Injects near key inject values' missing' := by
  rw [Injects, hvalues, hmissing]
  exact h

/-- Only names that are declared are resolved or reported. -/
theorem Application.Resolves.undeclared (h : app.Resolves u near entries w values missing w')
    (hkey : key ∉ Dict.keys entries) : values.get? key = none ∧ missing.count key = 0 := by
  induction h with
  | done => exact ⟨rfl, rfl⟩
  | found _ _ ih | default _ _ _ _ ih =>
    obtain ⟨hvalues, hmissing⟩ := ih (List.not_mem_of_not_mem_cons hkey)
    exact ⟨(if_neg (List.ne_of_not_mem_cons hkey).symm).trans hvalues, hmissing⟩
  | missing hfound hdefault hrest ih =>
    obtain ⟨hvalues, hmissing⟩ := ih (List.not_mem_of_not_mem_cons hkey)
    exact ⟨hvalues,
      (List.count_cons_of_ne (List.ne_of_not_mem_cons hkey).symm).trans hmissing⟩

/-- A key that is there once is not that of a later entry. -/
theorem ne_of_mem_rest {e : String × InjectOptions} {rest : Dict InjectOptions}
    (hkeys : (Dict.keys (e :: rest)).Nodup) (hmem : (key, inject) ∈ rest) : e.1 ≠ key := by
  intro heq
  have hhead : e.1 ∉ Dict.keys rest := (List.nodup_cons.1 hkeys).1
  have hkey : key ∈ Dict.keys rest := List.mem_map_of_mem (f := Prod.fst) hmem
  exact hhead (heq ▸ hkey)

/-- Every name that is declared once gets what it should. -/
theorem Application.Resolves.injects (h : app.Resolves u near entries w values missing w')
    (hkeys : (Dict.keys entries).Nodup) (hmem : (key, inject) ∈ entries) :
    app.Injects near key inject values missing := by
  induction h with
  | done => cases hmem
  | found hfound hrest ih =>
    obtain ⟨hnot, hrestkeys⟩ := List.nodup_cons.1 hkeys
    rcases List.mem_cons.1 hmem with heq | hmem
    · cases heq
      rw [Injects, hfound]
      exact ⟨if_pos rfl, (hrest.undeclared hnot).2⟩
    · exact (ih hrestkeys hmem).congr (if_neg (ne_of_mem_rest hkeys hmem)) rfl
  | @default _ _ _ d v _ _ w _ _ hfound hdefault hproduce hrest ih =>
    obtain ⟨hnot, hrestkeys⟩ := List.nodup_cons.1 hkeys
    rcases List.mem_cons.1 hmem with heq | hmem
    · cases heq
      rw [Injects, hfound, hdefault]
      refine ⟨⟨w, ?_⟩, (hrest.undeclared hnot).2⟩
      rw [hproduce]
      exact if_pos rfl
    · exact (ih hrestkeys hmem).congr (if_neg (ne_of_mem_rest hkeys hmem)) rfl
  | missing hfound hdefault hrest ih =>
    obtain ⟨hnot, hrestkeys⟩ := List.nodup_cons.1 hkeys
    rcases List.mem_cons.1 hmem with heq | hmem
    · cases heq
      obtain ⟨hvalues, hmissing⟩ := hrest.undeclared hnot
      rw [Injects, hfound, hdefault]
      exact ⟨hvalues, by rw [List.count_cons_self, hmissing]⟩
    · exact (ih hrestkeys hmem).congr rfl
        (List.count_cons_of_ne (ne_of_mem_rest hkeys hmem))

end

/-! ## Provided values -/

section

variable {α : Type} {app : Application} {act : Run (Except Failure α)} {vm : Option Uid}
  {info : String} {w w' : World}

theorem guarded_run_ok {a : α} (hact : act.run w = (.ok a, w')) :
    (app.guarded act vm info).run w = (some a, w') := by
  rw [Application.guarded, run_bind, hact]
  rfl

/-- A failure is routed and gives nothing. -/
theorem guarded_run_error {f : Failure} (hact : act.run w = (.error f, w')) :
    (app.guarded act vm info).run w = (none, ((app.handleFailure f vm info).run w').2) := by
  rw [Application.guarded, run_bind, hact]
  rfl

end

section

variable {app : Application} {K : Supplies} {H : Uid → Prop} {w : World} {u : Uid} {s : Supply}

theorem World.Supplied.options_eq (h : w.Supplied K H) (hu : K u = some s) :
    ((w.instance? u).getD default).options = s.options := by
  obtain ⟨i, hi, rfl⟩ := Option.map_eq_some_iff.1 (h.known u s hu)
  rw [hi]
  rfl

/-- What an instance comes to provide is what is known of it then. -/
theorem provides_initProvide (hkeeps : app.KeepsSupplies) (h : w.Supplied K H)
    (hu : K u = some s) (hnothing : s.provided = []) :
    let w' := ((app.initProvide u).run w).2
    ∃ provided, app.Provides u s.options.provide w provided w' ∧
      w'.Supplied (Function.update K u (some { s with provided := provided })) H := by
  have hsame : Function.update K u (some { s with provided := [] }) = K := by
    rw [← hnothing, ← hu]
    exact Function.update_eq_self u K
  rw [Application.initProvide, run_inst_bind, h.options_eq hu]
  cases s.options.provide with
  | none =>
    refine ⟨[], .nothing, ?_⟩
    rw [hsame]
    exact h
  | some source =>
    have hsource : Run.Preserves (World.Supplied K H) (app.runSource u source) :=
      preserves_runSource (hkeeps K H) source
    have hguarded := (hkeeps K H).guarded supplied_onInstances hsource u "provide()" w h
    dsimp only
    rw [run_bind]
    rcases hrun : (app.runSource u source).run w with ⟨result, w₁⟩
    cases result with
    | error f =>
      rw [guarded_run_error hrun] at hguarded ⊢
      refine ⟨[], .failed hrun, ?_⟩
      rw [hsame]
      exact hguarded
    | ok v =>
      rw [guarded_run_ok hrun] at hguarded ⊢
      have hother (hv : ∀ fields, v ≠ .object fields) :
          let w₂ := ((Run.warn "provide functions should return an object." (some u)).run w₁).2
          ∃ provided, app.Provides u (some source) w provided w₂ ∧
            w₂.Supplied (Function.update K u (some { s with provided := provided })) H := by
        refine ⟨[], .other hrun hv, ?_⟩
        rw [hsame]
        exact preserves_warn supplied_onInstances _ _ w₁ hguarded
      cases v with
      | object fields =>
        refine ⟨fields, .object hrun, hguarded.update hu _ fun i hi => ?_⟩
        subst hi
        exact ⟨rfl, rfl, List.Subset.refl _⟩
      | _ =>
        refine hother fun fields heq => ?_
        cases heq

/-! ## Initializing an instance -/

theorem Application.Initializes.injects {near : String → Option Value} {missing : List String}
    {w' : World} (h : app.Initializes u near w s missing w')
    (hkeys : (Dict.keys s.options.inject).Nodup) {key : String} {inject : InjectOptions}
    (hmem : (key, inject) ∈ s.options.inject) :
    app.Injects near key inject s.injections missing := by
  cases h with
  | intro hresolves hprovides => exact hresolves.injects hkeys hmem

/-- An instance is initialized in stages. -/
theorem setUp_stages (app : Application) (u : Uid) (w : World) :
    let w₁ := ((app.beforeInjections u).run w).2
    let injected := (app.resolveInject u).run w₁
    let w₂ := ((app.withInjections u injected.1).run injected.2).2
    let w₃ := ((app.initProvide u).run w₂).2
    (app.setUp u).run w = (app.whenProvided u w.config.performance).run w₃ := by
  have hrun : (app.setUp u).run w = (do
      app.beforeInjections u
      let injections ← app.resolveInject u
      app.withInjections u injections
      app.initProvide u
      app.whenProvided u w.config.performance : Run Unit).run w := by
    rw [Application.setUp_run]
    unfold Application.whenFilled Application.beforeInjections Application.withInjections
      Application.initInjections
    simp only [bind_assoc]
    rw [run_inst_bind]
    rfl
  rw [hrun]
  generalize app.beforeInjections u = before
  generalize app.resolveInject u = resolve
  generalize app.withInjections u = fill
  generalize app.initProvide u = provide
  generalize app.whenProvided u w.config.performance = finish
  rfl

theorem supplied_beforeInjections (hkeeps : app.KeepsSupplies) (u : Uid) :
    Run.Preserves (World.Supplied K H) (app.beforeInjections u) := by
  refine (preserves_inst u).bind fun i => ?_
  refine (preserves_attach (supplied_permits u) fillsIn_suppliesAs _).bind fun _ => ?_
  refine Run.Preserves.bind ?_ fun _ => ?_
  · exact (supplied_permits u).preserves_update fun _ => ⟨rfl, rfl⟩
  · exact preserves_lifecycleHook (hkeeps K H) supplied_onInstances (supplied_permits u)
      fillsIn_suppliesAs _

/-- What is injected into an instance is known of it when it has its state. -/
theorem supplied_withInjections (hkeeps : app.KeepsSupplies) (h : w.Supplied K H)
    (hu : K u = some s) (injections : Dict Value) :
    ((app.withInjections u injections).run w).2.Supplied
      (Function.update K u (some { s with injections := injections })) H := by
  have hupdated := h.update hu { s with injections := injections }
    (f := fun i => { i with injections := injections }) fun i hi => by
      subst hi
      exact ⟨rfl, rfl, List.Subset.refl _⟩
  rw [Application.withInjections, run_bind]
  exact preserves_initState (hkeeps _ H) supplied_onInstances (supplied_permits u)
    fillsIn_suppliesAs _ hupdated

/-- An instance that provides nothing yet is initialized, and it is known then what it gets and
provides. -/
theorem initializes_setUp (hkeeps : app.KeepsSupplies) {near : String → Option Value}
    (hnear : ∀ w : World, w.Supplied K H → ∀ key, w.provided? key (w.ancestors u) = near key)
    (h : w.Supplied K H) (hu : K u = some s) (hnothing : s.provided = []) :
    ∃ s' missing, s'.parent = s.parent ∧ s'.options = s.options ∧
      app.Initializes u near w s' missing ((app.setUp u).run w).2 ∧
      ((app.setUp u).run w).2.Supplied (Function.update K u (some s')) H := by
  -- The states between the stages.
  let w₁ := ((app.beforeInjections u).run w).2
  let injections := ((app.injectedValues u s.options.inject).run w₁).1
  let w₂ := ((app.injectedValues u s.options.inject).run w₁).2
  let w₃ := ((app.withInjections u injections).run w₂).2
  let w₄ := ((app.initProvide u).run w₃).2
  let K₃ := Function.update K u (some { s with injections := injections })
  have hI := supplied_onInstances (K := K) (H := H)
  have h₁ : w₁.Supplied K H := supplied_beforeInjections hkeeps u w h
  obtain ⟨missing, hresolves⟩ := resolves_injectedValues (hkeeps K H) hI hnear s.options.inject h₁
  have hresolve : (app.resolveInject u).run w₁ = (injections, w₂) := by
    rw [Application.resolveInject, run_inst_bind, h₁.options_eq hu]
    rfl
  have h₂ : w₂.Supplied K H := by
    have hpreserves : Run.Preserves (World.Supplied K H) (app.resolveInject u) :=
      preserves_resolveInject (hkeeps K H) hI
    have hresolved := hpreserves w₁ h₁
    rw [hresolve] at hresolved
    exact hresolved
  have h₃ : w₃.Supplied K₃ H := supplied_withInjections hkeeps h₂ hu injections
  obtain ⟨provided, hprovides, h₄⟩ :=
    provides_initProvide hkeeps h₃ (Function.update_self ..) hnothing
  rw [Function.update_idem] at h₄
  let s' : Supply := { s with injections := injections, provided := provided }
  have hend : (app.setUp u).run w = (app.whenProvided u w.config.performance).run w₄ := by
    refine (setUp_stages app u w).trans ?_
    show (app.whenProvided u _).run ((app.initProvide u).run ((app.withInjections u
      ((app.resolveInject u).run w₁).1).run ((app.resolveInject u).run w₁).2).2).2 = _
    rw [hresolve]
  rw [hend]
  refine ⟨s', missing, rfl, rfl, .intro hresolves hprovides, ?_⟩
  exact preserves_whenProvided (hkeeps _ H) supplied_onInstances (supplied_permits u)
    fillsIn_suppliesAs _ w₄ h₄

end

end ViewTree
