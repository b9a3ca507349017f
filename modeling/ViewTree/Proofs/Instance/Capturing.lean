import ViewTree.Proofs.Instance.Preserving
/-!
# Who captures a failure

The hooks that may capture a failure of an instance stand in one list: those of its nearest living
ancestor first, each ancestor's in the order of its options. They are shown the failure one after
the other until one returns false (`captureAbove_run`). If none does, the failure goes to the error
handler, or becomes one warning (`routes_handleFailure`). A callback that fails is over then, and
what called it goes on (`attends_guarded`).
-/

namespace ViewTree

/-- Everything in a list has its turn, in order, each from the state that the one before it left. -/
inductive InTurn {β : Type} (turn : β → World → World → Prop) : List β → World → World → Prop
  | done {w : World} : InTurn turn [] w w
  | next {b : β} {bs : List β} {w w₁ w' : World} : turn b w w₁ → InTurn turn bs w₁ w' →
    InTurn turn (b :: bs) w w'

namespace World

/-- The capturing hooks of an instance. -/
def capturing (w : World) (u : Uid) : List CallbackId :=
  ((w.instance? u).getD default).options.errorCaptured

/-- The hooks that may capture a failure of an instance: those of its living ancestors, from the
nearest outwards. -/
def captors (w : World) (vm : Uid) : List CallbackId :=
  (w.ancestors vm).flatMap w.capturing

/-- An instance has the same living ancestors in both states, with the same capturing hooks. -/
structure SameCaptors (vm : Uid) (w w' : World) : Prop where
  ancestors : w'.ancestors vm = w.ancestors vm
  capturing : ∀ a ∈ w.ancestors vm, w'.capturing a = w.capturing a

/-- The report that a warning makes. -/
def warning (w : World) (message : String) (vm : Option Uid) : Report :=
  if w.config.warnHandler then .warning message (w.optTrace vm)
  else .log .warn (message ++ w.optTrace vm)

/-- The state after a report. -/
def reporting (w : World) (r : Report) : World :=
  { w with reports := r :: w.reports }

end World

namespace Application

variable (app : Application) (f : Failure) (vm : Uid) (info : String)

/-- A hook is shown a failure, whatever it says to it. -/
def Shows (hook : CallbackId) (w w' : World) : Prop :=
  ((app.errorCaptured hook f vm info).run w).2 = w'

/-- A hook is shown a failure and lets it go on. -/
def PassesOn (hook : CallbackId) (w w' : World) : Prop :=
  (app.errorCaptured hook f vm info).run w = (true, w')

/-- While its ancestors are shown a failure of an instance, the chain of them stays as it is. -/
def KeepsChain (w : World) : Prop :=
  ∀ shown rest w', w.captors vm = shown ++ rest → InTurn (app.Shows f vm info) shown w w' →
    w.SameCaptors vm w'

/-- How a failure of an instance is routed. The first hook that returns false ends it. If there is
none, the failure is given to the error handler, or it is warned of, unless warnings are silenced,
and logged. -/
inductive Routes (w : World) : World → Prop
  | stopped {before after : List CallbackId} {hook : CallbackId} {w₁ w' : World} :
    w.captors vm = before ++ hook :: after → InTurn (app.PassesOn f vm info) before w w₁ →
    (app.errorCaptured hook f vm info).run w₁ = (false, w') → Routes w w'
  | handled {w₁ : World} : InTurn (app.PassesOn f vm info) (w.captors vm) w w₁ →
    w₁.config.errorHandler = true → Routes w (w₁.reporting (.failure f (some vm) info))
  | warned {w₁ : World} : InTurn (app.PassesOn f vm info) (w.captors vm) w w₁ →
    w₁.config.errorHandler = false → w₁.config.silent = false →
      Routes w ((w₁.reporting (w₁.warning s!"Error in {info}: \"{f.message}\"" (some vm))).reporting
        (.log .error f.chain))
  | silenced {w₁ : World} : InTurn (app.PassesOn f vm info) (w.captors vm) w w₁ →
    w₁.config.errorHandler = false → w₁.config.silent = true →
      Routes w (w₁.reporting (.log .error f.chain))

/-- A callback of an instance is called. It gives something, or its failure is routed and it gives
nothing. -/
inductive Attends {α : Type} (act : Run (Except Failure α)) (w : World) : Option α → World → Prop
  | succeeds {a : α} {w' : World} : act.run w = (.ok a, w') → Attends act w (some a) w'
  | fails {f : Failure} {w₁ w' : World} : act.run w = (.error f, w₁) →
    (app.KeepsChain f vm info w₁ → app.Routes f vm info w₁ w') → Attends act w none w'

end Application

/-! ## Turns -/

section

variable {β : Type} {turn turn' : β → World → World → Prop} {bs bs' : List β} {w w₁ w' : World}

theorem InTurn.append (h : InTurn turn bs w w₁) (h' : InTurn turn bs' w₁ w') :
    InTurn turn (bs ++ bs') w w' := by
  induction h with
  | done => exact h'
  | next hturn _ ih => exact .next hturn (ih h')

theorem InTurn.mono (h : InTurn turn bs w w') (himp : ∀ b w w', turn b w w' → turn' b w w') :
    InTurn turn' bs w w' := by
  induction h with
  | done => exact .done
  | next hturn _ ih => exact .next (himp _ _ _ hturn) ih

end

/-! ## Showing a failure -/

section

variable {app : Application} {f : Failure} {vm u p : Uid} {info : String}
  {hooks hooks' : List CallbackId} {w w' : World}

theorem ancestors_eq (w : World) (vm : Uid) :
    w.ancestors vm =
      match w.parent? vm with
      | none => []
      | some parent => if parent < vm then parent :: w.ancestors parent else [] :=
  World.ancestors.eq_def w vm

/-- Behind the nearest ancestor stand the ancestors of that one. -/
theorem ancestors_of_cons {rest : List Uid} (h : w.ancestors u = p :: rest) :
    w.ancestors p = rest := by
  rw [ancestors_eq] at h
  split at h
  · cases h
  · split at h
    · cases h
      rfl
    · cases h

/-- Hooks let a failure go on, or the first that does not is the last that is shown it. -/
theorem captureWith_cases (app : Application) (f : Failure) (vm : Uid) (info : String)
    (hooks : List CallbackId) (w : World) :
    (∃ w', InTurn (app.PassesOn f vm info) hooks w w' ∧
      (app.captureWith f vm info hooks).run w = (true, w')) ∨
    ∃ before hook after w₁ w', hooks = before ++ hook :: after ∧
      InTurn (app.PassesOn f vm info) before w w₁ ∧
      (app.errorCaptured hook f vm info).run w₁ = (false, w') ∧
      (app.captureWith f vm info hooks).run w = (false, w') := by
  induction hooks generalizing w with
  | nil => exact .inl ⟨w, .done, rfl⟩
  | cons hook hooks ih =>
    rw [Application.captureWith, run_bind]
    rcases hrun : (app.errorCaptured hook f vm info).run w with ⟨goesOn, w₁⟩
    cases goesOn with
    | false => exact .inr ⟨[], hook, hooks, w, w₁, rfl, .done, hrun, rfl⟩
    | true =>
      rcases ih w₁ with ⟨w', hpass, hcapture⟩ | ⟨before, stopper, after, w₂, w', rfl, hpass, hstop,
        hcapture⟩
      · exact .inl ⟨w', .next hrun hpass, hcapture⟩
      · exact .inr ⟨hook :: before, stopper, after, w₂, w', rfl, .next hrun hpass, hstop, hcapture⟩

theorem captureWith_append (w : World) :
    (app.captureWith f vm info (hooks ++ hooks')).run w =
      (do if ← app.captureWith f vm info hooks then app.captureWith f vm info hooks'
          else pure false : Run Bool).run w := by
  induction hooks generalizing w with
  | nil => rfl
  | cons hook hooks ih =>
    rw [List.cons_append, Application.captureWith, Application.captureWith, bind_assoc, run_bind,
      run_bind]
    cases ((app.errorCaptured hook f vm info).run w).1 with
    | false => rfl
    | true => exact ih _

/-- The ancestors of `u` are shown a failure of `vm` in the order of their hooks, when those before
them have been shown it. The induction is on `u`, since parents are older than their children; that
the chain above `u` stays as it is goes along with it. -/
theorem captureAbove_run_above {w₀ : World} (hkeeps : app.KeepsChain f vm info w₀) (u : Uid)
    (hsame : ∀ w', w₀.SameCaptors vm w' → w'.ancestors u = w₀.ancestors u)
    (hsub : w₀.ancestors u ⊆ w₀.ancestors vm) {shown : List CallbackId}
    (hcaptors : w₀.captors vm = shown ++ (w₀.ancestors u).flatMap w₀.capturing)
    (hshown : InTurn (app.Shows f vm info) shown w₀ w) :
    (app.captureAbove f vm info u).run w =
      (app.captureWith f vm info ((w₀.ancestors u).flatMap w₀.capturing)).run w := by
  induction u using Nat.strongRecOn generalizing w shown with
  | ind u ih =>
    have hnow : w₀.SameCaptors vm w := hkeeps _ _ _ hcaptors hshown
    have hu := hsame w hnow
    rw [ancestors_eq] at hu
    rw [Application.captureAbove, run_get_bind]
    cases hparent : w.parent? u with
    | none =>
      rw [hparent] at hu
      rw [← hu]
      rfl
    | some p =>
      rw [hparent] at hu
      dsimp only at hu ⊢
      split at hu
      case isFalse hlt =>
        rw [if_neg hlt, ← hu]
        rfl
      case isTrue hlt =>
        have hcons : w₀.ancestors u = p :: w₀.ancestors p := by
          rw [ancestors_of_cons hu.symm]
          exact hu.symm
        rw [hcons] at hsub hcaptors ⊢
        have hhooks : w.capturing p = w₀.capturing p := hnow.capturing p (hsub List.mem_cons_self)
        rw [if_pos hlt, run_inst_bind, List.flatMap_cons, captureWith_append, run_bind, run_bind]
        change (if ((app.captureWith f vm info (w.capturing p)).run w).1 = true then _ else _ :
          Run Bool).run ((app.captureWith f vm info (w.capturing p)).run w).2 = _
        rw [hhooks]
        rcases captureWith_cases app f vm info (w₀.capturing p) w with ⟨w', hpass, hrun⟩ |
          ⟨_, _, _, _, w', _, _, _, hrun⟩
        · rw [hrun]
          refine ih p hlt (fun w' hw' => ?_) (fun a ha => hsub (List.mem_cons_of_mem _ ha)) ?_
            (hshown.append (hpass.mono fun hook w w' h => congrArg Prod.snd h))
          · exact ancestors_of_cons ((hsame w' hw').trans hcons)
          · rw [hcaptors, List.flatMap_cons, List.append_assoc]
        · rw [hrun]
          rfl

/-- Showing a failure to the ancestors one by one is showing it to the list of all their hooks. -/
theorem captureAbove_run (hkeeps : app.KeepsChain f vm info w) :
    (app.captureAbove f vm info vm).run w = (app.captureWith f vm info (w.captors vm)).run w :=
  captureAbove_run_above hkeeps vm (fun _ h => h.ancestors) (List.Subset.refl _) rfl .done

/-! ## What becomes of a failure -/

theorem warn_run (w : World) (message : String) (vm : Option Uid) :
    ((Run.warn message vm).run w).2 =
      if w.config.silent then w else w.reporting (w.warning message vm) := by
  rw [Run.warn, run_get_bind, World.warning]
  cases w.config.silent <;> cases w.config.warnHandler <;> rfl

/-- A failure that nobody stopped is given to the error handler, or it is warned of and logged. -/
theorem routes_failGlobally (hpass : InTurn (app.PassesOn f vm info) (w.captors vm) w w') :
    app.Routes f vm info w ((Run.failGlobally f (some vm) info).run w').2 := by
  rw [Run.failGlobally, run_get_bind]
  cases hhandler : w'.config.errorHandler with
  | true => exact .handled hpass hhandler
  | false =>
    rw [if_neg Bool.false_ne_true, run_bind, warn_run]
    cases hsilent : w'.config.silent with
    | true => exact .silenced hpass hhandler hsilent
    | false => exact .warned hpass hhandler hsilent

theorem routes_handleFailure (hkeeps : app.KeepsChain f vm info w) :
    app.Routes f vm info w ((app.handleFailure f (some vm) info).run w).2 := by
  rw [Application.handleFailure, run_bind, captureAbove_run hkeeps]
  rcases captureWith_cases app f vm info (w.captors vm) w with ⟨w', hpass, hrun⟩ |
    ⟨_, _, _, _, w', hsplit, hpass, hstop, hrun⟩
  · rw [hrun]
    exact routes_failGlobally hpass
  · rw [hrun]
    exact .stopped hsplit hpass hstop

/-- A guarded callback never fails itself. -/
theorem attends_guarded {α : Type} (app : Application) (act : Run (Except Failure α)) (vm : Uid)
    (info : String) (w : World) :
    app.Attends vm info act w ((app.guarded act (some vm) info).run w).1
      ((app.guarded act (some vm) info).run w).2 := by
  rw [Application.guarded, run_bind]
  rcases hact : act.run w with ⟨result, w₁⟩
  cases result with
  | ok a => exact .succeeds hact
  | error f => exact .fails hact routes_handleFailure

end

/-! ## Hooks that only report -/

section

variable {app : Application} {f : Failure} {vm : Uid} {info : String} {w w' w'' : World}

theorem World.SameCaptors.refl (vm : Uid) (w : World) : w.SameCaptors vm w :=
  ⟨rfl, fun _ _ => rfl⟩

theorem World.SameCaptors.trans (h : w.SameCaptors vm w') (h' : w'.SameCaptors vm w'') :
    w.SameCaptors vm w'' := by
  refine ⟨h'.ancestors.trans h.ancestors, fun a ha => ?_⟩
  rw [← h.capturing a ha]
  exact h'.capturing a (h.ancestors ▸ ha)

/-- Who lives does not depend on what was reported. -/
theorem alive_reporting (w : World) (r : Report) (u : Uid) :
    (w.reporting r).alive u = w.alive u := by
  induction u using Nat.strongRecOn with
  | ind u ih =>
    rw [World.alive, World.alive]
    change (w.held u || match (w.instance? u).bind (·.parent) with
      | none => false
      | some parent =>
        if parent < u then
          ((w.instance? parent).map (·.children.contains u)).getD false &&
            (w.reporting r).alive parent
        else false) = _
    cases (w.instance? u).bind (·.parent) with
    | none => rfl
    | some parent =>
      dsimp only
      split
      case isTrue hlt => rw [ih parent hlt]
      case isFalse => rfl

theorem ancestors_reporting (w : World) (r : Report) (u : Uid) :
    (w.reporting r).ancestors u = w.ancestors u := by
  induction u using Nat.strongRecOn with
  | ind u ih =>
    have hparent : (w.reporting r).parent? u = w.parent? u :=
      congrArg (((w.instance? u).bind (·.parent)).filter ·) (funext (alive_reporting w r))
    rw [ancestors_eq, ancestors_eq, hparent]
    cases w.parent? u with
    | none => rfl
    | some parent =>
      dsimp only
      split
      case isTrue hlt => rw [ih parent hlt]
      case isFalse => rfl

theorem sameCaptors_reporting (vm : Uid) (w : World) (r : Report) :
    w.SameCaptors vm (w.reporting r) :=
  ⟨ancestors_reporting w r vm, fun _ _ => rfl⟩

theorem keepsChain_of_sameCaptors
    (h : ∀ hook (w : World), w.SameCaptors vm ((app.errorCaptured hook f vm info).run w).2) :
    app.KeepsChain f vm info w := by
  intro shown rest w' hcaptors hshown
  clear hcaptors
  induction hshown with
  | done => exact .refl vm _
  | next hshows _ ih => exact (hshows ▸ h _ _).trans ih

/-- The capturing hooks of scripts write notes and do nothing else. -/
theorem keepsChain_application (code : Code) (depth : Nat) (f : Failure) (vm : Uid) (info : String)
    (w : World) : (code.application depth).KeepsChain f vm info w := by
  refine keepsChain_of_sameCaptors fun hook w => ?_
  cases depth with
  | zero => exact .refl vm w
  | succ depth =>
    rw [Code.application]
    dsimp only
    split
    · exact sameCaptors_reporting vm w _
    · exact .refl vm w

end

end ViewTree
