import ViewTree.Proofs.Instance.Tracing
/-!
# Runs that make notes

What happens in a run can be noted by a second run that does the same. The notes of a run only
grow, and something can be said of the notes and the state together that stays true, provided that
a condition holds of the notes made before (`AnnotatesIf`). Parts of a run that leave watchers as
they are go without notes.
-/

namespace ViewTree

/-! ## Notes -/

/-- A run that makes notes. -/
abbrev Noting (σ : Type) := StateT (List σ) Run

/-- A run does what another does, and makes notes that go with the state as `J` says, if the notes
before it are such that a condition holds. -/
structure AnnotatesIf {σ α : Type} (J : World → List σ → Prop) (P : List σ → Prop)
    (t : Noting σ α) (m : Run α) : Prop where
  erases : ∀ notes w, let r := (t.run notes).run w
    (r.1.1, r.2) = m.run w
  adds : ∀ notes w, notes <+: ((t.run notes).run w).1.2
  noted : ∀ {notes w}, P notes → J w notes → let r := (t.run notes).run w
    J r.2 r.1.2

/-- A run does what another does, and makes notes that go with the state as `J` says. -/
abbrev Annotates {σ α : Type} (J : World → List σ → Prop) (t : Noting σ α) (m : Run α) : Prop :=
  AnnotatesIf J (fun _ => True) t m

/-- A condition goes on to hold, whatever is noted next. -/
def Stable {σ : Type} (P : List σ → Prop) : Prop :=
  ∀ notes after : List σ, notes <+: after → P notes → P after

section

variable {σ α β : Type} {J : World → List σ → Prop} {P Q : List σ → Prop} {t : Noting σ α}
  {m : Run α}

theorem annotates_pure (a : α) : Annotates J (pure a) (pure a) :=
  ⟨fun _ _ => rfl, fun _ _ => List.prefix_rfl, fun _ h => h⟩

theorem AnnotatesIf.mono (ht : AnnotatesIf J P t m) (hPQ : ∀ l, Q l → P l) :
    AnnotatesIf J Q t m :=
  ⟨ht.erases, ht.adds, fun hQ h => ht.noted (hPQ _ hQ) h⟩

/-- What holds without a condition holds under any. -/
theorem Annotates.under (ht : Annotates J t m) : AnnotatesIf J P t m :=
  ht.mono fun _ _ => trivial

theorem AnnotatesIf.bind {f : α → Noting σ β} {g : α → Run β} (hP : Stable P)
    (ht : AnnotatesIf J P t m) (hf : ∀ a, AnnotatesIf J P (f a) (g a)) :
    AnnotatesIf J P (t >>= f) (m >>= g) := by
  constructor
  · intro notes w
    let r := (t.run notes).run w
    have hrun : (m >>= g).run w = (g r.1.1).run r.2 := by
      show (g (m.run w).1).run (m.run w).2 = _
      rw [← ht.erases notes w]
    rw [hrun]
    exact (hf r.1.1).erases r.1.2 r.2
  · intro notes w
    let r := (t.run notes).run w
    exact (ht.adds notes w).trans ((hf r.1.1).adds r.1.2 r.2)
  · intro notes w hbefore h
    let r := (t.run notes).run w
    exact (hf r.1.1).noted (hP _ _ (ht.adds notes w) hbefore) (ht.noted hbefore h)

theorem Annotates.bind {f : α → Noting σ β} {g : α → Run β} (ht : Annotates J t m)
    (hf : ∀ a, Annotates J (f a) (g a)) : Annotates J (t >>= f) (m >>= g) :=
  AnnotatesIf.bind (fun _ _ _ h => h) ht hf

theorem Annotates.discard (ht : Annotates J t m) : Annotates J (discard t) (discard m) :=
  ht.bind fun _ => annotates_pure _

theorem annotates_evalM {lookup : String → Noting σ (Option Value)}
    {lookup' : String → Run (Option Value)} (h : ∀ key, Annotates J (lookup key) (lookup' key))
    (e : Expr) : Annotates J (e.evalM lookup) (e.evalM lookup') := by
  unfold Expr.evalM
  cases e.root? with
  | none => exact annotates_pure _
  | some root => exact (h root).bind fun v => annotates_pure _

/-- A step that changes the state and makes notes, and what comes after it. -/
theorem annotatesIf_step {k : World → Noting σ α} {r : World → Run α} (next : World → World)
    (added : World → List σ) (hP : Stable P)
    (ht : ∀ notes w, (t.run notes).run w = ((k w).run (notes ++ added w)).run (next w))
    (hm : ∀ w, m.run w = (r w).run (next w)) (hk : ∀ w, AnnotatesIf J P (k w) (r w))
    (hstep : ∀ {notes w}, P notes → J w notes → J (next w) (notes ++ added w)) :
    AnnotatesIf J P t m := by
  constructor
  · intro notes w
    rw [ht, hm]
    exact (hk w).erases _ _
  · intro notes w
    rw [ht]
    exact (List.prefix_append notes _).trans ((hk w).adds _ _)
  · intro notes w hbefore h
    rw [ht]
    exact (hk w).noted (hP _ _ (List.prefix_append notes _) hbefore) (hstep hbefore h)

/-- A step that is made on a condition, and what comes after it or instead of it. -/
theorem annotatesIf_step_if {k j : Noting σ α} {k' j' : Run α} (c : World → Bool)
    (next : World → World) (added : World → List σ) (hP : Stable P)
    (ht : ∀ notes w, (t.run notes).run w =
      if c w then (k.run (notes ++ added w)).run (next w) else (j.run notes).run w)
    (hm : ∀ w, m.run w = if c w then k'.run (next w) else j'.run w)
    (hk : AnnotatesIf J P k k') (hj : AnnotatesIf J P j j')
    (hstep : ∀ {notes w}, c w → P notes → J w notes → J (next w) (notes ++ added w)) :
    AnnotatesIf J P t m := by
  refine annotatesIf_step (k := fun w => if c w then k else j)
    (r := fun w => if c w then k' else j') (fun w => if c w then next w else w)
    (fun w => if c w then added w else []) hP (fun notes w => ?_) (fun w => ?_)
    (fun w => ?_) fun {notes w} hnotes h => ?_
  · rw [ht]
    split
    · rfl
    · rw [List.append_nil]
  · rw [hm]
    split
    · rfl
    · rfl
  · split
    · exact hk
    · exact hj
  · split
    · rename_i hc
      exact hstep hc hnotes h
    · rw [List.append_nil]
      exact h

end

/-! ## What leaves watchers as they are -/

/-- A run leaves all watchers as they are. -/
def KeepsWatching {α : Type} (m : Run α) : Prop :=
  ∀ w vm, (m.run w).2.watching vm = w.watching vm

section

variable {α β : Type} {m : Run α}

theorem keepsWatching_pure (a : α) : KeepsWatching (pure a) :=
  fun _ _ => rfl

theorem KeepsWatching.bind {f : α → Run β} (hm : KeepsWatching m) (hf : ∀ a, KeepsWatching (f a)) :
    KeepsWatching (m >>= f) :=
  fun w vm => (hf _ _ vm).trans (hm w vm)

theorem keepsWatching_get : KeepsWatching (get : Run World) :=
  fun _ _ => rfl

theorem keepsWatching_inst (vm : Uid) : KeepsWatching (Run.inst vm) :=
  fun _ _ => rfl

theorem keepsWatching_report (r : Report) : KeepsWatching (Run.report r) :=
  fun _ _ => rfl

theorem keepsWatching_warn (message : String) (vm : Option Uid) :
    KeepsWatching (Run.warn message vm) := by
  refine keepsWatching_get.bind fun w => ?_
  split
  · split
    · exact keepsWatching_report _
    · exact keepsWatching_report _
  · exact keepsWatching_pure _

theorem keepsWatching_failGlobally (f : Failure) (vm : Option Uid) (info : String) :
    KeepsWatching (Run.failGlobally f vm info) := by
  refine keepsWatching_get.bind fun w => ?_
  split
  · exact keepsWatching_report _
  · exact (keepsWatching_warn _ vm).bind fun _ => keepsWatching_report _

/-- A change to an instance leaves the watchers of others as they are. -/
theorem watching_update_of_ne {vm vm' : Uid} (hne : vm ≠ vm') (f : Instance → Instance)
    (w : World) : ((Run.update vm f).run w).2.watching vm' = w.watching vm' := by
  have hsame : ((Run.update vm f).run w).2.instance? vm' = w.instance? vm' :=
    List.getElem?_modify_ne f w.instances hne
  rw [World.watching, hsame]
  rfl

theorem watching_update_self (vm : Uid) (f : Instance → Instance) (w : World) :
    ((Run.update vm f).run w).2.watching vm =
      match w.instance? vm with
      | some i => ((f i).watchers, (f i).nextWatcher)
      | none => w.watching vm := by
  have hchanged : ((Run.update vm f).run w).2.instance? vm = (w.instance? vm).map f :=
    List.getElem?_modify_eq f vm w.instances
  rw [World.watching, hchanged]
  cases hi : w.instance? vm with
  | some i => rfl
  | none =>
    rw [World.watching, hi]
    rfl

theorem keepsWatching_update {vm : Uid} {f : Instance → Instance}
    (hf : ∀ i, (f i).watchers = i.watchers ∧ (f i).nextWatcher = i.nextWatcher) :
    KeepsWatching (Run.update vm f) := by
  intro w vm'
  by_cases heq : vm = vm'
  · subst heq
    rw [watching_update_self]
    cases hi : w.instance? vm with
    | some i =>
      rw [World.watching, hi]
      exact Prod.ext (hf i).1 (hf i).2
    | none => rfl
  · exact watching_update_of_ne heq f w

/-- What the notes say of the watchers only depends on the watchers. -/
def AboutWatching {σ : Type} (J : World → List σ → Prop) : Prop :=
  ∀ (w w' : World) (notes : List σ), (∀ vm, w'.watching vm = w.watching vm) → J w notes → J w' notes

/-- What leaves watchers as they are goes without a note. -/
theorem AboutWatching.annotates_lift {σ : Type} {J : World → List σ → Prop}
    (hJ : AboutWatching J) (hm : KeepsWatching m) : Annotates J (m : Noting σ α) m :=
  ⟨fun _ _ => rfl, fun _ _ => List.prefix_rfl, fun _ h => hJ _ _ _ (hm _) h⟩

end

end ViewTree
