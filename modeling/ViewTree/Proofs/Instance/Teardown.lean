import Mathlib.Data.List.Nodup
import ViewTree.Proofs.Instance.FamilyTree
/-!
# Tearing down a subtree

Tearing an instance down comes to a list of steps: it begins, its children are torn down one after
the other, and it ends (`Teardown`). The steps visit every instance of the subtree once. When the
turn of an instance comes, it is open and has the children it had at the start, and its parent has
begun; this is handed on along the steps (`Ready`).
-/

namespace ViewTree

/-! ## Steps -/

/-- A step of tearing instances down. -/
inductive TeardownStep where
  | begins (vm : Uid)
  | ends (vm : Uid)
  | releases (vm : Uid)
deriving DecidableEq

namespace TeardownStep

variable (app : Application)

/-- An instance begins to be torn down: its hooks run, and it loses its children, which are kept
alive until they are torn down themselves. -/
def begin (vm : Uid) : Run (List Uid) := do
  app.callHook vm .beforeDestroy
  Run.update vm fun i => { i with beingDestroyed := true }
  Application.unlink vm
  let children := (← Run.inst vm).children
  Run.update vm fun i => { i with children := [] }
  modify fun w => { w with pins := children ++ w.pins }
  pure children

/-- Performs a step. -/
def perform : TeardownStep → Run Unit
  | begins vm => discard (begin app vm)
  | ends vm => do
    Run.update vm fun i => { i with watchers := [], vnode := none, destroyed := true }
    app.callHook vm .destroyed
    Run.offAll vm
  | releases vm => modify fun w => { w with pins := w.pins.erase vm }

/-- Performs steps one after the other. -/
def performAll : List TeardownStep → Run Unit
  | [] => pure ()
  | step :: steps => do
    step.perform app
    performAll steps

theorem performAll_append (steps steps' : List TeardownStep) (w : World) :
    (performAll app (steps ++ steps')).run w =
      (performAll app steps').run ((performAll app steps).run w).2 := by
  induction steps generalizing w with
  | nil => rfl
  | cons step steps ih => exact ih ((step.perform app).run w).2

/-- The instances that begin to be torn down, in order. -/
def begun (steps : List TeardownStep) : List Uid :=
  steps.filterMap fun
    | begins vm => some vm
    | _ => none

/-- The instances whose teardown ends, in order. -/
def ended (steps : List TeardownStep) : List Uid :=
  steps.filterMap fun
    | ends vm => some vm
    | _ => none

end TeardownStep

open TeardownStep

/-- The steps that tear down some instances with their descendants. -/
inductive Teardown (children : Uid → List Uid) : List Uid → List TeardownStep → Prop
  | nil : Teardown children [] []
  | cons {vm : Uid} {rest : List Uid} {below after : List TeardownStep} :
    Teardown children (children vm) below → Teardown children rest after →
      Teardown children (vm :: rest) (begins vm :: below ++ ends vm :: releases vm :: after)

/-- The children that an instance lists. -/
def Links.childrenOf (L : Links) (u : Uid) : List Uid :=
  ((L u).map (·.children)).getD []

namespace Links

variable {L : Links} {H : Uid → Prop} {us : List Uid} {steps : List TeardownStep}

theorem mem_childrenOf {u c : Uid} : c ∈ L.childrenOf u ↔ ∃ l, L u = some l ∧ c ∈ l.children := by
  unfold childrenOf
  cases L u with
  | none => simp
  | some l => simp

theorem begun_cons (vm : Uid) (below after : List TeardownStep) :
    begun (begins vm :: below ++ ends vm :: releases vm :: after) =
      vm :: begun below ++ begun after := by
  simp [begun]

theorem ended_cons (vm : Uid) (below after : List TeardownStep) :
    ended (begins vm :: below ++ ends vm :: releases vm :: after) =
      ended below ++ vm :: ended after := by
  simp [ended]

/-- An instance whose teardown begins ends it, and the other way round. -/
theorem ended_perm {children : Uid → List Uid} (h : Teardown children us steps) :
    (ended steps).Perm (begun steps) := by
  induction h with
  | nil => exact .nil
  | @cons vm rest below after _ _ ihbelow ihafter =>
    rw [begun_cons, ended_cons]
    exact List.perm_middle.trans ((ihbelow.append ihafter).cons vm)

/-- What is under an instance is it, or under one of its children. -/
theorem under_iff {v u : Uid} : L.Under v u ↔ u = v ∨ ∃ c ∈ L.childrenOf v, L.Under c u := by
  constructor
  · intro h
    induction h with
    | self => exact .inl rfl
    | @child u c l hu hl hc ih =>
      rcases ih with rfl | ⟨d, hd, hdu⟩
      · exact .inr ⟨c, mem_childrenOf.2 ⟨l, hl, hc⟩, .self⟩
      · exact .inr ⟨d, hd, .child hdu hl hc⟩
  · rintro (rfl | ⟨c, hc, hu⟩)
    · exact .self
    · obtain ⟨l, hl, hcl⟩ := mem_childrenOf.1 hc
      induction hu with
      | self => exact .child .self hl hcl
      | child _ hlu hcu ih => exact .child ih hlu hcu

/-- The steps begin with just the instances of the subtrees. -/
theorem mem_begun (h : Teardown L.childrenOf us steps) {u : Uid} :
    u ∈ begun steps ↔ ∃ v ∈ us, L.Under v u := by
  induction h with
  | nil => simp [begun]
  | @cons vm rest below after _ _ ihbelow ihafter =>
    rw [begun_cons, List.cons_append, List.mem_cons, List.mem_append, ihbelow, ihafter, ← or_assoc,
      ← under_iff, List.exists_mem_cons_iff]

/-- There are steps that tear down any instances. -/
theorem Forest.exists_teardown (h : L.Forest H) {n : Nat} (hn : ∀ u l, L u = some l → u < n)
    (us : List Uid) : ∃ steps, Teardown L.childrenOf us steps := by
  -- The induction is on how much younger than an instance others can be.
  have hdepth (d : Nat) : ∀ us : List Uid, (∀ u ∈ us, n - u ≤ d) →
      ∃ steps, Teardown L.childrenOf us steps := by
    induction d with
    | zero =>
      intro us hus
      induction us with
      | nil => exact ⟨[], .nil⟩
      | cons u us ih =>
        have hnone : L.childrenOf u = [] := by
          refine List.eq_nil_iff_forall_not_mem.2 fun c hc => ?_
          obtain ⟨l, hl, -⟩ := mem_childrenOf.1 hc
          exact absurd (hus u List.mem_cons_self) (Nat.not_le_of_lt (Nat.sub_pos_of_lt (hn u l hl)))
        obtain ⟨after, hafter⟩ := ih fun v hv => hus v (List.mem_cons_of_mem u hv)
        have hbelow : Teardown L.childrenOf (L.childrenOf u) [] := by
          rw [hnone]
          exact .nil
        exact ⟨_, .cons hbelow hafter⟩
    | succ d ihd =>
      intro us hus
      induction us with
      | nil => exact ⟨[], .nil⟩
      | cons u us ih =>
        obtain ⟨below, hbelow⟩ := ihd (L.childrenOf u) fun c hc => by
          obtain ⟨l, hl, hcl⟩ := mem_childrenOf.1 hc
          have hlt := Nat.sub_lt_sub_left (hn u l hl) (h.lt_of_mem hl hcl)
          exact Nat.le_of_lt_succ (Nat.lt_of_lt_of_le hlt (hus u List.mem_cons_self))
        obtain ⟨after, hafter⟩ := ih fun v hv => hus v (List.mem_cons_of_mem u hv)
        exact ⟨_, .cons hbelow hafter⟩
  exact hdepth n us fun u _ => Nat.sub_le n u

/-- The subtrees of siblings have nothing in common. -/
theorem Forest.siblings_disjoint (h : L.Forest H) {p u u' : Uid} (hu : u ∈ L.childrenOf p)
    (hu' : u' ∈ L.childrenOf p) {x : Uid} (hx : L.Under u x) (hx' : L.Under u' x) : u = u' := by
  obtain ⟨lp, hlp, hulp⟩ := mem_childrenOf.1 hu
  obtain ⟨lp', hlp', hulp'⟩ := mem_childrenOf.1 hu'
  -- No sibling is under another: its parent would be, and that is older.
  have hnot {a b : Uid} (ha : ∃ l, L p = some l ∧ a ∈ l.children)
      (hb : ∃ l, L p = some l ∧ b ∈ l.children) (hab : L.Under a b) : a = b := by
    obtain ⟨l, hl, hal⟩ := ha
    obtain ⟨l', hl', hbl⟩ := hb
    by_contra hne
    obtain ⟨lb, hlb, hparent, -⟩ := h.parent_of_mem hl' hbl
    have hp := h.under_parent hab (Ne.symm hne) hlb hparent
    exact absurd (h.le_of_under hp) (Nat.not_le_of_lt (h.lt_of_mem hl hal))
  induction hx with
  | self => exact (hnot (mem_childrenOf.1 hu') (mem_childrenOf.1 hu) hx').symm
  | @child y c l hy hl hc ih =>
    by_cases hcu : c = u'
    · subst hcu
      exact hnot (mem_childrenOf.1 hu) (mem_childrenOf.1 hu') (.child hy hl hc)
    · obtain ⟨lc, hlc, hparent, -⟩ := h.parent_of_mem hl hc
      exact ih (h.under_parent hx' hcu hlc hparent)

theorem Forest.childrenOf_nodup (h : L.Forest H) (u : Uid) : (L.childrenOf u).Nodup := by
  unfold childrenOf
  cases hl : L u with
  | none => exact .nil
  | some l => exact (h.ordered u l hl).imp Nat.ne_of_lt

/-- Every instance begins to be torn down once. -/
theorem Forest.begun_nodup (h : L.Forest H) (ht : Teardown L.childrenOf us steps) {p : Uid}
    (hus : ∀ u ∈ us, u ∈ L.childrenOf p) (hnodup : us.Nodup) : (begun steps).Nodup := by
  induction ht generalizing p with
  | nil => exact .nil
  | @cons vm rest below after hbelow hafter ihbelow ihafter =>
    have hvm := hus vm List.mem_cons_self
    obtain ⟨hnotin, hrest⟩ := List.nodup_cons.1 hnodup
    have hother {x v : Uid} (hv : v ∈ rest) (hx : L.Under vm x) (hx' : L.Under v x) : False :=
      hnotin (h.siblings_disjoint hvm (hus v (List.mem_cons_of_mem vm hv)) hx hx' ▸ hv)
    rw [begun_cons, List.cons_append, List.nodup_cons, List.mem_append, not_or,
      List.nodup_append]
    refine ⟨⟨fun hmem => ?_, fun hmem => ?_⟩, ihbelow (fun _ hu => hu) (h.childrenOf_nodup vm),
      ihafter (fun u hu => hus u (List.mem_cons_of_mem vm hu)) hrest, fun x hx y hy heq => ?_⟩
    · obtain ⟨c, hc, hcx⟩ := (mem_begun hbelow).1 hmem
      obtain ⟨l, hl, hcl⟩ := mem_childrenOf.1 hc
      exact absurd (h.le_of_under hcx) (Nat.not_le_of_lt (h.lt_of_mem hl hcl))
    · obtain ⟨v, hv, hvx⟩ := (mem_begun hafter).1 hmem
      exact hother hv .self hvx
    · subst heq
      obtain ⟨c, hc, hcx⟩ := (mem_begun hbelow).1 hx
      obtain ⟨v, hv, hvx⟩ := (mem_begun hafter).1 hy
      exact hother hv (under_iff.2 (.inr ⟨c, hc, hcx⟩)) hvx

/-! ## What the steps find -/

/-- The link of an instance whose children are being torn down. -/
def closing (l : Link) : Link :=
  { l with children := [], beingDestroyed := true }

theorem close_close (L : Links) (S T : List Uid) : (L.close S).close T = L.close (S ++ T) := by
  funext u
  simp only [close, List.mem_append]
  by_cases hS : u ∈ S
  · by_cases hT : u ∈ T
    · simp only [hS, hT, if_true, or_true, Option.map_map]
      rfl
    · simp only [hS, hT, if_true, if_false, or_false]
  · simp only [hS, if_false, false_or]

theorem close_of_not_mem {S : List Uid} {u : Uid} (hu : u ∉ S) : L.close S u = L u :=
  if_neg hu

/-- An instance closes after its children have. -/
theorem closing_close {u : Uid} {l : Link} (hl : L u = some l) (S : List Uid) :
    Function.update (close (Function.update L u (some (closing l))) S) u
        (some { closing l with destroyed := true }) = L.close (u :: S) := by
  funext v
  by_cases hv : v = u
  · subst hv
    rw [Function.update_self, close, if_pos List.mem_cons_self, hl]
    rfl
  · rw [Function.update_of_ne hv, close, close, Function.update_of_ne hv]
    simp only [List.mem_cons, hv, false_or]

/-- Tearing down changes no parents. -/
theorem parent_close (L : Links) (S : List Uid) (u : Uid) :
    (L.close S u).bind (·.parent) = (L u).bind (·.parent) := by
  unfold close
  split
  · cases L u with
    | none => rfl
    | some l => rfl
  · rfl

theorem parent_closing {u : Uid} {l : Link} (hl : L u = some l) (v : Uid) :
    (Function.update L u (some (closing l)) v).bind (·.parent) = (L v).bind (·.parent) := by
  by_cases hv : v = u
  · subst hv
    rw [Function.update_self, hl]
    rfl
  · rw [Function.update_of_ne hv]

/-- The teardown of some instances can go on: those to come are open and have the children that they
had at the start, and the parents of the next have begun. -/
structure Ready (L : Links) (children : Uid → List Uid) (n : Nat) (us : List Uid)
    (steps : List TeardownStep) : Prop where
  nodup : (begun steps).Nodup
  still_open : ∀ u ∈ begun steps, ∃ l, L u = some l ∧ l.beingDestroyed = false ∧
    l.children = children u
  child : ∀ u ∈ begun steps, ∀ c ∈ children u, u < c ∧ c < n ∧ (L c).bind (·.parent) = some u
  parent_begun : ∀ u ∈ us, ∃ p lp, (L u).bind (·.parent) = some p ∧ L p = some lp ∧
    lp.beingDestroyed = true

section

variable {children : Uid → List Uid} {n : Nat} {vm : Uid} {rest : List Uid}
  {below after : List TeardownStep}

/-- The parent of the instance whose turn it is has begun, and is another one since the instance has
not. -/
theorem Ready.first_parent {steps : List TeardownStep}
    (h : L.Ready children n (vm :: rest) steps) {l : Link} (hl : L vm = some l)
    (hopen : l.beingDestroyed = false) (p : Uid) (hp : l.parent = some p) :
    p ≠ vm ∧ ∃ lp, L p = some lp ∧ lp.beingDestroyed = true := by
  obtain ⟨q, lq, hq, hlq, hbegun⟩ := h.parent_begun vm List.mem_cons_self
  have hqp : q = p := by
    rw [hl] at hq
    exact Option.some.inj (hq.symm.trans hp)
  subst hqp
  refine ⟨?_, lq, hlq, hbegun⟩
  rintro rfl
  rw [hl] at hlq
  cases hlq
  rw [hopen] at hbegun
  cases hbegun

/-- The children come next. -/
theorem Ready.goesDown
    (h : L.Ready children n (vm :: rest) (begins vm :: below ++ ends vm :: releases vm :: after))
    {l : Link} (hl : L vm = some l) :
    Ready (Function.update L vm (some (closing l))) children n (children vm) below := by
  have hnodup := h.nodup
  rw [begun_cons, List.cons_append, List.nodup_cons, List.nodup_append] at hnodup
  have hmem {u : Uid} (hu : u ∈ begun below) :
      u ∈ begun (begins vm :: below ++ ends vm :: releases vm :: after) := by
    rw [begun_cons]
    exact List.mem_append_left _ (List.mem_cons_of_mem vm hu)
  refine ⟨hnodup.2.1, fun u hu => ?_, fun u hu c hc => ?_, fun u hu => ?_⟩
  · have hne : u ≠ vm := fun heq => hnodup.1 (List.mem_append_left _ (heq ▸ hu))
    rw [Function.update_of_ne hne]
    exact h.still_open u (hmem hu)
  · rw [parent_closing hl]
    exact h.child u (hmem hu) c hc
  · have hvm : vm ∈ begun (begins vm :: below ++ ends vm :: releases vm :: after) := by
      rw [begun_cons]
      exact List.mem_append_left _ List.mem_cons_self
    have hchild := (h.child vm hvm u hu).2.2
    rw [← parent_closing hl] at hchild
    exact ⟨vm, closing l, hchild, Function.update_self .., rfl⟩

/-- The siblings come after an instance is torn down. -/
theorem Ready.goesOn
    (h : L.Ready children n (vm :: rest) (begins vm :: below ++ ends vm :: releases vm :: after)) :
    (L.close (vm :: begun below)).Ready children n rest after := by
  have hnodup := h.nodup
  rw [begun_cons, List.nodup_append] at hnodup
  have hmem {u : Uid} (hu : u ∈ begun after) :
      u ∈ begun (begins vm :: below ++ ends vm :: releases vm :: after) := by
    rw [begun_cons]
    exact List.mem_append_right _ hu
  refine ⟨hnodup.2.1, fun u hu => ?_, fun u hu c hc => ?_, fun u hu => ?_⟩
  · rw [close_of_not_mem fun hclosed => hnodup.2.2 u hclosed u hu rfl]
    exact h.still_open u (hmem hu)
  · rw [parent_close]
    exact h.child u (hmem hu) c hc
  · obtain ⟨p, lp, hp, hlp, hbegun⟩ := h.parent_begun u (List.mem_cons_of_mem vm hu)
    rw [parent_close]
    by_cases hclosed : p ∈ vm :: begun below
    · exact ⟨p, closed lp, hp, by rw [close, if_pos hclosed, hlp, Option.map_some], rfl⟩
    · exact ⟨p, lp, hp, (close_of_not_mem hclosed).trans hlp, hbegun⟩

end

end Links

end ViewTree
