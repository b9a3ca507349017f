import Mathlib.Data.List.Infix
import ViewTree.Proofs.Component.Transparency
import ViewTree.Proofs.Component.WatchTracking
/-!
# Watchers are listed once

However often a definition is resolved, it should list every watcher that is registered with it or
an ancestor, and list it once. `watched_once_iff` says that none is ever lost, and that all are
listed once all along a run of operations exactly if the run never comes to a definition that
doubles watchers (`World.Doubles`). What doubles them is that late edits are carried over as a whole
watch map, in which the inherited watchers stand already; inherited hooks are left out there.
-/

namespace ViewTree

namespace World

/-- The handlers that a run of operations registers for an expression. -/
def registered (w : World) (expr : String) : List Op → Registered
  | [] => []
  | op :: ops => op.registers w expr ++ registered (op.run.run w).2 expr ops

/-- Every operation of a run is on a definition that exists, and keeps what is listed. -/
def KeepsWatchers (w : World) : List Op → Prop
  | [] => True
  | op :: ops => op.KeepsWatchers w ∧ KeepsWatchers (op.run.run w).2 ops

/-- No handler is registered twice for an expression. -/
def RegistersOnce (w : World) (ops : List Op) : Prop :=
  ∀ expr, ((w.registered expr ops).map (·.2)).Nodup

/-- A definition that is resolved lists all handlers that are registered with it and its
ancestors. -/
def ListsAll (w : World) (regs : String → Registered) (cid : Cid) : Prop :=
  ∀ expr, ∀ c ∈ lineage (parentsOf w.definitions) cid, ∀ id ∈ handlersOf (regs expr) c,
    id ∈ listed (w.resolved cid).watch expr

/-- A definition that is resolved lists no handler twice for an expression. -/
def ListsOnce (w : World) (cid : Cid) : Prop :=
  ∀ expr, (listed (w.resolved cid).watch expr).Nodup

variable {w : World} {ops ops' : List Op}

theorem registered_append (w : World) (expr : String) (ops ops' : List Op) :
    w.registered expr (ops ++ ops') =
      w.registered expr ops ++ (w.after ops).registered expr ops' := by
  induction ops generalizing w with
  | nil => rfl
  | cons op ops ih =>
    rw [List.cons_append, registered, registered, ih, List.append_assoc]
    rfl

theorem KeepsWatchers.left (h : w.KeepsWatchers (ops ++ ops')) : w.KeepsWatchers ops := by
  induction ops generalizing w with
  | nil => trivial
  | cons op ops ih => exact ⟨h.1, ih h.2⟩

theorem RegistersOnce.left (h : w.RegistersOnce (ops ++ ops')) : w.RegistersOnce ops := by
  intro expr
  have hnodup := h expr
  rw [registered_append, List.map_append] at hnodup
  exact hnodup.of_append_left

end World

section

variable {single : Prop} {w : World} {ops : List Op} {regs : String → Registered} {cid : Cid}

/-- A run is accounted for, and lists nothing twice if none of its operations finds a definition
that doubles watchers. -/
theorem accounts_run (ht : Accounts single w.definitions regs) (hkeeps : w.KeepsWatchers ops)
    (hnodup : ∀ expr, ((regs expr ++ w.registered expr ops).map (·.2)).Nodup)
    (hsingle : single → ∀ before, before <+: ops → before ≠ ops → ¬ (w.after before).Doubles) :
    Accounts single (w.after ops).definitions fun expr => regs expr ++ w.registered expr ops := by
  induction ops generalizing w regs with
  | nil =>
    simp only [World.registered, List.append_nil]
    exact ht
  | cons op ops ih =>
    have hstep : Accounts single (op.run.run w).2.definitions
        fun expr => regs expr ++ op.registers w expr := by
      refine ht.step (fun h => hsingle h [] List.nil_prefix (List.cons_ne_nil op ops).symm) hkeeps.1
        fun expr => ?_
      have hall := hnodup expr
      rw [World.registered, ← List.append_assoc, List.map_append] at hall
      exact hall.of_append_left
    simp only [World.registered, ← List.append_assoc] at hnodup ⊢
    refine ih hstep hkeeps.2 hnodup fun h before hbefore hne => ?_
    exact hsingle h (op :: before) (List.cons_prefix_cons.2 ⟨rfl, hbefore⟩)
      fun heq => hne (List.cons.inj heq).2

theorem listsAll_of_accounts (ht : Accounts False w.definitions regs)
    (hlt : cid < w.definitions.length) : w.ListsAll regs cid := by
  intro expr c hc id hid
  refine (resolve_accounts ht False.elim hlt).complete expr (mem_handlersAlong.2 ⟨c, hc, ?_⟩)
  exact mem_handlersOf.1 hid

/-- Where no definition doubles watchers, resolving lists every handler once. -/
theorem listsOnce_of_single (ht : Accounts True w.definitions regs)
    (hnodup : ∀ expr, ((regs expr).map (·.2)).Nodup) (hsingle : ¬ w.Doubles)
    (hlt : cid < w.definitions.length) : w.ListsOnce cid := by
  intro expr
  have hlists := (resolve_accounts ht (fun _ => hsingle) hlt).lists trivial expr
  exact hlists.nodup_iff.2 (nodup_handlersAlong (hnodup expr) cid)

/-- Where resolving lists every handler once, no definition doubles watchers. -/
theorem single_of_listsOnce (ht : Accounts False w.definitions regs)
    (honce : ∀ cid < w.definitions.length, w.ListsOnce cid) : ¬ w.Doubles := by
  rintro ⟨cid, d, hd, hdoubles⟩
  obtain ⟨expr, htwice⟩ := doubled_of_doubles ht hd hdoubles
  exact htwice (honce cid (List.getElem?_eq_some_iff.1 hd).1 expr)

end

/-- In a run that registers no handler twice, a definition that is resolved lists all handlers that
are registered with it and its ancestors. All along the run it lists them once exactly if the run
never comes to a definition that doubles watchers: one that is behind an ancestor, has a watch map
other than the one it was made with, and lists watchers in it that the next merge brings again. -/
theorem watched_once_iff (config : Config) {ops : List Op}
    (hkeeps : (World.start config).KeepsWatchers ops)
    (honce : (World.start config).RegistersOnce ops) :
    (∀ cid < ((World.start config).after ops).definitions.length,
      ((World.start config).after ops).ListsAll
        (fun expr => (World.start config).registered expr ops) cid) ∧
    ((∀ before, before <+: ops →
        ∀ cid < ((World.start config).after before).definitions.length,
          ((World.start config).after before).ListsOnce cid) ↔
      ∀ before, before <+: ops → ¬ ((World.start config).after before).Doubles) := by
  have haccounts {single : Prop} {before : List Op} (hbefore : before <+: ops)
      (hsingle : single → ∀ earlier, earlier <+: before → earlier ≠ before →
        ¬ ((World.start config).after earlier).Doubles) :
      Accounts single ((World.start config).after before).definitions
        fun expr => (World.start config).registered expr before := by
    obtain ⟨rest, rfl⟩ := hbefore
    have hstart : Accounts single (World.start config).definitions fun _ => [] := Accounts.start
    exact accounts_run hstart hkeeps.left honce.left hsingle
  refine ⟨fun cid hlt => listsAll_of_accounts (haccounts (List.prefix_refl ops) False.elim) hlt,
    fun hlists before hbefore => ?_, fun hsingle before hbefore cid hlt => ?_⟩
  · exact single_of_listsOnce (haccounts hbefore False.elim) (hlists before hbefore)
  · have ht : Accounts True _ _ := haccounts hbefore fun _ earlier hearlier _ =>
      hsingle earlier (hearlier.trans hbefore)
    obtain ⟨rest, rfl⟩ := hbefore
    exact listsOnce_of_single ht honce.left (hsingle before ⟨rest, rfl⟩) hlt

/-- Definitions double no watchers if the watch map of every one that is behind is the one it was
made with. -/
theorem not_doubles_of_sealed {w : World}
    (h : ∀ cid < w.definitions.length, ∀ d ∈ w.definitions[cid]?, Behind w.definitions cid →
      d.options.watch = d.sealedOptions.watch) : ¬ w.Doubles := by
  rintro ⟨cid, d, hd, hdoubles⟩
  exact hdoubles.edited (h cid (List.getElem?_eq_some_iff.1 hd).1 d hd hdoubles.behind)

/-- A layer of one watcher. -/
def watching (expr : String) (id : CallbackId) : ComponentOptions :=
  { ComponentOptions.empty with watch := [(expr, [⟨id, false⟩])] }

theorem watchSorted_watching (expr : String) (id : CallbackId) :
    (watching expr id).WatchSorted := by
  refine (watchSorted_iff _).2 ⟨fun m hm => (List.not_mem_nil hm).elim, ?_⟩
  exact List.pairwise_singleton _ _

theorem watchers_watching (key expr : String) (id : CallbackId) :
    (watching key id).watchers expr = if key = expr then [id] else [] := by
  rw [watchers_eq]
  show listed [(key, [⟨id, false⟩])] expr = _
  unfold listed
  rw [Dict.get?]
  split <;> rfl

/-- A definition is extended by one with a watcher, given a watcher of the same expression, and the
one that extends it is resolved. -/
def watchingBoth : List Op :=
  [.base, .extend 0 (watching "a" 0), .edit 0 (.mixin (watching "a" 1)), .resolve 1]

/-- At any time of `watchingBoth`, both definitions list what is registered with them once. -/
theorem watched_once_watchingBoth :
    (World.start .default).KeepsWatchers watchingBoth ∧
      (World.start .default).RegistersOnce watchingBoth ∧
      (∀ cid < ((World.start .default).after watchingBoth).definitions.length,
        ((World.start .default).after watchingBoth).ListsAll
          (fun expr => (World.start .default).registered expr watchingBoth) cid) ∧
      ∀ before, before <+: watchingBoth →
        ∀ cid < ((World.start .default).after before).definitions.length,
          ((World.start .default).after before).ListsOnce cid := by
  have hkeeps : (World.start .default).KeepsWatchers watchingBoth :=
    ⟨trivial, ⟨by decide +kernel, watchSorted_watching "a" 0⟩,
      ⟨by decide +kernel, watchSorted_watching "a" 1⟩, trivial, trivial⟩
  have honce : (World.start .default).RegistersOnce watchingBoth := by
    intro expr
    simp only [watchingBoth, World.registered, Op.registers, Edit.watchers, List.map_append,
      map_registered, List.nil_append, List.append_nil, watchers_watching]
    split <;> decide
  obtain ⟨hall, hiff⟩ := watched_once_iff .default hkeeps honce
  refine ⟨hkeeps, honce, hall, hiff.2 fun before hbefore => not_doubles_of_sealed ?_⟩
  rw [← List.mem_inits] at hbefore
  revert before
  decide +kernel

/-- Watchers are registered with a definition one after the other, and one that extends it is
resolved after each. -/
def watchingLater : List Op :=
  [.base, .extend 0 .empty, .edit 0 (.mixin (watching "a" 0)), .resolve 1,
    .edit 0 (.mixin (watching "b" 1)), .resolve 1]

/-- The definition that is resolved along `watchingLater` lists the first watcher twice. -/
theorem watched_twice_watchingLater :
    ¬ ∀ ops, (World.start .default).KeepsWatchers ops → (World.start .default).RegistersOnce ops →
      ∀ cid < ((World.start .default).after ops).definitions.length,
        ((World.start .default).after ops).ListsOnce cid ∧
          ((World.start .default).after ops).ListsAll
            (fun expr => (World.start .default).registered expr ops) cid := by
  intro h
  have hkeeps : (World.start .default).KeepsWatchers watchingLater :=
    ⟨trivial, ⟨by decide +kernel, watchSorted_empty⟩,
      ⟨by decide +kernel, watchSorted_watching "a" 0⟩, trivial,
      ⟨by decide +kernel, watchSorted_watching "b" 1⟩, trivial, trivial⟩
  have honce : (World.start .default).RegistersOnce watchingLater := by
    intro expr
    have hnone : ComponentOptions.empty.watchers expr = [] := rfl
    simp only [watchingLater, World.registered, Op.registers, Edit.watchers, List.map_append,
      map_registered, List.nil_append, List.append_nil, watchers_watching, hnone]
    split <;> split <;> decide
  have hlisted := (h watchingLater hkeeps honce 1 (by decide +kernel)).1 "a"
  revert hlisted
  decide +kernel

end ViewTree
