import Mathlib.Data.List.Induction
import Mathlib.Data.List.Nodup
import ViewTree.Proofs.Instance.Tracing
/-!
# What happens to watchers

A watcher is registered under a number, its handler is called with changes, and it is removed, by
its number or with all others when its instance is destroyed. What happened tells which watchers are
in force. It is orderly if a number is given to one watcher only, and only the handlers of watchers
in force are called (`Orderly`). Then a watcher that was removed is never called again
(`Orderly.not_called`).
-/

namespace ViewTree

/-- A watcher as it was registered. -/
structure Registration where
  id : Nat
  source : String
  watcher : Watcher
deriving DecidableEq

/-- The registration of a watcher in force. -/
def ActiveWatcher.registration (a : ActiveWatcher) : Registration :=
  ⟨a.id, a.source, a.watcher⟩

/-- The watchers of an instance, in the order of their registration. -/
def World.registrations (w : World) (vm : Uid) : List Registration :=
  (w.watching vm).1.map (·.registration)

/-- Watchers have different numbers in ascending order, below the next one. -/
def World.Numbered (w : World) : Prop :=
  ∀ vm, (w.registrations vm).Pairwise (·.id < ·.id) ∧
    ∀ r ∈ w.registrations vm, r.id < (w.watching vm).2

/-- Something that happens to the watchers of an instance. -/
inductive WatcherEvent where
  | registered (vm : Uid) (r : Registration)
  | called (vm : Uid) (r : Registration) (new old : Value)
  | removed (vm : Uid) (id : Nat)
  | cleared (vm : Uid)

namespace WatcherEvent

/-- The instance whose watchers it is about. -/
def vm : WatcherEvent → Uid
  | registered vm _ => vm
  | called vm _ _ _ => vm
  | removed vm _ => vm
  | cleared vm => vm

/-- The watchers of an instance that are in force afterwards. -/
def leaves (vm : Uid) (rs : List Registration) : WatcherEvent → List Registration
  | registered vm' r => if vm' = vm then rs ++ [r] else rs
  | called _ _ _ _ => rs
  | removed vm' id => if vm' = vm then rs.filter (·.id != id) else rs
  | cleared vm' => if vm' = vm then [] else rs

/-- The watcher that is registered for an instance. -/
def registration? (vm : Uid) : WatcherEvent → Option Registration
  | registered vm' r => if vm' = vm then some r else none
  | _ => none

/-- The watcher with a number, if any, is removed. -/
def Removes (vm : Uid) (id : Nat) : WatcherEvent → Prop
  | removed vm' id' => vm' = vm ∧ id' = id
  | cleared vm' => vm' = vm
  | _ => False

instance (vm : Uid) (id : Nat) : (e : WatcherEvent) → Decidable (e.Removes vm id)
  | registered _ _ => .isFalse not_false
  | called _ _ _ _ => .isFalse not_false
  | removed vm' id' => inferInstanceAs (Decidable (vm' = vm ∧ id' = id))
  | cleared vm' => inferInstanceAs (Decidable (vm' = vm))

end WatcherEvent

namespace World

/-- The watchers of an instance that are in force when some things have happened. -/
def inForce (start : World) (vm : Uid) (events : List WatcherEvent) : List Registration :=
  events.foldl (WatcherEvent.leaves vm) (start.registrations vm)

/-- All watchers that an instance has or has had when some things have happened. -/
def everInForce (start : World) (vm : Uid) (events : List WatcherEvent) : List Registration :=
  start.registrations vm ++ events.filterMap (WatcherEvent.registration? vm)

/-- The number has been given to a watcher when some things have happened. -/
def GivenOut (start : World) (vm : Uid) (id : Nat) (events : List WatcherEvent) : Prop :=
  id < (start.watching vm).2 ∨ ∃ r, .registered vm r ∈ events ∧ r.id = id

end World

/-- A number is new when it is given to a watcher, and a watcher that is called is in force. -/
def WatcherEvent.Fits (start : World) (before : List WatcherEvent) : WatcherEvent → Prop
  | registered vm r => ∀ id, start.GivenOut vm id before → id < r.id
  | called vm r _ _ => r ∈ start.inForce vm before
  | _ => True

/-- Each of the things that happen fits those before it. -/
def World.Orderly (start : World) (events : List WatcherEvent) : Prop :=
  ∀ before e after, events = before ++ e :: after → e.Fits start before

/-! ## What one more event changes -/

section

variable {start : World} {vm : Uid} {id : Nat} {events : List WatcherEvent} {e : WatcherEvent}

theorem inForce_concat (start : World) (vm : Uid) (events : List WatcherEvent) (e : WatcherEvent) :
    start.inForce vm (events ++ [e]) = e.leaves vm (start.inForce vm events) := by
  rw [World.inForce, List.foldl_append]
  rfl

theorem everInForce_concat (start : World) (vm : Uid) (events : List WatcherEvent)
    (e : WatcherEvent) :
    start.everInForce vm (events ++ [e]) =
      start.everInForce vm events ++ (e.registration? vm).toList := by
  rw [World.everInForce, List.filterMap_append, ← List.append_assoc, World.everInForce]
  rfl

theorem WatcherEvent.registration?_eq_some_iff {r : Registration} :
    e.registration? vm = some r ↔ e = .registered vm r := by
  cases e with
  | registered vm' r' =>
    rw [registration?, registered.injEq]
    split
    · rename_i hvm
      simp [hvm]
    · rename_i hvm
      simp [hvm]
  | called vm' r' new old => simp [registration?]
  | removed vm' id => simp [registration?]
  | cleared vm' => simp [registration?]

/-- An event leaves the watchers of other instances alone. -/
theorem WatcherEvent.leaves_of_ne (h : e.vm ≠ vm) (rs : List Registration) :
    e.leaves vm rs = rs := by
  cases e with
  | registered vm' r => exact if_neg h
  | called vm' r new old => rfl
  | removed vm' id => exact if_neg h
  | cleared vm' => exact if_neg h

theorem WatcherEvent.registration?_of_ne (h : e.vm ≠ vm) : e.registration? vm = none := by
  cases e with
  | registered vm' r => exact if_neg h
  | called vm' r new old => rfl
  | removed vm' id => rfl
  | cleared vm' => rfl

/-- Only the watcher that is registered comes into force. -/
theorem WatcherEvent.leaves_sublist (vm : Uid) (rs : List Registration) (e : WatcherEvent) :
    (e.leaves vm rs).Sublist (rs ++ (e.registration? vm).toList) := by
  cases e with
  | registered vm' r =>
    rw [leaves, registration?]
    split
    · exact .refl _
    · exact List.sublist_append_left rs _
  | called vm' r new old => exact List.sublist_append_left rs _
  | removed vm' id =>
    rw [leaves]
    split
    · exact List.filter_sublist.trans (List.sublist_append_left rs _)
    · exact List.sublist_append_left rs _
  | cleared vm' =>
    rw [leaves]
    split
    · exact List.nil_sublist _
    · exact List.sublist_append_left rs _

theorem inForce_sublist (start : World) (vm : Uid) (events : List WatcherEvent) :
    (start.inForce vm events).Sublist (start.everInForce vm events) := by
  induction events using List.reverseRecOn with
  | nil => simp [World.inForce, World.everInForce]
  | append_singleton events e ih =>
    rw [inForce_concat, everInForce_concat]
    exact (e.leaves_sublist vm _).trans (ih.append_right _)

theorem everInForce_mono {r : Registration} {after : List WatcherEvent} (h : events <+: after)
    (hr : r ∈ start.everInForce vm events) : r ∈ start.everInForce vm after := by
  obtain ⟨more, rfl⟩ := h
  rw [World.everInForce, List.filterMap_append, ← List.append_assoc]
  exact List.mem_append_left _ hr

theorem World.GivenOut.mono {after : List WatcherEvent} (h : start.GivenOut vm id events)
    (hsub : events ⊆ after) : start.GivenOut vm id after :=
  h.imp_right fun ⟨r, hr, hid⟩ => ⟨r, hsub hr, hid⟩

theorem givenOut_concat :
    start.GivenOut vm id (events ++ [e]) ↔
      start.GivenOut vm id events ∨ ∃ r ∈ e.registration? vm, r.id = id := by
  simp only [World.GivenOut, or_assoc, List.mem_append, List.mem_singleton, or_and_right, exists_or,
    Option.mem_def, WatcherEvent.registration?_eq_some_iff, eq_comm (b := e)]

/-- A watcher that is or was in force has a number that was given out. -/
theorem World.Numbered.givenOut (hstart : start.Numbered) {r : Registration}
    (hr : r ∈ start.everInForce vm events) : start.GivenOut vm r.id events := by
  rcases List.mem_append.1 hr with hr | hr
  · exact .inl ((hstart vm).2 r hr)
  · obtain ⟨e, he, hre⟩ := List.mem_filterMap.1 hr
    obtain rfl := WatcherEvent.registration?_eq_some_iff.1 hre
    exact .inr ⟨r, he, rfl⟩

/-! ## Orderly events -/

theorem orderly_nil (start : World) : start.Orderly [] := by
  intro before e after h
  simp at h

theorem World.Orderly.concat (h : start.Orderly events) (he : e.Fits start events) :
    start.Orderly (events ++ [e]) := by
  intro before e' after hsplit
  rcases List.eq_nil_or_concat after with rfl | ⟨after, last, rfl⟩
  · obtain ⟨rfl, hlast⟩ := List.append_inj' hsplit rfl
    cases hlast
    exact he
  · rw [List.concat_eq_append, ← List.cons_append, ← List.append_assoc] at hsplit
    exact h before e' after (List.append_inj' hsplit rfl).1

theorem World.Orderly.of_append {more : List WatcherEvent} (h : start.Orderly (events ++ more)) :
    start.Orderly events := by
  intro before e after hsplit
  refine h before e (after ++ more) ?_
  rw [hsplit, List.append_assoc, List.cons_append]

/-- Watchers are registered under ascending numbers. -/
theorem World.Orderly.pairwise (h : start.Orderly events) (hstart : start.Numbered) (vm : Uid) :
    (start.everInForce vm events).Pairwise (·.id < ·.id) := by
  induction events using List.reverseRecOn with
  | nil =>
    rw [World.everInForce, List.filterMap_nil, List.append_nil]
    exact (hstart vm).1
  | append_singleton events e ih =>
    rw [everInForce_concat]
    refine List.pairwise_append.2 ⟨ih h.of_append, ?_, ?_⟩
    · cases e.registration? vm <;> simp
    · intro r hr new hnew
      obtain rfl := WatcherEvent.registration?_eq_some_iff.1 (Option.mem_toList.1 hnew)
      have hfits : ∀ id, start.GivenOut vm id events → id < new.id := h events _ [] rfl
      exact hfits r.id (hstart.givenOut hr)

/-- A number tells a watcher apart from all others that an instance has or has had. -/
theorem World.Orderly.eq_of_id_eq (h : start.Orderly events) (hstart : start.Numbered)
    {r r' : Registration} (hr : r ∈ start.everInForce vm events)
    (hr' : r' ∈ start.everInForce vm events) (hid : r.id = r'.id) : r = r' := by
  have hnodup : ((start.everInForce vm events).map (·.id)).Nodup :=
    List.pairwise_map.2 ((h.pairwise hstart vm).imp Nat.ne_of_lt)
  exact List.inj_on_of_nodup_map hnodup hr hr' hid

/-- A number that was given out comes into force no more once its watcher is removed. -/
theorem World.Orderly.not_inForce {before : List WatcherEvent} (hout : start.GivenOut vm id before)
    (hremoves : e.Removes vm id) (mid : List WatcherEvent)
    (h : start.Orderly (before ++ e :: mid)) :
    ∀ r ∈ start.inForce vm (before ++ e :: mid), r.id ≠ id := by
  -- The induction is on what happens after the removal, the last event first.
  induction mid using List.reverseRecOn with
  | nil =>
    rw [inForce_concat]
    intro r hr
    cases e with
    | removed vm' id' =>
      obtain ⟨rfl, rfl⟩ := hremoves
      rw [WatcherEvent.leaves, if_pos rfl] at hr
      exact bne_iff_ne.1 (List.mem_filter.1 hr).2
    | cleared vm' =>
      obtain rfl := hremoves
      rw [WatcherEvent.leaves, if_pos rfl] at hr
      cases hr
    | registered vm' r' => cases hremoves
    | called vm' r' new old => cases hremoves
  | append_singleton mid last ih =>
    rw [← List.cons_append, ← List.append_assoc] at h ⊢
    rw [inForce_concat]
    intro r hr
    rcases List.mem_append.1 ((last.leaves_sublist vm _).subset hr) with hr | hr
    · exact ih h.of_append r hr
    · -- A watcher that is registered later has a later number.
      obtain rfl := WatcherEvent.registration?_eq_some_iff.1 (Option.mem_toList.1 hr)
      have hfits : ∀ id, start.GivenOut vm id (before ++ e :: mid) → id < r.id := h _ _ [] rfl
      exact (Nat.ne_of_lt (hfits id (hout.mono (List.subset_append_left _ _)))).symm

/-- A watcher that was removed is not called any more. -/
theorem World.Orderly.not_called {before after : List WatcherEvent}
    (h : start.Orderly (before ++ e :: after)) (hout : start.GivenOut vm id before)
    (hremoves : e.Removes vm id) {r : Registration} (hr : r.id = id) (new old : Value) :
    .called vm r new old ∉ after := by
  intro hcalled
  obtain ⟨mid, rest, rfl⟩ := List.append_of_mem hcalled
  rw [← List.cons_append, ← List.append_assoc] at h
  have hinForce : r ∈ start.inForce vm (before ++ e :: mid) := h _ _ rest rfl
  exact h.of_append.not_inForce hout hremoves mid r hinForce hr

end

end ViewTree
