import Mathlib.Data.List.Basic
import ViewTree.Instance.Events
/-!
# What an emission leaves registered

An emission calls the handlers that it finds in the order of their registration. A handler that was
registered for one emission is called after the latest registration of its listener was taken off,
which need not be its own. Where no listener is registered to stay behind a registration of its own
for one emission, the handlers registered for one emission are nevertheless the ones that are gone
(`emitted_of_settled`); otherwise one of them is left (`exists_once_of_not_settled`).
-/

namespace ViewTree

/-! ## Listeners -/

/-- What listeners are told apart by. -/
def Listener.identity : Listener → Option (String ⊕ Nat)
  | silent => none
  | labelled label => some (.inl label)
  | handler serial _ _ _ => some (.inr serial)

theorem Listener.same_iff (l l' : Listener) : l.same l' ↔ l.identity = l'.identity := by
  cases l <;> cases l' <;> simp [same, identity]

/-- The handler is a registration of the listener. -/
def Handler.isFor (l : Listener) (h : Handler) : Bool :=
  h.listener.same l

namespace Handler

theorem isFor_congr {l l' : Listener} (h : l.same l') : isFor l = isFor l' := by
  funext x
  rw [Bool.eq_iff_iff, isFor, isFor, Listener.same_iff, Listener.same_iff,
    (Listener.same_iff l l').1 h]

theorem isFor_self (h : Handler) : isFor h.listener h :=
  (Listener.same_iff _ _).2 rfl

/-- A handler is a registration of one listener only. -/
theorem same_of_isFor {l l' : Listener} {h : Handler} (hl : isFor l h) (hl' : isFor l' h) :
    l.same l' :=
  (Listener.same_iff l l').2 (((Listener.same_iff _ _).1 hl).symm.trans ((Listener.same_iff _ _).1 hl'))

end Handler

/-! ## Taking off the latest registrations -/

/-- The handlers, latest first, without the latest registration of a listener. -/
def takeOff (l : Listener) (latest : List Handler) : List Handler :=
  latest.eraseP (Handler.isFor l)

theorem removeLatest_eq (l : Listener) (handlers : List Handler) :
    removeLatest l handlers = (takeOff l handlers.reverse).reverse := by
  have hidx : (handlers.reverse.findIdx? fun h => h.listener.same l) =
      handlers.reverse.findIdx? (Handler.isFor l) := rfl
  rw [removeLatest, takeOff, List.eraseP_eq_eraseIdx, hidx]
  cases handlers.reverse.findIdx? (Handler.isFor l) with
  | none => exact handlers.reverse_reverse.symm
  | some i => rfl

theorem removeLatest_sublist (l : Listener) (handlers : List Handler) :
    (removeLatest l handlers).Sublist handlers := by
  rw [removeLatest_eq]
  have h : (takeOff l handlers.reverse).Sublist handlers.reverse := List.eraseP_sublist
  simpa using h.reverse

/-- Registrations of different listeners are taken off in any order. -/
theorem takeOff_comm (l l' : Listener) (latest : List Handler) :
    takeOff l (takeOff l' latest) = takeOff l' (takeOff l latest) := by
  by_cases h : l.same l'
  · rw [takeOff, takeOff, takeOff, takeOff, Handler.isFor_congr h]
  · refine List.eraseP_comm fun x _ => ?_
    by_contra hx
    simp only [not_or, not_not] at hx
    exact h (Handler.same_of_isFor hx.2 hx.1)

theorem filter_eraseP_self {α : Type} (p : α → Bool) (xs : List α) :
    (xs.eraseP p).filter p = (xs.filter p).tail := by
  induction xs with
  | nil => rfl
  | cons x xs ih =>
    by_cases hx : p x
    · rw [List.eraseP_cons_of_pos hx, List.filter_cons_of_pos hx, List.tail_cons]
    · rw [List.eraseP_cons_of_neg hx, List.filter_cons_of_neg hx, List.filter_cons_of_neg hx, ih]

theorem filter_eraseP_of_disjoint {α : Type} {p q : α → Bool} (h : ∀ x, p x → ¬ q x)
    (xs : List α) : (xs.eraseP p).filter q = xs.filter q := by
  induction xs with
  | nil => rfl
  | cons x xs ih =>
    by_cases hx : p x
    · rw [List.eraseP_cons_of_pos hx, List.filter_cons_of_neg (h x hx)]
    · rw [List.eraseP_cons_of_neg hx, List.filter_cons, List.filter_cons, ih]

/-- Taking a listener off shortens what is registered for it, and touches no other. -/
theorem filter_takeOff (l l' : Listener) (latest : List Handler) :
    (takeOff l' latest).filter (Handler.isFor l) =
      (latest.filter (Handler.isFor l)).drop (if l'.same l then 1 else 0) := by
  split
  · rename_i h
    rw [takeOff, Handler.isFor_congr h, filter_eraseP_self, List.drop_one]
  · rename_i h
    exact filter_eraseP_of_disjoint (fun x hx hx' => h (Handler.same_of_isFor hx hx')) latest

/-! ## An emission -/

/-- The handlers, latest first, when the listeners of others were taken off, the last one first. -/
def drain (off latest : List Handler) : List Handler :=
  off.foldr (fun h left => takeOff h.listener left) latest

/-- What is registered for an event when its handlers were called. -/
def emitted (handlers : List Handler) : List Handler :=
  (handlers.filter (·.once)).foldl (fun left h => removeLatest h.listener left) handlers

/-- No listener is registered to stay behind a registration of its own for one emission. -/
def Settled (handlers : List Handler) : Prop :=
  handlers.Pairwise fun a b => a.once → b.isFor a.listener → b.once

instance (handlers : List Handler) : Decidable (Settled handlers) :=
  inferInstanceAs (Decidable (List.Pairwise _ handlers))

theorem emitted_subset (handlers : List Handler) : emitted handlers ⊆ handlers := by
  have hfold (off : List Handler) : ∀ left : List Handler,
      (off.foldl (fun left h => removeLatest h.listener left) left).Sublist left := by
    induction off with
    | nil => exact fun left => .refl left
    | cons h off ih => exact fun left => (ih _).trans (removeLatest_sublist h.listener left)
  exact (hfold _ handlers).subset

theorem emitted_reverse (latest : List Handler) :
    emitted latest.reverse = (drain (latest.filter (·.once)) latest).reverse := by
  have hfold (off : List Handler) :
      off.foldr (fun h left => removeLatest h.listener left) latest.reverse =
        (drain off latest).reverse := by
    induction off with
    | nil => rfl
    | cons h off ih => rw [List.foldr_cons, ih, removeLatest_eq, List.reverse_reverse]; rfl
  rw [emitted, List.filter_reverse, List.foldl_reverse, hfold]

theorem drain_takeOff (l : Listener) (off latest : List Handler) :
    drain off (takeOff l latest) = takeOff l (drain off latest) := by
  induction off with
  | nil => rfl
  | cons h off ih => rw [drain, List.foldr_cons, ← drain, ih, takeOff_comm]; rfl

/-- A registration for one emission takes itself off if it is the latest of its listener. -/
theorem drain_once {h : Handler} (off latest : List Handler) :
    drain (h :: off) (h :: latest) = drain off latest := by
  have hself : takeOff h.listener (h :: latest) = latest :=
    List.eraseP_cons_of_pos (Handler.isFor_self h)
  calc drain (h :: off) (h :: latest) = takeOff h.listener (drain off (h :: latest)) := rfl
    _ = drain off (takeOff h.listener (h :: latest)) := (drain_takeOff _ _ _).symm
    _ = drain off latest := by rw [hself]

theorem drain_stays {h : Handler} {off : List Handler} (hoff : ∀ x ∈ off, h.isFor x.listener = false)
    (latest : List Handler) : drain off (h :: latest) = h :: drain off latest := by
  induction off with
  | nil => rfl
  | cons x off ih =>
    have hx : ¬ Handler.isFor x.listener h := by simp [hoff x List.mem_cons_self]
    rw [drain, List.foldr_cons, ← drain, ih fun y hy => hoff y (List.mem_cons_of_mem x hy), takeOff,
      List.eraseP_cons_of_neg hx]
    rfl

theorem settled_reverse (latest : List Handler) :
    Settled latest.reverse ↔ latest.Pairwise fun b a => a.once → b.isFor a.listener → b.once :=
  List.pairwise_reverse

/-- In settled registrations, those for one emission are gone and the others stay. -/
theorem emitted_of_settled {handlers : List Handler} (h : Settled handlers) :
    emitted handlers = handlers.filter (!·.once) := by
  have hdrain : ∀ latest : List Handler,
      latest.Pairwise (fun b a => a.once → b.isFor a.listener → b.once) →
        drain (latest.filter (·.once)) latest = latest.filter (!·.once) := by
    intro latest hlatest
    induction latest with
    | nil => rfl
    | cons b latest ih =>
      obtain ⟨hb, hlatest⟩ := List.pairwise_cons.1 hlatest
      cases hbonce : b.once with
      | true =>
        rw [List.filter_cons_of_pos hbonce, List.filter_cons_of_neg (by simp [hbonce]),
          drain_once, ih hlatest]
      | false =>
        have hoff : ∀ a ∈ latest.filter (·.once), b.isFor a.listener = false := by
          intro a ha
          obtain ⟨ha, haonce⟩ := List.mem_filter.1 ha
          by_contra hfor
          simp [hb a ha haonce (by simpa using hfor)] at hbonce
        rw [List.filter_cons_of_neg (by simp [hbonce]), List.filter_cons_of_pos (by simp [hbonce]),
          drain_stays hoff, ih hlatest]
  have hlatest := hdrain handlers.reverse (List.pairwise_reverse.2 h)
  rw [← handlers.reverse_reverse, emitted_reverse, hlatest, ← List.filter_reverse]

/-! ## How many registrations are left -/

/-- The number of registrations of a listener. -/
def registered (l : Listener) (handlers : List Handler) : Nat :=
  handlers.countP (Handler.isFor l)

/-- The number of registrations of a listener for one emission. -/
def registeredOnce (l : Listener) (handlers : List Handler) : Nat :=
  registered l (handlers.filter (·.once))

theorem registeredOnce_reverse (l : Listener) (handlers : List Handler) :
    registeredOnce l handlers.reverse = registeredOnce l handlers := by
  simp only [registeredOnce, registered, List.filter_reverse, List.countP_reverse]

theorem registeredOnce_eq (l : Listener) (handlers : List Handler) :
    registeredOnce l handlers = (handlers.filter (Handler.isFor l)).countP (·.once) := by
  rw [registeredOnce, registered, List.countP_filter, List.countP_filter]
  congr 1
  funext x
  exact Bool.and_comm _ _

/-- Registrations of a listener are for one emission or stay. -/
theorem registered_split (l : Listener) (handlers : List Handler) :
    registered l handlers =
      registeredOnce l handlers + registered l (handlers.filter (!·.once)) :=
  List.countP_eq_countP_filter_add handlers (Handler.isFor l) (·.once)

theorem filter_drain (l : Listener) (off latest : List Handler) :
    (drain off latest).filter (Handler.isFor l) =
      (latest.filter (Handler.isFor l)).drop (off.countP (Handler.isFor l)) := by
  induction off with
  | nil => rfl
  | cons h off ih =>
    rw [drain, List.foldr_cons, ← drain, filter_takeOff, ih, List.drop_drop, List.countP_cons]
    rfl

/-- An emission takes as many of the latest registrations of a listener off as it has for one
emission. -/
theorem filter_emitted (l : Listener) (handlers : List Handler) :
    (emitted handlers).reverse.filter (Handler.isFor l) =
      (handlers.reverse.filter (Handler.isFor l)).drop (registeredOnce l handlers) := by
  rw [← registeredOnce_reverse, registeredOnce, registered, ← filter_drain,
    ← List.reverse_reverse (drain _ _), ← emitted_reverse, List.reverse_reverse]

theorem registered_emitted (l : Listener) (handlers : List Handler) :
    registered l (emitted handlers) = registered l handlers - registeredOnce l handlers := by
  have hlength := congrArg List.length (filter_emitted l handlers)
  rwa [List.length_drop, ← List.countP_eq_length_filter, ← List.countP_eq_length_filter,
    List.countP_reverse, List.countP_reverse] at hlength

/-- If none of those that are left when the latest were taken off is for one emission, then those
for one emission were the latest. -/
theorem pairwise_of_countP_drop {latest : List Handler}
    (h : (latest.drop (latest.countP (·.once))).countP (·.once) = 0) :
    latest.Pairwise fun b a => a.once → b.once := by
  induction latest with
  | nil => exact .nil
  | cons b latest ih =>
    cases hb : b.once with
    | true =>
      rw [List.countP_cons_of_pos hb, List.drop_succ_cons] at h
      exact List.pairwise_cons.2 ⟨fun _ _ _ => hb, ih h⟩
    | false =>
      rw [List.countP_cons_of_neg (by simp [hb])] at h
      cases hcount : latest.countP (·.once) with
      | zero =>
        have hnone := List.countP_eq_zero.1 hcount
        refine List.pairwise_cons.2 ⟨fun a ha haonce => absurd haonce (hnone a ha), ih ?_⟩
        rw [hcount]
        exact hcount
      | succ n =>
        rw [hcount, List.drop_succ_cons] at h
        have hsplit : (latest.take n).countP (·.once) + (latest.drop n).countP (·.once) = n + 1 := by
          rw [← List.countP_append, List.take_append_drop, hcount]
        have htake := Nat.le_trans (List.countP_le_length (p := (·.once)))
          (List.length_take_le n latest)
        omega

/-- In registrations that are not settled, some listener is left registered for one emission. -/
theorem exists_once_of_not_settled {handlers : List Handler} (h : ¬ Settled handlers) :
    ∃ l, 0 < registeredOnce l (emitted handlers) := by
  by_contra hnone
  simp only [not_exists, Nat.not_lt, Nat.le_zero_eq] at hnone
  refine h ?_
  rw [← handlers.reverse_reverse, settled_reverse, List.pairwise_iff_forall_sublist]
  intro b a hsublist haonce hfor
  have hleft := hnone a.listener
  rw [← registeredOnce_reverse, registeredOnce_eq, filter_emitted, ← registeredOnce_reverse,
    registeredOnce_eq] at hleft
  have hpair : [b, a].filter (Handler.isFor a.listener) = [b, a] := by
    simp [hfor, Handler.isFor_self]
  refine List.pairwise_iff_forall_sublist.1 (pairwise_of_countP_drop hleft) ?_ haonce
  rw [← hpair]
  exact hsublist.filter _

theorem registeredOnce_stays (l : Listener) (handlers : List Handler) :
    registeredOnce l (handlers.filter (!·.once)) = 0 := by
  simp [registeredOnce, registered, List.filter_filter]

end ViewTree
