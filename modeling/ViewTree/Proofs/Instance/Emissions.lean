import ViewTree.Proofs.Instance.Registrations
/-!
# Operations on registrations

A bus is a list of registrations for every event. Operations register listeners, take them off,
and emit events: an emission calls all registrations of its event in order. What it leaves of them
is a parameter, so that what is meant (`Bus.staying`: those for one emission are gone) and what is
done (`emitted`) are the same machine. `Bus.probes_iff` says for which runs the two make the same
calls, also when an emission of the run is repeated: every emission has to find settled
registrations.
-/

namespace ViewTree

/-! ## Registrations -/

/-- The registrations for every event. -/
abbrev Bus := String → List Handler

/-- The bus with other registrations for an event. -/
def Bus.set (b : Bus) (event : String) (handlers : List Handler) : Bus :=
  fun event' => if event = event' then handlers else b event'

/-- An operation on the bus of an instance. -/
inductive BusOp where
  | on (event : String) (listener : Listener)
  | once (event : String) (listener : Listener)
  | off (event : Option String) (listener : Option Listener)
  | emit (event : String) (args : List Value)

/-- The call of a listener with its arguments. -/
abbrev Call := Listener × List Value

namespace BusOp

/-- The calls that an operation makes. -/
def calls (b : Bus) : BusOp → List Call
  | emit event args => (b event).map fun h => (h.listener, args)
  | _ => []

/-- The bus after an operation, where `emission` says what an emission leaves registered. -/
def next (emission : List Handler → List Handler) (b : Bus) : BusOp → Bus
  | on event listener => b.set event (b event ++ [⟨listener, false⟩])
  | once event listener => b.set event (b event ++ [⟨listener, true⟩])
  | off none _ => fun _ => []
  | off (some event) none => b.set event []
  | off (some event) (some listener) =>
    b.set event (takeOff listener (b event).reverse).reverse
  | emit event _ => b.set event (emission (b event))

/-- An emission finds settled registrations. -/
def FindsSettled (b : Bus) : BusOp → Prop
  | emit event _ => Settled (b event)
  | _ => True

instance (b : Bus) (op : BusOp) : Decidable (op.FindsSettled b) :=
  match op with
  | on _ _ => .isTrue trivial
  | once _ _ => .isTrue trivial
  | off _ _ => .isTrue trivial
  | emit event _ => inferInstanceAs (Decidable (Settled (b event)))

end BusOp

namespace Bus

section

variable (emission : List Handler → List Handler)

/-- The bus after operations. -/
def after (b : Bus) (ops : List BusOp) : Bus :=
  ops.foldl (BusOp.next emission) b

/-- The calls that operations make. -/
def calls : Bus → List BusOp → List Call
  | _, [] => []
  | b, op :: ops => op.calls b ++ calls (op.next emission b) ops

end

/-- What an emission is meant to leave registered. -/
def staying (handlers : List Handler) : List Handler :=
  handlers.filter (!·.once)

/-- Every emission finds settled registrations. -/
def AllSettled : Bus → List BusOp → Prop
  | _, [] => True
  | b, op :: ops => op.FindsSettled b ∧ AllSettled (op.next staying b) ops

instance decidableAllSettled (b : Bus) : (ops : List BusOp) → Decidable (b.AllSettled ops)
  | [] => .isTrue trivial
  | op :: ops =>
    have := decidableAllSettled (op.next staying b) ops
    inferInstanceAs (Decidable (_ ∧ _))

end Bus

/-- The run itself, or one of its emissions made any number of times where it is made first. -/
inductive Probe (ops : List BusOp) : List BusOp → Prop where
  | run : Probe ops ops
  | repeated {before : List BusOp} {event : String} {args : List Value}
      (h : before ++ [.emit event args] <+: ops) (n : Nat) :
      Probe ops (before ++ List.replicate n (.emit event args))

/-! ## Settled runs -/

namespace Bus

section

variable (emission : List Handler → List Handler) (b : Bus)

theorem calls_append (ops ops' : List BusOp) :
    b.calls emission (ops ++ ops') =
      b.calls emission ops ++ (b.after emission ops).calls emission ops' := by
  induction ops generalizing b with
  | nil => rfl
  | cons op ops ih => rw [List.cons_append, calls, ih, calls, List.append_assoc]; rfl

theorem set_self (event : String) (handlers : List Handler) : b.set event handlers event = handlers :=
  if_pos rfl

theorem set_eq_self (event : String) : b.set event (b event) = b := by
  funext event'
  unfold set
  split
  · rename_i heq
    rw [heq]
  · rfl

theorem set_set (event : String) (handlers handlers' : List Handler) :
    (b.set event handlers).set event handlers' = b.set event handlers' := by
  funext event'
  unfold set
  split <;> rfl

end

theorem allSettled_append (b : Bus) (ops ops' : List BusOp) :
    b.AllSettled (ops ++ ops') ↔ b.AllSettled ops ∧ (b.after staying ops).AllSettled ops' := by
  induction ops generalizing b with
  | nil => exact (true_and _).symm.to_iff
  | cons op ops ih => rw [List.cons_append, AllSettled, ih, AllSettled, and_assoc]; rfl

/-- An operation that finds settled registrations does what is meant. -/
theorem next_emitted {b : Bus} {op : BusOp} (h : op.FindsSettled b) :
    op.next emitted b = op.next staying b := by
  cases op with
  | emit event args => exact congrArg (b.set event) (emitted_of_settled h)
  | off event listener => cases event <;> cases listener <;> rfl
  | _ => rfl

theorem run_emitted {ops : List BusOp} : ∀ {b : Bus}, b.AllSettled ops →
    b.after emitted ops = b.after staying ops ∧ b.calls emitted ops = b.calls staying ops := by
  induction ops with
  | nil => exact fun _ => ⟨rfl, rfl⟩
  | cons op ops ih =>
    intro b h
    obtain ⟨hafter, hcalls⟩ := ih h.2
    rw [after, after, List.foldl_cons, List.foldl_cons, next_emitted h.1]
    refine ⟨hafter, ?_⟩
    rw [calls, calls, next_emitted h.1, hcalls]

theorem settled_staying (handlers : List Handler) : Settled (staying handlers) := by
  refine List.pairwise_iff_forall_sublist.2 fun {a b} hsublist ha => ?_
  have hmem : a ∈ staying handlers := hsublist.subset List.mem_cons_self
  simp [staying, ha] at hmem

/-- Once settled, further emissions find settled registrations. -/
theorem allSettled_replicate {event : String} (args : List Value) (n : Nat) :
    ∀ {b : Bus}, Settled (b event) → b.AllSettled (List.replicate n (.emit event args)) := by
  induction n with
  | zero => exact fun _ => trivial
  | succ n ih =>
    intro b h
    refine ⟨h, ih ?_⟩
    rw [BusOp.next, set_self]
    exact settled_staying _

theorem allSettled_probe {b : Bus} {ops probe : List BusOp} (h : b.AllSettled ops)
    (hprobe : Probe ops probe) : b.AllSettled probe := by
  cases hprobe with
  | run => exact h
  | repeated hpre n =>
    obtain ⟨rest, rfl⟩ := hpre
    rw [List.append_assoc, allSettled_append] at h
    exact (allSettled_append b _ _).2 ⟨h.1, allSettled_replicate _ n h.2.1⟩

/-! ## Emissions that are not settled -/

/-- The first emission that does not find settled registrations. -/
theorem exists_unsettled {ops : List BusOp} : ∀ {b : Bus}, ¬ b.AllSettled ops →
    ∃ before event args, before ++ [.emit event args] <+: ops ∧ b.AllSettled before ∧
      ¬ Settled (b.after staying before event) := by
  induction ops with
  | nil => exact fun h => absurd trivial h
  | cons op ops ih =>
    intro b h
    by_cases hop : op.FindsSettled b
    · obtain ⟨before, event, args, hpre, hbefore, hunsettled⟩ := ih fun hops => h ⟨hop, hops⟩
      exact ⟨op :: before, event, args, List.cons_prefix_cons.2 ⟨rfl, hpre⟩, ⟨hop, hbefore⟩,
        hunsettled⟩
    · cases op with
      | emit event args =>
        exact ⟨[], event, args, List.cons_prefix_cons.2 ⟨rfl, List.nil_prefix⟩, trivial, hop⟩
      | _ => exact absurd trivial hop

/-- How often a listener is called when an event is emitted three times. -/
theorem countP_calls_three (emission : List Handler → List Handler) (b : Bus) (event : String)
    (args : List Value) (l : Listener) :
    (b.calls emission (List.replicate 3 (.emit event args))).countP (·.1.same l) =
      registered l (b event) + (registered l (emission (b event)) +
        registered l (emission (emission (b event)))) := by
  have hcalls (handlers : List Handler) :
      (handlers.map fun h => (h.listener, args)).countP (·.1.same l) = registered l handlers :=
    List.countP_map
  simp only [List.replicate, calls, BusOp.calls, BusOp.next, set_self, List.append_nil,
    List.countP_append, hcalls]

/-- A listener that is left registered for one emission is called less often the third time. -/
theorem calls_three_ne {b : Bus} {event : String} (args : List Value)
    (h : ¬ Settled (b event)) :
    b.calls emitted (List.replicate 3 (.emit event args)) ≠
      b.calls staying (List.replicate 3 (.emit event args)) := by
  intro heq
  obtain ⟨l, hleft⟩ := exists_once_of_not_settled h
  have hcount := congrArg (List.countP (·.1.same l)) heq
  rw [countP_calls_three, countP_calls_three] at hcount
  have hfirst := registered_emitted l (b event)
  have hsecond := registered_emitted l (emitted (b event))
  have hleft_le := registered_split l (emitted (b event))
  have hstaying := registered_split l (b event)
  have hstaying' := registered_split l (staying (b event))
  have hnone : registeredOnce l (staying (b event)) = 0 := registeredOnce_stays l (b event)
  change _ = _ + registered l (staying (b event)) at hstaying
  change _ = _ + registered l (staying (staying (b event))) at hstaying'
  omega

/-- The calls are those of the registrations, in a run and its probes, if and only if every
emission of the run finds settled registrations. -/
theorem probes_iff (b : Bus) (ops : List BusOp) :
    (∀ probe, Probe ops probe → b.calls emitted probe = b.calls staying probe) ↔
      b.AllSettled ops := by
  constructor
  · intro h
    by_contra hnot
    obtain ⟨before, event, args, hpre, hbefore, hunsettled⟩ := exists_unsettled hnot
    have hprobe := h _ (.repeated hpre 3)
    obtain ⟨hafter, hcalls⟩ := run_emitted hbefore
    rw [calls_append, calls_append, hafter, hcalls] at hprobe
    exact calls_three_ne args hunsettled (List.append_cancel_left hprobe)
  · intro h probe hprobe
    exact (run_emitted (allSettled_probe h hprobe)).2

end Bus

end ViewTree
