import Mathlib.Data.List.Forall2
import Mathlib.Logic.Function.Iterate
import ViewTree.Proofs.Template.Pieces
/-!
# Calls of hoisted functions

Code with calls of hoisted functions becomes code without calls when they are replaced by the
bodies, again and again (`Expands`). Two codes that are made in the same way of the codes of their
parts (`Woven`) expand to one another if the parts do, and call what the parts call.
-/

namespace ViewTree.Template

/-- The piece is no call of a hoisted function. -/
def Piece.IsOwn : Piece → Prop
  | .hoisted _ => False
  | _ => True

theorem harmless_isOwn : Harmless Piece.IsOwn :=
  ⟨fun _ => trivial, fun _ => trivial⟩

/-- The hoisted function that a piece calls. -/
def Piece.call? : Piece → Option Nat
  | .hoisted index => some index
  | _ => none

namespace Code

/-- Code without calls of hoisted functions. -/
abbrev Own (code : Code) : Prop :=
  code.Only Piece.IsOwn

/-- The hoisted functions that the code calls, in order. -/
def calls (code : Code) : List Nat :=
  code.filterMap Piece.call?

/-- The code with the calls of hoisted functions replaced by their bodies. -/
def fill (bodies : List Code) (code : Code) : Code :=
  code.flatMap fun p => ((p.call?).bind (bodies[·]?)).getD [p]

@[simp] theorem calls_append (a b : Code) : calls (a ++ b) = calls a ++ calls b :=
  List.filterMap_append

theorem calls_eq_nil {code : Code} (h : Own code) : calls code = [] := by
  rw [calls, List.filterMap_eq_nil_iff]
  intro p hp
  have hown := h p hp
  cases p with
  | hoisted index => exact hown.elim
  | _ => rfl

theorem fill_append (bodies : List Code) (a b : Code) :
    fill bodies (a ++ b) = fill bodies a ++ fill bodies b :=
  List.flatMap_append

theorem iterate_fill_append (bodies : List Code) (n : Nat) (a b : Code) :
    (fill bodies)^[n] (a ++ b) = (fill bodies)^[n] a ++ (fill bodies)^[n] b := by
  induction n generalizing a b with
  | zero => rfl
  | succ n ih => rw [Function.iterate_succ_apply, fill_append, ih]; rfl

end Code

open Code
open scoped List

/-- The code becomes other code, without calls, when calls of the bodies are replaced as long as
there are any. -/
inductive Expands (bodies : List Code) : Code → Code → Prop
  | nil : Expands bodies [] []
  | own {p : Piece} {code full : Code} (hp : p.IsOwn) (h : Expands bodies code full) :
      Expands bodies (p :: code) (p :: full)
  | call {index : Nat} {body code inner full : Code} (hbody : bodies[index]? = some body)
      (hinner : Expands bodies body inner) (h : Expands bodies code full) :
      Expands bodies (.hoisted index :: code) (inner ++ full)

section

variable {bodies : List Code} {a b code full full' : Code}

theorem Expands.append (ha : Expands bodies a full) (hb : Expands bodies b full') :
    Expands bodies (a ++ b) (full ++ full') := by
  induction ha with
  | nil => exact hb
  | own hp _ ih => exact .own hp ih
  | call hbody hinner _ _ ih =>
    rw [List.cons_append, List.append_assoc]
    exact .call hbody hinner ih

theorem expands_of_own (h : Own code) : Expands bodies code code := by
  induction code with
  | nil => exact .nil
  | cons p code ih =>
    exact .own (h p List.mem_cons_self) (ih fun q hq => h q (List.mem_cons_of_mem p hq))

/-- Further bodies change nothing. -/
theorem Expands.extend (h : Expands bodies code full) (more : List Code) :
    Expands (bodies ++ more) code full := by
  induction h with
  | nil => exact .nil
  | own hp _ ih => exact .own hp ih
  | call hbody _ _ ihinner ih =>
    refine .call ?_ ihinner ih
    rw [List.getElem?_append_left (List.getElem?_eq_some_iff.1 hbody).1]
    exact hbody

theorem Expands.own_full (h : Expands bodies code full) : Own full := by
  induction h with
  | nil => exact only_nil
  | own hp _ ih => exact List.forall_mem_cons.2 ⟨hp, ih⟩
  | call _ _ _ ihinner ih => exact only_append.2 ⟨ihinner, ih⟩

theorem fill_of_own (h : Own code) : fill bodies code = code := by
  induction code with
  | nil => rfl
  | cons p code ih =>
    have hp := h p List.mem_cons_self
    have hcode := ih fun q hq => h q (List.mem_cons_of_mem p hq)
    cases p with
    | hoisted index => exact hp.elim
    | _ => simpa [fill, Piece.call?] using hcode

/-- Replacing calls again and again comes to the end. -/
theorem Expands.exists_iterate (h : Expands bodies code full) :
    ∃ n, ∀ m, n ≤ m → (fill bodies)^[m] code = full := by
  induction h with
  | nil => exact ⟨0, fun m _ => Function.iterate_fixed rfl m⟩
  | @own p code full hp _ ih =>
    obtain ⟨n, hn⟩ := ih
    refine ⟨n, fun m hm => ?_⟩
    have hpiece : fill bodies [p] = [p] := fill_of_own (only_singleton.2 hp)
    rw [← List.singleton_append, iterate_fill_append, hn m hm, Function.iterate_fixed hpiece]
    rfl
  | @call index body code inner full hbody _ _ ihinner ih =>
    obtain ⟨n, hn⟩ := ihinner
    obtain ⟨k, hk⟩ := ih
    refine ⟨n + 1 + k, fun m hm => ?_⟩
    obtain ⟨m, rfl⟩ : ∃ m', m = m' + 1 := ⟨m - 1, by omega⟩
    have hcall : fill bodies [.hoisted index] = body := by simp [fill, Piece.call?, hbody]
    rw [← List.singleton_append, iterate_fill_append, hk _ (by omega), Function.iterate_succ_apply,
      hcall, hn m (by omega)]

end

/-! ## Codes made in the same way -/

/-- Two codes are made in the same way of the codes of their parts. What stands between the parts is
the same and calls nothing. -/
inductive Woven : List Code → List Code → Code → Code → Prop
  | own {code : Code} (h : Own code) : Woven [] [] code code
  | part (code code' : Code) : Woven [code] [code'] code code'
  | append {cs cs' ds ds' : List Code} {a a' b b' : Code} (ha : Woven cs cs' a a')
      (hb : Woven ds ds' b b') : Woven (cs ++ ds) (cs' ++ ds') (a ++ b) (a' ++ b')

namespace Woven

variable {cs cs' : List Code} {a a' : Code}

theorem length_eq (h : Woven cs cs' a a') : cs.length = cs'.length := by
  induction h with
  | own => rfl
  | part => rfl
  | append _ _ iha ihb => rw [List.length_append, List.length_append, iha, ihb]

/-- Code without calls may stand in front. -/
theorem behind (h : Woven cs cs' a a') {front : Code} (hfront : Own front) :
    Woven cs cs' (front ++ a) (front ++ a') :=
  (own hfront).append h

/-- Code without calls may stand around. -/
theorem around (h : Woven cs cs' a a') {front back : Code} (hfront : Own front) (hback : Own back) :
    Woven cs cs' (front ++ a ++ back) (front ++ a' ++ back) := by
  simpa using (h.behind hfront).append (own hback)

theorem calls_eq (h : Woven cs cs' a a') : calls a = cs.flatMap calls := by
  induction h with
  | own h => exact calls_eq_nil h
  | part => simp
  | append _ _ iha ihb => rw [calls_append, iha, ihb, List.flatMap_append]

theorem expands {bodies : List Code} (h : Woven cs cs' a a')
    (hparts : List.Forall₂ (Expands bodies) cs cs') : Expands bodies a a' := by
  induction h with
  | own h => exact expands_of_own h
  | part =>
    cases hparts with
    | cons h _ => exact h
  | @append cs cs' ds ds' _ _ _ _ ha _ iha ihb =>
    have hfront := List.forall₂_take_append _ _ _ hparts
    have hback := List.forall₂_drop_append _ _ _ hparts
    rw [← ha.length_eq, List.take_left] at hfront
    rw [← ha.length_eq, List.drop_left] at hback
    exact (iha hfront).append (ihb hback)

end Woven

theorem own_fixed (text : String) : Own [.fixed text] :=
  only_singleton.2 trivial

theorem woven_commas {cs cs' : List Code} (h : cs.length = cs'.length) :
    Woven cs cs' (commas cs) (commas cs') := by
  induction cs generalizing cs' with
  | nil =>
    rw [List.length_eq_zero_iff.1 h.symm]
    exact .own only_nil
  | cons c cs ih =>
    obtain ⟨c', cs', rfl⟩ := List.exists_cons_of_length_eq_add_one h.symm
    rw [List.length_cons, List.length_cons, Nat.add_right_cancel_iff] at h
    cases cs with
    | nil =>
      rw [List.length_eq_zero_iff.1 h.symm]
      exact .part c c'
    | cons d cs =>
      obtain ⟨d', cs', rfl⟩ := List.exists_cons_of_length_eq_add_one h.symm
      exact (Woven.part c c').append ((Woven.own (own_fixed ", ")).append (ih h))

theorem woven_list {cs cs' : List Code} (h : cs.length = cs'.length) :
    Woven cs cs' (Code.list cs) (Code.list cs') :=
  (woven_commas h).around (own_fixed "vec![") (own_fixed "]")

theorem woven_ifCode (condition : String) (body body' : Code) :
    Woven [body] [body'] (ifCode condition body) (ifCode condition body') := by
  have hcondition : Own (.fixed "if is_truthy(&" :: binding condition) := by
    rw [Own, only_fixed harmless_isOwn, only_binding]
    trivial
  have hbody := (Woven.part body body').behind (own_fixed ") \x7b ")
  exact hbody.around hcondition (own_fixed " \x7d")

theorem woven_elseCode (body body' : Code) :
    Woven [body] [body'] (elseCode body) (elseCode body') :=
  (Woven.part body body').around (own_fixed " else \x7b ") (own_fixed " \x7d")

theorem woven_loopCode (l : LoopExpr) (body body' : Code) :
    Woven [body] [body'] (loopCode l body) (loopCode l body') := by
  have hempty : Own (loopCode l []) := (only_loopCode harmless_isOwn).2 ⟨trivial, only_nil⟩
  have hfront := (only_append.1 (only_append.1 hempty).1).1
  exact ((Woven.part body body').behind (own_fixed "; ")).around hfront (own_fixed " \x7d))")

theorem woven_branchCode {b b' : Option String × Code} (h : b.1 = b'.1) :
    Woven [b.2] [b'.2] (branchCode b) (branchCode b') := by
  obtain ⟨_ | condition, body⟩ := b
  · obtain ⟨_, body'⟩ := b'
    cases h
    exact woven_elseCode body body'
  · obtain ⟨_, body'⟩ := b'
    cases h
    exact woven_ifCode condition body body'

theorem woven_furtherCode {b b' : Option String × Code} (h : b.1 = b'.1) :
    Woven [b.2] [b'.2] (furtherCode b) (furtherCode b') := by
  obtain ⟨_ | condition, body⟩ := b
  · obtain ⟨_, body'⟩ := b'
    cases h
    exact woven_elseCode body body'
  · obtain ⟨_, body'⟩ := b'
    cases h
    exact (woven_ifCode condition body body').behind (own_fixed " else ")

theorem woven_flatMap_furtherCode {bs bs' : List (Option String × Code)}
    (h : bs.map Prod.fst = bs'.map Prod.fst) :
    Woven (bs.map Prod.snd) (bs'.map Prod.snd) (bs.flatMap furtherCode)
      (bs'.flatMap furtherCode) := by
  induction bs generalizing bs' with
  | nil =>
    rw [List.map_eq_nil_iff.1 h.symm]
    exact .own only_nil
  | cons b bs ih =>
    obtain ⟨b', bs', rfl, hguard, hguards⟩ := List.map_eq_cons_iff.1 h.symm
    exact (woven_furtherCode hguard.symm).append (ih hguards.symm)

/-- Choices with the same conditions are made in the same way of their branches. -/
theorem woven_choiceCode {bs bs' : List (Option String × Code)}
    (h : bs.map Prod.fst = bs'.map Prod.fst) :
    Woven (bs.map Prod.snd) (bs'.map Prod.snd) (choiceCode bs) (choiceCode bs') := by
  cases bs with
  | nil =>
    rw [List.map_eq_nil_iff.1 h.symm]
    exact .own only_nil
  | cons b bs =>
    obtain ⟨b', bs', rfl, hguard, hguards⟩ := List.map_eq_cons_iff.1 h.symm
    exact (woven_branchCode hguard.symm).append (woven_flatMap_furtherCode hguards.symm)

/-! ## Codes taken apart -/


/-- Every part becomes what it is without static roots when calls of the bodies are replaced, and
every body that is added is called once. -/
structure Outlines (front codes bodies full : List Code) : Prop where
  expands : List.Forall₂ (Expands (front ++ bodies)) codes full
  calls : (codes.flatMap calls ++ bodies.flatMap calls).Perm
    (List.range' front.length bodies.length)

namespace Outlines

variable {front codes codes' bodies more full full' : List Code} {code code' : Code}

/-- Codes without calls are what they are. -/
theorem own (h : ∀ code ∈ codes, Own code) : Outlines front codes [] codes := by
  refine ⟨List.forall₂_same.2 fun code hcode => expands_of_own (h code hcode), ?_⟩
  have hcalls : codes.flatMap Code.calls = [] :=
    List.flatMap_eq_nil_iff.2 fun code hcode => calls_eq_nil (h code hcode)
  rw [hcalls]
  exact .refl _

theorem append (h : Outlines front codes bodies full)
    (h' : Outlines (front ++ bodies) codes' more full') :
    Outlines front (codes ++ codes') (bodies ++ more) (full ++ full') := by
  obtain ⟨hexpands, hcalls⟩ := h
  obtain ⟨hexpands', hcalls'⟩ := h'
  rw [List.append_assoc] at hexpands'
  refine ⟨List.rel_append (hexpands.imp fun _ _ hcode => ?_) hexpands', ?_⟩
  · rw [← List.append_assoc]
    exact hcode.extend more
  · rw [List.length_append] at hcalls'
    rw [List.flatMap_append, List.flatMap_append, List.length_append, ← List.range'_append_1]
    calc codes.flatMap Code.calls ++ codes'.flatMap Code.calls ++
          (bodies.flatMap Code.calls ++ more.flatMap Code.calls)
      _ = codes.flatMap Code.calls ++ (codes'.flatMap Code.calls ++
          (bodies.flatMap Code.calls ++ more.flatMap Code.calls)) := List.append_assoc _ _ _
      _ ~ codes.flatMap Code.calls ++ (bodies.flatMap Code.calls ++
          (codes'.flatMap Code.calls ++ more.flatMap Code.calls)) :=
        (List.perm_append_comm_assoc _ _ _).append_left _
      _ = codes.flatMap Code.calls ++ bodies.flatMap Code.calls ++
          (codes'.flatMap Code.calls ++ more.flatMap Code.calls) := (List.append_assoc _ _ _).symm
      _ ~ _ := hcalls.append hcalls'

/-- Code that is made of the parts is followed as they are. -/
theorem weave (h : Outlines front codes bodies full) (hwoven : Woven codes full code code') :
    Outlines front [code] bodies [code'] := by
  refine ⟨.cons (hwoven.expands h.expands) .nil, ?_⟩
  rw [List.flatMap_singleton, hwoven.calls_eq]
  exact h.calls

/-- A body that is hoisted is called where it was. -/
theorem hoist (h : Outlines front [code] bodies [code']) :
    Outlines front [[.hoisted (front.length + bodies.length)]] (bodies ++ [code]) [code'] := by
  obtain ⟨hexpands, hcalls⟩ := h
  have hcall : Code.calls [.hoisted (front.length + bodies.length)] =
      [front.length + bodies.length] := rfl
  refine ⟨.cons ?_ .nil, ?_⟩
  · rw [← List.append_assoc, ← List.append_nil code']
    refine .call ?_ ((List.forall₂_cons.1 hexpands).1.extend [code]) .nil
    rw [← List.length_append, List.getElem?_concat_length]
  · rw [List.flatMap_singleton, hcall, List.flatMap_append, List.length_append,
      List.length_singleton, List.range'_1_concat]
    rw [List.flatMap_singleton] at hcalls ⊢
    calc [front.length + bodies.length] ++ (bodies.flatMap Code.calls ++ Code.calls code)
      _ ~ bodies.flatMap Code.calls ++ Code.calls code ++ [front.length + bodies.length] :=
        List.perm_append_comm
      _ ~ Code.calls code ++ bodies.flatMap Code.calls ++ [front.length + bodies.length] :=
        List.perm_append_comm.append_right _
      _ ~ _ := hcalls.append_right _

end Outlines


end ViewTree.Template
