import Mathlib.Data.List.DropRight
import ViewTree.Proofs.Template.Siblings
/-!
# Refused branches

A further branch of a condition takes away what stands between it and the last element in front of
it, and only then looks whether that element is a condition (`attach_branch`). A branch that is
refused has taken it away as well: its siblings stay as they were exactly if the last of them is an
element, and nothing but the refusal is reported exactly if only blanks and comments stand behind
the last element (`refused_iff`).
-/

namespace ViewTree.Template

/-- What a further branch reports of a node that stands between it and the last element. -/
def Node.inTheWay? : Node → Option TemplateError
  | .text t => if Text.allBlank t then none else some (.textBetweenBranches (Text.trim t))
  | .interpolation t => if Text.allBlank t then none else some (.textBetweenBranches (Text.trim t))
  | _ => none

/-- The siblings up to the last element. -/
def upToElement (siblings : List Node) : List Node :=
  siblings.rdropWhile (·.element?.isNone)

/-- The siblings behind the last element. -/
def behindElement (siblings : List Node) : List Node :=
  siblings.rtakeWhile (·.element?.isNone)

theorem upToElement_eq_self_iff {siblings : List Node} :
    upToElement siblings = siblings ↔ ∀ n ∈ siblings.getLast?, n.element?.isSome := by
  rw [upToElement, List.rdropWhile_eq_self_iff]
  constructor
  · intro h n hn
    obtain ⟨front, rfl⟩ := List.getLast?_eq_some_iff.1 hn
    simpa [Option.isSome_iff_ne_none] using h (by simp)
  · intro h hne
    have hlast := h _ (List.getLast?_eq_some_getLast hne)
    simpa [Option.isSome_iff_ne_none] using hlast

namespace Builder

theorem between_eq (t : String) (errors : List TemplateError) (kept : List Node) :
    dropToElement.between t (errors, kept) =
      ((Node.text t).inTheWay?.toList ++ errors, kept) := by
  rw [dropToElement.between, Node.inTheWay?]
  split
  · rfl
  · rfl

/-- What goes is reported, latest first. -/
theorem dropToElement_eq (ns : List Node) :
    dropToElement ns =
      ((ns.takeWhile (·.element?.isNone)).filterMap Node.inTheWay?,
        ns.dropWhile (·.element?.isNone)) := by
  have hcons (n : Node) (ns : List Node) :
      (n :: ns).filterMap Node.inTheWay? = n.inTheWay?.toList ++ ns.filterMap Node.inTheWay? := by
    rw [List.filterMap_cons]
    cases n.inTheWay? <;> rfl
  induction ns with
  | nil => rfl
  | cons n ns ih =>
    cases n with
    | element e => rfl
    | comment t => exact ih
    | text t =>
      rw [dropToElement, ih, between_eq]
      exact congrArg (·, _) (hcons (.text t) _).symm
    | interpolation t =>
      rw [dropToElement, ih, between_eq]
      exact congrArg (·, _) (hcons (.interpolation t) _).symm

/-- A branch takes away everything behind the last element. It takes the place of that if it can
join the element, and is left out otherwise. -/
theorem attach_branch (siblings : List Node) {e : Element} (he : e.isBranch) :
    attach siblings e =
      if front siblings = some true then
        ((behindElement siblings).reverse.filterMap Node.inTheWay?,
          upToElement siblings ++ [.element e])
      else
        ((behindElement siblings).reverse.filterMap Node.inTheWay? ++
          [.elseWithoutIf (branchText e) e.tag], upToElement siblings) := by
  have hjoin : canJoin (dropToElement siblings.reverse).2 = (front siblings == some true) := by
    rw [canJoin_dropToElement, Node.elements_reverse, List.head?_reverse, front]
    cases (Node.elements siblings).getLast? with
    | none => rfl
    | some d => simp
  have hdrop : dropToElement siblings.reverse =
      ((behindElement siblings).reverse.filterMap Node.inTheWay?,
        (upToElement siblings).reverse) := by
    rw [dropToElement_eq, behindElement, upToElement, List.rtakeWhile, List.rdropWhile,
      List.reverse_reverse, List.reverse_reverse]
  rw [hdrop] at hjoin
  unfold attach
  rw [if_pos he, hdrop]
  dsimp only
  rw [hjoin, List.reverse_cons, List.reverse_reverse]
  simp only [beq_iff_eq]

theorem inTheWay?_ne_elseWithoutIf (n : Node) (raw tag : String) :
    n.inTheWay? ≠ some (.elseWithoutIf raw tag) := by
  cases n with
  | element e => simp [Node.inTheWay?]
  | comment t => simp [Node.inTheWay?]
  | text t => simp [Node.inTheWay?]
  | interpolation t => simp [Node.inTheWay?]

/-- A branch is refused exactly if the last element in front of it, if there is one, is no
condition. -/
theorem refused_iff_front (siblings : List Node) {e : Element} (he : e.isBranch) :
    (∃ raw tag, .elseWithoutIf raw tag ∈ (attach siblings e).1) ↔ front siblings ≠ some true := by
  rw [attach_branch siblings he]
  split
  · rename_i hfront
    simp [hfront, inTheWay?_ne_elseWithoutIf]
  · rename_i hfront
    refine iff_of_true ⟨branchText e, e.tag, ?_⟩ hfront
    exact List.mem_append_right _ (List.mem_singleton_self _)

/-- A branch that is refused has taken away what is behind the last element. So its siblings stay as
they were exactly if the last of them is an element, and nothing but the refusal is reported exactly
if there are only blanks and comments behind the last element. -/
theorem refused_iff (siblings : List Node) {e : Element} (he : e.isBranch)
    (hrefused : ∃ raw tag, .elseWithoutIf raw tag ∈ (attach siblings e).1) :
    attach siblings e =
        ((behindElement siblings).reverse.filterMap Node.inTheWay? ++
          [.elseWithoutIf (branchText e) e.tag], upToElement siblings) ∧
      ((attach siblings e).2 = siblings ↔ ∀ n ∈ siblings.getLast?, n.element?.isSome) ∧
      ((attach siblings e).1 = [.elseWithoutIf (branchText e) e.tag] ↔
        ∀ n ∈ behindElement siblings, n.inTheWay? = none) := by
  have hattach := attach_branch siblings he
  rw [if_neg ((refused_iff_front siblings he).1 hrefused)] at hattach
  refine ⟨hattach, ?_, ?_⟩
  · rw [hattach]
    exact upToElement_eq_self_iff
  · rw [hattach, List.append_left_eq_self, List.filterMap_eq_nil_iff]
    simp only [List.mem_reverse]

/-- A paragraph that is the alternative to a condition. -/
def alternative : Element :=
  { Element.new "p" with attrs := [Attribute.classify "v-else" "" none] }

/-- Behind a paragraph without a condition it is refused, and what is in front stays. -/
theorem refused_behindElement :
    alternative.isBranch ∧
      (∃ raw tag, .elseWithoutIf raw tag ∈
        (attach [.text "a", .element (Element.new "p")] alternative).1) ∧
      attach [.text "a", .element (Element.new "p")] alternative =
        ([.elseWithoutIf "v-else" "p"], [.text "a", .element (Element.new "p")]) := by
  have he : alternative.isBranch := by decide +kernel
  have herrors : (attach [.text "a", .element (Element.new "p")] alternative).1 =
      [.elseWithoutIf "v-else" "p"] := by
    decide +kernel
  have hrefused : ∃ raw tag, .elseWithoutIf raw tag ∈
      (attach [.text "a", .element (Element.new "p")] alternative).1 :=
    ⟨"v-else", "p", by simp [herrors]⟩
  obtain ⟨-, hkept, -⟩ := refused_iff _ he hrefused
  refine ⟨he, hrefused, Prod.ext herrors (hkept.2 ?_)⟩
  simp [Node.element?]

/-- A text in front of a refused alternative is reported as well, and is gone. -/
theorem refused_not_untouched :
    ¬ ∀ (siblings : List Node) (e : Element), e.isBranch →
      (∃ raw tag, .elseWithoutIf raw tag ∈ (attach siblings e).1) →
      attach siblings e = ([.elseWithoutIf (branchText e) e.tag], siblings) := by
  intro huntouched
  have herrors : (attach [.element (Element.new "p"), .text "a"] alternative).1 =
      [.textBetweenBranches "a", .elseWithoutIf "v-else" "p"] := by
    decide +kernel
  have hattach := huntouched [.element (Element.new "p"), .text "a"] alternative
    (by decide +kernel) ⟨"v-else", "p", by simp [herrors]⟩
  simp [hattach] at herrors

end Builder

end ViewTree.Template
