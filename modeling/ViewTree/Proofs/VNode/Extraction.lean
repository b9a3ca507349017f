import Mathlib.Data.List.Induction
import Mathlib.Data.List.Nodup
import Mathlib.Logic.Function.Basic
import ViewTree.VNode.Element
/-!
# Handing out values to props

The declared props of a component take their values from the data bag one after the other, and what
one takes out of the attributes is gone for those after it. Values are followed by the place that
they stand at: every prop has at most one, and an attribute is the place of at most one prop. So
nothing is lost, and nothing is handed out twice (`extractProps_conserves`).
-/

namespace ViewTree

/-! ## Places -/

/-- Where the value of a declared prop may stand. -/
inductive PropPlace where
  | domProp (key : String)
  | attr (key : String)
deriving DecidableEq

namespace PropPlace

/-- The places for a prop, the preferred ones first. -/
def candidates (name : String) : List PropPlace :=
  [domProp name, domProp (Name.hyphenate name), attr name, attr (Name.hyphenate name)]

/-- An attribute. -/
def isAttr : PropPlace → Bool
  | domProp _ => false
  | attr _ => true

end PropPlace

/-- The value at a place of the bag. -/
def DataBag.at? (bag : DataBag VNode) : PropPlace → Option Value
  | .domProp key => bag.domProps.get? key
  | .attr key => bag.attrs.get? key

/-- The first place for a prop that has a value. -/
def DataBag.firstPlace? (bag : DataBag VNode) (name : String) : Option PropPlace :=
  (PropPlace.candidates name).find? fun place => (bag.at? place).isSome

/-- The bag when the value at a place has been handed out: an attribute is taken out of it. -/
def DataBag.handedOut (bag : DataBag VNode) : Option PropPlace → DataBag VNode
  | some (.attr key) => { bag with attrs := bag.attrs.erase key }
  | some (.domProp _) => bag
  | none => bag

/-- A prop takes the first of its places that has a value. -/
theorem extractProp_eq (bag : DataBag VNode) (name : String) :
    extractProp bag name =
      ((bag.firstPlace? name).bind bag.at?, bag.handedOut (bag.firstPlace? name)) := by
  simp only [extractProp, DataBag.firstPlace?, PropPlace.candidates, List.find?_cons,
    List.find?_nil, DataBag.at?]
  cases hdom : bag.domProps.get? name with
  | some v => simp [hdom, DataBag.at?, DataBag.handedOut]
  | none =>
    cases hdom' : bag.domProps.get? (Name.hyphenate name) with
    | some v => simp [hdom', DataBag.at?, DataBag.handedOut]
    | none =>
      cases hattr : bag.attrs.get? name with
      | some v => simp [hattr, DataBag.at?, DataBag.handedOut]
      | none =>
        cases hattr' : bag.attrs.get? (Name.hyphenate name) with
        | some v => simp [hattr', DataBag.at?, DataBag.handedOut]
        | none => simp [DataBag.handedOut]

/-- Only an attribute is gone when its value has been handed out. -/
theorem at?_handedOut (bag : DataBag VNode) (taken : Option PropPlace) (place : PropPlace) :
    (bag.handedOut taken).at? place =
      if place.isAttr ∧ taken = some place then none else bag.at? place := by
  match taken, place with
  | none, place => simp [DataBag.handedOut]
  | some (.domProp key), .domProp key' => simp [DataBag.handedOut, PropPlace.isAttr]
  | some (.domProp key), .attr key' => simp [DataBag.handedOut]
  | some (.attr key), .domProp key' => simp [DataBag.handedOut, DataBag.at?, PropPlace.isAttr]
  | some (.attr key), .attr key' =>
    simp [DataBag.handedOut, DataBag.at?, Dict.get?_erase, PropPlace.isAttr]

/-- A bag that differs in its attributes alone still does when a value has been handed out. -/
theorem others_handedOut {bag rest : DataBag VNode} (h : rest = { bag with attrs := rest.attrs })
    (taken : Option PropPlace) :
    rest.handedOut taken = { bag with attrs := (rest.handedOut taken).attrs } := by
  match taken with
  | none => exact h
  | some (.domProp key) => exact h
  | some (.attr key) => exact congrArg (fun b => { b with attrs := rest.attrs.erase key }) h

/-- What has been extracted and the rest of the bag, when one more prop has had its turn. -/
def extractNext (acc : Dict Value × DataBag VNode) (name : String) : Dict Value × DataBag VNode :=
  match extractProp acc.2 name with
  | (some v, rest) => (acc.1.insert name v, rest)
  | (none, rest) => (acc.1, rest)

section

variable {props : Dict Value} (rest : DataBag VNode) {name : String}

/-- The prop has the value of its place. -/
theorem get?_extractNext (hnew : props.get? name = none) (n : String) :
    (extractNext (props, rest) name).1.get? n =
      if n = name then (rest.firstPlace? name).bind rest.at? else props.get? n := by
  rw [extractNext, extractProp_eq]
  cases (rest.firstPlace? name).bind rest.at? with
  | none =>
    show props.get? n = if n = name then none else props.get? n
    by_cases hn : n = name
    · rw [if_pos hn, hn, hnew]
    · rw [if_neg hn]
  | some v =>
    show (props.insert name v).get? n = if n = name then some v else props.get? n
    simp only [Dict.get?_insert, eq_comm]

theorem extractNext_rest :
    (extractNext (props, rest) name).2 = rest.handedOut (rest.firstPlace? name) := by
  rw [extractNext, extractProp_eq]
  cases (rest.firstPlace? name).bind rest.at? with
  | none => rfl
  | some v => rfl

end

theorem extractProps_concat (bag : DataBag VNode) (names : List String) (name : String) :
    extractProps bag (names ++ [name]) = extractNext (extractProps bag names) name := by
  unfold extractProps
  rw [List.foldl_append, List.foldl_cons, List.foldl_nil]
  rfl

/-! ## Taking turns -/

/-- The place that each prop takes its value from, if there is one. -/
abbrev PropSources := String → Option PropPlace

namespace PropSources

/-- The place is an attribute that one of the props takes. -/
def Consumes (source : PropSources) (names : List String) (place : PropPlace) : Prop :=
  place.isAttr ∧ ∃ name ∈ names, source name = some place

instance (source : PropSources) (names : List String) (place : PropPlace) :
    Decidable (source.Consumes names place) :=
  inferInstanceAs (Decidable (_ ∧ ∃ name ∈ names, source name = some place))

/-- The first place for the prop that has a value, and is not consumed by one of the props before
it. -/
def firstFree (source : PropSources) (bag : DataBag VNode) (earlier : List String)
    (name : String) : Option PropPlace :=
  (PropPlace.candidates name).find? fun place =>
    (bag.at? place).isSome ∧ ¬ source.Consumes earlier place

section

variable {source source' : PropSources} {names : List String}

theorem consumes_attr_iff {key : String} :
    source.Consumes names (.attr key) ↔ ∃ name ∈ names, source name = some (.attr key) :=
  and_iff_right rfl

theorem consumes_concat {name : String} {place : PropPlace} :
    source.Consumes (names ++ [name]) place ↔
      source.Consumes names place ∨ place.isAttr ∧ source name = some place := by
  simp only [Consumes, List.mem_append, List.mem_singleton, or_and_right, exists_or,
    exists_eq_left, and_or_left]

theorem consumes_congr (h : ∀ name ∈ names, source' name = source name) {place : PropPlace} :
    source'.Consumes names place ↔ source.Consumes names place := by
  refine and_congr_right fun _ => exists_congr fun name => and_congr_right fun hname => ?_
  rw [h name hname]

theorem firstFree_congr (h : ∀ name ∈ names, source' name = source name) (bag : DataBag VNode)
    (name : String) : source'.firstFree bag names name = source.firstFree bag names name := by
  simp only [firstFree, consumes_congr h]

end

end PropSources

/-- The declared props take their values from the bag in turn. -/
structure HandsOut (bag : DataBag VNode) (names : List String) (source : PropSources)
    (props : Dict Value) (rest : DataBag VNode) : Prop where
  /-- A prop takes the first of its places that is free when its turn comes. -/
  inTurn : ∀ earlier name later, names = earlier ++ name :: later →
    source name = source.firstFree bag earlier name
  /-- What is extracted are the values at these places, under declared names. -/
  extracted : ∀ name, props.get? name = if name ∈ names then (source name).bind bag.at? else none
  /-- What is left are the values that no prop has consumed. -/
  left : ∀ place, rest.at? place = if source.Consumes names place then none else bag.at? place
  /-- Nothing but attributes is taken out of the bag. -/
  others : rest = { bag with attrs := rest.attrs }

theorem handsOut_nil (bag : DataBag VNode) : HandsOut bag [] (fun _ => none) [] bag where
  inTurn earlier _ _ hsplit := by
    cases earlier with
    | nil => cases hsplit
    | cons _ _ => cases hsplit
  extracted _ := rfl
  left place := by simp [PropSources.Consumes]
  others := rfl

namespace HandsOut

variable {bag rest : DataBag VNode} {names : List String} {source : PropSources}
  {props : Dict Value}

/-- What has a value in the rest of the bag is free. -/
theorem isSome_iff (h : HandsOut bag names source props rest) {place : PropPlace} :
    (rest.at? place).isSome ↔ (bag.at? place).isSome ∧ ¬ source.Consumes names place := by
  rw [h.left]
  split
  · simp_all
  · simp_all

/-- The next prop takes the first of its places that has a value in the rest of the bag. -/
theorem firstFree_eq (h : HandsOut bag names source props rest) (name : String) :
    source.firstFree bag names name = rest.firstPlace? name := by
  simp only [PropSources.firstFree, ← h.isSome_iff, Bool.decide_eq_true, DataBag.firstPlace?]

/-- What a prop finds in the rest of the bag has been there from the start. -/
theorem at?_firstPlace (h : HandsOut bag names source props rest) (name : String) :
    (rest.firstPlace? name).bind rest.at? = (rest.firstPlace? name).bind bag.at? := by
  cases hplace : rest.firstPlace? name with
  | none => rfl
  | some place =>
    have hsome : (rest.at? place).isSome := (List.find?_eq_some_iff_append.1 hplace).1
    rw [Option.bind_some, Option.bind_some, h.left, if_neg (h.isSome_iff.1 hsome).2]

/-- With the place of one more prop, whose turn comes last, all have had their turns. -/
theorem inTurn_concat (h : HandsOut bag names source props rest) {name : String}
    {source' : PropSources} (hself : source' name = rest.firstPlace? name)
    (hsame : ∀ n ∈ names, source' n = source n) (earlier : List String) (n : String)
    (later : List String) (hsplit : names ++ [name] = earlier ++ n :: later) :
    source' n = source'.firstFree bag earlier n := by
  -- Either it is the last one's turn, or the turn of one of those before, who took theirs already.
  rcases List.eq_nil_or_concat' later with rfl | ⟨later, last, rfl⟩
  · obtain ⟨rfl, hlast⟩ := List.append_inj' hsplit rfl
    cases hlast
    rw [PropSources.firstFree_congr hsame, hself, h.firstFree_eq]
  · rw [← List.cons_append, ← List.append_assoc] at hsplit
    obtain ⟨hnames, -⟩ := List.append_inj' hsplit rfl
    have hmem : n ∈ names := hnames ▸ List.mem_append_right _ List.mem_cons_self
    have hearlier (n : String) (hn : n ∈ earlier) : source' n = source n :=
      hsame n (hnames ▸ List.mem_append_left _ hn)
    rw [hsame n hmem, h.inTurn earlier n later hnames, PropSources.firstFree_congr hearlier]

/-- One more prop takes its turn. -/
theorem concat (h : HandsOut bag names source props rest) {name : String} (hname : name ∉ names) :
    ∃ source', HandsOut bag (names ++ [name]) source'
      (extractNext (props, rest) name).1 (extractNext (props, rest) name).2 := by
  let source' := Function.update source name (rest.firstPlace? name)
  have hself : source' name = rest.firstPlace? name := Function.update_self ..
  have hsame (n : String) (hn : n ∈ names) : source' n = source n :=
    Function.update_of_ne (ne_of_mem_of_not_mem hn hname) ..
  have hnew : props.get? name = none := by rw [h.extracted, if_neg hname]
  refine ⟨source', h.inTurn_concat hself hsame, fun n => ?_, fun place => ?_, ?_⟩
  · rw [get?_extractNext rest hnew]
    by_cases hn : n = name
    · rw [hn, if_pos rfl, if_pos (List.mem_append_right _ List.mem_cons_self), hself,
        h.at?_firstPlace]
    · rw [if_neg hn, h.extracted]
      by_cases hmem : n ∈ names
      · rw [if_pos hmem, if_pos (List.mem_append_left _ hmem), hsame n hmem]
      · rw [if_neg hmem, if_neg (by simp [hmem, hn])]
  · rw [extractNext_rest, at?_handedOut, h.left]
    simp only [PropSources.consumes_concat, PropSources.consumes_congr hsame, hself]
    by_cases htaken : place.isAttr ∧ rest.firstPlace? name = some place
    · rw [if_pos htaken, if_pos (.inr htaken)]
    · simp only [htaken, or_false, if_false]
  · rw [extractNext_rest]
    exact others_handedOut h.others _

theorem mem_candidates (h : HandsOut bag names source props rest) {name : String}
    (hname : name ∈ names) {place : PropPlace} (hsource : source name = some place) :
    place ∈ PropPlace.candidates name := by
  obtain ⟨earlier, later, hsplit⟩ := List.append_of_mem hname
  rw [h.inTurn earlier name later hsplit] at hsource
  exact List.mem_of_find?_eq_some hsource

/-- A prop that comes after another one takes another attribute. -/
theorem not_mem_earlier (h : HandsOut bag names source props rest) {key name : String}
    (hsource : source name = some (.attr key)) {earlier later : List String}
    (hsplit : names = earlier ++ name :: later) {name' : String}
    (hsource' : source name' = some (.attr key)) : name' ∉ earlier := by
  intro hmem
  rw [h.inTurn earlier name later hsplit] at hsource
  have hfree := (List.find?_eq_some_iff_append.1 hsource).1
  simp only [decide_eq_true_eq] at hfree
  exact hfree.2 (PropSources.consumes_attr_iff.2 ⟨name', hmem, hsource'⟩)

/-- An attribute is the source of one prop at most. -/
theorem attr_unique (h : HandsOut bag names source props rest) {key name name' : String}
    (hname : name ∈ names) (hname' : name' ∈ names) (hsource : source name = some (.attr key))
    (hsource' : source name' = some (.attr key)) : name' = name := by
  obtain ⟨earlier, later, hsplit⟩ := List.append_of_mem hname
  -- Whichever of two props comes later finds the attribute consumed.
  rw [hsplit, List.mem_append, List.mem_cons] at hname'
  rcases hname' with hmem | heq | hmem
  · exact absurd hmem (h.not_mem_earlier hsource hsplit hsource')
  · exact heq
  · obtain ⟨between, later, rfl⟩ := List.append_of_mem hmem
    rw [← List.cons_append, ← List.append_assoc] at hsplit
    refine absurd ?_ (h.not_mem_earlier hsource' hsplit hsource)
    exact List.mem_append_right _ List.mem_cons_self

/-- A prop with a DOM property takes that. -/
theorem source_domProp (h : HandsOut bag names source props rest) {name : String}
    (hname : name ∈ names)
    (hdom : (bag.domProps.get? name).isSome ∨
      (bag.domProps.get? (Name.hyphenate name)).isSome) :
    ∃ key, source name = some (.domProp key) := by
  obtain ⟨earlier, later, hsplit⟩ := List.append_of_mem hname
  rw [h.inTurn earlier name later hsplit]
  -- A DOM property is never consumed, so it is free whoever comes first.
  have hfree (key : String) : ¬ source.Consumes earlier (.domProp key) :=
    fun hconsumed => Bool.false_ne_true hconsumed.1
  unfold PropSources.firstFree PropPlace.candidates
  rw [List.find?_cons, List.find?_cons]
  by_cases hfirst : (bag.domProps.get? name).isSome
  · exact ⟨name, by simp [DataBag.at?, hfirst, hfree]⟩
  · have hsecond := hdom.resolve_left hfirst
    exact ⟨Name.hyphenate name, by simp [DataBag.at?, hfirst, hsecond, hfree]⟩

end HandsOut

/-- The declared props take their values in turn. -/
theorem exists_handsOut (bag : DataBag VNode) {names : List String} (hnames : names.Nodup) :
    ∃ source, HandsOut bag names source (extractProps bag names).1 (extractProps bag names).2 := by
  induction names using List.reverseRecOn with
  | nil => exact ⟨_, handsOut_nil bag⟩
  | append_singleton names name ih =>
    obtain ⟨hfront, -, hapart⟩ := List.nodup_append.1 hnames
    have hname : name ∉ names := fun hmem => hapart name hmem name List.mem_cons_self rfl
    obtain ⟨source, h⟩ := ih hfront
    obtain ⟨source', h'⟩ := h.concat hname
    refine ⟨source', ?_⟩
    rw [extractProps_concat]
    exact h'

/-- Extraction conserves the data bag. Every prop takes its value from one place at most, the first
that is free when its turn comes, and nothing but attributes that are such a place is taken out of
the bag. An attribute stays, or it is the place of exactly one declared prop, which has its value;
and a prop with a DOM property has no attribute for its place. -/
theorem extractProps_conserves {bag rest : DataBag VNode} {names : List String}
    (hnames : names.Nodup) {props : Dict Value} (hrun : extractProps bag names = (props, rest)) :
    ∃ source : PropSources, HandsOut bag names source props rest ∧
      (∀ key v, bag.attrs.get? key = some v →
        (rest.attrs.get? key = some v ∧ ∀ name ∈ names, source name ≠ some (.attr key)) ∨
          (rest.attrs.get? key = none ∧ ∃ name ∈ names, (name = key ∨ Name.hyphenate name = key) ∧
            props.get? name = some v ∧
            ∀ other ∈ names, source other = some (.attr key) ↔ other = name)) ∧
      ∀ name ∈ names,
        (bag.domProps.get? name).isSome ∨ (bag.domProps.get? (Name.hyphenate name)).isSome →
          ∀ key, source name ≠ some (.attr key) := by
  obtain ⟨source, h⟩ := exists_handsOut bag hnames
  rw [hrun] at h
  refine ⟨source, h, fun key v hv => ?_, fun name hname hdom key hsource => ?_⟩
  · have hleft : rest.attrs.get? key = if source.Consumes names (.attr key) then none else some v :=
      hv ▸ h.left (.attr key)
    by_cases hconsumed : source.Consumes names (.attr key)
    · obtain ⟨name, hname, hsource⟩ := PropSources.consumes_attr_iff.1 hconsumed
      rw [if_pos hconsumed] at hleft
      refine .inr ⟨hleft, name, hname, ?_, ?_, fun other hother => ?_⟩
      · have hspelled := h.mem_candidates hname hsource
        simpa [PropPlace.candidates, eq_comm] using hspelled
      · rw [h.extracted, if_pos hname, hsource]
        exact hv
      · refine ⟨h.attr_unique hname hother hsource, ?_⟩
        rintro rfl
        exact hsource
    · rw [if_neg hconsumed] at hleft
      refine .inl ⟨hleft, fun name hname hsource => hconsumed ?_⟩
      exact PropSources.consumes_attr_iff.2 ⟨name, hname, hsource⟩
  · obtain ⟨key', hdomProp⟩ := h.source_domProp hname hdom
    cases hdomProp.symm.trans hsource

/-- Two spellings of one attribute, a DOM property and an attribute that nobody declares. -/
def contested : DataBag VNode :=
  { DataBag.empty with
    attrs := [("title", .string "x"), ("user-name", .string "ada")]
    domProps := [("count", .nat 3)] }

/-- The first prop takes the attribute, and the second one goes away empty-handed. -/
theorem extractProps_conserves_contested :
    ["userName", "user-name", "count"].Nodup ∧
      extractProps contested ["userName", "user-name", "count"] =
        ([("count", .nat 3), ("userName", .string "ada")],
          { contested with attrs := [("title", .string "x")] }) ∧
      ∃ source : PropSources,
        source "userName" = some (.attr "user-name") ∧ source "user-name" = none ∧
          source "count" = some (.domProp "count") := by
  have hnames : ["userName", "user-name", "count"].Nodup := by decide
  have hrun : extractProps contested ["userName", "user-name", "count"] =
      ([("count", .nat 3), ("userName", .string "ada")],
        { contested with attrs := [("title", .string "x")] }) :=
    rfl
  obtain ⟨source, h, -⟩ := extractProps_conserves hnames hrun
  have hdashes : Name.hyphenate "userName" = "user-name" := by decide +kernel
  have hdashes' : Name.hyphenate "user-name" = "user-name" := by decide +kernel
  have hfirst : source "userName" = some (.attr "user-name") := by
    rw [h.inTurn [] "userName" _ rfl]
    simp [PropSources.firstFree, PropSources.Consumes, PropPlace.candidates, hdashes, DataBag.at?,
      contested, Dict.get?]
  refine ⟨hnames, hrun, source, hfirst, ?_, ?_⟩
  · rw [h.inTurn ["userName"] "user-name" _ rfl]
    simp [PropSources.firstFree, PropSources.Consumes, PropPlace.candidates, hdashes', DataBag.at?,
      contested, Dict.get?, hfirst, PropPlace.isAttr]
  · rw [h.inTurn ["userName", "user-name"] "count" _ rfl]
    simp [PropSources.firstFree, PropSources.Consumes, PropPlace.candidates, DataBag.at?,
      contested, Dict.get?, PropPlace.isAttr]

end ViewTree
