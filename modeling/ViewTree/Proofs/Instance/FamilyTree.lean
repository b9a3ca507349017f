import ViewTree.Proofs.Instance.SettingUp
/-!
# The tree of instances

The links between instances form a forest: a child is younger than its parent, is listed by it once
and in the order of creation until it is torn down, and knows the root of the tree. New instances
are added as leaves (`Forest.grow`), and a subtree is taken off as a whole (`Forest.close`).
-/

namespace ViewTree

namespace Links

/-- Links between instances form a forest, in which every parent and every root is kept under a name
and nothing is partly torn down. -/
structure Forest (L : Links) (H : Uid → Prop) : Prop where
  parent_lt : ∀ u l p, L u = some l → l.parent = some p → p < u
  parent_linked : ∀ u l p, L u = some l → l.parent = some p → ∃ lp, L p = some lp
  parent_named : ∀ u l p, L u = some l → l.parent = some p → H p
  listed : ∀ p l c, L p = some l →
    (c ∈ l.children ↔ ∃ lc, L c = some lc ∧ lc.parent = some p ∧ lc.destroyed = false)
  ordered : ∀ p l, L p = some l → l.children.Pairwise (· < ·)
  root_none : ∀ u l, L u = some l → l.parent = none → l.root = none
  root_some : ∀ u l p lp, L u = some l → l.parent = some p → L p = some lp →
    l.root = some (lp.root.getD p)
  root_named : ∀ u l r, L u = some l → l.root = some r → H r
  settled : ∀ u l, L u = some l → l.beingDestroyed = l.destroyed
  open_above : ∀ u l p lp, L u = some l → l.parent = some p → L p = some lp →
    l.destroyed = false → lp.destroyed = false

variable {L M : Links} {H H' : Uid → Prop}

theorem forest_empty (H : Uid → Prop) : Forest (fun _ => none) H := by
  constructor <;> intros <;> contradiction

/-- Detached instances besides a forest leave it one. -/
theorem Forest.extend (h : L.Forest H) (hH : ∀ u, H u → H' u)
    (hlinked : ∀ u l, L u = some l → M u = some l)
    (hdetached : ∀ u l, L u = none → M u = some l → l = .detached) : M.Forest H' := by
  have hcases (u : Uid) (l : Link) (hl : M u = some l) :
      L u = some l ∨ L u = none ∧ l = .detached := by
    cases hL : L u with
    | some k =>
      rw [hlinked u k hL] at hl
      exact .inl (congrArg some (Option.some.inj hl))
    | none => exact .inr ⟨rfl, hdetached u l hL hl⟩
  have hplaced (u : Uid) (l : Link) (p : Uid) (hl : M u = some l) (hp : l.parent = some p) :
      L u = some l := by
    rcases hcases u l hl with hl | ⟨-, rfl⟩
    · exact hl
    · cases hp
  constructor
  case parent_lt =>
    intro u l p hl hp
    exact h.parent_lt u l p (hplaced u l p hl hp) hp
  case parent_linked =>
    intro u l p hl hp
    obtain ⟨lp, hlp⟩ := h.parent_linked u l p (hplaced u l p hl hp) hp
    exact ⟨lp, hlinked p lp hlp⟩
  case parent_named =>
    intro u l p hl hp
    exact hH p (h.parent_named u l p (hplaced u l p hl hp) hp)
  case listed =>
    intro p l c hl
    rcases hcases p l hl with hl | ⟨hnone, rfl⟩
    · rw [h.listed p l c hl]
      constructor
      · rintro ⟨lc, hlc, hrest⟩
        exact ⟨lc, hlinked c lc hlc, hrest⟩
      · rintro ⟨lc, hlc, hparent, hrest⟩
        exact ⟨lc, hplaced c lc p hlc hparent, hparent, hrest⟩
    · constructor
      · intro hc
        cases hc
      · rintro ⟨lc, hlc, hparent, -⟩
        obtain ⟨lp, hlp⟩ := h.parent_linked c lc p (hplaced c lc p hlc hparent) hparent
        rw [hnone] at hlp
        cases hlp
  case ordered =>
    intro p l hl
    rcases hcases p l hl with hl | ⟨-, rfl⟩
    · exact h.ordered p l hl
    · exact .nil
  case root_none =>
    intro u l hl hp
    rcases hcases u l hl with hl | ⟨-, rfl⟩
    · exact h.root_none u l hl hp
    · rfl
  case root_some =>
    intro u l p lp hl hp hlp
    have hl' := hplaced u l p hl hp
    obtain ⟨k, hk⟩ := h.parent_linked u l p hl' hp
    rw [hlinked p k hk] at hlp
    cases hlp
    exact h.root_some u l p lp hl' hp hk
  case root_named =>
    intro u l r hl hr
    rcases hcases u l hl with hl | ⟨-, rfl⟩
    · exact hH r (h.root_named u l r hl hr)
    · cases hr
  case settled =>
    intro u l hl
    rcases hcases u l hl with hl | ⟨-, rfl⟩
    · exact h.settled u l hl
    · rfl
  case open_above =>
    intro u l p lp hl hp hlp hopen
    have hl' := hplaced u l p hl hp
    obtain ⟨k, hk⟩ := h.parent_linked u l p hl' hp
    rw [hlinked p k hk] at hlp
    cases hlp
    exact h.open_above u l p lp hl' hp hk hopen

/-! ## Growing -/

/-- The link of a new child of an instance. -/
def childLink (p : Uid) (lp : Link) : Link :=
  ⟨some p, some (lp.root.getD p), [], false, false⟩

/-- The link of an instance that lists one more child. -/
def listing (u : Uid) (l : Link) : Link :=
  { l with children := l.children ++ [u] }

/-- The links after an instance has been added, and listed by its parent. -/
def grow (L : Links) (u : Uid) (l : Link) : Links :=
  fun v => if v = u then some l else if l.parent = some v then (L v).map (listing u) else L v

theorem grow_self (L : Links) (u : Uid) (l : Link) : L.grow u l u = some l :=
  if_pos rfl

theorem grow_parent (L : Links) {u p : Uid} {l : Link} (hp : l.parent = some p) (hne : p ≠ u) :
    L.grow u l p = (L p).map (listing u) := by
  rw [grow, if_neg hne, if_pos hp]

theorem grow_other (L : Links) {u v : Uid} {l : Link} (hv : v ≠ u) (hp : l.parent ≠ some v) :
    L.grow u l v = L v := by
  rw [grow, if_neg hv, if_neg hp]

/-- An instance without a parent is listed by none. -/
theorem grow_root (L : Links) (u : Uid) {l : Link} (hp : l.parent = none) :
    L.grow u l = Function.update L u (some l) := by
  funext v
  by_cases hv : v = u
  · subst hv
    rw [grow_self, Function.update_self]
  · rw [Function.update_of_ne hv, grow_other L hv (hp ▸ (Option.some_ne_none v).symm)]

theorem grow_below (L : Links) {u p : Uid} {l lp : Link} (hp : l.parent = some p) (hne : p ≠ u)
    (hlp : L p = some lp) : L.grow u l =
      Function.update (Function.update L u (some l)) p (some (listing u lp)) := by
  funext v
  by_cases hvp : v = p
  · subst hvp
    rw [grow_parent L hp hne, hlp, Function.update_self]
    rfl
  · rw [Function.update_of_ne hvp]
    by_cases hv : v = u
    · subst hv
      rw [grow_self, Function.update_self]
    · have hother : l.parent ≠ some v := fun heq => hvp (Option.some.inj (hp.symm.trans heq)).symm
      rw [Function.update_of_ne hv, grow_other L hv hother]

/-- What becomes of the link of an instance when one is added below `p`. -/
def grown (u p v : Uid) (k : Link) : Link :=
  if v = p then listing u k else k

theorem grown_relatives (u p v : Uid) (k : Link) :
    (grown u p v k).parent = k.parent ∧ (grown u p v k).root = k.root ∧
      (grown u p v k).beingDestroyed = k.beingDestroyed ∧
      (grown u p v k).destroyed = k.destroyed := by
  unfold grown
  split
  · exact ⟨rfl, rfl, rfl, rfl⟩
  · exact ⟨rfl, rfl, rfl, rfl⟩

section

variable {u p v : Uid} {lp : Link}

theorem grow_child (hv : v ≠ u) :
    L.grow u (childLink p lp) v = (L v).map (grown u p v) := by
  unfold grown
  by_cases hvp : v = p
  · subst hvp
    rw [grow_parent L rfl hv]
    simp only [if_pos]
  · rw [grow_other L hv fun heq => hvp (Option.some.inj heq).symm]
    simp only [if_neg hvp, Option.map_id']

/-- Every link is the new one or comes from one before. -/
theorem grow_cases {l : Link} (hl : L.grow u (childLink p lp) v = some l) :
    v = u ∧ l = childLink p lp ∨ ∃ k, L v = some k ∧ l = grown u p v k := by
  by_cases hv : v = u
  · subst hv
    rw [grow_self] at hl
    exact .inl ⟨rfl, (Option.some.inj hl).symm⟩
  · rw [grow_child hv] at hl
    obtain ⟨k, hk, rfl⟩ := Option.map_eq_some_iff.1 hl
    exact .inr ⟨k, hk, rfl⟩

theorem grow_of_some (hnew : ∀ v l, L v = some l → v < u) {k : Link} (hk : L v = some k) :
    L.grow u (childLink p lp) v = some (grown u p v k) := by
  rw [grow_child (Nat.ne_of_lt (hnew v k hk)), hk, Option.map_some]

/-- The children of an instance are those from before, and the new one below its parent. -/
theorem Forest.grow_listed (h : L.Forest H) (hnew : ∀ v l, L v = some l → v < u) {q : Uid}
    {k : Link} (hk : L q = some k) (c : Uid) :
    (∃ lc, L.grow u (childLink p lp) c = some lc ∧ lc.parent = some q ∧ lc.destroyed = false) ↔
      c ∈ (grown u p q k).children := by
  have hchildren : c ∈ (grown u p q k).children ↔ c ∈ k.children ∨ c = u ∧ q = p := by
    unfold grown
    split
    · rename_i hqp
      simp [listing, hqp]
    · rename_i hqp
      simp [hqp]
  rw [hchildren, h.listed q k c hk]
  constructor
  · rintro ⟨lc, hlc, hparent, hopen⟩
    rcases grow_cases hlc with ⟨rfl, rfl⟩ | ⟨kc, hkc, rfl⟩
    · exact .inr ⟨rfl, (Option.some.inj hparent).symm⟩
    · have heq := grown_relatives u p c kc
      exact .inl ⟨kc, hkc, heq.1 ▸ hparent, heq.2.2.2 ▸ hopen⟩
  · rintro (⟨kc, hkc, hparent, hopen⟩ | ⟨rfl, rfl⟩)
    · have heq := grown_relatives u p c kc
      exact ⟨_, grow_of_some hnew hkc, heq.1.trans hparent, heq.2.2.2.trans hopen⟩
    · exact ⟨_, grow_self L c _, rfl, rfl⟩

end

/-- A new child is a leaf of the tree. -/
theorem Forest.grow (h : L.Forest H) {u p : Uid} {lp : Link} (hnew : ∀ v l, L v = some l → v < u)
    (hp : L p = some lp) (hHp : H p) (halive : lp.destroyed = false) :
    (L.grow u (childLink p lp)).Forest H := by
  have hpu : p < u := hnew p lp hp
  have hsame (v : Uid) (k : Link) := grown_relatives u p v k
  have hkept (v : Uid) (k : Link) (hk : L v = some k) :
      L.grow u (childLink p lp) v = some (grown u p v k) := grow_of_some hnew hk
  constructor
  case parent_lt =>
    intro v l q hl hq
    rcases grow_cases hl with ⟨rfl, rfl⟩ | ⟨k, hk, rfl⟩
    · cases hq
      exact hpu
    · exact h.parent_lt v k q hk ((hsame v k).1 ▸ hq)
  case parent_linked =>
    intro v l q hl hq
    rcases grow_cases hl with ⟨rfl, rfl⟩ | ⟨k, hk, rfl⟩
    · cases hq
      exact ⟨_, hkept p lp hp⟩
    · obtain ⟨kq, hkq⟩ := h.parent_linked v k q hk ((hsame v k).1 ▸ hq)
      exact ⟨_, hkept q kq hkq⟩
  case parent_named =>
    intro v l q hl hq
    rcases grow_cases hl with ⟨rfl, rfl⟩ | ⟨k, hk, rfl⟩
    · cases hq
      exact hHp
    · exact h.parent_named v k q hk ((hsame v k).1 ▸ hq)
  case listed =>
    intro q l c hl
    rcases grow_cases hl with ⟨rfl, rfl⟩ | ⟨k, hk, rfl⟩
    · refine ⟨fun hc => absurd hc List.not_mem_nil, ?_⟩
      -- Nothing has the new instance as its parent.
      rintro ⟨lc, hlc, hparent, -⟩
      rcases grow_cases hlc with ⟨rfl, rfl⟩ | ⟨kc, hkc, rfl⟩
      · cases hparent
        exact absurd hpu (Nat.lt_irrefl _)
      · obtain ⟨lq, hlq⟩ := h.parent_linked c kc q hkc ((hsame c kc).1 ▸ hparent)
        exact absurd (hnew q lq hlq) (Nat.lt_irrefl _)
    · exact (h.grow_listed hnew hk c).symm
  case ordered =>
    intro q l hl
    rcases grow_cases hl with ⟨rfl, rfl⟩ | ⟨k, hk, rfl⟩
    · exact .nil
    · have hordered := h.ordered q k hk
      unfold grown
      split
      · refine List.pairwise_append.2 ⟨hordered, List.pairwise_singleton _ _, fun c hc v hv => ?_⟩
        rw [List.mem_singleton.1 hv]
        obtain ⟨lc, hlc, -⟩ := (h.listed q k c hk).1 hc
        exact hnew c lc hlc
      · exact hordered
  case root_none =>
    intro v l hl hq
    rcases grow_cases hl with ⟨rfl, rfl⟩ | ⟨k, hk, rfl⟩
    · cases hq
    · exact (hsame v k).2.1.trans (h.root_none v k hk ((hsame v k).1 ▸ hq))
  case root_some =>
    intro v l q lq hl hq hlq
    rcases grow_cases hl with ⟨rfl, rfl⟩ | ⟨k, hk, rfl⟩
    · cases hq
      rw [hkept p lp hp] at hlq
      rw [← Option.some.inj hlq, (hsame p lp).2.1]
      rfl
    · have hq' := (hsame v k).1 ▸ hq
      obtain ⟨kq, hkq⟩ := h.parent_linked v k q hk hq'
      rw [hkept q kq hkq] at hlq
      rw [← Option.some.inj hlq, (hsame q kq).2.1, (hsame v k).2.1]
      exact h.root_some v k q kq hk hq' hkq
  case root_named =>
    intro v l r hl hr
    rcases grow_cases hl with ⟨rfl, rfl⟩ | ⟨k, hk, rfl⟩
    · have hr' : lp.root.getD p = r := Option.some.inj hr
      cases hroot : lp.root with
      | none =>
        rw [hroot] at hr'
        exact hr' ▸ hHp
      | some r' =>
        rw [hroot] at hr'
        exact hr' ▸ h.root_named p lp r' hp hroot
    · exact h.root_named v k r hk ((hsame v k).2.1 ▸ hr)
  case settled =>
    intro v l hl
    rcases grow_cases hl with ⟨rfl, rfl⟩ | ⟨k, hk, rfl⟩
    · rfl
    · exact (hsame v k).2.2.1.trans ((h.settled v k hk).trans (hsame v k).2.2.2.symm)
  case open_above =>
    intro v l q lq hl hq hlq hopen
    rcases grow_cases hl with ⟨rfl, rfl⟩ | ⟨k, hk, rfl⟩
    · cases hq
      rw [hkept p lp hp] at hlq
      rw [← Option.some.inj hlq, (hsame p lp).2.2.2]
      exact halive
    · have hq' := (hsame v k).1 ▸ hq
      obtain ⟨kq, hkq⟩ := h.parent_linked v k q hk hq'
      rw [hkept q kq hkq] at hlq
      rw [← Option.some.inj hlq, (hsame q kq).2.2.2]
      exact h.open_above v k q kq hk hq' hkq ((hsame v k).2.2.2 ▸ hopen)

/-! ## Subtrees -/

/-- An instance and its descendants. -/
inductive Under (L : Links) (v : Uid) : Uid → Prop
  | self : Under L v v
  | child {u c : Uid} {l : Link} : Under L v u → L u = some l → c ∈ l.children → Under L v c

section

variable {v u c : Uid} {l : Link}

theorem Forest.parent_of_mem (h : L.Forest H) (hl : L u = some l) (hc : c ∈ l.children) :
    ∃ lc, L c = some lc ∧ lc.parent = some u ∧ lc.destroyed = false :=
  (h.listed u l c hl).1 hc

theorem Forest.lt_of_mem (h : L.Forest H) (hl : L u = some l) (hc : c ∈ l.children) : u < c := by
  obtain ⟨lc, hlc, hparent, -⟩ := h.parent_of_mem hl hc
  exact h.parent_lt c lc u hlc hparent

/-- An instance is on the list of one parent only. -/
theorem Forest.parent_unique (h : L.Forest H) {u' : Uid} {l' : Link} (hl : L u = some l)
    (hl' : L u' = some l') (hc : c ∈ l.children) (hc' : c ∈ l'.children) : u = u' := by
  obtain ⟨lc, hlc, hparent, -⟩ := h.parent_of_mem hl hc
  obtain ⟨lc', hlc', hparent', -⟩ := h.parent_of_mem hl' hc'
  rw [hlc] at hlc'
  cases hlc'
  exact Option.some.inj (hparent.symm.trans hparent')

theorem Forest.le_of_under (h : L.Forest H) (hu : L.Under v u) : v ≤ u := by
  induction hu with
  | self => exact Nat.le_refl v
  | child _ hl hc ih => exact Nat.le_trans ih (Nat.le_of_lt (h.lt_of_mem hl hc))

/-- All instances of a subtree whose root is not torn down are there and not torn down. -/
theorem Forest.open_of_under (h : L.Forest H) (hl : L v = some l) (hopen : l.destroyed = false)
    (hu : L.Under v u) : ∃ lu, L u = some lu ∧ lu.destroyed = false := by
  cases hu with
  | self => exact ⟨l, hl, hopen⟩
  | child _ hlu hc =>
    obtain ⟨lc, hlc, -, hopenc⟩ := h.parent_of_mem hlu hc
    exact ⟨lc, hlc, hopenc⟩

/-- A descendant's parent is in the subtree. -/
theorem Forest.under_parent (h : L.Forest H) (hu : L.Under v u) (hne : u ≠ v) (hl : L u = some l)
    {p : Uid} (hp : l.parent = some p) : L.Under v p := by
  cases hu with
  | self => exact absurd rfl hne
  | child hq hlq hc =>
    obtain ⟨lc, hlc, hparent, -⟩ := h.parent_of_mem hlq hc
    rw [hl] at hlc
    cases hlc
    rw [hp] at hparent
    cases hparent
    exact hq

end

/-! ## Taking a subtree off -/

/-- The link of an instance that is torn down. -/
def closed (l : Link) : Link :=
  { l with children := [], beingDestroyed := true, destroyed := true }

/-- The link of an instance that lists one child less. -/
def unlisting (v : Uid) (l : Link) : Link :=
  { l with children := l.children.filter (· != v) }

/-- The links after some instances have been torn down. -/
def close (L : Links) (S : List Uid) : Links :=
  fun u => if u ∈ S then (L u).map closed else L u

/-- The links after an instance has been taken off the list of its parent. -/
def unlist (L : Links) (v : Uid) : Links :=
  fun u => if (L v).bind (·.parent) = some u then (L u).map (unlisting v) else L u

/-- What becomes of the link of an instance when a subtree is torn down. -/
def remainder (S : List Uid) (p : Option Uid) (v u : Uid) (l : Link) : Link :=
  if u ∈ S then closed l else if p = some u then unlisting v l else l

section

variable {S : List Uid} {p : Option Uid} {v : Uid}

theorem remainder_relatives (u : Uid) (l : Link) :
    (remainder S p v u l).parent = l.parent ∧ (remainder S p v u l).root = l.root := by
  unfold remainder
  split
  · exact ⟨rfl, rfl⟩
  · split
    · exact ⟨rfl, rfl⟩
    · exact ⟨rfl, rfl⟩

theorem remainder_open (u : Uid) (l : Link) :
    (remainder S p v u l).destroyed = false ↔ u ∉ S ∧ l.destroyed = false := by
  unfold remainder
  split
  · rename_i hu
    exact ⟨fun hopen => (nomatch hopen), fun hopen => absurd hu hopen.1⟩
  · rename_i hu
    split
    · exact ⟨fun hopen => ⟨hu, hopen⟩, fun hopen => hopen.2⟩
    · exact ⟨fun hopen => ⟨hu, hopen⟩, fun hopen => hopen.2⟩

theorem remainder_settled (u : Uid) {l : Link} (hl : l.beingDestroyed = l.destroyed) :
    (remainder S p v u l).beingDestroyed = (remainder S p v u l).destroyed := by
  unfold remainder
  split
  · rfl
  · split
    · exact hl
    · exact hl

theorem remainder_ordered (u : Uid) {l : Link} (hl : l.children.Pairwise (· < ·)) :
    (remainder S p v u l).children.Pairwise (· < ·) := by
  unfold remainder
  split
  · exact .nil
  · split
    · exact hl.filter _
    · exact hl

end

/-- What is left of the links when a subtree has been taken off. -/
theorem Forest.close_apply (h : L.Forest H) {v : Uid} {lv : Link} (hv : L v = some lv)
    {S : List Uid} (hS : ∀ u, u ∈ S ↔ L.Under v u) (u : Uid) :
    (L.unlist v).close S u = (L u).map (remainder S lv.parent v u) := by
  have hbind : (L v).bind (·.parent) = lv.parent := by
    rw [hv]
    rfl
  unfold Links.close unlist remainder
  rw [hbind]
  by_cases hu : u ∈ S
  · have hne : lv.parent ≠ some u := fun hp =>
      absurd (h.le_of_under ((hS u).1 hu)) (Nat.not_le_of_lt (h.parent_lt v lv u hv hp))
    simp only [if_pos hu, if_neg hne]
  · by_cases hp : lv.parent = some u
    · simp only [if_neg hu, if_pos hp]
    · simp only [if_neg hu, if_neg hp, Option.map_id']

section

variable {v : Uid} {lv : Link} {S : List Uid}

theorem Forest.close_cases (h : L.Forest H) (hv : L v = some lv) (hS : ∀ u, u ∈ S ↔ L.Under v u)
    {u : Uid} {l : Link} (hl : (L.unlist v).close S u = some l) :
    ∃ k, L u = some k ∧ l = remainder S lv.parent v u k := by
  rw [h.close_apply hv hS] at hl
  obtain ⟨k, hk, rfl⟩ := Option.map_eq_some_iff.1 hl
  exact ⟨k, hk, rfl⟩

/-- Of the children of an instance that stays, only the root of the subtree goes. -/
theorem Forest.mem_iff_eq_root (h : L.Forest H) (hS : ∀ u, u ∈ S ↔ L.Under v u) {q c : Uid}
    {k : Link} (hk : L q = some k) (hq : q ∉ S) (hc : c ∈ k.children) : c ∈ S ↔ c = v := by
  constructor
  · intro hcS
    by_contra hne
    obtain ⟨lc, hlc, hparent, -⟩ := h.parent_of_mem hk hc
    exact hq ((hS q).2 (h.under_parent ((hS c).1 hcS) hne hlc hparent))
  · rintro rfl
    exact (hS c).2 .self

/-- The children that are left are those that stay. -/
theorem Forest.mem_remainder_children (h : L.Forest H) (hv : L v = some lv)
    (hS : ∀ u, u ∈ S ↔ L.Under v u) {q : Uid} {k : Link} (hk : L q = some k) (c : Uid) :
    c ∈ (remainder S lv.parent v q k).children ↔ c ∈ k.children ∧ c ∉ S := by
  unfold remainder
  split
  · rename_i hq
    refine ⟨fun hc => absurd hc List.not_mem_nil, fun hc => ?_⟩
    exact absurd ((hS c).2 (.child ((hS q).1 hq) hk hc.1)) hc.2
  · rename_i hq
    split
    · rw [unlisting, List.mem_filter]
      refine and_congr_right fun hc => ?_
      rw [h.mem_iff_eq_root hS hk hq hc, bne_iff_ne]
    · rename_i hp
      refine ⟨fun hc => ⟨hc, fun hcS => hp ?_⟩, fun hc => hc.1⟩
      have hcv := (h.mem_iff_eq_root hS hk hq hc).1 hcS
      obtain ⟨lc, hlc, hparent, -⟩ := h.parent_of_mem hk hc
      rw [hcv, hv] at hlc
      cases hlc
      exact hparent

end

/-- A subtree is taken off as a whole. -/
theorem Forest.close (h : L.Forest H) {v : Uid} {lv : Link} (hv : L v = some lv)
    {S : List Uid} (hS : ∀ u, u ∈ S ↔ L.Under v u) : ((L.unlist v).close S).Forest H := by
  have hcases (u : Uid) (l : Link) (hl : (L.unlist v).close S u = some l) :=
    h.close_cases hv hS hl
  have hkept (u : Uid) (k : Link) (hk : L u = some k) :
      (L.unlist v).close S u = some (remainder S lv.parent v u k) := by
    rw [h.close_apply hv hS, hk, Option.map_some]
  constructor
  case parent_lt =>
    intro u l p hl hp
    obtain ⟨k, hk, rfl⟩ := hcases u l hl
    exact h.parent_lt u k p hk ((remainder_relatives u k).1 ▸ hp)
  case parent_linked =>
    intro u l p hl hp
    obtain ⟨k, hk, rfl⟩ := hcases u l hl
    obtain ⟨kp, hkp⟩ := h.parent_linked u k p hk ((remainder_relatives u k).1 ▸ hp)
    exact ⟨_, hkept p kp hkp⟩
  case parent_named =>
    intro u l p hl hp
    obtain ⟨k, hk, rfl⟩ := hcases u l hl
    exact h.parent_named u k p hk ((remainder_relatives u k).1 ▸ hp)
  case listed =>
    intro q l c hl
    obtain ⟨k, hk, rfl⟩ := hcases q l hl
    rw [h.mem_remainder_children hv hS hk c, h.listed q k c hk]
    constructor
    · rintro ⟨⟨lc, hlc, hparent, hopen⟩, hcS⟩
      exact ⟨_, hkept c lc hlc, (remainder_relatives c lc).1.trans hparent,
        (remainder_open c lc).2 ⟨hcS, hopen⟩⟩
    · rintro ⟨lc, hlc, hparent, hopen⟩
      obtain ⟨kc, hkc, rfl⟩ := hcases c lc hlc
      have hopen' := (remainder_open c kc).1 hopen
      exact ⟨⟨kc, hkc, (remainder_relatives c kc).1 ▸ hparent, hopen'.2⟩, hopen'.1⟩
  case ordered =>
    intro q l hl
    obtain ⟨k, hk, rfl⟩ := hcases q l hl
    exact remainder_ordered q (h.ordered q k hk)
  case root_none =>
    intro u l hl hp
    obtain ⟨k, hk, rfl⟩ := hcases u l hl
    exact (remainder_relatives u k).2.trans
      (h.root_none u k hk ((remainder_relatives u k).1 ▸ hp))
  case root_some =>
    intro u l p lp hl hp hlp
    obtain ⟨k, hk, rfl⟩ := hcases u l hl
    obtain ⟨kp, hkp, rfl⟩ := hcases p lp hlp
    rw [(remainder_relatives u k).2, (remainder_relatives p kp).2]
    exact h.root_some u k p kp hk ((remainder_relatives u k).1 ▸ hp) hkp
  case root_named =>
    intro u l r hl hr
    obtain ⟨k, hk, rfl⟩ := hcases u l hl
    exact h.root_named u k r hk ((remainder_relatives u k).2 ▸ hr)
  case settled =>
    intro u l hl
    obtain ⟨k, hk, rfl⟩ := hcases u l hl
    exact remainder_settled u (h.settled u k hk)
  case open_above =>
    intro u l p lp hl hp hlp hopen
    obtain ⟨k, hk, rfl⟩ := hcases u l hl
    obtain ⟨kp, hkp, rfl⟩ := hcases p lp hlp
    have hparent := (remainder_relatives u k).1 ▸ hp
    have hopen' := (remainder_open u k).1 hopen
    refine (remainder_open p kp).2 ⟨fun hpS => hopen'.1 ?_, ?_⟩
    · -- An instance that is not torn down is on the list of its parent.
      have hu : u ∈ kp.children := (h.listed p kp u hkp).2 ⟨k, hk, hparent, hopen'.2⟩
      exact (hS u).2 (.child ((hS p).1 hpS) hkp hu)
    · exact h.open_above u k p kp hk hparent hkp hopen'.2

end Links

end ViewTree
